import BoatRamp.Http.Numerals
import BoatRamp.Http1.Lines

/-!
# Encoded messages parse

An encoded head is parsed to its fields unless it is too large, and encoded
chunks are decoded to their payload.
-/

namespace BoatRamp.Http1

open Http HeaderName Gathered Nat
open List hiding splitOn

variable (field : HeaderName × HeaderValue)

theorem fieldLine_unbroken : CR ∉ fieldLine field ∧ LF ∉ fieldLine field := by
  obtain ⟨name, v⟩ := field
  have hn := not_mem_of_all (all_isTchar name)
  have hv := not_mem_of_all v.printable
  simp only [fieldLine, mem_append, not_or]
  refine ⟨⟨⟨hn CR (by decide), by decide⟩, hv CR (by decide)⟩,
    ⟨⟨hn LF (by decide), by decide⟩, hv LF (by decide)⟩⟩

theorem splitHeader_fieldLine (name : HeaderName) (v : HeaderValue) :
    splitHeader (fieldLine (name, v)) = .ok (name.bytes, v.trimmed.bytes) := by
  have hp : ∀ b ∈ name.bytes, decide (b ≠ 0x3A) = true := by
    intro b hi
    refine decide_eq_true fun hsa => ?_
    exact not_mem_of_all (all_isTchar name) 0x3A (by decide) (hsa ▸ hi)
  have hs : fieldLine (name, v) = name.bytes ++ 0x3A :: (SP :: v.bytes) := by
    simp [fieldLine, show ascii ": " = [0x3A, SP] by decide]
  unfold splitHeader
  rw [hs, dropWhile_append_of_pos hp, takeWhile_append_of_pos hp]
  have hpr := v.trimmed.printable
  simp only [HeaderValue.trimmed] at hpr
  simp [trimOws_cons_blank, name.token.1, all_isTchar, hpr, HeaderValue.trimmed]

theorem fieldLine_ne_nil : fieldLine field ≠ [] := by
  simp [fieldLine, field.1.token.1]

theorem fieldLine_not_folded : isFolded (fieldLine field) = false := by
  obtain ⟨name, v⟩ := field
  have hn := all_isTchar name
  cases hl : name.bytes with
  | nil => exact absurd hl name.token.1
  | cons x rest =>
    rw [hl] at hn
    have ht : isTchar x = true := (Bool.and_eq_true_iff.mp hn).1
    have hb : isOws x = false := by
      by_contra hi
      simp only [isOws, Bool.not_eq_false, Bool.or_eq_true, decide_eq_true_eq] at hi
      rcases hi with rfl | rfl <;> exact absurd ht (by decide)
    simp [isFolded, fieldLine, hl, hb]

def Gathered.add (gathered : Gathered) (field : HeaderName × HeaderValue) : Gathered :=
  let value := field.2.trimmed
  let framed :=
    if field.1 = .CONTENT_LENGTH then
      { gathered with clTokens := gathered.clTokens ++ (splitOn 0x2C value.bytes).map trimOws }
    else if field.1 = .TRANSFER_ENCODING then
      { gathered with teValues := gathered.teValues ++ [value.bytes] }
    else if field.1 = .HOST then
      { gathered with
        hostCount := gathered.hostCount + 1, hostEmpty := decide (trimOws value.bytes = []) }
    else gathered
  { framed with headers := framed.headers.append field.1 value }

theorem read_fieldLine (ga : Gathered) {field : HeaderName × HeaderValue}
    (hs : field.1.bytes.length ≤ MAX_HEADER_NAME_LEN) :
    ga.read (fieldLine field) = .ok (ga.add field) := by
  obtain ⟨name, v⟩ := field
  unfold Gathered.read Gathered.add
  simp only [fieldLine_not_folded, splitHeader_fieldLine, map_toLowercase,
    fromBytes_bytes hs, HeaderValue.fromBytes_bytes, bind, Except.bind, pure,
    Except.pure, Bool.false_eq_true, if_false, ← bytes_inj]
  rfl

def fieldLines (headers : HeaderMap) : Octets :=
  headers.flatMap fun field => fieldLine field ++ CRLF

theorem fieldLines_cons (h : HeaderMap) (rest : Octets) : fieldLines (field :: h) ++ CRLF ++ rest =
      fieldLine field ++ CRLF ++ (fieldLines h ++ CRLF ++ rest) := by
  simp [fieldLines]

theorem length_fieldLines_cons (h : HeaderMap) : (fieldLines (field :: h)).length =
      (fieldLine field).length + 2 + (fieldLines h).length := by
  simp [fieldLines, CRLF]
  omega

theorem length_name_le : field.1.bytes.length ≤ (fieldLine field).length := by
  simp [fieldLine]

theorem nextLine_crlf (rest : Octets) : nextLine (CRLF ++ rest) = .ok (some ([], rest)) := by
  have hp := @nextLine_append [] (by simp) rest
  simpa using hp

section Loop

variable {Gathering : Type} {read : Gathering → Octets → Option Gathering}
  {add : Gathering → HeaderName × HeaderValue → Gathering}

theorem readLines_fieldLines (hr : ∀ ga field, field.1.bytes.length ≤ MAX_HEADER_NAME_LEN →
      read ga (fieldLine field) = some (add ga field))
    (t : Nat) (rest : Octets) {h : HeaderMap} {fuel pos : Nat} (ga : Gathering)
    (he : h.length < fuel) (hs : pos + (fieldLines h).length < MAX_HEAD) :
    readLines read t fuel pos (fieldLines h ++ CRLF ++ rest) ga =
      some (some (h.foldl add ga, pos + (fieldLines h).length + 2)) := by
  induction h generalizing fuel pos ga with
  | nil =>
    obtain ⟨fuel, rfl⟩ := exists_eq_succ_of_ne_zero (ne_of_gt he)
    have hi : ¬(MAX_HEAD < t ∧ MAX_HEAD ≤ pos) := by omega
    simp [readLines, fieldLines, hi, nextLine_crlf]
  | cons field h ih =>
    obtain ⟨fuel, rfl⟩ := exists_eq_succ_of_ne_zero (ne_of_gt (zero_lt_of_lt he))
    have hl := length_fieldLines_cons field h
    have hn := length_name_le field
    have hi : ¬(MAX_HEAD < t ∧ MAX_HEAD ≤ pos) := by omega
    have hsh : field.1.bytes.length ≤ MAX_HEADER_NAME_LEN := by
      unfold MAX_HEAD at hs
      unfold MAX_HEADER_NAME_LEN
      omega
    rw [readLines, if_neg hi, fieldLines_cons,
      nextLine_append (fieldLine_unbroken field)]
    simp only [fieldLine_ne_nil, if_false, hr ga field hsh, foldl_cons]
    rw [ih (add ga field) (by simpa using he) (by omega), hl]
    congr 3
    omega

theorem readLines_too_large {t : Nat} (hlo : MAX_HEAD < t) (rest : Octets)
    {h : HeaderMap} {fuel pos : Nat} (ga : Gathering) (he : h.length < fuel)
    (hl : MAX_HEAD ≤ pos + (fieldLines h).length) :
    readLines read t fuel pos (fieldLines h ++ CRLF ++ rest) ga = none := by
  induction h generalizing fuel pos ga with
  | nil => exact readLines_beyond hlo hl he
  | cons field h ih =>
    obtain ⟨fuel, rfl⟩ := exists_eq_succ_of_ne_zero (ne_of_gt (zero_lt_of_lt he))
    have hle := length_fieldLines_cons field h
    rw [readLines, fieldLines_cons, nextLine_append (fieldLine_unbroken field)]
    split
    · rfl
    simp only [fieldLine_ne_nil, if_false]
    cases read ga (fieldLine field) with
    | none => rfl
    | some ga => exact ih ga (by simpa using he) (by omega)

end Loop

theorem parseFields_fieldLines (t : Nat) (rest : Octets) {h : HeaderMap} {fuel pos : Nat}
    (ga : Gathered) (he : h.length < fuel) (hs : pos + (fieldLines h).length < MAX_HEAD) :
    parseFields t fuel pos (fieldLines h ++ CRLF ++ rest) ga =
      .ok (some (h.foldl add ga, pos + (fieldLines h).length + 2)) := by
  have ho := toOption_parseFields t fuel pos (fieldLines h ++ CRLF ++ rest) ga
  have hr : ∀ (ga : Gathered) (field : HeaderName × HeaderValue),
      field.1.bytes.length ≤ MAX_HEADER_NAME_LEN →
      (ga.read (fieldLine field)).toOption = some (ga.add field) := by
    intro ga field hsh
    rw [read_fieldLine ga hsh]
    rfl
  rw [readLines_fieldLines hr t rest ga he hs] at ho
  cases hp : parseFields t fuel pos (fieldLines h ++ CRLF ++ rest) ga with
  | error rsn =>
    rw [hp] at ho
    cases ho
  | ok read =>
    rw [hp] at ho
    cases ho
    rfl

theorem parseFields_too_large {t : Nat} (hlo : MAX_HEAD < t) (rest : Octets) {h : HeaderMap}
    {fuel pos : Nat} (ga : Gathered) (he : h.length < fuel)
    (hl : MAX_HEAD ≤ pos + (fieldLines h).length) :
    ∃ rsn, parseFields t fuel pos (fieldLines h ++ CRLF ++ rest) ga = .error rsn := by
  have ho := toOption_parseFields t fuel pos (fieldLines h ++ CRLF ++ rest) ga
  rw [readLines_too_large hlo rest ga he hl] at ho
  cases hp : parseFields t fuel pos (fieldLines h ++ CRLF ++ rest) ga with
  | error rsn => exact ⟨rsn, rfl⟩
  | ok read =>
    rw [hp] at ho
    cases ho

theorem splitOn_of_not_mem {sep : UInt8} {pc : Octets} (hf : sep ∉ pc) : splitOn sep pc = [pc] := by
  induction pc with
  | nil => rfl
  | cons b rest ih =>
    rw [mem_cons, not_or] at hf
    rw [splitOn, ih hf.2]
    simp [Ne.symm hf.1]

theorem splitOn_ne_nil (sep : UInt8) (bs : Octets) : splitOn sep bs ≠ [] := by
  cases bs with
  | nil => simp [splitOn]
  | cons b rest =>
    rw [splitOn]
    split
    · simp
    · split <;> simp

theorem splitOn_append {sep : UInt8} {pc : Octets} (hf : sep ∉ pc) (rest : Octets) :
    splitOn sep (pc ++ sep :: rest) = pc :: splitOn sep rest := by
  induction pc with
  | nil =>
    rw [nil_append, splitOn]
    split
    next none => exact absurd none (splitOn_ne_nil sep rest)
    next first others p => rw [if_pos rfl, p]
  | cons b pc ih =>
    rw [mem_cons, not_or] at hf
    rw [cons_append, splitOn, ih hf.2]
    simp [Ne.symm hf.1]

/-- A path of an upstream: it starts with a slash and holds nothing that ends it. -/
structure OriginForm (acceptsUri : Octets → Bool) where
  bytes : Octets
  origin : bytes.head? = some 0x2F
  clean : bytes.all (fun byte => 0x20 < byte && byte ≠ 0x7F && byte ≠ 0x23) = true
  accepted : acceptsUri bytes = true

variable {au : Octets → Bool} (mt : Method) (tgt : OriginForm au)

theorem parseTarget_originForm : parseTarget au mt tgt.bytes =
      if mt = .CONNECT then .error .badRequestLine else .ok tgt.bytes := by
  have hs : tgt.bytes ≠ [] := by
    intro hn
    exact absurd tgt.origin (by simp [hn])
  have hcl : tgt.bytes.any (fun b => b ≤ 0x20 || b = 0x7F || b = 0x23) = false := by
    have hle := tgt.clean
    rw [all_eq_true] at hle
    rw [any_eq_false]
    intro b hi
    have hl := hle b hi
    simp only [Bool.and_eq_true, decide_eq_true_eq] at hl
    simp only [Bool.or_eq_true, decide_eq_true_eq, not_or]
    exact ⟨⟨by simpa using hl.1.1, hl.1.2⟩, hl.2⟩
  unfold parseTarget
  simp only [hs, hcl, tgt.origin, tgt.accepted]
  by_cases hc : mt = .CONNECT
  · have hd : ¬(Method.CONNECT = Method.OPTIONS) := by decide
    simp [hc, hd]
  by_cases ho : mt = .OPTIONS
  · simp [ho, show ¬(Method.OPTIONS = Method.CONNECT) by decide]
  · simp [hc, ho]

theorem requestLine_unbroken : CR ∉ requestLine mt tgt.bytes ∧ LF ∉ requestLine mt tgt.bytes := by
  have hn := not_mem_of_all mt.token.2
  have ha := not_mem_of_all tgt.clean
  simp only [requestLine, mem_append, not_or]
  refine ⟨⟨⟨⟨⟨hn CR (by decide), by decide⟩, ha CR (by decide)⟩, by decide⟩, by decide⟩,
    ⟨⟨⟨⟨hn LF (by decide), by decide⟩, ha LF (by decide)⟩, by decide⟩, by decide⟩⟩

theorem parseRequestLine_requestLine : parseRequestLine au (requestLine mt tgt.bytes) =
      if mt = .CONNECT then .error .badRequestLine
      else .ok (mt, tgt.bytes, .http11) := by
  have hn := not_mem_of_all mt.token.2 SP (by decide)
  have ha := not_mem_of_all tgt.clean SP (by decide)
  have hp : splitOn SP (requestLine mt tgt.bytes) = [mt.bytes, tgt.bytes, ascii "HTTP/1.1"] := by
    have hs : requestLine mt tgt.bytes =
        mt.bytes ++ SP :: (tgt.bytes ++ SP :: ascii "HTTP/1.1") := by
      simp [requestLine]
    rw [hs, splitOn_append hn, splitOn_append ha,
      splitOn_of_not_mem (by decide : SP ∉ ascii "HTTP/1.1")]
  have hb : Method.fromBytes mt.bytes = some mt := by
    simp [Method.fromBytes, mt.token]
  unfold parseRequestLine
  simp only [hp, hb, parseTarget_originForm]
  split <;> rfl

section Heads

variable (m : Method) (tg : OriginForm au) (hdrs : HeaderMap) (rest : Octets)

theorem encodeRequestHead_append : encodeRequestHead m tg.bytes hdrs ++ rest =
      requestLine m tg.bytes ++ CRLF ++ (fieldLines hdrs ++ CRLF ++ rest) := by
  simp [encodeRequestHead, fieldLines]

theorem length_encodeRequestHead : (encodeRequestHead m tg.bytes hdrs).length =
      (requestLine m tg.bytes).length + 2 + (fieldLines hdrs).length + 2 := by
  simp [encodeRequestHead, fieldLines, CRLF]
  omega

theorem requestLine_ne_nil : requestLine m tg.bytes ≠ [] := by
  simp [requestLine, m.token.1]

theorem length_le_fieldLines : hdrs.length ≤ (fieldLines hdrs).length := by
  induction hdrs with
  | nil => exact zero_le _
  | cons field hdrs ih =>
    rw [length_fieldLines_cons, length_cons]
    omega

theorem parseHeadInner_encoded : parseHeadInner au (encodeRequestHead m tg.bytes hdrs ++ rest) =
      parseHeadFrom au (encodeRequestHead m tg.bytes hdrs ++ rest).length 0
        (encodeRequestHead m tg.bytes hdrs ++ rest) := by
  unfold parseHeadInner
  have hf : nextLine (encodeRequestHead m tg.bytes hdrs ++ rest) =
      .ok (some (requestLine m tg.bytes, fieldLines hdrs ++ CRLF ++ rest)) := by
    rw [encodeRequestHead_append]
    exact nextLine_append (requestLine_unbroken m tg) _
  rw [hf]
  cases hl : requestLine m tg.bytes with
  | nil => exact absurd hl (requestLine_ne_nil m tg)
  | cons b bs => rfl

theorem parseHeadInner_of_small (hc : m ≠ .CONNECT)
    (hs : (encodeRequestHead m tg.bytes hdrs).length < MAX_HEAD + 2) :
    parseHeadInner au (encodeRequestHead m tg.bytes hdrs ++ rest) =
      let ga := hdrs.foldl add {}
      if !hostCoherent .http11 ga then .error .badHeader
      else (resolveFraming ga.clTokens ga.teValues true).map (fun f =>
        some (⟨m, tg.bytes, .http11, ga.headers, f⟩,
          (encodeRequestHead m tg.bytes hdrs).length)) := by
  have hl := length_encodeRequestHead m tg hdrs
  have hli := length_le_fieldLines hdrs
  rw [parseHeadInner_encoded, parseHeadFrom]
  generalize (encodeRequestHead m tg.bytes hdrs ++ rest).length = total
  rw [encodeRequestHead_append, nextLine_append (requestLine_unbroken m tg)]
  simp only [parseRequestLine_requestLine, if_neg hc, bind, Except.bind]
  rw [parseFields_fieldLines total rest {} (by simp; omega) (by omega)]
  dsimp only
  split
  · rfl
  rw [show 0 + (requestLine m tg.bytes).length + 2 + (fieldLines hdrs).length + 2 =
    (encodeRequestHead m tg.bytes hdrs).length by omega, decide_true]
  cases resolveFraming _ _ _ with
  | error rsn => rfl
  | ok f => rfl

theorem parseHeadInner_refused
    (hr : m = .CONNECT ∨ MAX_HEAD + 2 ≤ (encodeRequestHead m tg.bytes hdrs).length) :
    ∃ rsn, parseHeadInner au (encodeRequestHead m tg.bytes hdrs ++ rest) = .error rsn := by
  have hl := length_encodeRequestHead m tg hdrs
  have hli := length_le_fieldLines hdrs
  have hco : (encodeRequestHead m tg.bytes hdrs).length ≤
      (encodeRequestHead m tg.bytes hdrs ++ rest).length := by simp
  rw [parseHeadInner_encoded, parseHeadFrom]
  generalize (encodeRequestHead m tg.bytes hdrs ++ rest).length = total at hco ⊢
  rw [encodeRequestHead_append, nextLine_append (requestLine_unbroken m tg)]
  simp only [parseRequestLine_requestLine, bind, Except.bind]
  by_cases hc : m = .CONNECT
  · exact ⟨_, by rw [if_pos hc]⟩
  have hla := hr.resolve_left hc
  obtain ⟨rsn, hf⟩ := parseFields_too_large (show MAX_HEAD < total by omega) rest {}
    (show hdrs.length < (fieldLines hdrs ++ CRLF ++ rest).length + 1 by simp; omega)
    (show MAX_HEAD ≤ 0 + (requestLine m tg.bytes).length + 2 + (fieldLines hdrs).length by omega)
  exact ⟨rsn, by rw [if_neg hc, hf]⟩

theorem parseRequestHead_encoded (hco : m ≠ .CONNECT)
    (hs : (encodeRequestHead m tg.bytes hdrs).length < MAX_HEAD + 2)
    (hc : hostCoherent .http11 (hdrs.foldl add {}) = true) {f : BodyFraming}
    (hr : resolveFraming (hdrs.foldl add {}).clTokens (hdrs.foldl add {}).teValues true = .ok f) :
    parseRequestHead au (encodeRequestHead m tg.bytes hdrs ++ rest) =
      .complete ⟨m, tg.bytes, .http11, (hdrs.foldl add {}).headers, f⟩
        (encodeRequestHead m tg.bytes hdrs).length := by
  have hp := parseHeadInner_of_small m tg hdrs rest hco hs
  dsimp only at hp
  rw [hc, hr] at hp
  rw [parseRequestHead, hp]
  rfl

theorem parseRequestHead_refused
    (hr : m = .CONNECT ∨ MAX_HEAD + 2 ≤ (encodeRequestHead m tg.bytes hdrs).length)
    (head : RequestHead) (c : Nat) :
    parseRequestHead au (encodeRequestHead m tg.bytes hdrs ++ rest) ≠ .complete head c := by
  obtain ⟨rsn, hf⟩ := parseHeadInner_refused m tg hdrs rest hr
  rw [parseRequestHead, hf]
  simp

end Heads

namespace Chunked

theorem hexValue_hexadecimal (n : Nat) : hexValue (hexadecimal n) = n := by
  have hr : ∀ d < 16, hexDigitValue (digitByte d) = d := by decide
  unfold hexValue hexadecimal
  rw [foldl_map_digitByte 16 hexDigitValue]
  · exact valueOf_digitsOf (by decide) n
  · intro d hw
    exact hr d (digitsOf_lt (by decide) n d hw)

theorem sizeOfLine_hexadecimal {n : Nat} (hs : n < 2 ^ 64) :
    sizeOfLine (hexadecimal n) = .ok n := by
  have hl : (hexadecimal n).length ≤ 16 :=
    length_hexadecimal (by decide) (by simpa using hs)
  have d : (hexadecimal n).all isHexDigit = true := all_hexadecimal (by decide) n
  have hu : (hexadecimal n).takeWhile (fun b => b ≠ 0x3B) =
      hexadecimal n := by
    apply takeWhile_eq_self_iff.mpr
    have all : (hexadecimal n).all (fun b => b ≠ 0x3B) = true :=
      all_hexadecimal (by decide) n
    exact all_eq_true.mp all
  have hun : trimOws (hexadecimal n) = hexadecimal n :=
    trimOws_eq_self (all_hexadecimal (by decide) n)
  unfold sizeOfLine parseChunkSize
  rw [if_neg (by unfold MAX_CHUNK_SIZE_LINE; omega), hu, hun]
  simp [hexadecimal_ne_nil, d, hexValue_hexadecimal]
  omega

theorem hexadecimal_unbroken (n : Nat) : CR ∉ hexadecimal n ∧ LF ∉ hexadecimal n := by
  have hd : (hexadecimal n).all isHexDigit = true := all_hexadecimal (by decide) n
  exact ⟨not_mem_of_all hd CR (by decide), not_mem_of_all hd LF (by decide)⟩

theorem chunkAt_encode {pos : Nat} {d : Octets} (hso : d ≠ []) (rest : Octets)
    (hsm : pos + (encode d).length < 2 ^ 64) : chunkAt pos (encode d ++ rest) =
      .ok (.data (pos + (hexadecimal d.length).length + 2)
        (pos + (hexadecimal d.length).length + 2 + d.length) (pos + (encode d).length)) := by
  have hl : (encode d).length = (hexadecimal d.length).length + 2 + d.length + 2 := by
    simp [encode, CRLF]
    omega
  have hs : encode d ++ rest = hexadecimal d.length ++ CRLF ++ (d ++ CRLF ++ rest) := by
    simp [encode]
  have hp : d.length ≠ 0 := by simpa using hso
  have he : ((d ++ CRLF ++ rest).drop d.length).take 2 = CRLF := by
    simp [CRLF]
  have hen : ¬(d ++ CRLF ++ rest).length < d.length + 2 := by simp [CRLF]
  unfold chunkAt
  rw [hs, nextLine_append (hexadecimal_unbroken d.length)]
  simp only [sizeOfLine_hexadecimal (show d.length < 2 ^ 64 by omega), bind, Except.bind,
    if_neg hp, if_neg hen, he, ne_eq, not_true_eq_false, if_false, pure, Except.pure]
  rw [if_neg (by omega), hl]
  congr 2
  omega

theorem trailers_fieldLines {fds : HeaderMap}
    (ha : ∀ field ∈ fds, forbiddenTrailer field.1.bytes = false) (rest : Octets) {fuel : Nat}
    (pos : Nat) (he : fds.length < fuel) : trailers fuel pos (fieldLines fds ++ CRLF ++ rest) =
      .ok (some (pos + (fieldLines fds).length + 2)) := by
  induction fds generalizing fuel pos with
  | nil =>
    obtain ⟨fuel, rfl⟩ := exists_eq_succ_of_ne_zero (ne_of_gt he)
    simp [trailers, fieldLines, nextLine_crlf]
  | cons field fds ih =>
    obtain ⟨fuel, rfl⟩ := exists_eq_succ_of_ne_zero (ne_of_gt (zero_lt_of_lt he))
    obtain ⟨name, v⟩ := field
    rw [fieldLines_cons, trailers, nextLine_append (fieldLine_unbroken _)]
    simp only [if_neg (fieldLine_ne_nil _), fieldLine_not_folded, Bool.false_eq_true, if_false,
      splitHeader_fieldLine, ha (name, v) mem_cons_self]
    rw [ih (fun o hl => ha o (by simp [hl])) _ (by simpa using he), length_fieldLines_cons]
    congr 2
    omega

theorem chunkAt_encodeLast {fds : HeaderMap}
    (ha : ∀ field ∈ fds, forbiddenTrailer field.1.bytes = false) (pos : Nat) (rest : Octets) :
    chunkAt pos (encodeLast fds ++ rest) = .ok (.last (pos + (encodeLast fds).length)) := by
  have hs : encodeLast fds ++ rest = ascii "0" ++ CRLF ++ (fieldLines fds ++ CRLF ++ rest) := by
    simp [encodeLast, fieldLines, fieldLine]
  have hz : sizeOfLine (ascii "0") = .ok 0 := by decide
  have hl : (encodeLast fds).length = 1 + 2 + (fieldLines fds).length + 2 := by
    have hc := congrArg length hs
    simp only [length_append] at hc
    have h0 : (ascii "0").length = 1 := by decide
    have h2 : CRLF.length = 2 := rfl
    omega
  unfold chunkAt
  rw [hs, nextLine_append (by decide)]
  simp only [hz, bind, Except.bind, if_true]
  rw [trailers_fieldLines ha rest _ (by have := length_le_fieldLines fds; simp; omega), hl]
  simp only [pure, Except.pure]
  congr 2
  have h0 : (ascii "0").length = 1 := by decide
  omega

theorem payload_encode (pos : Nat) (pc rest : Octets) :
    ((encode pc ++ rest).drop (pos + (hexadecimal pc.length).length + 2 - pos)).take
      (pos + (hexadecimal pc.length).length + 2 + pc.length -
        (pos + (hexadecimal pc.length).length + 2)) = pc := by
  have hst : pos + (hexadecimal pc.length).length + 2 - pos =
      (hexadecimal pc.length ++ CRLF).length := by
    simp [CRLF]
    omega
  have hs : encode pc ++ rest = (hexadecimal pc.length ++ CRLF) ++ (pc ++ (CRLF ++ rest)) := by
    simp [encode]
  rw [hst, hs, drop_left, Nat.add_sub_cancel_left, take_left]

section Encoded

variable {ps : List Octets} {fs : HeaderMap} (rest : Octets)

theorem walk_encoded (hso : ∀ pc ∈ ps, pc ≠ [])
    (ha : ∀ field ∈ fs, forbiddenTrailer field.1.bytes = false) {fuel pos : Nat}
    (c : Octets) (he : ps.length < fuel) (hs : pos + (ps.flatMap encode).length < 2 ^ 64) :
    walk fuel pos (ps.flatMap encode ++ (encodeLast fs ++ rest)) c = .ok (.some (c ++ ps.flatten,
        pos + (ps.flatMap encode).length + (encodeLast fs).length)) := by
  induction ps generalizing fuel pos c with
  | nil =>
    obtain ⟨fuel, rfl⟩ := Nat.exists_eq_succ_of_ne_zero (Nat.ne_of_gt he)
    simp [walk, chunkAt_encodeLast ha, bind, Except.bind, pure, Except.pure]
  | cons pc ps ih =>
    obtain ⟨fuel, rfl⟩ := Nat.exists_eq_succ_of_ne_zero (Nat.ne_of_gt (Nat.zero_lt_of_lt he))
    rw [flatMap_cons, length_append] at hs
    have hf := chunkAt_encode (hso pc (by simp)) (ps.flatMap encode ++ (encodeLast fs ++ rest))
      (show pos + (encode pc).length < 2 ^ 64 by omega)
    rw [flatMap_cons, append_assoc, walk, hf]
    simp only [bind, Except.bind]
    have hr : (encode pc ++ (ps.flatMap encode ++ (encodeLast fs ++ rest))).drop
        (pos + (encode pc).length - pos) = ps.flatMap encode ++ (encodeLast fs ++ rest) := by
      rw [Nat.add_sub_cancel_left, drop_left]
    rw [payload_encode, hr, ih (fun o hl => hso o (by simp [hl]))
      (c ++ pc) (by simpa using he) (by omega)]
    simp only [flatten_cons, append_assoc, length_append, Nat.add_assoc]

theorem decode_encoded (hso : ∀ pc ∈ ps, pc ≠ [])
    (ha : ∀ field ∈ fs, forbiddenTrailer field.1.bytes = false)
    (hs : (ps.flatMap encode ++ encodeLast fs).length < 2 ^ 64) :
    decode (ps.flatMap encode ++ encodeLast fs ++ rest) =
      .complete ps.flatten (ps.flatMap encode ++ encodeLast fs).length := by
  have he : ps.length ≤ (ps.flatMap encode).length := by
    clear hso hs
    induction ps with
    | nil => exact zero_le _
    | cons pc ps ih =>
      simp only [flatMap_cons, length_append, length_cons, encode, CRLF]
      omega
  rw [length_append] at hs
  unfold decode
  rw [append_assoc, walk_encoded rest hso ha [] (by rw [length_append]; omega) (by omega)]
  simp

end Encoded

end Chunked

end BoatRamp.Http1

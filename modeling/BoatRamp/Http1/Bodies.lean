import BoatRamp.Http1.Pieces

/-!
# Bodies in pieces

The reader of a body over a connection that delivers its bytes in reads of any
size.  The pieces it hands on depend on the reads; the body they make up and
the bytes that are left do not.
-/

namespace BoatRamp.Http1

open Http Library.Incremental BodyReader List Chunked

def BodyReader.look (reader : BodyReader) (buffer : Octets) :
    Option (Look UInt8 BodyReader Bool × Octets) :=
  match reader.step buffer with
  | .chunk bytes next left => some (.emit bytes next, left)
  | .finished left => some (.stop true, left)
  | .malformed => some (.stop false, buffer)
  | .wantMore => none

namespace BodyReader

theorem look_none (buffer : Octets) : look .none buffer = some (.stop true, buffer) := rfl

theorem look_length_zero (buffer : Octets) :
    look (.length 0) buffer = some (.stop true, buffer) := rfl

variable {remaining : Nat} {buffer left : Octets} {rd : BodyReader}
  {found : Look UInt8 BodyReader Bool}

theorem look_length_nil (hs : remaining ≠ 0) : look (.length remaining) [] = none := by
  simp [look, step, hs]

theorem look_length (hs : remaining ≠ 0) (ha : buffer ≠ []) : look (.length remaining) buffer =
      .some (.emit (buffer.take (min remaining buffer.length))
        (.length (remaining - min remaining buffer.length)),
        buffer.drop (min remaining buffer.length)) := by
  simp [look, step, hs, ha]

theorem look_closeDelimited (ha : buffer ≠ []) :
    look .closeDelimited buffer = some (.emit buffer .closeDelimited, []) := by
  simp [look, step, ha]

inductive Looks (buffer : Octets) : BodyReader → Look UInt8 BodyReader Bool → Octets → Prop
  | absent : Looks buffer .none (.stop true) buffer
  | complete : Looks buffer (.length 0) (.stop true) buffer
  | counted {remaining : Nat} (some : remaining ≠ 0) (arrived : buffer ≠ []) :
      Looks buffer (.length remaining) (.emit (buffer.take (min remaining buffer.length))
        (.length (remaining - min remaining buffer.length)))
        (buffer.drop (min remaining buffer.length))
  | data {dataStart dataEnd after : Nat}
      (chunk : Chunked.nextChunk buffer = .data dataStart dataEnd after) :
      Looks buffer .chunked (.emit ((buffer.drop dataStart).take (dataEnd - dataStart)) .chunked)
        (buffer.drop after)
  | last {finish : Nat} (chunk : Chunked.nextChunk buffer = .last finish) :
      Looks buffer .chunked (.stop true) (buffer.drop finish)
  | reject {reason : Reject} (chunk : Chunked.nextChunk buffer = .reject reason) :
      Looks buffer .chunked (.stop false) buffer
  | close (arrived : buffer ≠ []) : Looks buffer .closeDelimited (.emit buffer .closeDelimited) []

theorem look_looks (hl : look rd buffer = some (found, left)) : Looks buffer rd found left := by
  cases rd with
  | none =>
    cases hl
    exact .absent
  | length remaining =>
    by_cases hd : remaining = 0
    · subst hd
      cases hl
      exact .complete
    by_cases he : buffer = []
    · rw [he, look_length_nil hd] at hl
      cases hl
    rw [look_length hd he] at hl
    cases hl
    exact .counted hd he
  | chunked =>
    unfold look step at hl
    cases hc : nextChunk buffer with
    | incomplete => simp [hc] at hl
    | data =>
      rw [hc] at hl
      cases hl
      exact .data hc
    | last =>
      rw [hc] at hl
      cases hl
      exact .last hc
    | reject =>
      rw [hc] at hl
      cases hl
      exact .reject hc
  | closeDelimited =>
    by_cases he : buffer = []
    · rw [he] at hl
      cases hl
    rw [look_closeDelimited he] at hl
    cases hl
    exact .close he

theorem look_consumes : Consumes look where
  emit := by
    intro rd buffer e next left hl
    cases look_looks hl with
    | counted hs ha =>
      have hp := length_pos_iff.mpr ha
      rw [length_drop]
      omega
    | data hc =>
      have hb := nextChunk_data hc
      rw [length_drop]
      omega
    | close ha => exact length_pos_iff.mpr ha
  stop := by
    intro rd buffer f left hl
    cases look_looks hl with
    | absent | complete | reject => exact Nat.le_refl _
    | last =>
      rw [length_drop]
      exact Nat.sub_le ..

theorem look_chunked_stable : Stable (look .chunked) := by
  intro buffer found left hl l
  have hlo := look_looks hl
  unfold look step
  cases hlo with
  | data hc =>
    have hb := nextChunk_data hc
    rw [nextChunk_extend (by simp [hc]), hc]
    dsimp only
    rw [drop_append_of_le_length (by omega), drop_append_of_le_length (by omega),
      take_append_of_le_length (by rw [length_drop]; omega)]
  | last hc =>
    have hb := nextChunk_last hc
    rw [nextChunk_extend (by simp [hc]), hc]
    dsimp only
    rw [drop_append_of_le_length hb]
  | reject hc => rw [nextChunk_extend (by simp [hc]), hc]

theorem readWhole_none (bs : Octets) : readWhole look .none bs = ([], some (true, bs)) := by
  rw [readWhole_eq look_consumes, look_none]

theorem readWhole_length (remaining : Nat) (bs : Octets) :
    readWhole look (.length remaining) bs = (bs.take remaining,
        if remaining ≤ bs.length then some (true, bs.drop remaining) else none) := by
  rw [readWhole_eq look_consumes]
  by_cases hd : remaining = 0
  · rw [hd, look_length_zero]
    simp
  by_cases hem : bs = []
  · rw [hem, look_length_nil hd]
    simp [hd]
  rw [look_length hd hem]
  by_cases he : remaining ≤ bs.length
  · rw [Nat.min_eq_left he, Nat.sub_self]
    dsimp only
    rw [readWhole_eq look_consumes, look_length_zero, if_pos he]
    simp
  rw [Nat.min_eq_right (by omega), drop_length, take_length]
  dsimp only
  rw [readWhole_eq look_consumes, look_length_nil (by omega), if_neg he,
    take_of_length_le (by omega)]
  simp

theorem readWhole_closeDelimited (bs : Octets) :
    readWhole look .closeDelimited bs = (bs, none) := by
  have hen : readWhole look .closeDelimited [] = ([], none) := rfl
  by_cases he : bs = []
  · rw [he, hen]
  rw [readWhole_eq look_consumes, look_closeDelimited he]
  dsimp only
  rw [hen, append_nil]

/-- However the bytes arrive, the reader hands on the same body and leaves the same bytes. -/
theorem look_coherent : Coherent look where
  consumes := look_consumes
  stopped := by
    intro rd xs f left hl l
    cases look_looks hl with
    | absent => exact readWhole_none _
    | complete =>
      rw [readWhole_length]
      simp
    | last | reject =>
      exact readWhole_of_stable look look_consumes .chunked look_chunked_stable hl l
  emitted := by
    intro rd xs e next left hl l
    cases look_looks hl with
    | @counted remaining =>
      rw [readWhole_length, readWhole_length]
      by_cases he : remaining ≤ xs.length
      · rw [Nat.min_eq_left he, Nat.sub_self, take_append_of_le_length he,
          if_pos (by rw [length_append]; omega), drop_append_of_le_length he]
        simp
      have hb : xs.length ≤ remaining := by omega
      rw [Nat.min_eq_right hb, take_length, drop_length, nil_append,
        take_append, take_of_length_le hb, drop_append,
        drop_of_length_le hb, nil_append, length_append]
      by_cases all : remaining ≤ xs.length + l.length
      · rw [if_pos all, if_pos (by omega)]
      · rw [if_neg all, if_neg (by omega)]
    | data => exact readWhole_of_stable look look_consumes .chunked look_chunked_stable hl l
    | close =>
      rw [readWhole_closeDelimited, readWhole_closeDelimited]
      simp

end BodyReader

inductive ReadError where
  | unexpectedEof
  | invalidData (message : Text)

def readResponseHead (source : Source UInt8) : Except ReadError (ResponseHead × Source UInt8) :=
  match await decodeResponseHead source with
  | some (some head, after) => .ok (head, after)
  | some (none, _) => .error (.invalidData "malformed upstream response head".toList)
  | none => .error .unexpectedEof

def readBody (reader : BodyReader) (source : Source UInt8) :
    Octets × Except ReadError (Source UInt8) :=
  match readSource BodyReader.look reader source with
  | (body, some (true, after)) => (body, .ok after)
  | (body, some (false, _)) =>
      (body, .error (.invalidData "malformed upstream chunked body".toList))
  | (body, none) =>
      (body, if reader.atEof then .ok (Source.whole []) else .error .unexpectedEof)

structure Received where
  head : ResponseHead
  body : Octets
  left : Source UInt8

def receive (method : Method) (source : Source UInt8) : Except ReadError Received := do
  let (head, source) ← readResponseHead source
  let (body, ended) := readBody (BodyReader.for method head) source
  let left ← ended
  return ⟨head, body, left⟩

variable {s : Source UInt8}

theorem readResponseHead_of_parsed {head : ResponseHead} {c : Nat}
    (hp : parseResponseHead s.rest = .complete head c) : ∃ a, readResponseHead s = .ok (head, a) ∧
      a.rest = s.rest.drop c := by
  have hd : decodeResponseHead s.rest = some (some head, s.rest.drop c) := by
    rw [decodeResponseHead, hp]
  obtain ⟨a, found, hr⟩ := decodeResponseHead_stable.await_of_decode hd
  exact ⟨a, by rw [readResponseHead, found], hr⟩

theorem readResponseHead_of_rejected (hp : parseResponseHead s.rest = .reject) :
    readResponseHead s = .error (.invalidData "malformed upstream response head".toList) := by
  have hd : decodeResponseHead s.rest = some (none, s.rest) := by
    rw [decodeResponseHead, hp]
  obtain ⟨a, found, _⟩ := decodeResponseHead_stable.await_of_decode hd
  rw [readResponseHead, found]

theorem readBody_of_whole {r : BodyReader} {b left : Octets}
    (hw : readWhole look r s.rest = (b, some (true, left))) :
    ∃ a, readBody r s = (b, .ok a) ∧ a.rest = left := by
  obtain ⟨hs, hf⟩ := look_coherent.readSource_eq r s
  rw [hw] at hs hf
  obtain ⟨⟨e, a⟩, found, he⟩ := Option.map_eq_some_iff.mp hf
  cases he
  refine ⟨a, ?_, rfl⟩
  unfold readBody
  cases hr : readSource look r s with
  | mk em res =>
    rw [hr] at hs found
    cases hs
    cases found
    rfl

end BoatRamp.Http1

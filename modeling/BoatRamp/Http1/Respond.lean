import BoatRamp.Http1.Bodies
import BoatRamp.Http1.RoundTrip

/-!
# Responses of the server

What the server writes for a response.  It removes the framing fields of the
handler and frames the body itself: with its length, or in chunks when it is a
stream.  The client reads the response back, however its bytes arrive, unless
the head is larger than the client accepts.
-/

namespace BoatRamp.Http1

open Http Library.Incremental HeaderMap BodyReader HeaderValue
open List hiding splitOn head

/-- Bytes in memory, which are fewer than an address counts. -/
structure Bytes where
  octets : Octets
  fits : octets.length < 2 ^ 63

def Bytes.empty : Bytes := ⟨[], by decide⟩

inductive Body where
  | bytes (bytes : Bytes)
  | file (content : Octets) (offset len : UInt64)
  | stream (items : List (Option Bytes))

structure StatusCode where
  code : Nat
  valid : 100 ≤ code ∧ code < 1000

def StatusCode.OK : StatusCode := ⟨200, by decide⟩

/-- The text that goes with a status, on one line. -/
structure ReasonPhrase where
  bytes : Octets
  oneLine : bytes.all (fun byte => byte ≠ CR && byte ≠ LF) = true

def ReasonPhrase.OK : ReasonPhrase := ⟨ascii "OK", by decide⟩

structure Response where
  status : StatusCode
  headers : HeaderMap
  body : Body

/-- Whether the bytes of a file can be moved to the socket directly. -/
inductive Transport where
  | plaintextSocket
  | wrapped

section Writing

variable (canonicalReason : Nat → Option ReasonPhrase)

def statusLine (status : Nat) : Octets :=
  ascii "HTTP/1.1" ++ [SP] ++ decimal status ++ [SP] ++
    ((canonicalReason status).map ReasonPhrase.bytes).getD []

def encodeResponseHead (status : Nat) (headers : HeaderMap) : Octets :=
  statusLine canonicalReason status ++ CRLF ++
    headers.flatMap (fun field => fieldLine field ++ CRLF) ++ CRLF

structure Written where
  bytes : Octets
  succeeded : Bool
  mustClose : Bool

def readFileRegion (content : Octets) (offset len : UInt64) : Option Octets :=
  let region := (content.drop offset.toNat).take len.toNat
  if region.length = len.toNat then some region else none

/-- The chunks of a stream up to its end or to an error, which leaves the body unfinished. -/
def writeStream : List (Option Bytes) → Octets × Bool
  | [] => (Chunked.encodeLast [], true)
  | none :: _ => ([], false)
  | some chunk :: items =>
      let later := writeStream items
      (if chunk.octets = [] then later.1 else Chunked.encode chunk.octets ++ later.1, later.2)

def writeBody (transport : Transport) (willClose : Bool) : Body → Written
  | .bytes bytes => ⟨bytes.octets, true, willClose⟩
  | .file content offset len =>
      match transport, readFileRegion content offset len with
      | _, some region => ⟨region, true, willClose⟩
      | .plaintextSocket, none => ⟨(content.drop offset.toNat).take len.toNat, false, true⟩
      | .wrapped, none => ⟨[], true, true⟩
  | .stream items =>
      match writeStream items with
      | (bytes, true) => ⟨bytes, true, willClose⟩
      | (bytes, false) => ⟨bytes, true, true⟩

def hasToken (token value : Octets) : Bool :=
  (splitOn 0x2C (value.map toLowercase)).any fun part => trimOws part = token

namespace Response

variable (response : Response)

def noBody (method : Method) : Bool :=
  method = .HEAD || (100 ≤ response.status.code && response.status.code < 200) ||
    response.status.code = 204 || response.status.code = 304

def unframed : HeaderMap :=
  HeaderMap.remove (HeaderMap.remove response.headers .CONTENT_LENGTH) .TRANSFER_ENCODING

def respClose : Bool :=
  (((response.unframed.get .CONNECTION).bind HeaderValue.toStr).map
    (hasToken (ascii "close"))).getD false

def framingField : HeaderName × HeaderValue :=
  match response.body with
  | .bytes bytes => (.CONTENT_LENGTH, HeaderValue.ofNat bytes.octets.length)
  | .file _ _ len => (.CONTENT_LENGTH, HeaderValue.ofNat len.toNat)
  | .stream _ => (.TRANSFER_ENCODING, HeaderValue.CHUNKED)

def CLOSE : HeaderValue := ⟨ascii "close", by decide⟩

def framedHeaders (clientClose : Bool) : HeaderMap :=
  let framed := (response.unframed.remove .CONNECTION).insert response.framingField.1
    response.framingField.2
  if clientClose || response.respClose then framed.insert .CONNECTION CLOSE else framed

end Response

def writeResponse (transport : Transport) (response : Response) (method : Method)
    (clientClose : Bool) : Written :=
  let head := encodeResponseHead canonicalReason response.status.code
    (response.framedHeaders clientClose)
  let willClose := clientClose || response.respClose
  if response.noBody method then ⟨head, true, willClose⟩
  else
    let written := writeBody transport willClose response.body
    ⟨head ++ written.bytes, written.succeeded, written.mustClose⟩

end Writing

section Heads

variable (cr : Nat → Option ReasonPhrase)

theorem statusLine_unbroken (st : Nat) : CR ∉ statusLine cr st ∧ LF ∉ statusLine cr st := by
  have hde : (decimal st).all isDigit = true := all_decimal (by decide) st
  have hd := not_mem_of_all hde
  have hr (b : UInt8) (hb : b = CR ∨ b = LF) : b ∉ ((cr st).map ReasonPhrase.bytes).getD [] := by
    cases cr st with
    | none => simp
    | some p =>
      refine not_mem_of_all p.oneLine b ?_
      rcases hb with rfl | rfl <;> rfl
  simp only [statusLine, mem_append, not_or]
  refine ⟨⟨⟨⟨⟨by decide, by decide⟩, hd CR (by decide)⟩, by decide⟩, hr CR (.inl rfl)⟩,
    ⟨⟨⟨⟨by decide, by decide⟩, hd LF (by decide)⟩, by decide⟩, hr LF (.inr rfl)⟩⟩

theorem parseStatusLine_statusLine (st : StatusCode) :
    parseStatusLine (statusLine cr st.code) = some (.http11, st.code) := by
  have hv := st.valid
  have hd : (decimal st.code).all isDigit = true := all_decimal (by decide) _
  have hu := not_mem_of_all hd SP (by decide)
  have hl : (decimal st.code).length = 3 := length_decimal (by decide) hv.2 hv.1
  have hs : statusLine cr st.code = ascii "HTTP/1.1" ++ SP :: (decimal st.code ++ SP ::
        ((cr st.code).map ReasonPhrase.bytes).getD []) := by
    simp [statusLine]
  have ver : parseVersion (ascii "HTTP/1.1") = .ok .http11 := by decide
  unfold parseStatusLine
  rw [hs, splitOn_append (by decide), splitOn_append hu]
  simp only [ver, hl, hd, digitsValue_decimal, ne_eq, not_true_eq_false, Bool.not_true,
    Bool.false_eq_true, or_self, if_false]
  rw [if_neg (by omega)]

theorem readResponseField_fieldLine (h : HeaderMap) {f : HeaderName × HeaderValue}
    (hs : f.1.bytes.length ≤ MAX_HEADER_NAME_LEN) : readResponseField h (fieldLine f) =
      some (h.append f.1 f.2.trimmed) := by
  obtain ⟨name, v⟩ := f
  unfold readResponseField
  simp only [fieldLine_not_folded, splitHeader_fieldLine, HeaderName.fromBytes_bytes hs,
    fromBytes_bytes, Bool.false_eq_true, if_false]

/-- The fields as they are read: without the blanks around their values. -/
def trimmedFields (headers : HeaderMap) : HeaderMap :=
  headers.map fun field => (field.1, field.2.trimmed)

theorem foldl_append_trimmed (h map : HeaderMap) :
    h.foldl (fun map f => map.append f.1 f.2.trimmed) map = map ++ trimmedFields h := by
  induction h generalizing map with
  | nil => simp [trimmedFields]
  | cons f h ih =>
    rw [foldl_cons, ih]
    simp [trimmedFields, append]

theorem get_trimmedFields (h : HeaderMap) (name : HeaderName) :
    (trimmedFields h).get name = (h.get name).map trimmed := by
  simp [HeaderMap.get, trimmedFields, find?_map, Function.comp_def]

variable (s : StatusCode) (hdrs : HeaderMap) (rest : Octets)

theorem encodeResponseHead_append : encodeResponseHead cr s.code hdrs ++ rest =
      statusLine cr s.code ++ CRLF ++ (fieldLines hdrs ++ CRLF ++ rest) := by
  simp [encodeResponseHead, fieldLines]

theorem length_encodeResponseHead : (encodeResponseHead cr s.code hdrs).length =
      (statusLine cr s.code).length + 2 + (fieldLines hdrs).length + 2 := by
  simp [encodeResponseHead, fieldLines, CRLF]
  omega

theorem parseResponseHead_encoded
    (hsm : (encodeResponseHead cr s.code hdrs).length < MAX_HEAD + 2) :
    parseResponseHead (encodeResponseHead cr s.code hdrs ++ rest) =
      .complete ⟨.http11, s.code, trimmedFields hdrs⟩
        (encodeResponseHead cr s.code hdrs).length := by
  have hl := length_encodeResponseHead cr s hdrs
  have hli := length_le_fieldLines hdrs
  have hr : ∀ (map : HeaderMap) (f : HeaderName × HeaderValue),
      f.1.bytes.length ≤ MAX_HEADER_NAME_LEN →
      readResponseField map (fieldLine f) = some (map.append f.1 f.2.trimmed) :=
    fun map _ hs => readResponseField_fieldLine map hs
  unfold parseResponseHead
  simp only [parseResponseFields_eq]
  generalize (encodeResponseHead cr s.code hdrs ++ rest).length = total
  rw [encodeResponseHead_append, nextLine_append (statusLine_unbroken cr s.code)]
  simp only [parseStatusLine_statusLine]
  rw [readLines_fieldLines hr total rest [] (by simp; omega) (by omega)]
  simp only [foldl_append_trimmed, nil_append, hl]

theorem parseResponseHead_refused
    (hla : MAX_HEAD + 2 ≤ (encodeResponseHead cr s.code hdrs).length) :
    parseResponseHead (encodeResponseHead cr s.code hdrs ++ rest) =
      .reject := by
  have hl := length_encodeResponseHead cr s hdrs
  have hli := length_le_fieldLines hdrs
  have hc : (encodeResponseHead cr s.code hdrs).length ≤
      (encodeResponseHead cr s.code hdrs ++ rest).length := by simp
  unfold parseResponseHead
  simp only [parseResponseFields_eq]
  generalize (encodeResponseHead cr s.code hdrs ++ rest).length = total at hc ⊢
  rw [encodeResponseHead_append, nextLine_append (statusLine_unbroken cr s.code)]
  simp only [parseStatusLine_statusLine]
  rw [readLines_too_large (by omega) rest [] (by simp; omega) (by omega)]

end Heads

/-- The bytes of a body that can be had without an error. -/
def Body.octets : Body → Option Octets
  | .bytes whole => some whole.octets
  | .file content offset len => readFileRegion content offset len
  | .stream items =>
      if items.all Option.isSome then
        some (items.flatMap fun item => (item.map Bytes.octets).getD [])
      else none

theorem look_encode {d : Bytes} (hso : d.octets ≠ []) (rest : Octets) :
    look .chunked (Chunked.encode d.octets ++ rest) = .some (.emit d.octets .chunked, rest) := by
  have hf := d.fits
  have hw : (hexadecimal d.octets.length).length ≤ 16 :=
    length_hexadecimal (by decide) (by omega)
  have hs : 0 + (Chunked.encode d.octets).length < 2 ^ 64 := by
    simp only [Chunked.encode, CRLF, length_append, length_cons, length_nil]
    omega
  have hp := Chunked.payload_encode 0 d.octets rest
  unfold look step Chunked.nextChunk
  rw [Chunked.chunkAt_encode hso rest hs]
  rw [Nat.sub_zero] at hp
  dsimp only
  rw [hp, Nat.zero_add, drop_left]

theorem readWhole_writeStream {xs : List (Option Bytes)} (hc : xs.all Option.isSome = true)
    (rest : Octets) : (writeStream xs).2 = true ∧
      readWhole look .chunked ((writeStream xs).1 ++ rest) =
        (xs.flatMap (fun x => (x.map Bytes.octets).getD []), some (true, rest)) := by
  induction xs with
  | nil =>
    refine ⟨rfl, ?_⟩
    rfl
  | cons x xs ih =>
    rw [all_cons, Bool.and_eq_true] at hc
    obtain ⟨hen, hr⟩ := ih hc.2
    cases x with
    | none => exact absurd hc.1 (by simp)
    | some c =>
      refine ⟨hen, ?_⟩
      rw [writeStream]
      by_cases he : c.octets = []
      · rw [if_pos he, hr, flatMap_cons]
        simp [he]
      rw [if_neg he, append_assoc, readWhole_eq look_consumes, look_encode he]
      dsimp only
      rw [hr, flatMap_cons]
      rfl

open Response

theorem get_framedHeaders (response : Response) (clientClose : Bool) {name : HeaderName}
    (hf : name ≠ .CONNECTION) : (response.framedHeaders clientClose).get name =
      if name = response.framingField.1 then some response.framingField.2
      else response.unframed.get name := by
  have f : ((response.unframed.remove .CONNECTION).insert response.framingField.1
      response.framingField.2).get name =
      if name = response.framingField.1 then some response.framingField.2
      else response.unframed.get name := by
    by_cases own : name = response.framingField.1
    · rw [if_pos own, own, get_insert_self]
    · rw [if_neg own, get_insert_of_ne own, get_remove_of_ne hf]
  unfold framedHeaders
  split
  · rw [get_insert_of_ne hf, f]
  · exact f

theorem length_le_of_get {h : HeaderMap} {name : HeaderName} {v : HeaderValue}
    (hf : h.get name = some v) : v.bytes.length ≤ (fieldLines h).length := by
  induction h with
  | nil => cases hf
  | cons f h ih =>
    rw [length_fieldLines_cons]
    by_cases hfi : f.1 = name
    · simp only [HeaderMap.get, find?_cons, hfi, decide_true] at hf
      cases hf
      simp only [fieldLine, length_append]
      omega
    · simp only [HeaderMap.get, find?_cons, hfi, decide_false] at hf
      have hl := ih hf
      omega

theorem get_unframed_transferEncoding (response : Response) :
    response.unframed.get .TRANSFER_ENCODING = none :=
  get_remove_self

theorem declaredLen_of_get {h : HeaderMap} {len : Nat} (hs : len < 2 ^ 64)
    (hd : h.get .CONTENT_LENGTH = some (ofNat len)) : declaredLen (trimmedFields h) = some len := by
  have hu : trimOws (decimal len) = decimal len :=
    trimOws_eq_self (all_decimal (by decide) len)
  have hv : (decimal len).all isVisibleAscii = true := all_decimal (by decide) len
  unfold declaredLen
  rw [get_trimmedFields, hd]
  simp [toStr, trimmed, ofNat, hu, hv, parseU64_decimal hs]

def Response.reader (response : Response) (method : Method) : BodyReader :=
  if response.noBody method then .none
  else
    match response.body with
    | .bytes whole => .length whole.octets.length
    | .file _ _ len => .length len.toNat
    | .stream _ => .chunked

theorem for_framedHeaders (response : Response) {method : Method} (hu : method ≠ .CONNECT)
    (clientClose : Bool) : BodyReader.for method ⟨.http11, response.status.code,
      trimmedFields (response.framedHeaders clientClose)⟩ = response.reader method := by
  have hb : Http1.noBody response.status.code method = response.noBody method := by
    simp [Http1.noBody, Response.noBody, hu]
  have he := get_framedHeaders response clientClose
    (show HeaderName.TRANSFER_ENCODING ≠ .CONNECTION by decide)
  have hd := get_framedHeaders response clientClose
    (show HeaderName.CONTENT_LENGTH ≠ .CONNECTION by decide)
  unfold BodyReader.for responseFraming Response.reader
  rw [hb]
  split
  · rfl
  rw [containsKey_eq_isSome, get_trimmedFields, he, get_unframed_transferEncoding]
  cases hs : response.body with
  | bytes whole =>
    have hf := whole.fits
    simp only [framingField, hs] at hd ⊢
    rw [declaredLen_of_get (by omega) hd]
    rfl
  | file content offset len =>
    simp only [framingField, hs] at hd ⊢
    rw [declaredLen_of_get len.toNat_lt hd]
    rfl
  | stream items => simp [framingField, hs]

theorem readWhole_writeBody (response : Response) (method : Method) (transport : Transport)
    (willClose : Bool) {body : Octets} (had : response.body.octets = some body)
    (hs : response.noBody method = false) (further : Octets) :
    readWhole look (response.reader method)
      ((writeBody transport willClose response.body).bytes ++ further) =
        (body, some (true, further)) := by
  unfold reader
  rw [if_neg (by simp [hs])]
  cases hc : response.body with
  | bytes whole =>
    rw [hc] at had
    cases had
    dsimp only [writeBody]
    rw [readWhole_length, take_left, drop_left]
    simp
  | file file offset len =>
    rw [hc, Body.octets] at had
    have hl : body.length = len.toNat := by
      unfold readFileRegion at had
      dsimp only at had
      split at had
      next exact' =>
        cases had
        exact exact'
      next => cases had
    have hw : (writeBody transport willClose (.file file offset len)).bytes = body := by
      simp only [writeBody, had]
    rw [hw, readWhole_length, ← hl, take_left, drop_left]
    simp
  | stream items =>
    rw [hc, Body.octets] at had
    split at had
    next clean =>
      cases had
      obtain ⟨he, hr⟩ := readWhole_writeStream clean further
      have hw : (writeBody transport willClose (.stream items)).bytes = (writeStream items).1 := by
        rw [writeBody]
        split
        next shape => rw [shape]
        next shape => rw [shape]
      dsimp only
      rw [hw, hr]
    next => cases had

section Reading

variable (canonicalReason : Nat → Option ReasonPhrase) (transport : Transport)
  (response : Response) {method : Method} (clientClose : Bool)

def Response.head : Octets :=
  encodeResponseHead canonicalReason response.status.code (response.framedHeaders clientClose)

/-- The body that the client is to see: none in answer to HEAD, and none with 204 and 304. -/
def Response.seenBody (method : Method) (body : Octets) : Octets :=
  if method = .HEAD ∨ response.status.code = 204 ∨ response.status.code = 304 then [] else body

theorem seenBody_eq (hf : 200 ≤ response.status.code) (b : Octets) :
    response.seenBody method b = if response.noBody method then [] else b := by
  have hi : ¬(100 ≤ response.status.code ∧ response.status.code < 200) := by omega
  simp [Response.seenBody, Response.noBody, hi, or_assoc]

theorem bytes_writeResponse :
    (writeResponse canonicalReason transport response method clientClose).bytes =
      response.head canonicalReason clientClose ++
        if response.noBody method then []
        else (writeBody transport (clientClose || response.respClose) response.body).bytes := by
  unfold writeResponse head
  split
  · simp
  · rfl

/-- A response is read back, with its status and its body and whatever the reads, exactly when its
head is not larger than the client accepts. -/
theorem response_read_iff (unconnected : method ≠ .CONNECT) (final : 200 ≤ response.status.code)
    {body : Octets} (had : response.body.octets = some body) (source : Source UInt8)
    (further : Octets) (arrives : source.rest =
      (writeResponse canonicalReason transport response method clientClose).bytes ++ further) :
    (∃ received, receive method source = .ok received ∧
        received.head.status = response.status.code ∧
        received.body = response.seenBody method body ∧ received.left.rest = further) ↔
      (response.head canonicalReason clientClose).length ≤ MAX_HEAD + 1 := by
  rw [bytes_writeResponse, append_assoc] at arrives
  generalize shape : (if response.noBody method then []
    else (writeBody transport (clientClose || response.respClose) response.body).bytes) = tail
    at arrives
  constructor
  · rintro ⟨received, read, _⟩
    by_contra hl
    have hr := parseResponseHead_refused canonicalReason response.status
      (response.framedHeaders clientClose) (tail ++ further) (by
        unfold Response.head at hl
        omega)
    rw [← Response.head, ← arrives] at hr
    rw [receive, readResponseHead_of_rejected hr] at read
    cases read
  intro hs
  have hp := parseResponseHead_encoded canonicalReason response.status
    (response.framedHeaders clientClose) (tail ++ further) (by
      unfold Response.head at hs
      omega)
  rw [← Response.head, ← arrives] at hp
  obtain ⟨a, hh, left⟩ := readResponseHead_of_parsed hp
  rw [arrives, drop_left] at left
  have w : readWhole BodyReader.look (response.reader method) a.rest =
      (response.seenBody method body, some (true, further)) := by
    rw [left, seenBody_eq response final, ← shape]
    cases hb : response.noBody method with
    | true =>
      rw [Response.reader, hb]
      exact BodyReader.readWhole_none further
    | false => exact readWhole_writeBody response method transport _ had hb further
  obtain ⟨l, read, rest⟩ := readBody_of_whole w
  refine ⟨⟨⟨.http11, response.status.code, trimmedFields (response.framedHeaders clientClose)⟩,
    response.seenBody method body, l⟩, ?_, rfl, rfl, rest⟩
  unfold receive
  rw [hh]
  simp only [bind, Except.bind]
  rw [for_framedHeaders response unconnected, read]
  rfl

end Reading

namespace Overweight

def canonicalReason (status : Nat) : Option ReasonPhrase :=
  if status = 200 then some .OK else none

def NOTE : HeaderName := ⟨ascii "x-note", by decide⟩

def note (length : Nat) : HeaderValue :=
  ⟨replicate length 0x61, by simp [all_replicate, isFieldByte]⟩

def chunk : Bytes := ⟨ascii "hello", by decide⟩

/-- A stream with an empty chunk between two others, under a field of the given length. -/
def response (length : Nat) : Response where
  status := .OK
  headers := [(NOTE, note length)]
  body := .stream [some chunk, some .empty, some chunk]

def written (length : Nat) : Octets :=
  (writeResponse canonicalReason .wrapped (response length) .GET false).bytes

theorem length_head (len : Nat) : len ≤ ((response len).head canonicalReason false).length := by
  have hk : ((response len).framedHeaders false).get NOTE = some (note len) := by
    have hu : NOTE ≠ (response len).framingField.1 :=
      show NOTE ≠ .TRANSFER_ENCODING by decide
    rw [get_framedHeaders _ _ (by decide), if_neg hu, unframed,
      HeaderMap.get_remove_of_ne (by decide), HeaderMap.get_remove_of_ne (by decide)]
    simp [response, HeaderMap.get]
  have hl := length_le_of_get hk
  rw [head, length_encodeResponseHead]
  simp only [note, length_replicate] at hl
  omega

theorem large_head_refused : receive .GET (Source.itemwise (written 70000)) =
      .error (.invalidData "malformed upstream response head".toList) := by
  have hl := length_head 70000
  have hr := parseResponseHead_refused canonicalReason (response 70000).status
    ((response 70000).framedHeaders false)
    (writeBody .wrapped (false || (response 70000).respClose) (response 70000).body).bytes (by
      rw [Response.head] at hl
      unfold MAX_HEAD
      omega)
  have ha : (Source.itemwise (written 70000)).rest = (response 70000).head canonicalReason false ++
        (writeBody .wrapped (false || (response 70000).respClose) (response 70000).body).bytes := by
    rw [Source.rest_itemwise, written, bytes_writeResponse]
    rfl
  rw [← Response.head, ← ha] at hr
  rw [receive, readResponseHead_of_rejected hr]
  rfl

theorem small_head_read :
    ∃ received, receive .GET (Source.itemwise (written 3 ++ ascii "more")) = .ok received ∧
      received.head.status = 200 ∧ received.body = ascii "hellohello" ∧
      received.left.rest = ascii "more" := by
  have had : (response 3).body.octets = some (ascii "hellohello") := by decide
  exact (response_read_iff canonicalReason .wrapped (response 3) false (by decide) (by decide) had
    (Source.itemwise (written 3 ++ ascii "more")) (ascii "more")
    (Source.rest_itemwise _)).mpr (by decide +kernel)

end Overweight

end BoatRamp.Http1

import BoatRamp.Http1.Serve

/-!
# Responses to clients of version 1.0

A client of version 1.0 reads a body up to its length or to the end of the
connection, and knows no chunks.  The server frames a response by its body
alone, and writes a stream in chunks whatever the version of the request.
-/

namespace BoatRamp.Http1

open Http

/-- The body that a client of version 1.0 reads, given what follows the head and whether the
connection is closed after that. -/
def readHttp10 (noBody : Bool) (headers : HeaderMap) (sent : Octets) (closed : Bool) :
    Option Octets :=
  if noBody then some []
  else
    match declaredLen headers with
    | some len => if len ≤ sent.length then some (sent.take len) else none
    | none => if closed then some sent else none

section Served

variable (canonicalReason : Nat → Option ReasonPhrase) (transport : Transport)
  (response : Response) (head : RequestHead)

/-- Whether the response to this request is written with the connection to be closed. -/
def clientClose : Bool :=
  isUpgradeRequest head.headers || wantsClose head.headers head.version

/-- What is written has no transfer coding, and is read back as the body of the response by a
client of version 1.0; on an open connection other bytes may follow. -/
def ReadByHttp10 : Prop :=
  let written := writeResponse canonicalReason transport response head.method (clientClose head)
  let headers := response.framedHeaders (clientClose head)
  headers.get .TRANSFER_ENCODING = none ∧
    ∃ sent, written.bytes = response.head canonicalReason (clientClose head) ++ sent ∧
      ∀ further, (written.mustClose = true → further = []) →
        readHttp10 (response.noBody head.method) (trimmedFields headers) (sent ++ further)
            written.mustClose =
          if response.noBody head.method then some [] else response.body.octets

variable {response}

theorem get_transferEncoding_of_stream {xs : List (Option Bytes)} (hb : response.body = .stream xs)
    (c : Bool) : (response.framedHeaders c).get .TRANSFER_ENCODING = some HeaderValue.CHUNKED := by
  rw [get_framedHeaders response c (by decide)]
  simp [Response.framingField, hb]

theorem get_transferEncoding_of_fixed (hb : response.framingField.1 = .CONTENT_LENGTH)
    (c : Bool) : (response.framedHeaders c).get .TRANSFER_ENCODING = none := by
  rw [get_framedHeaders response c (by decide), hb, if_neg (by decide),
    get_unframed_transferEncoding]

/-- A body whose length is declared is read back, or found to be cut off. -/
theorem readHttp10_of_length {hdrs : HeaderMap} {len : Nat} (hs : len < 2 ^ 64)
    (hd : hdrs.get .CONTENT_LENGTH = some (HeaderValue.ofNat len)) {s : Octets} (c : Bool) :
    readHttp10 false (trimmedFields hdrs) s c =
      if len ≤ s.length then some (s.take len) else none := by
  rw [readHttp10, declaredLen_of_get hs hd]
  rfl

theorem length_of_readFileRegion {c r : Octets} {o len : UInt64}
    (hr : readFileRegion c o len = some r) : r.length = len.toNat := by
  unfold readFileRegion at hr
  dsimp only at hr
  split at hr
  next hl =>
    cases hr
    exact hl
  next => cases hr

theorem length_lt_of_readFileRegion {c : Octets} {o len : UInt64}
    (hr : readFileRegion c o len = none) :
    ((c.drop o.toNat).take len.toNat).length < len.toNat := by
  unfold readFileRegion at hr
  dsimp only at hr
  split at hr
  next => cases hr
  next hl => exact lt_of_le_of_ne (List.length_take_le _ _) hl

/-- The body of a file after its length, whole or cut off by the end of the connection. -/
theorem read_written_file {c : Octets} {o len : UInt64} (cl : Bool) {f : Octets}
    (hf : (writeBody transport cl (.file c o len)).mustClose = true → f = []) :
    let s := (writeBody transport cl (.file c o len)).bytes ++ f
    (if len.toNat ≤ s.length then some (s.take len.toNat) else none) =
      readFileRegion c o len := by
  intro s
  cases hr : readFileRegion c o len with
  | some r =>
    have hl := length_of_readFileRegion hr
    have hs : s = r ++ f := by simp [s, writeBody, hr]
    rw [hs, ← hl, if_pos (by simp), List.take_left]
  | none =>
    have hl := length_lt_of_readFileRegion hr
    cases transport with
    | plaintextSocket =>
      have hc : f = [] := hf (by simp [writeBody, hr])
      rw [if_neg]
      simpa [s, writeBody, hr, hc] using hl
    | wrapped =>
      have hc : f = [] := hf (by simp [writeBody, hr])
      rw [if_neg]
      have hp : len.toNat ≠ 0 := Nat.ne_of_gt (Nat.zero_lt_of_lt hl)
      simpa [s, writeBody, hr, hc] using hp

/-- A client of version 1.0 can read the response exactly when its body is not a stream; no
request, and so no version, makes a difference. -/
theorem http10_reads_iff : ReadByHttp10 canonicalReason transport response head ↔
      ∀ items, response.body ≠ .stream items := by
  constructor
  · rintro ⟨hn, -⟩ items hb
    rw [get_transferEncoding_of_stream hb] at hn
    cases hn
  intro hf
  have hk : response.framingField.1 = .CONTENT_LENGTH := by
    cases hb : response.body with
    | bytes whole | file content offset len => simp [Response.framingField, hb]
    | stream items => exact absurd hb (hf items)
  have hd := get_framedHeaders response (clientClose head)
    (show HeaderName.CONTENT_LENGTH ≠ .CONNECTION by decide)
  rw [if_pos hk.symm] at hd
  refine ⟨get_transferEncoding_of_fixed hk _, _, bytes_writeResponse .., ?_⟩
  intro further hc
  cases hn : response.noBody head.method with
  | true => rfl
  | false =>
    simp only [writeResponse, hn, Bool.false_eq_true, if_false] at hc ⊢
    cases hb : response.body with
    | bytes whole =>
      have hs := whole.fits
      simp only [Response.framingField, hb] at hd
      rw [readHttp10_of_length (by omega) hd]
      simp [writeBody, Body.octets]
    | file content offset len =>
      simp only [Response.framingField, hb] at hd hc
      rw [readHttp10_of_length len.toNat_lt hd]
      exact read_written_file transport _ hc
    | stream items => exact absurd hb (hf items)

end Served

namespace Unversioned

def head : RequestHead := ⟨.GET, ascii "/", .http10, [], .empty⟩

def canonicalReason (_ : Nat) : Option ReasonPhrase := some .OK

def chunk : Bytes := ⟨ascii "hi", by decide⟩

def response : Response := ⟨.OK, [], .stream [some chunk]⟩

/-- The client asked in version 1.0 and is sent the size of a chunk as a part of its body. -/
theorem stream_chunked : (writeResponse canonicalReason .wrapped response head.method
        (clientClose head)).bytes =
      ascii "HTTP/1.1 200 OK" ++ CRLF ++ ascii "transfer-encoding: chunked" ++ CRLF ++
        ascii "connection: close" ++ CRLF ++ CRLF ++
        ascii "2" ++ CRLF ++ ascii "hi" ++ CRLF ++ ascii "0" ++ CRLF ++ CRLF ∧
      ¬ReadByHttp10 canonicalReason .wrapped response head := by
  refine ⟨by decide +kernel, ?_⟩
  rintro ⟨hn, -⟩
  exact absurd hn (by decide +kernel)

end Unversioned

end BoatRamp.Http1

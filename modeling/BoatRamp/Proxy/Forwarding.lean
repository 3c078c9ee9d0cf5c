import BoatRamp.Http1.RoundTrip
import BoatRamp.Proxy.Send

/-!
# Forwarded requests are one request

What is written for a forwarded request is read by the request parser as exactly
one request with the same body, unless the declared length is not that of the
body, the method is CONNECT or the head is too large.
-/

namespace BoatRamp.Proxy

open Http Http1 Gathered HeaderValue
open List hiding splitOn

variable {acceptsUri : Octets → Bool}

def Delimits (framing : BodyFraming) (bytes body : Octets) : Prop :=
  match framing with
  | .empty => bytes = [] ∧ body = []
  | .length octets => bytes = body ∧ octets = body.length
  | .chunked => Chunked.decode bytes = .complete body bytes.length

def OneRequest (acceptsUri : Octets → Bool) (bytes body : Octets) : Prop :=
  ∃ head consumed, parseRequestHead acceptsUri bytes = .complete head consumed ∧
    Delimits head.framing (bytes.drop consumed) body

structure UpstreamUri (acceptsUri : Octets → Bool) where
  authority : Octets
  named : authority ≠ []
  visible : authority.all (fun byte => 0x20 < byte && byte < 0x7F) = true
  path : OriginForm acceptsUri

def forwardedHeaders (headers : HeaderMap) : HeaderMap :=
  headers.filter fun field => field.1 ≠ .HOST && !isHopByHop field.1

variable (uri : UpstreamUri acceptsUri)

def forward (method : Method) (headers : HeaderMap)
    (pieces : List Octets) : Outgoing where
  method := method
  authority := some uri.authority
  pathAndQuery := some uri.path.bytes
  headers := forwardedHeaders headers
  body := pieces

def isPlain (field : HeaderName × HeaderValue) : Bool :=
  field.1 ≠ .CONTENT_LENGTH && field.1 ≠ .TRANSFER_ENCODING && field.1 ≠ .HOST

def UpstreamUri.host (uri : UpstreamUri acceptsUri) : HeaderValue :=
  ⟨uri.authority, by
    have visible := uri.visible
    rw [all_eq_true] at visible ⊢
    intro byte inside
    have letter := visible byte inside
    simp only [Bool.and_eq_true, decide_eq_true_eq] at letter
    simp only [isFieldByte, Bool.or_eq_true, Bool.and_eq_true, decide_eq_true_eq]
    exact .inl ⟨UInt8.le_of_lt letter.1, fun same => absurd letter.2 (by simp [same])⟩⟩

def plainHeaders (headers : HeaderMap) : HeaderMap := (forwardedHeaders headers).filter isPlain

def hostedHeaders (headers : HeaderMap) : HeaderMap :=
  plainHeaders headers ++ [(HeaderName.HOST, uri.host)]

theorem UpstreamUri.fromStr_authority : fromStr uri.authority = some uri.host := by
  have hv : uri.authority.all isVisibleAscii = true := by
    have hle := uri.visible
    rw [all_eq_true] at hle ⊢
    intro b hi
    have hl := hle b hi
    simp only [Bool.and_eq_true, decide_eq_true_eq] at hl
    simp only [isVisibleAscii, Bool.or_eq_true, Bool.and_eq_true, decide_eq_true_eq]
    exact .inl ⟨UInt8.le_of_lt hl.1, hl.2⟩
  rw [fromStr, if_pos hv]
  exact fromBytes_bytes uri.host

theorem mem_forwardedHeaders {headers : HeaderMap} {f : HeaderName × HeaderValue}
    (hf : f ∈ forwardedHeaders headers) : f.1 ≠ .HOST ∧ f.1 ≠ .TRANSFER_ENCODING := by
  have hk := (mem_filter.mp hf).2
  simp only [Bool.and_eq_true, decide_eq_true_eq, Bool.not_eq_true'] at hk
  refine ⟨hk.1, fun hs => ?_⟩
  rw [hs] at hk
  exact absurd hk.2 (by decide)

section Written

variable (uri : UpstreamUri acceptsUri) (method : Method) (hdrs : HeaderMap)
  (pieces : List Octets)

theorem baseHeaders_forward :
    (forward uri method hdrs pieces).baseHeaders = hostedHeaders uri hdrs := by
  have hp : HeaderMap.remove (HeaderMap.remove (forwardedHeaders hdrs) .CONTENT_LENGTH)
      .TRANSFER_ENCODING = plainHeaders hdrs := by
    unfold HeaderMap.remove plainHeaders
    rw [filter_filter]
    apply filter_congr
    intro f hf
    simp [isPlain, (mem_forwardedHeaders hf).1, Bool.and_comm]
  have hh (f : HeaderName × HeaderValue) (hk : f ∈ plainHeaders hdrs) : f.1 ≠ .HOST :=
    (mem_forwardedHeaders (mem_filter.mp hk).1).1
  have hu : HeaderMap.containsKey (plainHeaders hdrs) .HOST = false := by
    rw [HeaderMap.containsKey, any_eq_false]
    exact fun f hk => by simpa using hh f hk
  have hw : HeaderMap.remove (plainHeaders hdrs) .HOST = plainHeaders hdrs :=
    filter_eq_self.mpr fun f hk => by simpa using hh f hk
  unfold Outgoing.baseHeaders
  simp only [forward, hp, hu, Option.bind_some, UpstreamUri.fromStr_authority,
    HeaderMap.insert, hw, HeaderMap.append]
  rfl

theorem insert_framing (name : HeaderName) (v : HeaderValue)
    (hf : name = .CONTENT_LENGTH ∨ name = .TRANSFER_ENCODING) :
    HeaderMap.insert (hostedHeaders uri hdrs) name v = hostedHeaders uri hdrs ++ [(name, v)] := by
  have ha (f : HeaderName × HeaderValue) (hk : f ∈ hostedHeaders uri hdrs) : f.1 ≠ name := by
    rcases mem_append.mp hk with hpl | hh
    · have hp := (mem_filter.mp hpl).2
      simp only [isPlain, Bool.and_eq_true, decide_eq_true_eq] at hp
      rcases hf with rfl | rfl
      · exact hp.1.1
      · exact hp.1.2
    rw [mem_singleton.mp hh]
    dsimp only
    rcases hf with rfl | rfl <;> decide
  have hw := filter_eq_self.mpr fun f hk => decide_eq_true (ha f hk)
  unfold HeaderMap.insert HeaderMap.remove HeaderMap.append
  rw [hw]

end Written

theorem foldl_add_plain {headers : HeaderMap} (hp : ∀ f ∈ headers, isPlain f = true)
    (ga : Gathered) :
    let r := headers.foldl add ga
    r.clTokens = ga.clTokens ∧ r.teValues = ga.teValues ∧
      r.hostCount = ga.hostCount ∧ r.hostEmpty = ga.hostEmpty := by
  induction headers generalizing ga with
  | nil => exact ⟨rfl, rfl, rfl, rfl⟩
  | cons f rest ih =>
    have hf := hp f (by simp)
    simp only [isPlain, Bool.and_eq_true, decide_eq_true_eq] at hf
    have hl := ih (fun o hi => hp o (by simp [hi]))
      (ga.add f)
    simpa [add, hf.1.1, hf.1.2, hf.2] using hl

/-- How the parser reads fields that end with the host and at most one framing field. -/
structure Framed (read : Gathered) (clTokens teValues : List Octets) : Prop where
  lengths : read.clTokens = clTokens
  codings : read.teValues = teValues
  coherent : hostCoherent .http11 read = true

theorem UpstreamUri.trimOws_authority (uri : UpstreamUri acceptsUri) :
    trimOws uri.authority = uri.authority := by
  apply trimOws_eq_self
  have hle := uri.visible
  rw [all_eq_true] at hle ⊢
  intro b hi
  have hl := hle b hi
  simp only [Bool.and_eq_true, decide_eq_true_eq] at hl
  simp only [Bool.not_eq_true', isOws, Bool.or_eq_false_iff, decide_eq_false_iff_not]
  constructor
  · rintro rfl
    exact absurd hl.1 (by decide)
  · rintro rfl
    exact absurd hl.1 (by decide)

section Read

variable (uri : UpstreamUri acceptsUri) (hdrs : HeaderMap)

theorem framed_host : Framed ((hostedHeaders uri hdrs).foldl add {}) [] [] := by
  have hp := foldl_add_plain (fun f (hk : f ∈ plainHeaders hdrs) =>
    (mem_filter.mp hk).2) {}
  rw [hostedHeaders, foldl_append, foldl_cons, foldl_nil]
  generalize (plainHeaders hdrs).foldl add {} = read at hp
  obtain ⟨hl, hc, hco, _⟩ := hp
  have hno : ¬HeaderName.HOST = .CONTENT_LENGTH := by decide
  have hn : ¬HeaderName.HOST = .TRANSFER_ENCODING := by decide
  refine ⟨?_, ?_, ?_⟩
  · simpa [add, hno, hn] using hl
  · simpa [add, hno, hn] using hc
  · simp [add, hno, hn, hostCoherent, hco, trimmed,
      UpstreamUri.host, uri.trimOws_authority, uri.named]

theorem framed_length (len : Nat) : Framed ((hostedHeaders uri hdrs ++
      [(HeaderName.CONTENT_LENGTH, ofNat len)]).foldl add {}) [decimal len] [] := by
  have hh := framed_host uri hdrs
  rw [foldl_append, foldl_cons, foldl_nil]
  generalize (hostedHeaders uri hdrs).foldl add {} = read at hh
  have hu : trimOws (decimal len) = decimal len :=
    trimOws_eq_self (all_decimal (by decide) len)
  have hd : (decimal len).all isDigit = true := all_decimal (by decide) len
  have hs : splitOn 0x2C (decimal len) = [decimal len] :=
    splitOn_of_not_mem (not_mem_of_all hd 0x2C (by decide))
  refine ⟨?_, ?_, ?_⟩
  · simp [add, hh.lengths, trimmed, ofNat, hu, hs]
  · simpa [add] using hh.codings
  · simpa [add, hostCoherent] using hh.coherent

theorem framed_chunked : Framed ((hostedHeaders uri hdrs ++
      [(HeaderName.TRANSFER_ENCODING, HeaderValue.CHUNKED)]).foldl add {})
      [] [ascii "chunked"] := by
  have hh := framed_host uri hdrs
  rw [foldl_append, foldl_cons, foldl_nil]
  generalize (hostedHeaders uri hdrs).foldl add {} = read at hh
  have hn : ¬HeaderName.TRANSFER_ENCODING = .CONTENT_LENGTH := by decide
  have hc : HeaderValue.CHUNKED.trimmed.bytes = ascii "chunked" := by decide
  refine ⟨?_, ?_, ?_⟩
  · simpa [add, hn] using hh.lengths
  · simp [add, hn, hh.codings, hc]
  · simpa [add, hn, hostCoherent] using hh.coherent

end Read

theorem declaredLen_forwarded (headers : HeaderMap) :
    declaredLen (forwardedHeaders headers) = declaredLen headers := by
  have hk : HeaderMap.get (forwardedHeaders headers) .CONTENT_LENGTH =
      headers.get .CONTENT_LENGTH := by
    unfold HeaderMap.get forwardedHeaders
    rw [find?_filter]
    congr 2
    funext f
    by_cases hs : f.1 = .CONTENT_LENGTH
    · rw [hs]
      decide
    · simp [hs]
  rw [declaredLen, hk, declaredLen]

theorem declaredLen_lt {headers : HeaderMap} {len : Nat}
    (hd : declaredLen headers = some len) : len < 2 ^ 64 := by
  obtain ⟨text, _, hr⟩ := Option.bind_eq_some_iff.mp hd
  exact parseU64_lt hr

theorem resolveFraming_length {len : Nat} (hs : len < 2 ^ 64) :
    resolveFraming [decimal len] [] true = .ok (.length len) := by
  have hd : (decimal len).all isDigit = true := all_decimal (by decide) len
  simp [resolveFraming, decimal_ne_nil, hd, parseU64_decimal hs]

section Forward

variable (uri : UpstreamUri acceptsUri) (method : Method) (headers : HeaderMap)
  (pieces : List Octets)

/-- What is written after the head, and the framing that the parser finds in the head. -/
inductive Planned : BodyFraming → Octets → Prop where
  | empty (nothing : declaredLen headers = some 0 ∨ declaredLen headers = none ∧ pieces = []) :
      Planned .empty []
  | length (octets : Nat) (declared : declaredLen headers = some (octets + 1)) :
      Planned (.length (octets + 1)) pieces.flatten
  | chunked (undeclared : declaredLen headers = none) :
      Planned .chunked ((pieces.filter fun piece => piece ≠ []).flatMap Chunked.encode ++
        Chunked.encodeLast [])

theorem planned_forward :
    let o := forward uri method headers pieces
    let r := o.plan.2.1.foldl add {}
    ∃ f, Planned headers pieces f (bodyBytes o.plan.1 o.plan.2.2) ∧ hostCoherent .http11 r = true ∧
      resolveFraming r.clTokens r.teValues true = .ok f := by
  have hba := baseHeaders_forward uri method headers pieces
  have hde : declaredLen (forward uri method headers pieces).headers =
    declaredLen headers := declaredLen_forwarded headers
  have hb : (forward uri method headers pieces).body = pieces := rfl
  have hh := framed_host uri headers
  unfold Outgoing.plan
  dsimp only
  rw [hde, hba, hb]
  split
  next hd =>
    refine ⟨.empty, .empty (.inl hd), hh.coherent, ?_⟩
    rw [hh.lengths, hh.codings]
    rfl
  next len hp hd =>
    obtain ⟨oc, rfl⟩ := Nat.exists_eq_succ_of_ne_zero hp
    have hf := framed_length uri headers (oc + 1)
    rw [insert_framing _ _ _ _ (.inl rfl)]
    refine ⟨_, .length oc hd, hf.coherent, ?_⟩
    rw [hf.lengths, hf.codings]
    exact resolveFraming_length (declaredLen_lt hd)
  next undeclared =>
  split
  · refine ⟨.empty, .empty (.inr ⟨undeclared, rfl⟩), hh.coherent, ?_⟩
    rw [hh.lengths, hh.codings]
    rfl
  have hc := framed_chunked uri headers
  rw [insert_framing _ _ _ _ (.inr rfl)]
  refine ⟨_, .chunked undeclared, hc.coherent, ?_⟩
  rw [hc.lengths, hc.codings]
  decide

/-- The length of the field that says how long the body is. -/
def framingSize : Nat :=
  match declaredLen headers, pieces with
  | some 0, _ | none, [] => 0
  | some length, _ => (decimal length).length + 18
  | none, _ :: _ => 28

def fieldSize (field : HeaderName × HeaderValue) : Nat :=
  field.1.bytes.length + field.2.bytes.length + 4

def headSize : Nat :=
  method.bytes.length + uri.path.bytes.length + uri.authority.length +
    ((plainHeaders headers).map fieldSize).sum + framingSize headers pieces + 22

theorem length_fieldLines (fields : HeaderMap) :
    (fieldLines fields).length = (fields.map fieldSize).sum := by
  induction fields with
  | nil => rfl
  | cons field fields ih =>
    have colon : (ascii ": ").length = 2 := rfl
    rw [length_fieldLines_cons, ih, map_cons, sum_cons, fieldSize, fieldLine,
      length_append, length_append, colon]
    omega

theorem length_headBytes :
    (forward uri method headers pieces).headBytes.length = headSize uri method headers pieces := by
  have line : (requestLine method uri.path.bytes).length =
      method.bytes.length + uri.path.bytes.length + 10 := by
    simp [requestLine, show (ascii "HTTP/1.1").length = 8 from rfl]
    omega
  have host : fieldSize (.HOST, uri.host) = uri.authority.length + 8 := by
    change 4 + uri.authority.length + 4 = _
    omega
  have length (octets : Nat) :
      fieldSize (.CONTENT_LENGTH, ofNat octets) = (decimal octets).length + 18 := by
    change 14 + (decimal octets).length + 4 = _
    omega
  have coding : fieldSize (.TRANSFER_ENCODING, HeaderValue.CHUNKED) = 28 := rfl
  have declared : declaredLen (forward uri method headers pieces).headers =
    declaredLen headers := declaredLen_forwarded headers
  have body : (forward uri method headers pieces).body = pieces := rfl
  change (encodeRequestHead method uri.path.bytes _).length = _
  rw [length_encodeRequestHead, length_fieldLines, line]
  unfold headSize framingSize Outgoing.plan
  rw [declared, body, baseHeaders_forward]
  rcases known : declaredLen headers with _ | _ | octets
  · cases pieces with
    | nil =>
      simp [hostedHeaders, host]
      omega
    | cons piece pieces =>
      dsimp only
      rw [insert_framing _ _ _ _ (.inr rfl)]
      simp [hostedHeaders, host, coding]
      omega
  · simp [hostedHeaders, host]
    omega
  · simp only [insert_framing uri headers .CONTENT_LENGTH (ofNat (octets + 1)) (.inl rfl)]
    simp [hostedHeaders, host, length]
    omega

/-- The conditions under which a request can be forwarded as it is. -/
structure Forwardable : Prop where
  declared : ∀ length, declaredLen headers = some length → length = pieces.flatten.length
  unconnected : method ≠ .CONNECT
  small : headSize uri method headers pieces < MAX_HEAD + 2

theorem delimited_iff {framing : BodyFraming} {written : Octets}
    (hpl : Planned headers pieces framing written) (hf : written.length < 2 ^ 64) :
    Delimits framing written pieces.flatten ↔
      ∀ length, declaredLen headers = some length → length = pieces.flatten.length := by
  cases hpl with
  | empty hn =>
    rcases hn with hd | ⟨hu, rfl⟩
    · rw [hd]
      generalize pieces.flatten = body
      cases body <;> simp [Delimits]
    · simp [hu, Delimits]
  | length octets hd => simp [hd, Delimits]
  | chunked hu =>
    have hp : ∀ piece ∈ pieces.filter (fun piece => piece ≠ []), piece ≠ [] := by
      intro piece hk
      simpa using (mem_filter.mp hk).2
    have hde := Chunked.decode_encoded [] hp (forall_mem_nil _) hf
    rw [append_nil] at hde
    have hs : (pieces.filter fun piece => piece ≠ []).flatten = pieces.flatten := by
      simpa using flatten_filter_ne_nil
    rw [hs] at hde
    rw [hu]
    exact ⟨fun _ length hd => (nomatch hd), fun _ => hde⟩

theorem oneRequest_forward_iff (hf : (forward uri method headers pieces).written.length < 2 ^ 64) :
    OneRequest acceptsUri (forward uri method headers pieces).written pieces.flatten ↔
      Forwardable uri method headers pieces := by
  obtain ⟨f, hpl, hc, hrd⟩ := planned_forward uri method headers pieces
  have hb := delimited_iff headers pieces hpl (by
    rw [Outgoing.written, length_append] at hf
    omega)
  have size := length_headBytes uri method headers pieces
  by_cases hr : method = .CONNECT ∨
      MAX_HEAD + 2 ≤ (forward uri method headers pieces).headBytes.length
  · constructor
    · rintro ⟨head, c, hp, _⟩
      exact absurd hp (parseRequestHead_refused method uri.path _ _ hr head c)
    · rintro ⟨_, hu, hs⟩
      exact absurd (hr.resolve_left hu) (by omega)
  rw [not_or, Nat.not_le] at hr
  have hp := parseRequestHead_encoded method uri.path _
    (bodyBytes (forward uri method headers pieces).plan.1
      (forward uri method headers pieces).plan.2.2) hr.1 hr.2 hc hrd
  have hre : (forward uri method headers pieces).written.drop
      (forward uri method headers pieces).headBytes.length =
        bodyBytes (forward uri method headers pieces).plan.1
          (forward uri method headers pieces).plan.2.2 := drop_left
  constructor
  · rintro ⟨head, c, hco, hde⟩
    cases hp.symm.trans hco
    exact ⟨hb.mp (hre ▸ hde), hr.1, size ▸ hr.2⟩
  · rintro ⟨hd, _, _⟩
    exact ⟨_, _, hp, hre.symm ▸ hb.mpr hd⟩

end Forward

end BoatRamp.Proxy

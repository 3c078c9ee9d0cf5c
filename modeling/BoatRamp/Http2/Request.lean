import BoatRamp.Http2.Hpack

/-!
# Requests from header lists

A decoded header block becomes a request: the pseudo-fields come first and once
each, the names are in small letters and no field belongs to the connection.
-/

namespace BoatRamp.Http2

open Http Option

structure Request where
  method : Method
  uri : Octets
  headers : HeaderMap
  deriving DecidableEq

def FORBIDDEN : List Octets :=
  ["connection", "keep-alive", "proxy-connection", "transfer-encoding", "upgrade"].map ascii

variable (name : Octets)

def isConnectionSpecific : Bool :=
  FORBIDDEN.contains (name.map toLowercase)

structure Fields where
  method : Option Octets := none
  path : Option Octets := none
  authority : Option Octets := none
  scheme : Bool := false
  seenRegular : Bool := false
  headers : HeaderMap := []

def Fields.read (fields : Fields) (field : Octets × Octets) : Option Fields :=
  let (name, value) := field
  if name = [] ∨ name.any isUppercase then none
  else if name.head? = some 0x3A then
    if fields.seenRegular then none
    else if name = ascii ":method" ∧ fields.method = none then
      some { fields with method := some value }
    else if name = ascii ":scheme" ∧ fields.scheme = false then
      some { fields with scheme := true }
    else if name = ascii ":path" ∧ fields.path = none then
      some { fields with path := some value }
    else if name = ascii ":authority" ∧ fields.authority = none then
      some { fields with authority := some value }
    else none
  else if FORBIDDEN.contains name then none
  else if name = ascii "te" ∧ value ≠ ascii "trailers" then none
  else do
    let headerName ← HeaderName.fromBytes name
    let headerValue ← HeaderValue.fromBytes value
    return { fields with
             seenRegular := true, headers := fields.headers.append headerName headerValue }

/-- The request the fields describe; `acceptsUri` is the check of the target's grammar. -/
def Fields.request (acceptsUri : Octets → Bool) (fields : Fields) : Option Request := do
  let method ← fields.method
  if !fields.scheme then none
  else
    let path ← fields.path
    if path = [] then none
    else
      let method ← Method.fromBytes method
      if !acceptsUri path then none
      else
        match fields.authority with
        | none => return ⟨method, path, fields.headers⟩
        | some authority =>
            let host ← HeaderValue.fromBytes authority
            return ⟨method, path, fields.headers.insert .HOST host⟩

def requestFromHeaders (acceptsUri : Octets → Bool) (id : Nat) (headers : HeaderList) :
    Except H2Error Request :=
  match headers.foldlM Fields.read {} with
  | none => .error (.stream id .protocolError)
  | some fields =>
      match fields.request acceptsUri with
      | none => .error (.stream id .protocolError)
      | some request => .ok request

def isPseudo (field : Octets × Octets) : Bool := field.1.head? = some 0x3A

def pseudoField (block : HeaderList) : Option Octets :=
  (block.find? fun field => field.1 = name).map Prod.snd

def regularField (field : Octets × Octets) : Option (HeaderName × HeaderValue) := do
  let name ← HeaderName.fromBytes field.1
  let value ← HeaderValue.fromBytes field.2
  return (name, value)

def regularFields (block : HeaderList) : Option HeaderMap :=
  (block.filter fun field => !isPseudo field).mapM regularField

def withAuthority (fields : HeaderMap) : Option Octets → Option HeaderMap
  | none => some fields
  | some authority => (HeaderValue.fromBytes authority).map (fields.insert .HOST)

structure Describes (block : HeaderList) (request : Request) : Prop where
  method : (pseudoField (ascii ":method") block).bind Method.fromBytes = some request.method
  path : pseudoField (ascii ":path") block = some request.uri
  headers : (regularFields block).bind (fun fields =>
    withAuthority fields (pseudoField (ascii ":authority") block)) = some request.headers

theorem pseudoField_cons (f : Octets × Octets) (b : HeaderList) : pseudoField name (f :: b) =
      (if f.1 = name then some f.2 else none).or (pseudoField name b) := by
  unfold pseudoField
  by_cases hh : f.1 = name <;> simp [hh]

structure Fields.Reads (fields next : Fields) (field : Octets × Octets) : Prop where
  method : next.method =
    fields.method.or (if field.1 = ascii ":method" then some field.2 else none)
  path : next.path = fields.path.or (if field.1 = ascii ":path" then some field.2 else none)
  authority : next.authority =
    fields.authority.or (if field.1 = ascii ":authority" then some field.2 else none)
  headers : if isPseudo field then next.headers = fields.headers
    else ∃ parsed, regularField field = some parsed ∧ next.headers = fields.headers ++ [parsed]

theorem method_ne_path : ascii ":method" ≠ ascii ":path" := by decide

theorem method_ne_authority : ascii ":method" ≠ ascii ":authority" := by decide

theorem path_ne_authority : ascii ":path" ≠ ascii ":authority" := by decide

theorem scheme_ne : ascii ":scheme" ≠ ascii ":method" ∧ ascii ":scheme" ≠ ascii ":path" ∧
    ascii ":scheme" ≠ ascii ":authority" := by decide

open Fields

theorem Fields.read_reads {fs next : Fields} {f : Octets × Octets}
    (hr : fs.read f = some next) : fs.Reads next f := by
  obtain ⟨name, v⟩ := f
  have hps (text : Octets) (hc : text.head? = some 0x3A) (hh : name = text) :
      isPseudo (name, v) = true := by simp [isPseudo, hh, hc]
  simp only [read] at hr
  split at hr
  · cases hr
  split at hr
  next hc =>
    have hm : isPseudo (name, v) = true := by simp [isPseudo, hc]
    split at hr
    · cases hr
    split at hr
    next found =>
      obtain ⟨rfl, hno⟩ := found
      cases hr
      exact ⟨by simp [hno], by simp [method_ne_path], by simp [method_ne_authority], by simp [hm]⟩
    split at hr
    next found =>
      obtain ⟨rfl, _⟩ := found
      cases hr
      exact ⟨by simp [scheme_ne], by simp [scheme_ne], by simp [scheme_ne], by simp [hm]⟩
    split at hr
    next found =>
      obtain ⟨rfl, hno⟩ := found
      cases hr
      exact ⟨by simp [method_ne_path.symm], by simp [hno], by simp [path_ne_authority],
        by simp [hm]⟩
    split at hr
    next found =>
      obtain ⟨rfl, hno⟩ := found
      cases hr
      exact ⟨by simp [method_ne_authority.symm], by simp [path_ne_authority.symm],
        by simp [hno], by simp [hm]⟩
    next => cases hr
  next hc =>
  have hp : isPseudo (name, v) = false := by simp [isPseudo, hc]
  have ho (text : Octets) (hs : text.head? = some 0x3A) : name ≠ text :=
    fun hh => by simp [hps text hs hh] at hp
  split at hr
  · cases hr
  split at hr
  · cases hr
  simp only [bind_eq_bind, bind_eq_some_iff, pure_def, some.injEq] at hr
  obtain ⟨hd, hn, h, hv, rfl⟩ := hr
  refine ⟨?_, ?_, ?_, ?_⟩
  · simp [ho (ascii ":method") (by decide)]
  · simp [ho (ascii ":path") (by decide)]
  · simp [ho (ascii ":authority") (by decide)]
  · rw [hp]
    exact ⟨(hd, h), by simp [regularField, hn, hv], rfl⟩

theorem Fields.foldlM_read {b : HeaderList} {fs l : Fields} (hre : b.foldlM read fs = some l) :
    l.method = fs.method.or (pseudoField (ascii ":method") b) ∧
      l.path = fs.path.or (pseudoField (ascii ":path") b) ∧
      l.authority = fs.authority.or (pseudoField (ascii ":authority") b) ∧
      ∃ r, regularFields b = some r ∧ l.headers = fs.headers ++ r := by
  induction b generalizing fs with
  | nil =>
    cases hre
    simp [pseudoField, regularFields]
  | cons f b ih =>
    rw [List.foldlM_cons] at hre
    obtain ⟨next, hf, hl⟩ := Option.bind_eq_some_iff.mp hre
    have hr := read_reads hf
    obtain ⟨hm, hpa, hau, r, p, hh⟩ := ih hl
    refine ⟨?_, ?_, ?_, ?_⟩
    · rw [hm, hr.method, pseudoField_cons, Option.or_assoc]
    · rw [hpa, hr.path, pseudoField_cons, Option.or_assoc]
    · rw [hau, hr.authority, pseudoField_cons, Option.or_assoc]
    have ha := hr.headers
    cases hk : isPseudo f with
    | true =>
      rw [hk, if_pos rfl] at ha
      refine ⟨r, ?_, hh.trans (by rw [ha])⟩
      simpa [regularFields, hk] using p
    | false =>
      rw [hk, if_neg (by simp)] at ha
      obtain ⟨e, hp, hg⟩ := ha
      refine ⟨e :: r, ?_, ?_⟩
      · simp only [regularFields] at p
        simp [regularFields, hk, hp, p]
      · rw [hh, hg, List.append_assoc, List.singleton_append]

theorem requestFromHeaders_describes {au : Octets → Bool} {id : Nat} {b : HeaderList}
    {req : Request} (ha : requestFromHeaders au id b = .ok req) : Describes b req := by
  unfold requestFromHeaders at ha
  split at ha
  · cases ha
  next fs read =>
  obtain ⟨m, path, a, r, hp, hh⟩ := foldlM_read read
  simp only [none_or, List.nil_append] at m path a hh
  split at ha
  · cases ha
  next bl hd =>
  cases ha
  unfold request at hd
  rw [m, path, a, hh] at hd
  simp only [bind_eq_bind, bind_eq_some_iff, pure_def] at hd
  obtain ⟨mt, hn, hd⟩ := hd
  split at hd
  · cases hd
  obtain ⟨tg, ht, hd⟩ := bind_eq_some_iff.mp hd
  split at hd
  · cases hd
  obtain ⟨v, hv, hd⟩ := bind_eq_some_iff.mp hd
  split at hd
  · cases hd
  split at hd
  next none =>
    cases hd
    exact ⟨by simp [hn, hv], ht, by simp [hp, none, withAuthority]⟩
  next authorityText some =>
  obtain ⟨h, hho, hd⟩ := bind_eq_some_iff.mp hd
  cases hd
  exact ⟨by simp [hn, hv], ht, by simp [hp, some, withAuthority, hho]⟩

end BoatRamp.Http2

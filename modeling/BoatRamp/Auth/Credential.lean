import BoatRamp.Auth.Policy
import BoatRamp.Library.Fallible

/-!
# Delegated credentials

A credential is a root token followed by delegation blocks, each signed by the
holder key its parent declared.  A block carries caveats, which restrict what
the credential may be used for, and may shorten its lifetime; the roles are
those of the root.  The signature scheme and the decoders are parameters.
-/

namespace BoatRamp.Auth

open Library List

inductive CborValue where
  | integer (value : Int)
  | bytes (value : Octets)
  | float (bits : UInt64)
  | text (value : Text)
  | bool (value : Bool)
  | null
  | tag (number : UInt64) (value : CborValue)
  | array (items : List CborValue)
  | map (entries : List (CborValue × CborValue))

inductive Timestamp where
  | wholeSeconds (seconds : Int64)
  | fractionalSeconds (bits : UInt64)

inductive ClaimName where
  | assigned (number : Int)
  | text (name : Text)
  | privateUse (number : Int)

structure ClaimsSet where
  expirationTime : Option Timestamp
  cwtId : Option Octets
  rest : List (ClaimName × CborValue)

inductive TokenError where
  | key (message : Text)
  | invalid (message : Text)
  | claims (message : Text)
  | expired
  deriving DecidableEq

def TokenError.message : TokenError → Text
  | .key message => "token key: ".toList ++ message
  | .invalid message => "token invalid: ".toList ++ message
  | .claims message => "token claims: ".toList ++ message
  | .expired => "token expired".toList

def CLAIM_ROLES : Text := "br_roles".toList

def CLAIM_KIND : Text := "br_kind".toList

def CLAIM_CNF : Text := "br_cnf".toList

def CLAIM_CAVEATS : Text := "br_caveats".toList

def KIND_DELEGATION : Text := "delegation".toList

def MAX_CHAIN_DEPTH : Nat := 8

def MAX_CHAIN_BYTES : Nat := 8 * 1024

variable (claims : ClaimsSet)

def textClaim (name : Text) : Option CborValue :=
  claims.rest.findSome? (fun entry =>
    match entry.1 with
    | .text key => if key = name then some entry.2 else none
    | _ => none)

def claimCnf : Option Text :=
  match textClaim claims CLAIM_CNF with
  | some (.text holder) => some holder
  | _ => none

def hexDigit (value : Nat) : Char := "0123456789abcdef".toList.getD value '0'

def hexEncode (bytes : Octets) : Text :=
  bytes.flatMap fun byte => [hexDigit (byte.toNat / 16), hexDigit (byte.toNat % 16)]

def claimCti : Except TokenError Text :=
  match claims.cwtId with
  | some id => .ok (hexEncode id)
  | none => .error (.invalid "no cti".toList)

/-- The expiry, which must not have passed.  Instants before the epoch count as the epoch. -/
def checkExp (now : UInt64) : Except TokenError (Option UInt64) :=
  let exp := match claims.expirationTime with
    | some (.wholeSeconds seconds) => some (if seconds < 0 then 0 else seconds.toUInt64)
    | _ => none
  match exp with
  | some limit => if now > limit then .error .expired else .ok (some limit)
  | none => .ok none

def minOpt : Option UInt64 → Option UInt64 → Option UInt64
  | some first, some second => some (min first second)
  | some first, none => some first
  | none, second => second

/-- Entries that are no array of one or two texts are dropped. -/
def cborToRoles : CborValue → List GrantedRole
  | .array items =>
      items.filterMap (fun item =>
        match item with
        | .array [.text name] => some ⟨name, none⟩
        | .array [.text name, .text target] => some ⟨name, some target⟩
        | _ => none)
  | _ => []

structure VerifiedToken where
  roles : List GrantedRole
  kind : Text
  cti : Text
  exp : Option UInt64
  cnf : Option Text

def roleToken (exp : Option UInt64) : Except TokenError VerifiedToken := do
  let cti ← claimCti claims
  let read := claims.rest.foldl (fun (found : List GrantedRole × Text) entry =>
    match entry.1 with
    | .text name =>
        if name = CLAIM_ROLES then (cborToRoles entry.2, found.2)
        else if name = CLAIM_KIND then
          match entry.2 with
          | .text kind => (found.1, kind)
          | _ => found
        else found
    | _ => found) ([], [])
  return { roles := read.1, kind := read.2, cti := cti, exp := exp, cnf := claimCnf claims }

structure Caveats where
  onlySite : Option Text
  readOnly : Bool
  notAfter : Option UInt64
  /-- Two blocks pinned different sites. -/
  impossible : Bool
  deriving DecidableEq

def Caveats.default : Caveats := ⟨none, false, none, false⟩

def Caveats.tighten (caveats other : Caveats) : Caveats where
  readOnly := caveats.readOnly || other.readOnly
  impossible := caveats.impossible || other.impossible ||
    match caveats.onlySite, other.onlySite with
    | some first, some second => decide (first ≠ second)
    | _, _ => false
  onlySite :=
    match caveats.onlySite, other.onlySite with
    | none, some site => some site
    | site, _ => site
  notAfter :=
    match caveats.notAfter, other.notAfter with
    | some first, some second => some (min first second)
    | first, none => first
    | none, second => second

def Right.targetTerm (right : Right) : Text := right.target.getD "*".toList

/-- The lifetime is enforced through the expiry and not looked at here. -/
def Caveats.allows (caveats : Caveats) (required : Right) (_now : UInt64) : Bool :=
  if caveats.impossible then false
  else if caveats.readOnly && required.action != .read then false
  else caveats.onlySite.all fun site => required.targetTerm == site

/-- Entries that are unknown or of the wrong type are ignored; of several the last counts. -/
def Caveats.fromCbor : CborValue → Caveats
  | .map entries =>
      entries.foldl (fun caveats entry =>
        match entry with
        | (.text key, .text site) =>
            if key = "only_site".toList then { caveats with onlySite := some site } else caveats
        | (.text key, .bool flag) =>
            if key = "read_only".toList then { caveats with readOnly := flag } else caveats
        | (.text key, .integer value) =>
            if key = "not_after".toList then
              { caveats with
                notAfter := if 0 ≤ value ∧ value < 2 ^ 64 then some (UInt64.ofNat value.toNat)
                  else none }
            else caveats
        | _ => caveats) Caveats.default
  | _ => Caveats.default

inductive TokenAlg where
  | es256
  | ed25519
  deriving DecidableEq

def TokenAlg.label : TokenAlg → Text
  | .es256 => "es256".toList
  | .ed25519 => "ed25519".toList

/-- A decoded signature envelope: the algorithm its header names, if one of ours. -/
structure CoseSign1 where
  alg : Option TokenAlg
  toBeSigned : Octets
  signature : Octets
  payload : Option Octets

structure Scheme (PublicKey : Type) where
  base64Decode : Text → Except Text Octets
  hexDecode : Text → Except Text Octets
  cborFromReader : Octets → Except Text CborValue
  sign1FromTaggedSlice : Octets → Except Text CoseSign1
  claimsFromSlice : Octets → Except Text ClaimsSet
  alg : PublicKey → TokenAlg
  keyFromBytes : TokenAlg → Octets → Except Text PublicKey
  verify : PublicKey → (toBeSigned signature : Octets) → Except TokenError Unit

section Verification

variable {PublicKey : Type} (scheme : Scheme PublicKey)

def splitTagged (spec : Text) : Except TokenError (TokenAlg × Octets) :=
  match splitOnceAt ':' (trim spec) with
  | none => .error (.key "expected \"<alg>:<hex>\"".toList)
  | some (tag, hex) => do
      let alg ←
        if tag = TokenAlg.es256.label then Except.ok TokenAlg.es256
        else if tag = TokenAlg.ed25519.label then .ok .ed25519
        else .error (.key ("unknown token algorithm ".toList ++ debugText tag))
      let bytes ← (scheme.hexDecode hex).mapError fun error => .key ("hex: ".toList ++ error)
      return (alg, bytes)

def keyFromHex (spec : Text) : Except TokenError PublicKey := do
  let (alg, raw) ← splitTagged scheme spec
  (scheme.keyFromBytes alg raw).mapError .key

/-- Check one block under a key; the algorithm is the key's. -/
def verifyEnvelopeBytes (bytes : Octets) (key : PublicKey) : Except TokenError ClaimsSet := do
  let sign1 ← (scheme.sign1FromTaggedSlice bytes).mapError .invalid
  if sign1.alg ≠ some (scheme.alg key) then
    throw (.invalid "algorithm mismatch".toList)
  scheme.verify key sign1.toBeSigned sign1.signature
  match sign1.payload with
  | none => throw (.invalid "no payload".toList)
  | some payload => (scheme.claimsFromSlice payload).mapError .invalid

def decodeCredential (credential : Text) : Except TokenError (List Octets) := do
  let bytes ← (scheme.base64Decode (trim credential)).mapError
    (fun error => .invalid ("base64: ".toList ++ error))
  if bytes.length > MAX_CHAIN_BYTES then
    throw (.invalid "credential exceeds size bound".toList)
  if !bytes.head?.any (fun byte : UInt8 => byte >>> 5 == 4) then
    return [bytes]
  match ← (scheme.cborFromReader bytes).mapError .invalid with
  | .array items =>
      if items.isEmpty || MAX_CHAIN_DEPTH < items.length then
        throw (.invalid "credential chain length out of bounds".toList)
      items.mapM (fun item =>
        match item with
        | .bytes block => .ok block
        | _ => .error (.invalid "malformed chain block".toList))
  | _ => throw (.invalid "malformed credential".toList)

structure VerifiedChain where
  roles : List GrantedRole
  kind : Text
  cti : Text
  exp : Option UInt64
  caveats : Caveats
  leafCnf : Option Text
  deriving DecidableEq

structure Walk where
  exp : Option UInt64
  caveats : Caveats
  cnf : Option Text

def blockClaims (parentCnf : Option Text) (block : Octets) : Except TokenError ClaimsSet := do
  let some holderHex := parentCnf
    | throw (.claims "delegation past a non-delegatable block".toList)
  let holder ← (keyFromHex scheme holderHex).mapError
    (fun error => .claims ("holder key: ".toList ++ error.message))
  let claims ← verifyEnvelopeBytes scheme block holder
  match textClaim claims CLAIM_KIND with
  | some (.text kind) =>
      if kind = KIND_DELEGATION then return claims
      else throw (.claims "not a delegation block".toList)
  | _ => throw (.claims "not a delegation block".toList)

def caveatsOf (claims : ClaimsSet) : Caveats :=
  ((textClaim claims CLAIM_CAVEATS).map Caveats.fromCbor).getD Caveats.default

def Walk.next (now : UInt64) (walk : Walk) (block : Octets) : Except TokenError Walk := do
  let claims ← blockClaims scheme walk.cnf block
  let limit ← checkExp claims now
  return { exp := minOpt walk.exp limit
           caveats := walk.caveats.tighten (caveatsOf claims)
           cnf := claimCnf claims }

def rootToken (root : PublicKey) (now : UInt64) (block : Octets) :
    Except TokenError VerifiedToken := do
  let claims ← verifyEnvelopeBytes scheme block root
  let exp ← checkExp claims now
  roleToken claims exp

def verifyBlocks (root : PublicKey) (now : UInt64) :
    List Octets → Except TokenError VerifiedChain
  | [] => .error (.invalid "empty credential".toList)
  | first :: children => do
      let token ← rootToken scheme root now first
      let walk ← children.foldlM (Walk.next scheme now)
        { exp := token.exp, caveats := Caveats.default, cnf := token.cnf }
      return { roles := token.roles, kind := token.kind, cti := token.cti, exp := walk.exp
               caveats := walk.caveats, leafCnf := walk.cnf }

def verifyCredential (credential : Text) (root : PublicKey) (now : UInt64) :
    Except TokenError VerifiedChain := do
  let blocks ← decodeCredential scheme credential
  verifyBlocks scheme root now blocks

end Verification

open Caveats

theorem Caveats.allows_iff {c : Caveats} {r : Right} {now : UInt64} : c.allows r now = true ↔
      c.impossible = false ∧ (c.readOnly = true → r.action = .read) ∧
        ∀ s ∈ c.onlySite, r.targetTerm = s := by
  unfold allows
  cases c.impossible <;> cases c.readOnly <;> cases c.onlySite <;> simp

theorem Caveats.allows_tighten (c o : Caveats) (r : Right) (now : UInt64) :
    (c.tighten o).allows r now = (c.allows r now && o.allows r now) := by
  rw [Bool.eq_iff_iff, Bool.and_eq_true]
  simp only [allows_iff, tighten, Bool.or_eq_false_iff, Bool.or_eq_true]
  cases c.onlySite with
  | none =>
    cases o.onlySite with
    | none | some y => simp; tauto
  | some x =>
    cases o.onlySite with
    | none => simp; tauto
    | some y =>
      -- different sites are refused by the flag on one side, by the target on the other
      by_cases hs : x = y
      · simp [hs]; tauto
      simp only [hs, Option.mem_some_iff, forall_eq', ne_eq, not_false_eq_true, decide_true]
      constructor
      · intro ha
        exact absurd ha.1.2 (by simp)
      · intro hb
        exact absurd (hb.1.2.2.symm.trans hb.2.2.2) hs

variable (blocks : List Caveats)

def Caveats.combine : Caveats := blocks.foldl tighten Caveats.default

theorem Caveats.allows_foldl_tighten (c : Caveats) (r : Right)
    (now : UInt64) : (blocks.foldl tighten c).allows r now =
      (c.allows r now && blocks.all fun b => b.allows r now) := by
  induction blocks generalizing c with
  | nil => simp
  | cons b rest ih =>
    rw [foldl_cons, ih, allows_tighten, all_cons, Bool.and_assoc]

theorem Caveats.allows_combine (r : Right) (now : UInt64) :
    (combine blocks).allows r now = blocks.all (fun b => b.allows r now) := by
  rw [combine, allows_foldl_tighten]
  simp [allows, default]

def NotEarlier : Option UInt64 → Option UInt64 → Prop
  | none, _ => True
  | some _, none => False
  | some first, some second => second ≤ first

theorem NotEarlier.refl (exp : Option UInt64) : NotEarlier exp exp := by
  cases exp with
  | none => trivial
  | some l => exact UInt64.le_refl l

theorem NotEarlier.trans {x y t : Option UInt64} (he : NotEarlier x y)
    (hl : NotEarlier y t) : NotEarlier x t := by
  cases x with
  | none => trivial
  | some l =>
    cases y with
    | none => exact he.elim
    | some next =>
      cases t with
      | none => exact hl.elim
      | some ls => exact UInt64.le_trans hl he

theorem notEarlier_minOpt (x y : Option UInt64) : NotEarlier x (minOpt x y) := by
  cases x with
  | none => trivial
  | some l =>
    cases y with
    | none => exact UInt64.le_refl l
    | some o => exact Std.min_le_left

section Walks

variable {PublicKey : Type} {scheme : Scheme PublicKey} {now : UInt64}

def caveatsBelow (scheme : Scheme PublicKey) : Option Text → List Octets → List Caveats
  | _, [] => []
  | cnf, block :: rest =>
      match blockClaims scheme cnf block with
      | .error _ => []
      | .ok claims => caveatsOf claims :: caveatsBelow scheme (claimCnf claims) rest

def chainCaveats (scheme : Scheme PublicKey) (root : PublicKey) : List Octets → List Caveats
  | [] => []
  | first :: children =>
      match verifyEnvelopeBytes scheme first root with
      | .error _ => []
      | .ok claims => caveatsBelow scheme (claimCnf claims) children

open Walk

theorem next_eq_ok {w la : Walk} {b : Octets} (hs : next scheme now w b = .ok la) :
    ∃ cl l, blockClaims scheme w.cnf b = .ok cl ∧ checkExp cl now = .ok l ∧
      la = ⟨minOpt w.exp l, w.caveats.tighten (caveatsOf cl), claimCnf cl⟩ := by
  obtain ⟨cl, hc, hr⟩ := bind_eq_ok_iff.mp hs
  obtain ⟨l, hu, hd⟩ := bind_eq_ok_iff.mp hr
  exact ⟨cl, l, hc, hu, (Except.ok.inj hd).symm⟩

variable {blocks : List Octets}

theorem walk_notEarlier {w l : Walk} (hw : blocks.foldlM (next scheme now) w = .ok l) :
    NotEarlier w.exp l.exp := by
  induction blocks generalizing w with
  | nil =>
    cases hw
    exact NotEarlier.refl _
  | cons b rest ih =>
    obtain ⟨m, hs, ho⟩ := bind_eq_ok_iff.mp hw
    obtain ⟨cl, lm, _, _, rfl⟩ := next_eq_ok hs
    exact (notEarlier_minOpt w.exp lm).trans (ih ho)

theorem walk_caveats {w l : Walk} (hw : blocks.foldlM (next scheme now) w = .ok l) :
    l.caveats = (caveatsBelow scheme w.cnf blocks).foldl tighten w.caveats := by
  induction blocks generalizing w with
  | nil =>
    cases hw
    rfl
  | cons b rest ih =>
    obtain ⟨m, hs, ho⟩ := bind_eq_ok_iff.mp hw
    obtain ⟨cl, lm, hc, _, rfl⟩ := next_eq_ok hs
    rw [ih ho, caveatsBelow, hc]
    rfl

/-- A walk along a chain passes the end of every part of it. -/
theorem walk_split {b af : List Octets} {w l : Walk}
    (hw : (b ++ af).foldlM (next scheme now) w = .ok l) :
    ∃ m, b.foldlM (next scheme now) w = .ok m ∧ af.foldlM (next scheme now) m = .ok l := by
  rw [foldlM_append] at hw
  exact bind_eq_ok_iff.mp hw

variable {root : PublicKey}

theorem verifyBlocks_eq_ok {v : VerifiedChain} (ha : verifyBlocks scheme root now blocks = .ok v) :
    ∃ x c t w, blocks = x :: c ∧ rootToken scheme root now x = .ok t ∧
      c.foldlM (next scheme now) ⟨t.exp, default, t.cnf⟩ = .ok w ∧
      v = ⟨t.roles, t.kind, t.cti, w.exp, w.caveats, w.cnf⟩ := by
  cases blocks with
  | nil => cases ha
  | cons x c =>
    obtain ⟨t, ho, hr⟩ := bind_eq_ok_iff.mp ha
    obtain ⟨w, hw, hd⟩ := bind_eq_ok_iff.mp hr
    exact ⟨x, c, t, w, rfl, ho, hw, (Except.ok.inj hd).symm⟩

theorem rootToken_eq_ok {b : Octets} {t : VerifiedToken}
    (ho : rootToken scheme root now b = .ok t) : ∃ cl, verifyEnvelopeBytes scheme b root = .ok cl ∧
      checkExp cl now = .ok t.exp ∧ t.cnf = claimCnf cl := by
  obtain ⟨cl, hc, hr⟩ := bind_eq_ok_iff.mp ho
  obtain ⟨exp, hu, r⟩ := bind_eq_ok_iff.mp hr
  obtain ⟨cti, _, hd⟩ := bind_eq_ok_iff.mp r
  cases hd
  exact ⟨cl, hc, hu, rfl⟩

theorem verified_caveats {v : VerifiedChain} (ha : verifyBlocks scheme root now blocks = .ok v) :
    v.caveats = combine (chainCaveats scheme root blocks) := by
  obtain ⟨x, c, t, w, rfl, ho, hw, rfl⟩ := verifyBlocks_eq_ok ha
  obtain ⟨cl, hc, _, hh⟩ := rootToken_eq_ok ho
  rw [walk_caveats hw, chainCaveats, hc, hh]
  rfl

theorem verifyBlocks_of_part {p : List Octets} {f : VerifiedChain}
    (hac : verifyBlocks scheme root now blocks = .ok f) (hl : p <+: blocks) (hr : p ≠ []) :
    ∃ n, verifyBlocks scheme root now p = .ok n ∧ n.roles = f.roles ∧
      n.kind = f.kind ∧ n.cti = f.cti ∧ NotEarlier n.exp f.exp ∧
      ∀ r, f.caveats.allows r now = true → n.caveats.allows r now = true := by
  obtain ⟨x, c, t, w, rfl, ho, hw, rfl⟩ := verifyBlocks_eq_ok hac
  obtain ⟨af, hj⟩ := hl
  cases p with
  | nil => exact absurd rfl hr
  | cons head b =>
    obtain ⟨rfl, rfl⟩ := cons.inj hj
    obtain ⟨m, he, hla⟩ := walk_split hw
    refine ⟨⟨t.roles, t.kind, t.cti, m.exp, m.caveats, m.cnf⟩, ?_,
      rfl, rfl, rfl, walk_notEarlier hla, ?_⟩
    · simp only [verifyBlocks, ho, he, bind, Except.bind, pure, Except.pure]
    intro r ha
    rw [walk_caveats hla, allows_foldl_tighten, Bool.and_eq_true] at ha
    exact ha.1

end Walks

/-- Delegation only narrows: every part of an accepted chain that keeps its root is accepted too,
with the same roles, for at least as long and for at least the same requests; and the requests the
caveats allow are the same in whichever order the blocks' caveats are combined. -/
theorem delegation_narrows {PublicKey : Type} {scheme : Scheme PublicKey} {root : PublicKey}
    {now : UInt64} {credential : Text} {blocks part : List Octets} {full : VerifiedChain}
    (decoded : decodeCredential scheme credential = .ok blocks)
    (accepted : verifyCredential scheme credential root now = .ok full)
    (leading : part <+: blocks) (rooted : part ≠ []) :
    (∃ narrow, verifyBlocks scheme root now part = .ok narrow ∧
      (∀ shorter, decodeCredential scheme shorter = .ok part →
        verifyCredential scheme shorter root now = .ok narrow) ∧
      narrow.roles = full.roles ∧ narrow.kind = full.kind ∧ narrow.cti = full.cti ∧
      NotEarlier narrow.exp full.exp ∧ ∀ required, full.caveats.allows required now = true →
        narrow.caveats.allows required now = true) ∧
    ∀ order, order.Perm (chainCaveats scheme root blocks) → ∀ required,
      (Caveats.combine order).allows required now = full.caveats.allows required now := by
  have hw : verifyBlocks scheme root now blocks = .ok full := by
    unfold verifyCredential at accepted
    rw [decoded] at accepted
    exact accepted
  constructor
  · obtain ⟨narrow, hv, hf⟩ := verifyBlocks_of_part hw leading rooted
    refine ⟨narrow, hv, ?_, hf⟩
    intro shorter hp
    unfold verifyCredential
    rw [hp]
    exact hv
  intro order hr required
  rw [verified_caveats hw, Caveats.allows_combine, Caveats.allows_combine]
  exact hr.all_eq

namespace Delegated

def rootClaims : ClaimsSet where
  expirationTime := some (.wholeSeconds 2000)
  cwtId := some [0xA7]
  rest := [(.text CLAIM_ROLES, .array [.array [.text "admin".toList]]),
    (.text CLAIM_KIND, .text "role".toList), (.text CLAIM_CNF, .text "ed25519:00".toList)]

def blockSigned : ClaimsSet where
  expirationTime := some (.wholeSeconds 1500)
  cwtId := some [0xB1]
  rest := [(.text CLAIM_KIND, .text KIND_DELEGATION),
    (.text CLAIM_CAVEATS, .map [(.text "read_only".toList, .bool true)])]

def scheme : Scheme Unit where
  base64Decode _ := .ok [0x82]
  hexDecode _ := .ok []
  cborFromReader _ := .ok (.array [.bytes [1], .bytes [2]])
  sign1FromTaggedSlice bytes := .ok ⟨some .ed25519, [], [], some bytes⟩
  claimsFromSlice bytes := .ok (if bytes = [1] then rootClaims else blockSigned)
  alg _ := .ed25519
  keyFromBytes _ _ := .ok ()
  verify _ _ _ := .ok ()

def admin : GrantedRole := ⟨"admin".toList, none⟩

def full : VerifiedChain :=
  ⟨[admin], "role".toList, "a7".toList, some 1500, ⟨none, true, none, false⟩, none⟩

theorem full_accepted : verifyCredential scheme [] () 1000 = .ok full := by decide +kernel

/-- The holder's token still reads and writes until 2000. -/
theorem root_verifies : (∃ narrow, verifyBlocks scheme () 1000 [[1]] = .ok narrow ∧
      (∀ shorter, decodeCredential scheme shorter = .ok [[1]] →
        verifyCredential scheme shorter () 1000 = .ok narrow) ∧
      narrow.roles = full.roles ∧ narrow.kind = full.kind ∧ narrow.cti = full.cti ∧
      NotEarlier narrow.exp full.exp ∧ ∀ required, full.caveats.allows required 1000 = true →
        narrow.caveats.allows required 1000 = true) ∧
    ∀ order, order.Perm (chainCaveats scheme () [[1], [2]]) → ∀ required,
      (Caveats.combine order).allows required 1000 = full.caveats.allows required 1000 :=
  delegation_narrows (by rfl) full_accepted (List.prefix_append [[1]] [[2]]) (by decide)

end Delegated

def ClaimsSet.exp (claims : ClaimsSet) : Option UInt64 :=
  match claims.expirationTime with
  | some (.wholeSeconds seconds) => some (if seconds < 0 then 0 else seconds.toUInt64)
  | _ => none

theorem checkExp_eq_ok {cl : ClaimsSet} {now : UInt64} {exp : Option UInt64}
    (hu : checkExp cl now = .ok exp) : exp = cl.exp ∧ ∀ l ∈ exp, now ≤ l := by
  have hr : checkExp cl now = match cl.exp with
    | some l => if now > l then .error .expired else .ok (some l)
    | none => .ok none := rfl
  rw [hr] at hu
  cases hf : cl.exp with
  | none =>
    rw [hf] at hu
    cases hu
    simp
  | some l =>
    simp only [hf] at hu
    split at hu
    next => cases hu
    next early =>
      cases hu
      simpa using early

/-- An instant that the earlier of two expiries does not pass. -/
theorem minOpt_le_iff {x y : Option UInt64} {b : UInt64} : (∃ l ∈ minOpt x y, l ≤ b) ↔
      (∃ l ∈ x, l ≤ b) ∨ ∃ l ∈ y, l ≤ b := by
  cases x with
  | none => simp [minOpt]
  | some l =>
    cases y with
    | none => simp [minOpt]
    | some o => simp [minOpt, Std.min_le]

section Lifetimes

variable {PublicKey : Type} {scheme : Scheme PublicKey} {now : UInt64} {blocks : List Octets}

def claimsBelow (scheme : Scheme PublicKey) : Option Text → List Octets → List ClaimsSet
  | _, [] => []
  | cnf, block :: rest =>
      match blockClaims scheme cnf block with
      | .error _ => []
      | .ok claims => claims :: claimsBelow scheme (claimCnf claims) rest

def chainClaims (scheme : Scheme PublicKey) (root : PublicKey) : List Octets → List ClaimsSet
  | [] => []
  | first :: children =>
      match verifyEnvelopeBytes scheme first root with
      | .error _ => []
      | .ok claims => claims :: claimsBelow scheme (claimCnf claims) children

theorem walk_exp_le_iff {w la : Walk} {b : UInt64}
    (hw : blocks.foldlM (Walk.next scheme now) w = .ok la) :
    (∃ l ∈ la.exp, l ≤ b) ↔ (∃ l ∈ w.exp, l ≤ b) ∨
      ∃ cl ∈ claimsBelow scheme w.cnf blocks, ∃ l ∈ cl.exp, l ≤ b := by
  induction blocks generalizing w with
  | nil =>
    cases hw
    simp [claimsBelow]
  | cons bl rest ih =>
    obtain ⟨m, hs, ho⟩ := bind_eq_ok_iff.mp hw
    obtain ⟨cl, l, hc, hu, rfl⟩ := next_eq_ok hs
    rw [ih ho, minOpt_le_iff, (checkExp_eq_ok hu).1, claimsBelow, hc]
    simp only [exists_mem_cons_iff, or_assoc]

theorem walk_unexpired {w la : Walk} (hw : blocks.foldlM (Walk.next scheme now) w = .ok la) :
    ∀ cl ∈ claimsBelow scheme w.cnf blocks, ∀ l ∈ cl.exp, now ≤ l := by
  induction blocks generalizing w with
  | nil => simp [claimsBelow]
  | cons b rest ih =>
    obtain ⟨m, hs, ho⟩ := bind_eq_ok_iff.mp hw
    obtain ⟨cl, l, hc, hu, rfl⟩ := next_eq_ok hs
    obtain ⟨rfl, he⟩ := checkExp_eq_ok hu
    rw [claimsBelow, hc, forall_mem_cons]
    exact ⟨he, ih ho⟩

/-- The returned expiry is the earliest that a block of the chain gives, and none has passed. -/
theorem verified_exp {root : PublicKey} {v : VerifiedChain}
    (ha : verifyBlocks scheme root now blocks = .ok v) : (∀ b, (∃ l ∈ v.exp, l ≤ b) ↔
      ∃ cl ∈ chainClaims scheme root blocks, ∃ l ∈ cl.exp, l ≤ b) ∧
    ∀ cl ∈ chainClaims scheme root blocks, ∀ l ∈ cl.exp, now ≤ l := by
  obtain ⟨x, c, t, w, rfl, ho, hw, rfl⟩ := verifyBlocks_eq_ok ha
  obtain ⟨cl, hc, hu, hh⟩ := rootToken_eq_ok ho
  obtain ⟨hg, he⟩ := checkExp_eq_ok hu
  have hb := walk_unexpired hw
  simp only [chainClaims, hc, exists_mem_cons_iff, forall_mem_cons]
  rw [← hg, ← hh]
  exact ⟨fun b => walk_exp_le_iff hw, he, hb⟩

/-- The chain gives an expiry no later than every `not_after` in it. -/
def Dated (scheme : Scheme PublicKey) (root : PublicKey) (blocks : List Octets) : Prop :=
  ∀ caveats ∈ chainCaveats scheme root blocks, ∀ bound ∈ caveats.notAfter,
    ∃ claims ∈ chainClaims scheme root blocks, ∃ limit ∈ claims.exp, limit ≤ bound

/-- An accepted credential honours the `not_after` caveats of its blocks if and only if some block
of the chain also gives an expiry no later than each of them. -/
theorem notAfter_enforced_iff {root : PublicKey} {credential : Text} {verified : VerifiedChain}
    (decoded : decodeCredential scheme credential = .ok blocks)
    (accepted : verifyCredential scheme credential root now = .ok verified) :
    (∀ caveats ∈ chainCaveats scheme root blocks, ∀ bound ∈ caveats.notAfter,
      (∃ limit ∈ verified.exp, limit ≤ bound) ∧ now ≤ bound) ↔ Dated scheme root blocks := by
  unfold verifyCredential at accepted
  rw [decoded] at accepted
  obtain ⟨hea, hu⟩ := verified_exp accepted
  constructor
  · intro hh caveats hm bound hg
    exact (hea bound).mp (hh caveats hm bound hg).1
  intro hd caveats hm bound hg
  obtain ⟨cl, hs, limit, hf, he⟩ := hd caveats hm bound hg
  refine ⟨(hea bound).mpr ⟨cl, hs, limit, hf, he⟩, ?_⟩
  exact UInt64.le_trans (hu cl hs limit hf) he

end Lifetimes

namespace Outdated

/-- A block of the holder that restricts the lifetime by its caveat alone. -/
def caveatOnly : ClaimsSet where
  expirationTime := none
  cwtId := some [0xB2]
  rest := [(.text CLAIM_KIND, .text KIND_DELEGATION),
    (.text CLAIM_CAVEATS, .map [(.text "not_after".toList, .integer 900)])]

def folded : ClaimsSet := { caveatOnly with expirationTime := some (.wholeSeconds 900) }

def scheme (block : ClaimsSet) : Scheme Unit :=
  { Delegated.scheme with
    claimsFromSlice := fun bytes => .ok (if bytes = [1] then Delegated.rootClaims else block) }

def verified (exp : UInt64) : VerifiedChain :=
  ⟨[Delegated.admin], "role".toList, "a7".toList, some exp, ⟨none, false, some 900, false⟩, none⟩

theorem accepted_after_caveat :
    verifyCredential (scheme caveatOnly) [] () 1000 = .ok (verified 2000) ∧
      (⟨none, false, some 900, false⟩ : Caveats) ∈
        chainCaveats (scheme caveatOnly) () [[1], [2]] := by
  decide +kernel

theorem folded_caveats : chainCaveats (scheme folded) () [[1], [2]] =
    [⟨none, false, some 900, false⟩] := by decide +kernel

theorem folded_enforced : (∃ limit ∈ (verified 900).exp, limit ≤ 900) ∧ (800 : UInt64) ≤ 900 := by
  refine (@notAfter_enforced_iff _ (scheme folded) 800 [[1], [2]] () [] (verified 900) (by rfl)
    (by decide +kernel)).mpr ?_ ⟨none, false, some 900, false⟩ (by simp [folded_caveats]) 900 rfl
  intro c hm b hg
  rw [folded_caveats, List.mem_singleton] at hm
  subst hm
  cases hg
  exact ⟨folded, .tail _ (.head _), 900, rfl, UInt64.le_refl 900⟩

end Outdated

end BoatRamp.Auth

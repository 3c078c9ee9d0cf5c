import BoatRamp.Access.Address

/-!
# The client of a request

Behind a trusted proxy the client is named by the header `X-Forwarded-For`, of
which every proxy writes the end.  Only the first line of that header is read.
A request whose header is that one line is resolved by what stands from the
rightmost outside hop on; any other request is resolved as its sender likes.
-/

namespace BoatRamp.Access

open Http Option
open List hiding splitOn

/-- The networks of the address library. -/
structure IpNets where
  Net : Type
  parse : Text → Option Net
  new : IpAddr → Nat → Option Net
  contains : Net → IpAddr → Bool

section Resolution

variable (nets : IpNets)

def parseNet (spec : Text) : Option nets.Net :=
  let spec := trim spec
  match nets.parse spec with
  | some net => some net
  | none =>
      match parseIpAddr (toUtf8 spec) with
      | some ip => nets.new ip (if ip.isIpv4 then 32 else 128)
      | none => none

def ipInAny (ip : IpAddr) (specs : List Text) : Bool :=
  (specs.filterMap (parseNet nets)).any fun net => nets.contains net ip

/-- The part of the visitor policy that says who the client is. -/
structure AccessConfig where
  trustedProxies : List Text

def AccessConfig.isTrustedProxy (config : AccessConfig) (ip : IpAddr) : Bool :=
  ipInAny nets ip config.trustedProxies

def COMMA : UInt8 := 0x2C

def hopAddress (hop : Octets) : Option IpAddr := parseIpAddr (trimOws hop)

def outsideAddress (trustedProxies : List Text) (hop : Octets) : Option IpAddr :=
  (hopAddress hop).filter fun ip => !ipInAny nets ip trustedProxies

def resolveClientIp (peer : IpAddr) (forwardedFor : Option Octets) (trustedProxies : List Text) :
    IpAddr :=
  if trustedProxies = [] ∨ ipInAny nets peer trustedProxies = false then peer
  else
    match forwardedFor with
    | none => peer
    | some chain =>
        ((splitOn COMMA chain).reverse.findSome? (outsideAddress nets trustedProxies)).getD peer

def X_FORWARDED_FOR : HeaderName := ⟨ascii "x-forwarded-for", by decide⟩

def clientIp (access : Option AccessConfig) (peer : IpAddr) (headers : HeaderMap) : IpAddr :=
  let trusted := (access.map AccessConfig.trustedProxies).getD []
  let forwardedFor := (headers.get X_FORWARDED_FOR).bind HeaderValue.toStr
  resolveClientIp nets peer forwardedFor trusted

end Resolution

def forwardedLines (headers : HeaderMap) : List HeaderValue :=
  (headers.filter fun field => field.1 = X_FORWARDED_FOR).map Prod.snd

def forwardedHops (headers : HeaderMap) : List Octets :=
  (forwardedLines headers).flatMap fun line => splitOn COMMA line.bytes

/-- The hops from the rightmost bad one on, or all if there is none. -/
def rightEnd {Hop : Type} (good : Hop → Bool) : List Hop → List Hop
  | [] => []
  | hop :: rest => if rest.all good then hop :: rest else rightEnd good rest

section Ends

variable {Hop : Type} {good : Hop → Bool} {hops : List Hop}

theorem rightEnd_of_all (all : hops.all good = true) : rightEnd good hops = hops := by
  cases hops with
  | nil => rfl
  | cons hop rest =>
    rw [all_cons, Bool.and_eq_true] at all
    rw [rightEnd, if_pos all.2]

theorem all_rightEnd (hops : List Hop) : (rightEnd good hops).all good = hops.all good := by
  induction hops with
  | nil => rfl
  | cons hop rest ih =>
    unfold rightEnd
    split
    · rfl
    · next mixed => rw [ih, all_cons, Bool.eq_false_iff.mpr mixed, Bool.and_false]

theorem rightEnd_append {f : List Hop} (hm : hops.all good = false) :
    rightEnd good (f ++ hops) = rightEnd good hops := by
  induction f with
  | nil => rfl
  | cons hop rest ih =>
    rw [cons_append, rightEnd, if_neg, ih]
    simp [all_append, hm]

theorem findSome?_rightEnd {Found : Type} {f : Hop → Option Found}
    (hs : ∀ hop, good hop = true → f hop = none)
    (hf : ∀ hop, (rightEnd good hops).head? = some hop → (f hop).isSome) :
    hops.reverse.findSome? f = (rightEnd good hops).head?.bind f := by
  induction hops with
  | nil => rfl
  | cons hop rest ih =>
    rw [reverse_cons, findSome?_append]
    unfold rightEnd at hf ⊢
    split at hf
    · next all =>
      have hn : rest.reverse.findSome? f = none := by
        rw [findSome?_eq_none_iff]
        intro o hi
        exact hs o (all_eq_true.mp all o (mem_reverse.mp hi))
      simp [all, hn]
    next mixed =>
    rw [if_neg mixed, ih hf]
    cases hfi : (rightEnd good rest).head? with
    | none =>
      have he : rightEnd good rest = [] := head?_eq_none_iff.mp hfi
      have all : (rightEnd good rest).all good = rest.all good := all_rightEnd rest
      rw [he] at all
      exact absurd all.symm mixed
    | some o =>
      obtain ⟨v, hsa⟩ := isSome_iff_exists.mp (hf o hfi)
      simp [hsa]

theorem head_rightEnd_of_mixed (hm : hops.all good = false) :
    ∃ hop, (rightEnd good hops).head? = some hop ∧ good hop = false := by
  induction hops with
  | nil => cases hm
  | cons hop rest ih =>
    unfold rightEnd
    split
    · next all =>
      rw [all_cons, all, Bool.and_true] at hm
      exact ⟨hop, rfl, hm⟩
    · next some => exact ih (Bool.eq_false_iff.mpr some)

end Ends

section Forgery

variable (nets : IpNets) (config : AccessConfig)

def isTrustedHop (hop : Octets) : Bool :=
  ((hopAddress hop).map (config.isTrustedProxy nets)).getD false

/-- What stands from the rightmost hop on that is not a trusted proxy. -/
def clientEnd (headers : HeaderMap) : List Octets :=
  rightEnd (isTrustedHop nets config) (forwardedHops headers)

/-- Nothing but proxies, or one readable line whose rightmost outside hop is an address. -/
def isPlain (headers : HeaderMap) : Bool :=
  (forwardedHops headers).all (isTrustedHop nets config) ||
    match forwardedLines headers with
    | [line] =>
        line.toStr.isSome && ((clientEnd nets config headers).head?.bind hopAddress).isSome
    | _ => false

def NamesOnlyProxies : Prop :=
  ∀ line : HeaderValue, line.toStr.isSome → ∀ hop ∈ splitOn COMMA line.bytes, ∀ ip,
    hopAddress hop = some ip → config.isTrustedProxy nets ip = true

variable {nets config}

variable {hop : Octets} {line : HeaderValue} {headers : HeaderMap}

open AccessConfig

theorem outsideAddress_of_trusted (trusted : isTrustedHop nets config hop = true) :
    outsideAddress nets config.trustedProxies hop = none := by
  unfold isTrustedHop at trusted
  unfold outsideAddress
  cases hn : hopAddress hop with
  | none => rfl
  | some ip =>
    rw [hn, Option.map_some, Option.getD_some, isTrustedProxy] at trusted
    simp [Option.filter, trusted]

theorem outsideAddress_of_outside {ip : IpAddr} (ho : isTrustedHop nets config hop = false)
    (hn : hopAddress hop = some ip) : outsideAddress nets config.trustedProxies hop = some ip := by
  rw [isTrustedHop, hn, Option.map_some, Option.getD_some, isTrustedProxy] at ho
  simp [outsideAddress, hn, Option.filter, ho]

theorem not_trusted_of_outsideAddress {ip : IpAddr}
    (ho : outsideAddress nets config.trustedProxies hop = some ip) :
    config.isTrustedProxy nets ip = false := by
  obtain ⟨_, hk⟩ := filter_eq_some_iff.mp ho
  simpa [isTrustedProxy] using hk

theorem get_eq_head_forwardedLines (headers : HeaderMap) :
    headers.get X_FORWARDED_FOR = (forwardedLines headers).head? := by
  rw [HeaderMap.get, forwardedLines, head?_map, head?_filter]

variable (nets config) in
def lineAddress (line : HeaderValue) : Option IpAddr :=
  line.toStr.bind fun chain =>
    (splitOn COMMA chain).reverse.findSome? (outsideAddress nets config.trustedProxies)

theorem lineAddress_of_silent
    (hs : ∀ hop ∈ splitOn COMMA line.bytes, outsideAddress nets config.trustedProxies hop = none) :
    lineAddress nets config line = none := by
  unfold lineAddress HeaderValue.toStr
  split
  · rw [bind_some, findSome?_eq_none_iff]
    exact fun hop hi => hs hop (mem_reverse.mp hi)
  · rfl

theorem toStr_of_isSome (hr : line.toStr.isSome) : line.toStr = some line.bytes := by
  unfold HeaderValue.toStr at hr ⊢
  split at hr
  · next visible => rw [if_pos visible]
  · cases hr

theorem lineAddress_of_spoken (hr : line.toStr.isSome) (hi : hop ∈ splitOn COMMA line.bytes)
    (ho : outsideAddress nets config.trustedProxies hop ≠ none) :
    ∃ ip, lineAddress nets config line = some ip ∧ config.isTrustedProxy nets ip = false := by
  rw [lineAddress, toStr_of_isSome hr, bind_some]
  cases hf : (splitOn COMMA line.bytes).reverse.findSome?
      (outsideAddress nets config.trustedProxies) with
  | none =>
    rw [findSome?_eq_none_iff] at hf
    exact absurd (hf hop (mem_reverse.mpr hi)) ho
  | some ip =>
    obtain ⟨o, _, hn⟩ := exists_of_findSome?_eq_some hf
    exact ⟨ip, rfl, not_trusted_of_outsideAddress hn⟩

/-- A line in front of a request whose hops are not all proxies changes neither the right end nor
that the request is not plain. -/
theorem forged_line (hc : isPlain nets config headers = false) (line : HeaderValue) :
    isPlain nets config ((X_FORWARDED_FOR, line) :: headers) = false ∧
      clientEnd nets config ((X_FORWARDED_FOR, line) :: headers) =
        clientEnd nets config headers := by
  have hm : (forwardedHops headers).all (isTrustedHop nets config) = false := by
    rw [isPlain, Bool.or_eq_false_iff] at hc
    exact hc.1
  have hl : forwardedLines ((X_FORWARDED_FOR, line) :: headers) =
      line :: forwardedLines headers := by
    simp [forwardedLines]
  have hops : forwardedHops ((X_FORWARDED_FOR, line) :: headers) =
      splitOn COMMA line.bytes ++ forwardedHops headers := by
    simp [forwardedHops, hl]
  have hs : forwardedLines headers ≠ [] := by
    intro hn
    rw [forwardedHops, hn] at hm
    cases hm
  constructor
  · rw [isPlain, hops, all_append, hm, Bool.and_false, Bool.false_or, hl]
    split
    · next only => exact absurd (cons.inj only).2 hs
    · rfl
  · rw [clientEnd, hops, rightEnd_append hm, clientEnd]

variable {peer : IpAddr} (trusted : config.isTrustedProxy nets peer = true)

include trusted

theorem clientIp_eq (headers : HeaderMap) : clientIp nets (some config) peer headers =
      ((forwardedLines headers).head?.bind (lineAddress nets config)).getD peer := by
  have hp : ¬(config.trustedProxies = [] ∨ ipInAny nets peer config.trustedProxies = false) := by
    rintro (he | ho)
    · rw [isTrustedProxy, he] at trusted
      cases trusted
    · rw [isTrustedProxy, ho] at trusted
      cases trusted
  simp only [clientIp, resolveClientIp, map_some, getD_some, if_neg hp, get_eq_head_forwardedLines]
  cases (forwardedLines headers).head? with
  | none => rfl
  | some line =>
    rw [bind_some, bind_some, lineAddress]
    cases line.toStr <;> rfl

theorem clientIp_of_all (all : (forwardedHops headers).all (isTrustedHop nets config) = true) :
    clientIp nets (some config) peer headers = peer := by
  rw [clientIp_eq trusted]
  cases hf : (forwardedLines headers).head? with
  | none => rfl
  | some line =>
    rw [bind_some, lineAddress_of_silent, getD_none]
    intro hop hi
    apply outsideAddress_of_trusted
    apply all_eq_true.mp all
    exact mem_flatMap.mpr ⟨line, mem_of_head? hf, hi⟩

theorem clientIp_of_plain (hp : isPlain nets config headers = true) :
    clientIp nets (some config) peer headers = ((clientEnd nets config headers).head?.bind
        (outsideAddress nets config.trustedProxies)).getD peer := by
  cases all : (forwardedHops headers).all (isTrustedHop nets config) with
  | true =>
    rw [clientIp_of_all trusted all, clientEnd, rightEnd_of_all all]
    cases hf : (forwardedHops headers).head? with
    | none => rfl
    | some hop =>
      have good := all_eq_true.mp all hop (mem_of_head? hf)
      rw [bind_some, outsideAddress_of_trusted good, getD_none]
  | false =>
    unfold isPlain at hp
    rw [all, Bool.false_or] at hp
    split at hp
    · next line single =>
      rw [Bool.and_eq_true] at hp
      obtain ⟨hr, hn⟩ := hp
      have hops : forwardedHops headers = splitOn COMMA line.bytes := by
        simp [forwardedHops, single]
      rw [clientIp_eq trusted, single, head?_cons, bind_some, lineAddress,
        toStr_of_isSome hr, bind_some, ← hops, clientEnd]
      congr 1
      apply findSome?_rightEnd
      · intro hop good
        exact outsideAddress_of_trusted good
      intro hop hf
      obtain ⟨o, hs, ho⟩ := head_rightEnd_of_mixed all
      obtain rfl : hop = o := by simpa [hf] using hs
      rw [clientEnd, hf, bind_some] at hn
      obtain ⟨ip, ha⟩ := isSome_iff_exists.mp hn
      rw [outsideAddress_of_outside ho ha, isSome_some]
    · cases hp

/-- Among the requests of its kind that agree with it from the rightmost outside hop on, every
request is resolved alike if and only if it is plain, unless all addresses are those of proxies. -/
theorem client_unforgeable_iff (headers : HeaderMap) :
    (∀ other : HeaderMap, isPlain nets config other = isPlain nets config headers →
      clientEnd nets config other = clientEnd nets config headers →
      clientIp nets (some config) peer other = clientIp nets (some config) peer headers) ↔
    isPlain nets config headers = true ∨ NamesOnlyProxies nets config := by
  constructor
  · intro alike
    by_contra hne
    obtain ⟨hc, hn⟩ := not_or.mp hne
    rw [Bool.not_eq_true] at hc
    simp only [NamesOnlyProxies, not_forall] at hn
    obtain ⟨line, hr, hop, hi, ip, ha, outside⟩ := hn
    have resolved (v : HeaderValue) : ((lineAddress nets config v).getD peer) =
          clientIp nets (some config) peer headers := by
      have hsa := alike ((X_FORWARDED_FOR, v) :: headers)
        ((forged_line hc v).1.trans hc.symm) (forged_line hc v).2
      rw [← hsa, clientIp_eq trusted]
      simp [forwardedLines]
    -- an empty line leaves the proxy, the other line names someone outside
    have hsi : lineAddress nets config ⟨[], rfl⟩ = none := lineAddress_of_silent (by
      intro hop hi
      obtain rfl : hop = [] := by simpa [splitOn] using hi
      rfl)
    have hh : outsideAddress nets config.trustedProxies hop ≠ none := by
      rw [outsideAddress_of_outside (by simpa [isTrustedHop, ha] using outside) ha]
      simp
    obtain ⟨f, hs, hun⟩ := lineAddress_of_spoken hr hi hh
    have hsa := (resolved line).trans (resolved ⟨[], rfl⟩).symm
    rw [hs, hsi, Option.getD_some, Option.getD_none] at hsa
    rw [hsa, trusted] at hun
    cases hun
  rintro (plain | ho) other kind hag
  · rw [clientIp_of_plain trusted plain, clientIp_of_plain trusted (kind.trans plain), hag]
  have hu (request : HeaderMap) : clientIp nets (some config) peer request = peer := by
    rw [clientIp_eq trusted]
    cases (forwardedLines request).head? with
    | none => rfl
    | some line =>
      cases hs : lineAddress nets config line with
      | none => simp [hs]
      | some ip =>
        obtain ⟨c, hre, hf⟩ := Option.bind_eq_some_iff.mp hs
        have hr : line.toStr.isSome := by rw [hre, Option.isSome_some]
        obtain rfl : line.bytes = c :=
          Option.some.inj ((toStr_of_isSome hr).symm.trans hre)
        obtain ⟨hop, hi, outside⟩ := exists_of_findSome?_eq_some hf
        have good := ho line hr hop (mem_reverse.mp hi) ip
          (Option.filter_eq_some_iff.mp outside).1
        rw [not_trusted_of_outsideAddress outside] at good
        cases good
  rw [hu, hu]

end Forgery

namespace FrontLine

/-- Networks of one address, which is all that specifications without a length name. -/
def hosts : IpNets where
  Net := IpAddr
  parse _ := none
  new ip _ := some ip
  contains net ip := net = ip

def config : AccessConfig where
  trustedProxies := ["10.0.0.5".toList]

def proxy : IpAddr := .v4 ⟨10, 0, 0, 5⟩

def added : HeaderName × HeaderValue := (X_FORWARDED_FOR, ⟨ascii "203.0.113.7", by decide⟩)

def sent : HeaderName × HeaderValue := (X_FORWARDED_FOR, ⟨ascii "198.51.100.66", by decide⟩)

theorem front_line_believed : config.isTrustedProxy hosts proxy = true ∧
      clientEnd hosts config [sent, added] = clientEnd hosts config [added] ∧
      clientIp hosts (some config) proxy [added] = .v4 ⟨203, 0, 113, 7⟩ ∧
      clientIp hosts (some config) proxy [sent, added] = .v4 ⟨198, 51, 100, 66⟩ := by
  decide +kernel

theorem single_line_kept : config.isTrustedProxy hosts proxy = true ∧
      ∀ other : HeaderMap, isPlain hosts config other = isPlain hosts config [added] →
        clientEnd hosts config other = clientEnd hosts config [added] →
        clientIp hosts (some config) proxy other = clientIp hosts (some config) proxy [added] := by
  have trusted : config.isTrustedProxy hosts proxy = true := by decide +kernel
  have hp : isPlain hosts config [added] = true := by decide +kernel
  exact ⟨trusted, (client_unforgeable_iff trusted [added]).mpr (.inl hp)⟩

end FrontLine

end BoatRamp.Access

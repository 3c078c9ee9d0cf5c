import BoatRamp.Access.Address
import BoatRamp.Library.Fallible
import BoatRamp.Library.Machine
import BoatRamp.Library.SortedMap

/-!
# Upstream targets

A target is resolved once and remembered for a while.  Which addresses a call
may reach depends on the tier that declared the target; the cache is shared by
all tiers, and what it returns is checked again before it is dialled.
-/

namespace BoatRamp.Access

open Library Ipv6Addr

/-- The forms of the long family that carry an address of the short one: mapped, compatible and
translated. -/
inductive Carries : Ipv6Addr → Ipv4Addr → Prop
  | mapped (high low : UInt16) : Carries ⟨0, 0, 0, 0, 0, 0xffff, high, low⟩ (embeddedV4 high low)
  | compatible (high low : UInt16) : Carries ⟨0, 0, 0, 0, 0, 0, high, low⟩ (embeddedV4 high low)
  | translated (high low : UInt16) :
      Carries ⟨0x64, 0xff9b, 0, 0, 0, 0, high, low⟩ (embeddedV4 high low)

theorem Carries.not_global {addr : Ipv6Addr} {inner : Ipv4Addr} (hc : Carries addr inner)
    (hi : ipv4IsGlobal inner = false) : ipv6IsGlobal addr = false := by
  unfold ipv6IsGlobal
  split
  · rfl
  cases hc with
  | mapped high low => simp [toIpv4Mapped, hi]
  | compatible high low =>
    simp [toIpv4Mapped, isNat64, isIpv4Compatible, hi]
  | translated high low => simp [toIpv4Mapped, isNat64, hi]

/-- Which tier's authority governs an upstream. -/
inductive GatewayTargetPolicy where
  | operator
  | projectRaw
  | projectOwnWorkload

/-- The part of the operator's posture that upstreams depend on. -/
structure SecurityPosture where
  allowSitePrivateUpstreams : Bool

def CLOUD_METADATA_IPV4 : Ipv4Addr := ⟨169, 254, 169, 254⟩

def gatewayAddrAllowedFor (ip : IpAddr) (policy : GatewayTargetPolicy) (posture : SecurityPosture) :
    Bool :=
  if ip = .v4 CLOUD_METADATA_IPV4 then false
  else
    match policy with
    | .projectRaw => isGlobalIp ip
    | .projectOwnWorkload => true
    | .operator => posture.allowSitePrivateUpstreams || isGlobalIp ip

structure SocketAddr where
  ip : IpAddr
  port : Nat
  deriving DecidableEq

/-- The addresses of the web, as the URL library reads them. -/
structure Urls where
  Url : Type
  parse : Text → Option Url
  scheme : Url → Text
  hostStr : Url → Option Text
  portOrKnownDefault : Url → Option Nat

structure ResolvedTarget (urls : Urls) where
  parsed : urls.Url
  host : Text
  addr : SocketAddr
  resolvedAt : Nat

structure Refusal where
  status : Nat
  body : String
  deriving DecidableEq

def RESOLVE_TTL : Nat := 15000

def MAX_RESOLVED_TARGETS : Nat := 1024

/-- One call, with what the resolver answers it and the times at which it looks and is done. -/
structure ResolveCall where
  target : Text
  policy : GatewayTargetPolicy
  posture : SecurityPosture
  lookupHost : Text → Nat → List SocketAddr
  startedAt : Nat
  resolvedAt : Nat

section Resolve

variable (urls : Urls)

abbrev TargetCache := SortedMap Text (ResolvedTarget urls)

/-- All addresses must be permitted; the first one is taken. -/
def chooseAddr (policy : GatewayTargetPolicy) (posture : SecurityPosture) :
    List SocketAddr → Except Refusal (Option SocketAddr)
  | [] => .ok none
  | addr :: rest =>
      if gatewayAddrAllowedFor addr.ip policy posture then
        (chooseAddr policy posture rest).map fun _ => some addr
      else .error ⟨403, "gateway upstream not allowed\n"⟩

def resolveFresh (call : ResolveCall) : Except Refusal (ResolvedTarget urls) := do
  let some parsed := urls.parse call.target
    | .error ⟨502, "bad gateway upstream\n"⟩
  unless urls.scheme parsed = "http".toList ∨ urls.scheme parsed = "https".toList do
    .error ⟨502, "gateway upstream scheme not http(s)\n"⟩
  let some host := urls.hostStr parsed
    | .error ⟨502, "gateway upstream missing host\n"⟩
  let port := (urls.portOrKnownDefault parsed).getD 80
  let some addr ← chooseAddr call.policy call.posture (call.lookupHost host port)
    | .error ⟨502, "gateway upstream did not resolve\n"⟩
  return { parsed, host, addr, resolvedAt := call.resolvedAt }

def resolveTarget (cache : TargetCache urls) (call : ResolveCall) :
    TargetCache urls × Except Refusal (ResolvedTarget urls) :=
  let hit := (cache.get? call.target).filter fun hit =>
    call.startedAt - hit.resolvedAt < RESOLVE_TTL
  match hit with
  | some hit => (cache, .ok hit)
  | none =>
      match resolveFresh urls call with
      | .error refusal => (cache, .error refusal)
      | .ok resolved =>
          let cache := if MAX_RESOLVED_TARGETS ≤ cache.entries.length then .empty else cache
          (cache.insert call.target resolved, .ok resolved)

/-- The address a request is sent to: the resolved one, if the tier of this very request permits
it. -/
def dialAddr (call : ResolveCall) (resolved : Except Refusal (ResolvedTarget urls)) :
    Except Refusal SocketAddr := do
  let resolved ← resolved
  if gatewayAddrAllowedFor resolved.addr.ip call.policy call.posture then
    return resolved.addr
  else .error ⟨403, "gateway upstream not allowed\n"⟩

structure DialOutput where
  resolved : Except Refusal (ResolvedTarget urls)
  dialled : Except Refusal SocketAddr

def dialMachine : Machine (TargetCache urls) ResolveCall (DialOutput urls) where
  step cache call :=
    let (cache, resolved) := resolveTarget urls cache call
    (cache, ⟨resolved, dialAddr urls call resolved⟩)

end Resolve

def ResolveCall.isPublicOnly (call : ResolveCall) : Bool :=
  match call.policy with
  | .projectRaw => true
  | .projectOwnWorkload => false
  | .operator => !call.posture.allowSitePrivateUpstreams

/-- The metadata service, under its own address or inside another. -/
def ReachesMetadata (ip : IpAddr) : Prop :=
  ip = .v4 CLOUD_METADATA_IPV4 ∨ ∃ addr, ip = .v6 addr ∧ Carries addr CLOUD_METADATA_IPV4

variable {ip : IpAddr}

theorem isGlobalIp_of_allowed {c : ResolveCall} (hl : c.isPublicOnly = true)
    (ha : gatewayAddrAllowedFor ip c.policy c.posture = true) : isGlobalIp ip = true := by
  unfold gatewayAddrAllowedFor at ha
  unfold ResolveCall.isPublicOnly at hl
  split at ha
  · cases ha
  split at ha
  · exact ha
  · next own => simp [own] at hl
  · next operator => simpa [operator, (by simpa [operator] using hl :
      c.posture.allowSitePrivateUpstreams = false)] using ha

theorem ne_metadata_of_allowed {pol : GatewayTargetPolicy} {p : SecurityPosture}
    (ha : gatewayAddrAllowedFor ip pol p = true) : ip ≠ .v4 CLOUD_METADATA_IPV4 := by
  intro hm
  unfold gatewayAddrAllowedFor at ha
  rw [if_pos hm] at ha
  cases ha

theorem not_reachesMetadata_of_global (hr : isGlobalIp ip = true) : ¬ReachesMetadata ip := by
  have hi : ipv4IsGlobal CLOUD_METADATA_IPV4 = false := by decide
  rintro (rfl | ⟨a, rfl, hc⟩)
  · rw [isGlobalIp, hi] at hr
    cases hr
  · rw [isGlobalIp, hc.not_global hi] at hr
    cases hr

theorem allowed_of_chooseAddr {pol : GatewayTargetPolicy} {p : SecurityPosture}
    {a : List SocketAddr} {ad : SocketAddr} (hc : chooseAddr pol p a = .ok (some ad)) :
    gatewayAddrAllowedFor ad.ip pol p = true := by
  cases a with
  | nil => cases hc
  | cons x rest =>
    unfold chooseAddr at hc
    split at hc
    · next ha =>
      cases hl : chooseAddr pol p rest with
      | error r =>
        rw [hl] at hc
        cases hc
      | ok o =>
        rw [hl] at hc
        cases hc
        exact ha
    · cases hc

section Runs

variable {urls : Urls}

theorem allowed_of_resolveFresh {cl : ResolveCall} {r : ResolvedTarget urls}
    (hd : resolveFresh urls cl = .ok r) :
    gatewayAddrAllowedFor r.addr.ip cl.policy cl.posture = true := by
  unfold resolveFresh at hd
  split at hd
  · dsimp only at hd
    split at hd
    · split at hd
      · obtain ⟨c, ht, hd⟩ := bind_eq_ok_iff.mp hd
        split at hd
        · cases hd
          exact allowed_of_chooseAddr ht
        · cases hd
      · cases hd
    · cases hd
  · cases hd

def TargetCache.Clean (cache : TargetCache urls) : Prop :=
  ∀ target resolved, cache.get? target = some resolved →
    resolved.addr.ip ≠ .v4 CLOUD_METADATA_IPV4

/-- A call answers from the cache or freshly; only the latter changes what is remembered. -/
theorem resolveTarget_clean {c : TargetCache urls} (hc : c.Clean) (cl : ResolveCall) :
    (resolveTarget urls c cl).1.Clean ∧ ∀ r, (resolveTarget urls c cl).2 = .ok r →
        r.addr.ip ≠ .v4 CLOUD_METADATA_IPV4 := by
  unfold resolveTarget
  dsimp only
  split
  · next hit found =>
    refine ⟨hc, ?_⟩
    rintro r hsa
    cases hsa
    exact hc cl.target hit (Option.filter_eq_some_iff.mp found).1
  split
  · exact ⟨hc, fun r hn => by cases hn⟩
  next r fresh =>
  have hp := ne_metadata_of_allowed (allowed_of_resolveFresh fresh)
  refine ⟨?_, fun o hsa => by cases hsa; exact hp⟩
  intro tg o hs
  rw [SortedMap.get?_insert] at hs
  split at hs
  · cases hs
    exact hp
  · split at hs
    · cases hs
    · exact hc tg o hs

theorem allowed_of_dialAddr {c : ResolveCall} {r : Except Refusal (ResolvedTarget urls)}
    {a : SocketAddr} (hd : dialAddr urls c r = .ok a) :
    gatewayAddrAllowedFor a.ip c.policy c.posture = true := by
  obtain ⟨tg, _, hdo⟩ := bind_eq_ok_iff.mp hd
  split at hdo
  · next allowed =>
    cases hdo
    exact allowed
  · cases hdo

structure KeepsFloor (call : ResolveCall) (output : DialOutput urls) : Prop where
  resolved : ∀ target, output.resolved = .ok target → target.addr.ip ≠ .v4 CLOUD_METADATA_IPV4
  dialled : ∀ addr, output.dialled = .ok addr → call.isPublicOnly = true →
    isGlobalIp addr.ip = true ∧ ¬ReachesMetadata addr.ip

theorem step_keepsFloor {c : TargetCache urls} (hc : c.Clean) (cl : ResolveCall) :
    KeepsFloor cl ((dialMachine urls).step c cl).2 where
  resolved := (resolveTarget_clean hc cl).2
  dialled := by
    intro a hd hl
    have hr := isGlobalIp_of_allowed hl (allowed_of_dialAddr hd)
    exact ⟨hr, not_reachesMetadata_of_global hr⟩

end Runs

/-- Along every sequence of calls nothing is resolved to the metadata service, and a call of a tier
that admits public addresses only dials no other, whatever the cache remembers for other tiers.
Internal addresses are not made public by carrying them in a long one. -/
theorem dials_above_floor (urls : Urls) (calls : List ResolveCall) :
    (∀ entry ∈ (dialMachine urls).history .empty calls, KeepsFloor entry.1 entry.2) ∧
      ∀ addr inner, Carries addr inner → ipv4IsGlobal inner = false →
        isGlobalIp (.v6 addr) = false := by
  constructor
  · have hi : TargetCache.Clean (SortedMap.empty : TargetCache urls) := by
      intro tg resolved hs
      cases hs
    apply Machine.outputs_of_invariant KeepsFloor
      (fun _ call hc _ => (resolveTarget_clean hc call).1)
      (fun _ call hc _ => step_keepsFloor hc call) hi
    exact (dialMachine urls).meets_of_forall _ fun _ _ => trivial
  · intro addr inner hca hin
    exact hca.not_global hin

namespace SharedEntry

def web : Urls where
  Url := Unit
  parse _ := some ()
  scheme _ := "http".toList
  hostStr _ := some "db.internal".toList
  portOrKnownDefault _ := some 80

def lookedUp (policy : GatewayTargetPolicy) (startedAt : Nat) : ResolveCall where
  target := "http://db.internal".toList
  policy := policy
  posture := ⟨true⟩
  lookupHost _ port := [⟨.v4 ⟨10, 0, 0, 7⟩, port⟩]
  startedAt := startedAt
  resolvedAt := startedAt

/-- A site may reach the private address, and so it is remembered. -/
def shared : TargetCache web := ((dialMachine web).step .empty (lookedUp .operator 0)).1

theorem remembered_private_answered :
    ((((dialMachine web).step shared (lookedUp .projectRaw 1000)).2.resolved.toOption).map
        (fun target => target.addr.ip)) = some (.v4 ⟨10, 0, 0, 7⟩) ∧
      isGlobalIp (.v4 ⟨10, 0, 0, 7⟩) = false ∧
      ((dialMachine web).step shared (lookedUp .projectRaw 1000)).2.dialled =
        .error ⟨403, "gateway upstream not allowed\n"⟩ := by
  decide +kernel

theorem shared_above_floor : KeepsFloor (lookedUp .projectRaw 1000)
        ((dialMachine web).step shared (lookedUp .projectRaw 1000)).2 ∧
      isGlobalIp (.v6 ⟨0, 0, 0, 0, 0, 0xffff, 0xa9fe, 0xa9fe⟩) = false := by
  obtain ⟨hk, hc⟩ := dials_above_floor web [lookedUp .operator 0, lookedUp .projectRaw 1000]
  refine ⟨hk (lookedUp .projectRaw 1000, _) ?_, hc _ _ (.mapped 0xa9fe 0xa9fe) (by decide)⟩
  exact List.mem_cons_of_mem _ (List.mem_singleton.mpr rfl)

end SharedEntry

end BoatRamp.Access

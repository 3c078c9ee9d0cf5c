import BoatRamp.Access.Client
import BoatRamp.Access.Targets

/-!
# Two forms of one address

A block of addresses matches addresses of its own family only, so that the rules
of a site can treat an address and its mapped form differently.  The check of a
declared target knows fewer forms than the check of a dialled one.
-/

namespace BoatRamp.Access

structure IpRules where
  allow : List Text
  deny : List Text

def IpRules.allows (nets : IpNets) (rules : IpRules) (ip : IpAddr) : Bool :=
  if ipInAny nets ip rules.deny then false
  else if rules.allow = [] then true
  else ipInAny nets ip rules.allow

structure VisitorAccess extends AccessConfig where
  ip : IpRules

/-- How an address of the short family arrives where both families are served. -/
def Ipv4Addr.toIpv6Mapped (addr : Ipv4Addr) : Ipv6Addr :=
  ⟨0, 0, 0, 0, 0, 0xffff, addr.first.toUInt16 <<< 8 ||| addr.second.toUInt16,
    addr.third.toUInt16 <<< 8 ||| addr.fourth.toUInt16⟩

namespace IpAddr

def octets : IpAddr → List Nat
  | .v4 addr => [addr.first, addr.second, addr.third, addr.fourth].map UInt8.toNat
  | .v6 addr => [addr.s0, addr.s1, addr.s2, addr.s3, addr.s4, addr.s5, addr.s6, addr.s7].flatMap
      fun group => [group.toNat / 256, group.toNat % 256]

/-- The bits of the octets, the highest of each first. -/
def written (octets : List Nat) : List Bool :=
  octets.flatMap fun octet => (List.range 8).map fun place => octet.testBit (7 - place)

def bits (ip : IpAddr) : List Bool := written ip.octets

theorem length_bits (ip : IpAddr) : ip.bits.length = if ip.isIpv4 then 32 else 128 := by
  cases ip <;> rfl

end IpAddr

/-- The twelve octets in front of every mapped address. -/
def MAPPED : List Nat := List.replicate 10 0 ++ [0xff, 0xff]

theorem group_octets (high low : UInt8) :
    let group := (high.toUInt16 <<< 8 ||| low.toUInt16).toNat
    [group / 256, group % 256] = [high.toNat, low.toNat] := by
  have := high.toNat_lt
  have small := low.toNat_lt
  have shifted : (high.toUInt16 <<< 8).toNat = high.toNat <<< 8 := by
    simp [Nat.shiftLeft_eq]
    omega
  have joined : (high.toUInt16 <<< 8 ||| low.toUInt16).toNat = high.toNat * 256 + low.toNat := by
    rw [UInt16.toNat_or, shifted, UInt8.toNat_toUInt16, ← Nat.shiftLeft_add_eq_or_of_lt small,
      Nat.shiftLeft_eq]
  simp only [joined, List.cons.injEq, and_true]
  omega

theorem bits_toIpv6Mapped (addr : Ipv4Addr) : (IpAddr.v6 addr.toIpv6Mapped).bits =
    IpAddr.written MAPPED ++ (IpAddr.v4 addr).bits := by
  have octets : (IpAddr.v6 addr.toIpv6Mapped).octets = MAPPED ++ (IpAddr.v4 addr).octets := by
    simp only [IpAddr.octets, Ipv4Addr.toIpv6Mapped, List.flatMap_cons, group_octets]
    rfl
  rw [IpAddr.bits, octets, IpAddr.written, List.flatMap_append]
  rfl

/-- What is documented of a block: it has an address and a length, and contains the addresses of
the same family that agree with it in so many of the first bits. -/
structure Blocks (nets : IpNets) where
  base : nets.Net → IpAddr
  length : nets.Net → Nat
  contains_iff : ∀ net ip, nets.contains net ip = true ↔ (base net).isIpv4 = ip.isIpv4 ∧
    ip.bits.take (length net) = (base net).bits.take (length net)

section Blocks

variable {nets : IpNets} (blocks : Blocks nets) (specs : List Text) (addr : Ipv4Addr)

/-- A listed block of the short family has the address in it. -/
def InShort : Prop :=
  ∃ net ∈ specs.filterMap (parseNet nets), (blocks.base net).isIpv4 = true ∧
    (IpAddr.v4 addr).bits.take (blocks.length net) =
      (blocks.base net).bits.take (blocks.length net)

/-- A listed block of the long family has mapped addresses in it, and the bits it fixes behind
their first 96 are those of the address. -/
def InMapped : Prop :=
  ∃ net ∈ specs.filterMap (parseNet nets), (blocks.base net).isIpv4 = false ∧
    (IpAddr.written MAPPED).take (blocks.length net) =
      ((blocks.base net).bits.take 96).take (blocks.length net) ∧
    (IpAddr.v4 addr).bits.take (blocks.length net - 96) =
      ((blocks.base net).bits.drop 96).take (blocks.length net - 96)

/-- The list names the address in one of its forms only. -/
def TellsApart : Prop := ¬(InShort blocks specs addr ↔ InMapped blocks specs addr)

theorem ipInAny_v4_iff : ipInAny nets (.v4 addr) specs = true ↔ InShort blocks specs addr := by
  simp only [ipInAny, List.any_eq_true, blocks.contains_iff, InShort, IpAddr.isIpv4]

theorem ipInAny_mapped_iff :
    ipInAny nets (.v6 addr.toIpv6Mapped) specs = true ↔ InMapped blocks specs addr := by
  rw [ipInAny, List.any_eq_true, InMapped]
  refine exists_congr fun net => and_congr_right' ?_
  rw [blocks.contains_iff, IpAddr.isIpv4]
  refine and_congr_right fun long => ?_
  have front : ((blocks.base net).bits.take 96).length = 96 := by
    simp [IpAddr.length_bits, long]
  have mapped : (IpAddr.written MAPPED).length = 96 := rfl
  -- both sides are cut behind the 96 bits that mapped addresses share
  rw [bits_toIpv6Mapped]
  conv_lhs => rw [← List.take_append_drop 96 (blocks.base net).bits]
  rw [List.take_append, List.take_append, front, mapped]
  constructor
  · exact fun same => List.append_inj same
      (by rw [List.length_take, List.length_take, front, mapped])
  · rintro ⟨ahead, behind⟩
    rw [ahead, behind]

/-- An address and its mapped form are treated alike exactly when the list of proxies does not
tell them apart, and neither do the rules: the list of denied blocks only where the form that it
leaves is not allowed either, that of allowed blocks only where one of the forms is denied. -/
theorem spelling_irrelevant_iff (access : VisitorAccess) :
    (access.ip.allows nets (.v4 addr) = access.ip.allows nets (.v6 addr.toIpv6Mapped) ∧
      access.isTrustedProxy nets (.v4 addr) = access.isTrustedProxy nets (.v6 addr.toIpv6Mapped)) ↔
    ((TellsApart blocks access.ip.deny addr → access.ip.allow ≠ [] ∧
          (InShort blocks access.ip.deny addr → ¬InMapped blocks access.ip.allow addr) ∧
          (InMapped blocks access.ip.deny addr → ¬InShort blocks access.ip.allow addr)) ∧
        (TellsApart blocks access.ip.allow addr →
          InShort blocks access.ip.deny addr ∨ InMapped blocks access.ip.deny addr)) ∧
      ¬TellsApart blocks access.trustedProxies addr := by
  apply and_congr
  · simp only [IpRules.allows, ← ipInAny_v4_iff, ← ipInAny_mapped_iff, TellsApart]
    generalize ipInAny nets (.v4 addr) access.ip.deny = short,
      ipInAny nets (.v6 addr.toIpv6Mapped) access.ip.deny = mapped
    by_cases nothing : access.ip.allow = []
    · cases short <;> cases mapped <;> simp [nothing, ipInAny]
    · generalize ipInAny nets (.v4 addr) access.ip.allow = shortAllowed,
        ipInAny nets (.v6 addr.toIpv6Mapped) access.ip.allow = mappedAllowed
      cases short <;> cases mapped <;> cases shortAllowed <;> cases mappedAllowed <;>
        simp [nothing]
  · rw [TellsApart, not_not, ← ipInAny_v4_iff, ← ipInAny_mapped_iff, ← Bool.eq_iff_iff]
    rfl

end Blocks

namespace DualStack

/-- Blocks as they are documented, of which one is ever read. -/
def tens : IpNets where
  Net := IpAddr × Nat
  parse spec := if spec = "10.0.0.0/8".toList then some (.v4 ⟨10, 0, 0, 0⟩, 8) else none
  new ip length := some (ip, length)
  contains net ip := net.1.isIpv4 = ip.isIpv4 ∧ ip.bits.take net.2 = net.1.bits.take net.2

def blocks : Blocks tens := ⟨Prod.fst, Prod.snd, fun _ _ => decide_eq_true_iff⟩

def access : VisitorAccess := ⟨⟨[]⟩, ⟨[], ["10.0.0.0/8".toList]⟩⟩

theorem mapped_not_denied : access.ip.allows tens (.v4 ⟨10, 0, 0, 1⟩) = false ∧
      access.ip.allows tens (.v6 (Ipv4Addr.toIpv6Mapped ⟨10, 0, 0, 1⟩)) = true := by
  decide

end DualStack

def ipIsPublic : IpAddr → Bool
  | .v4 addr =>
    !(addr.isPrivate || addr.isLoopback || addr.isLinkLocal || addr.isUnspecified ||
      addr.isBroadcast || addr.isDocumentation || addr.first = 0 ||
      (addr.first = 100 && addr.second &&& 0xc0 = 0x40))
  | .v6 addr =>
    !(addr.isLoopback || addr.isUnspecified || addr.s0 &&& 0xfe00 = 0xfc00 ||
      addr.s0 &&& 0xffc0 = 0xfe80)

theorem shared_block_iff (b : UInt8) : b &&& 0xc0 = 0x40 ↔ 64 ≤ b ∧ b < 128 := by
  have ht : ∀ n : Fin 256, UInt8.ofNat n &&& 0xc0 = 0x40 ↔
      64 ≤ UInt8.ofNat n ∧ UInt8.ofNat n < 128 := by
    decide +kernel
  simpa using ht ⟨b.toNat, b.toNat_lt⟩

/-- The addresses that only the check of a dialled address refuses. -/
inductive MissedAtDeclaration : IpAddr → Prop
  | reserved {addr : Ipv4Addr} (hr : 240 ≤ addr.first) : MissedAtDeclaration (.v4 addr)
  | multicast {addr : Ipv6Addr} (hm : addr.isMulticast = true) : MissedAtDeclaration (.v6 addr)
  | carried {addr : Ipv6Addr} {inner : Ipv4Addr} (hc : Carries addr inner)
      (hi : ipv4IsGlobal inner = false) : MissedAtDeclaration (.v6 addr)

theorem ipv4IsGlobal_iff (a : Ipv4Addr) :
    ipv4IsGlobal a = true ↔ ipIsPublic (.v4 a) = true ∧ ¬240 ≤ a.first := by
  simp only [ipv4IsGlobal, ipIsPublic, Bool.not_eq_true', Bool.or_eq_false_iff,
    Bool.and_eq_false_iff, decide_eq_false_iff_not, shared_block_iff, not_and_or]
  tauto

theorem Carries.isPublic {a : Ipv6Addr} {i : Ipv4Addr} (hc : Carries a i)
    (hl : a.isLoopback = false) (hu : a.isUnspecified = false) : ipIsPublic (.v6 a) = true := by
  have hs : ¬(0x64 : UInt16) &&& 0xfe00 = 0xfc00 ∧ ¬(0x64 : UInt16) &&& 0xffc0 = 0xfe80 := by
    decide
  rw [ipIsPublic, hl, hu]
  cases hc <;> simp [hs]

/-- A long address is judged by the short one it carries, or else as it is when declared. -/
theorem ipv6IsGlobal_cases {a : Ipv6Addr} (hl : a.isLoopback = false) (hu : a.isUnspecified = false)
    (ht : a.isMulticast = false) : (∃ i, Carries a i ∧ ipv6IsGlobal a = ipv4IsGlobal i) ∨
      ipv6IsGlobal a = ipIsPublic (.v6 a) := by
  rw [ipv6IsGlobal, ipIsPublic, hl, hu, ht, Bool.or_self, Bool.or_self, if_neg Bool.false_ne_true]
  obtain ⟨s0, s1, s2, s3, s4, s5, h, low⟩ := a
  split
  · next m hs =>
    simp only [Ipv6Addr.toIpv4Mapped, Option.ite_none_right_eq_some, Option.some.injEq] at hs
    obtain ⟨⟨rfl, rfl, rfl, rfl, rfl, rfl⟩, rfl⟩ := hs
    exact .inl ⟨_, .mapped h low, rfl⟩
  split
  · next hn =>
    simp only [Ipv6Addr.isNat64, Bool.and_eq_true, decide_eq_true_eq] at hn
    obtain ⟨⟨⟨⟨⟨rfl, rfl⟩, rfl⟩, rfl⟩, rfl⟩, rfl⟩ := hn
    exact .inl ⟨_, .translated h low, rfl⟩
  split
  · next hn =>
    simp only [Ipv6Addr.isIpv4Compatible, Bool.and_eq_true, decide_eq_true_eq] at hn
    obtain ⟨⟨⟨⟨⟨rfl, rfl⟩, rfl⟩, rfl⟩, rfl⟩, rfl⟩ := hn
    exact .inl ⟨_, .compatible h low, rfl⟩
  · right
    split <;> simp [*]

/-- What is dialled is what is accepted when declared, the missed addresses apart. -/
theorem isGlobalIp_iff_public (ip : IpAddr) :
    isGlobalIp ip = true ↔ ipIsPublic ip = true ∧ ¬MissedAtDeclaration ip := by
  cases ip with
  | v4 a =>
    rw [isGlobalIp, ipv4IsGlobal_iff]
    apply and_congr_right'
    constructor
    · rintro hn (hr | _ | _)
      exact hn hr
    · exact fun hn hr => hn (.reserved hr)
  | v6 a =>
    rw [isGlobalIp]
    by_cases hs : (a.isLoopback || a.isUnspecified) = true
    · simp [ipv6IsGlobal, ipIsPublic, hs]
    simp only [Bool.or_eq_true, not_or, Bool.not_eq_true] at hs
    obtain ⟨hl, hu⟩ := hs
    by_cases hm : a.isMulticast = true
    · simp [ipv6IsGlobal, hm, MissedAtDeclaration.multicast hm]
    rcases ipv6IsGlobal_cases hl hu (Bool.eq_false_iff.mpr hm) with ⟨i, hc, hi⟩ | hi
    · rw [hc.isPublic hl hu, hi, eq_self, true_and, ← Bool.not_eq_false, not_iff_not]
      constructor
      · exact .carried hc
      · rintro (_ | ht | ⟨hd, hf⟩)
        · exact absurd ht hm
        · rw [← hi, hd.not_global hf]
    · rw [hi, iff_self_and]
      rintro hp (_ | ht | ⟨hd, hf⟩)
      · exact hm ht
      · rw [← hi, hd.not_global hf] at hp
        cases hp

/-- A private address in its mapped form, a reserved address and a multicast group. -/
theorem public_only_when_declared :
    let mapped := .v6 (Ipv4Addr.toIpv6Mapped ⟨10, 0, 0, 1⟩)
    let reserved := .v4 ⟨250, 0, 0, 1⟩
    let group := .v6 ⟨0xff02, 0, 0, 0, 0, 0, 0, 1⟩
    [mapped, reserved, group].all (fun ip => ipIsPublic ip && !isGlobalIp ip) = true := by
  decide

end BoatRamp.Access

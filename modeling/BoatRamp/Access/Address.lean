import BoatRamp.Http.Fields

/-!
# Internet addresses

Addresses of both families, their textual forms and which of them are reachable
from everywhere.  An address of the long family can carry one of the short
family inside; such an address is classified by the one it carries.
-/

namespace BoatRamp.Access

open Http

structure Ipv4Addr where
  first : UInt8
  second : UInt8
  third : UInt8
  fourth : UInt8
  deriving DecidableEq

/-- Eight groups of sixteen bits. -/
structure Ipv6Addr where
  s0 : UInt16
  s1 : UInt16
  s2 : UInt16
  s3 : UInt16
  s4 : UInt16
  s5 : UInt16
  s6 : UInt16
  s7 : UInt16
  deriving DecidableEq

inductive IpAddr where
  | v4 (addr : Ipv4Addr)
  | v6 (addr : Ipv6Addr)
  deriving DecidableEq

def IpAddr.isIpv4 : IpAddr → Bool
  | .v4 _ => true
  | .v6 _ => false

namespace Ipv4Addr

variable (addr : Ipv4Addr)

def isPrivate : Bool :=
  addr.first = 10 || (addr.first = 172 && 16 ≤ addr.second && addr.second ≤ 31) ||
    (addr.first = 192 && addr.second = 168)

def isLoopback : Bool := addr.first = 127

def isLinkLocal : Bool := addr.first = 169 && addr.second = 254

def isUnspecified : Bool := addr = ⟨0, 0, 0, 0⟩

def isBroadcast : Bool := addr = ⟨255, 255, 255, 255⟩

def isDocumentation : Bool :=
  (addr.first = 192 && addr.second = 0 && addr.third = 2) ||
    (addr.first = 198 && addr.second = 51 && addr.third = 100) ||
    (addr.first = 203 && addr.second = 0 && addr.third = 113)

end Ipv4Addr

def ipv4IsGlobal (addr : Ipv4Addr) : Bool :=
  !(addr.isPrivate || addr.isLoopback || addr.isLinkLocal || addr.isUnspecified ||
    addr.isBroadcast || addr.isDocumentation || addr.first = 0 ||
    (addr.first = 100 && 64 ≤ addr.second && addr.second < 128) || 240 ≤ addr.first)

namespace Ipv6Addr

variable (addr : Ipv6Addr)

def isLoopback : Bool := addr = ⟨0, 0, 0, 0, 0, 0, 0, 1⟩

def isUnspecified : Bool := addr = ⟨0, 0, 0, 0, 0, 0, 0, 0⟩

def isMulticast : Bool := addr.s0 &&& 0xff00 = 0xff00

end Ipv6Addr

def embeddedV4 (high low : UInt16) : Ipv4Addr where
  first := (high >>> 8).toUInt8
  second := high.toUInt8
  third := (low >>> 8).toUInt8
  fourth := low.toUInt8

namespace Ipv6Addr

variable (addr : Ipv6Addr)

def toIpv4Mapped : Option Ipv4Addr :=
  if addr.s0 = 0 ∧ addr.s1 = 0 ∧ addr.s2 = 0 ∧ addr.s3 = 0 ∧ addr.s4 = 0 ∧ addr.s5 = 0xffff then
    some (embeddedV4 addr.s6 addr.s7)
  else none

def isNat64 : Bool :=
  addr.s0 = 0x0064 && addr.s1 = 0xff9b && addr.s2 = 0 && addr.s3 = 0 && addr.s4 = 0 && addr.s5 = 0

def isIpv4Compatible : Bool :=
  addr.s0 = 0 && addr.s1 = 0 && addr.s2 = 0 && addr.s3 = 0 && addr.s4 = 0 && addr.s5 = 0

end Ipv6Addr

def ipv6IsGlobal (addr : Ipv6Addr) : Bool :=
  if addr.isLoopback || addr.isUnspecified || addr.isMulticast then false
  else
    match addr.toIpv4Mapped with
    | some mapped => ipv4IsGlobal mapped
    | none =>
        if addr.isNat64 then ipv4IsGlobal (embeddedV4 addr.s6 addr.s7)
        else if addr.isIpv4Compatible then ipv4IsGlobal (embeddedV4 addr.s6 addr.s7)
        else if addr.s0 &&& 0xfe00 = 0xfc00 then false
        else if addr.s0 &&& 0xffc0 = 0xfe80 then false
        else true

def isGlobalIp : IpAddr → Bool
  | .v4 addr => ipv4IsGlobal addr
  | .v6 addr => ipv6IsGlobal addr

def toDigit (radix : Nat) (byte : UInt8) : Option Nat :=
  let digit :=
    if isDigit byte then some (byte.toNat - 0x30)
    else if 0x61 ≤ byte ∧ byte ≤ 0x66 then some (byte.toNat - 0x61 + 10)
    else if 0x41 ≤ byte ∧ byte ≤ 0x46 then some (byte.toNat - 0x41 + 10)
    else none
  digit.filter fun value => value < radix

/-- A number of at most so many digits below a bound, and what follows it. -/
def readNumber (radix maxDigits : Nat) (allowZeroLead : Bool) (bound : Nat) (input : Octets) :
    Option (Nat × Octets) :=
  let digits := (input.takeWhile fun byte => (toDigit radix byte).isSome).filterMap (toDigit radix)
  let value := digits.foldl (fun value digit => value * radix + digit) 0
  if maxDigits < digits.length ∨ digits = [] then none
  else if !allowZeroLead ∧ digits.head? = some 0 ∧ 1 < digits.length then none
  else if bound ≤ value then none
  else some (value, input.drop digits.length)

def readSeparator {Part : Type} (separator : UInt8) (started : Bool)
    (inner : Octets → Option (Part × Octets)) (input : Octets) : Option (Part × Octets) :=
  if started then
    match input with
    | [] => none
    | byte :: rest => if byte = separator then inner rest else none
  else inner input

def readIpv4Addr (input : Octets) : Option (Ipv4Addr × Octets) := do
  let octet := readNumber 10 3 false 256
  let (first, input) ← readSeparator 0x2E false octet input
  let (second, input) ← readSeparator 0x2E true octet input
  let (third, input) ← readSeparator 0x2E true octet input
  let (fourth, input) ← readSeparator 0x2E true octet input
  return (⟨.ofNat first, .ofNat second, .ofNat third, .ofNat fourth⟩, input)

/-- As many groups as there are, up to a limit; the last two may be a short address, which the flag
tells. -/
def readGroups : (limit : Nat) → (started : Bool) → Octets → List UInt16 × Bool × Octets
  | 0, _, input => ([], false, input)
  | limit + 1, started, input =>
      match if 0 < limit then readSeparator 0x3A started readIpv4Addr input else none with
      | some (addr, rest) =>
          ([.ofNat (addr.first.toNat * 256 + addr.second.toNat),
            .ofNat (addr.third.toNat * 256 + addr.fourth.toNat)], true, rest)
      | none =>
          match readSeparator 0x3A started (readNumber 16 4 true 65536) input with
          | some (group, rest) =>
              let (groups, embedded, rest) := readGroups limit true rest
              (.ofNat group :: groups, embedded, rest)
          | none => ([], false, input)

def Ipv6Addr.ofSegments (segments : List UInt16) : Ipv6Addr where
  s0 := segments.getD 0 0
  s1 := segments.getD 1 0
  s2 := segments.getD 2 0
  s3 := segments.getD 3 0
  s4 := segments.getD 4 0
  s5 := segments.getD 5 0
  s6 := segments.getD 6 0
  s7 := segments.getD 7 0

def readIpv6Addr (input : Octets) : Option (Ipv6Addr × Octets) :=
  let (head, embedded, input) := readGroups 8 false input
  if head.length = 8 then some (.ofSegments head, input)
  else if embedded then none
  else
    match input with
    | 0x3A :: 0x3A :: rest =>
        -- the two colons stand for one group of zeros at least
        let (tail, _, rest) := readGroups (8 - (head.length + 1)) false rest
        let zeros := List.replicate (8 - (head.length + tail.length)) 0
        some (.ofSegments (head ++ zeros ++ tail), rest)
    | _ => none

def parseIpAddr (text : Octets) : Option IpAddr :=
  match (readIpv4Addr text).map (fun read => (IpAddr.v4 read.1, read.2)) <|>
    (readIpv6Addr text).map (fun read => (IpAddr.v6 read.1, read.2)) with
  | some (addr, []) => some addr
  | _ => none

end BoatRamp.Access

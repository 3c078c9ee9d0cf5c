import BoatRamp.Text

/-!
# Header fields

Methods, field names and field values are byte strings whose constructors check
their alphabet, so a value of these types never holds a line break.
-/

namespace BoatRamp.Http

open List

def ascii (text : String) : Octets := toUtf8 text.toList

def SP : UInt8 := 0x20

def HTAB : UInt8 := 0x09

def CR : UInt8 := 0x0D

def LF : UInt8 := 0x0A

def CRLF : Octets := [CR, LF]

variable (byte : UInt8)

def isDigit : Bool := 0x30 ≤ byte && byte ≤ 0x39

def isUppercase : Bool := 0x41 ≤ byte && byte ≤ 0x5A

def isLowercase : Bool := 0x61 ≤ byte && byte ≤ 0x7A

def isHexDigit : Bool :=
  isDigit byte || (0x41 ≤ byte && byte ≤ 0x46) || (0x61 ≤ byte && byte ≤ 0x66)

def toLowercase : UInt8 := if isUppercase byte then byte + 0x20 else byte

def isTchar : Bool :=
  isDigit byte || isUppercase byte || isLowercase byte ||
    (ascii "!#$%&'*+-.^_`|~").contains byte

def isFieldByte : Bool := (0x20 ≤ byte && byte ≠ 0x7F) || byte = HTAB

def isVisibleAscii : Bool := (0x20 ≤ byte && byte < 0x7F) || byte = HTAB

def isOws : Bool := byte = SP || byte = HTAB

variable (bytes : Octets)

def trimOws : Octets :=
  ((bytes.dropWhile isOws).reverse.dropWhile isOws).reverse

def splitOn (separator : UInt8) : Octets → List Octets
  | [] => [[]]
  | byte :: rest =>
      match splitOn separator rest with
      | [] => [[]]
      | piece :: pieces =>
          if byte = separator then [] :: piece :: pieces else (byte :: piece) :: pieces

def digitsValue (digits : Octets) : Nat :=
  digits.foldl (fun value digit => value * 10 + (digit.toNat - 0x30)) 0

def withoutPlus : Octets → Octets
  | 0x2B :: rest => rest
  | bytes => bytes

/-- An unsigned 64-bit number, with an optional plus sign. -/
def parseU64 : Option Nat :=
  let digits := withoutPlus bytes
  if digits = [] ∨ !digits.all isDigit ∨ 2 ^ 64 ≤ digitsValue digits then none
  else some (digitsValue digits)

def digitsOf (base : Nat) : (fuel : Nat) → Nat → List Nat
  | 0, _ => []
  | fuel + 1, number =>
      if number < base then [number]
      else digitsOf base fuel (number / base) ++ [number % base]

def digitByte (digit : Nat) : UInt8 := (ascii "0123456789abcdef").getD digit 0

def decimal (number : Nat) : Octets := (digitsOf 10 (number + 1) number).map digitByte

def hexadecimal (number : Nat) : Octets := (digitsOf 16 (number + 1) number).map digitByte

structure Method where
  bytes : Octets
  token : bytes ≠ [] ∧ bytes.all isTchar = true
  deriving DecidableEq

def Method.fromBytes : Option Method :=
  if token : bytes ≠ [] ∧ bytes.all isTchar = true then some ⟨bytes, token⟩ else none

namespace Method

def GET : Method := ⟨ascii "GET", by decide⟩

def HEAD : Method := ⟨ascii "HEAD", by decide⟩

def POST : Method := ⟨ascii "POST", by decide⟩

def OPTIONS : Method := ⟨ascii "OPTIONS", by decide⟩

def CONNECT : Method := ⟨ascii "CONNECT", by decide⟩

end Method

def MAX_HEADER_NAME_LEN : Nat := 65535

structure HeaderName where
  bytes : Octets
  token : bytes ≠ [] ∧ bytes.all (fun byte => isTchar byte && !isUppercase byte) = true
  deriving DecidableEq

def HeaderName.fromBytes (bytes : Octets) : Option HeaderName :=
  if MAX_HEADER_NAME_LEN < bytes.length then none
  else
    let lower := bytes.map toLowercase
    if token : lower ≠ [] ∧ lower.all (fun byte => isTchar byte && !isUppercase byte) = true then
      some ⟨lower, token⟩
    else none

namespace HeaderName

def HOST : HeaderName := ⟨ascii "host", by decide⟩

def CONTENT_LENGTH : HeaderName := ⟨ascii "content-length", by decide⟩

def TRANSFER_ENCODING : HeaderName := ⟨ascii "transfer-encoding", by decide⟩

def CONNECTION : HeaderName := ⟨ascii "connection", by decide⟩

def UPGRADE : HeaderName := ⟨ascii "upgrade", by decide⟩

def EXPECT : HeaderName := ⟨ascii "expect", by decide⟩

end HeaderName

structure HeaderValue where
  bytes : Octets
  printable : bytes.all isFieldByte = true
  deriving DecidableEq

def HeaderValue.fromBytes (bytes : Octets) : Option HeaderValue :=
  if printable : bytes.all isFieldByte = true then some ⟨bytes, printable⟩ else none

def HeaderValue.fromStr (text : Octets) : Option HeaderValue :=
  if text.all isVisibleAscii then HeaderValue.fromBytes text else none

def HeaderValue.CHUNKED : HeaderValue := ⟨ascii "chunked", by decide⟩

def HeaderValue.toStr (value : HeaderValue) : Option Octets :=
  if value.bytes.all isVisibleAscii then some value.bytes else none

variable {bs : Octets}

theorem not_mem_of_all {g : UInt8 → Bool} (all : bs.all g = true) (b : UInt8)
    (bad : g b = false) : b ∉ bs := by
  intro hi
  rw [all_eq_true] at all
  exact absurd (all b hi) (by simp [bad])

theorem HeaderName.all_isTchar (name : HeaderName) : name.bytes.all isTchar = true := by
  have ht := name.token.2
  rw [all_eq_true] at ht ⊢
  intro b hi
  exact (Bool.and_eq_true_iff.mp (ht b hi)).1

theorem HeaderName.map_toLowercase (name : HeaderName) :
    name.bytes.map toLowercase = name.bytes := by
  have ht := name.token.2
  rw [all_eq_true] at ht
  refine (map_congr_left fun b hi => ?_).trans (map_id _)
  have hs := (Bool.and_eq_true_iff.mp (ht b hi)).2
  rw [Bool.not_eq_true'] at hs
  simp [toLowercase, hs]

theorem HeaderName.bytes_inj {x y : HeaderName} : x.bytes = y.bytes ↔ x = y := by
  constructor
  · intro hs
    cases x
    cases y
    cases hs
    rfl
  · exact congrArg _

theorem HeaderName.fromBytes_bytes {name : HeaderName}
    (hs : name.bytes.length ≤ MAX_HEADER_NAME_LEN) :
    HeaderName.fromBytes name.bytes = some name := by
  unfold HeaderName.fromBytes
  rw [if_neg (by omega), HeaderName.map_toLowercase]
  simp [name.token]

theorem HeaderValue.fromBytes_bytes (value : HeaderValue) :
    HeaderValue.fromBytes value.bytes = some value := by
  simp [HeaderValue.fromBytes, value.printable]

theorem trimOws_cons_blank (bs : Octets) : trimOws (SP :: bs) = trimOws bs := by
  simp [trimOws, isOws]

theorem trimOws_eq_self (hp : bs.all (fun b => !isOws b) = true) : trimOws bs = bs := by
  rw [all_eq_true] at hp
  have hk {ps : Octets} (ha : ∀ b ∈ ps, b ∈ bs) : ps.dropWhile isOws = ps := by
    cases ps with
    | nil => rfl
    | cons x rest =>
      have hv := hp x (ha x (by simp))
      rw [Bool.not_eq_true'] at hv
      simp [hv]
  unfold trimOws
  rw [hk (fun _ hi => hi), hk (fun _ hi => mem_reverse.mp hi), reverse_reverse]

theorem mem_trimOws {b : UInt8} (hi : b ∈ trimOws bs) : b ∈ bs := by
  unfold trimOws at hi
  rw [mem_reverse] at hi
  have hk := (dropWhile_sublist _).subset hi
  rw [mem_reverse] at hk
  exact (dropWhile_sublist _).subset hk

def HeaderValue.trimmed (value : HeaderValue) : HeaderValue :=
  ⟨trimOws value.bytes, by
    have printable := value.printable
    rw [List.all_eq_true] at printable ⊢
    exact fun byte inside => printable byte (mem_trimOws inside)⟩

/-- The fields of a message, several of one name in their order. -/
abbrev HeaderMap := List (HeaderName × HeaderValue)

namespace HeaderMap

def append (map : HeaderMap) (name : HeaderName) (value : HeaderValue) : HeaderMap :=
  map ++ [(name, value)]

def remove (map : HeaderMap) (name : HeaderName) : HeaderMap :=
  map.filter fun field => field.1 ≠ name

def insert (map : HeaderMap) (name : HeaderName) (value : HeaderValue) : HeaderMap :=
  (remove map name).append name value

def get (map : HeaderMap) (name : HeaderName) : Option HeaderValue :=
  (map.find? fun field => field.1 = name).map Prod.snd

def containsKey (map : HeaderMap) (name : HeaderName) : Bool :=
  map.any fun field => field.1 = name

section Lookups

variable {map : HeaderMap} {name o : HeaderName} {value : HeaderValue}

theorem containsKey_eq_isSome : map.containsKey name = (map.get name).isSome := by
  rw [Bool.eq_iff_iff]
  simp [containsKey, get]

theorem get_remove_self : (map.remove name).get name = none := by
  simp [get, remove]

theorem get_remove_of_ne (hd : o ≠ name) : (map.remove name).get o = map.get o := by
  unfold get remove
  rw [find?_filter]
  congr 2
  funext f
  by_cases hs : f.1 = o
  · simp [hs, hd]
  · simp [hs]

theorem get_insert_self : (map.insert name value).get name = some value := by
  have hm : (map.remove name).get name = none := get_remove_self
  simp only [insert, append, get, find?_append]
  rw [Option.map_eq_none_iff.mp hm]
  simp

theorem get_insert_of_ne (hd : o ≠ name) : (map.insert name value).get o = map.get o := by
  have hk : (map.remove name).get o = map.get o := get_remove_of_ne hd
  rw [← hk]
  simp [insert, append, get, find?_append, Ne.symm hd]

end Lookups

end HeaderMap

end BoatRamp.Http

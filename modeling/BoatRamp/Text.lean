import Mathlib.Algebra.Order.BigOperators.Group.List
import Mathlib.Algebra.Order.Group.Nat
import Mathlib.Algebra.GroupWithZero.Nat
import Mathlib.Data.List.Infix
import Mathlib.Order.Lattice
import Mathlib.Data.Char

/-!
# Strings

A string is the list of its characters.  Comparing two of them character by
character agrees with the byte order of their UTF-8 encodings.  The functions
here are the string methods the sources call.
-/

namespace BoatRamp

open List

abbrev Text := List Char

instance : LawfulBEq Text := inferInstanceAs (LawfulBEq (List Char))

def splitOnceAt (separator : Char) : Text → Option (Text × Text)
  | [] => none
  | letter :: rest =>
      if letter = separator then some ([], rest)
      else (splitOnceAt separator rest).map fun parts => (letter :: parts.1, parts.2)

variable (text : Text) {sep : Char}

theorem splitOnceAt_eq_some_iff {text b a : Text} :
    splitOnceAt sep text = some (b, a) ↔ text = b ++ sep :: a ∧ sep ∉ b := by
  induction text generalizing b a with
  | nil => simp [splitOnceAt]
  | cons c rest ih =>
    unfold splitOnceAt
    split
    · next same =>
      subst same
      cases b with
      | nil => simp
      | cons x o =>
        simp only [Option.some.injEq, Prod.mk.injEq, cons_append, cons.injEq, mem_cons, not_or]
        exact ⟨fun he => by simp at he, fun hs => absurd hs.1.1 hs.2.1⟩
    next apart =>
    cases b with
    | nil => simp [apart]
    | cons x o =>
      simp only [Option.map_eq_some_iff, Prod.mk.injEq, cons.injEq, Prod.exists,
        ih, cons_append, mem_cons, not_or]
      constructor
      · rintro ⟨_, _, ⟨rfl, hc⟩, ⟨rfl, rfl⟩, rfl⟩
        exact ⟨⟨rfl, rfl⟩, Ne.symm apart, hc⟩
      · rintro ⟨⟨rfl, rfl⟩, _, hc⟩
        exact ⟨o, a, ⟨rfl, hc⟩, ⟨rfl, rfl⟩, rfl⟩

theorem splitOnceAt_eq_none_iff {text : Text} : splitOnceAt sep text = none ↔ sep ∉ text := by
  induction text with
  | nil => simp [splitOnceAt]
  | cons c rest ih =>
    by_cases same : c = sep
    · simp [splitOnceAt, same]
    · simp [splitOnceAt, same, ih, Ne.symm same]

def rsplitOnceAt (separator : Char) (text : Text) : Option (Text × Text) :=
  (splitOnceAt separator text.reverse).map fun parts => (parts.2.reverse, parts.1.reverse)

theorem rsplitOnceAt_append {b a : Text} (hc : sep ∉ a) :
    rsplitOnceAt sep (b ++ sep :: a) = some (b, a) := by
  have hs : splitOnceAt sep (b ++ sep :: a).reverse = some (a.reverse, b.reverse) := by
    rw [splitOnceAt_eq_some_iff]
    simp [hc]
  rw [rsplitOnceAt, hs]
  simp

def splitLines : Text → List Text
  | [] => [[]]
  | '\r' :: '\n' :: rest => [] :: splitLines rest
  | letter :: rest =>
      match splitLines rest with
      | [] => [[letter]]
      | line :: lines => (letter :: line) :: lines

def stripHead (head text : Text) : Option Text :=
  if head <+: text then some (text.drop head.length) else none

def stripTail (tail text : Text) : Option Text :=
  if tail <:+ text then some (text.take (text.length - tail.length)) else none

def splitAll (separator : Char) : Text → List Text
  | [] => [[]]
  | letter :: rest =>
      match splitAll separator rest with
      | [] => [[]]
      | piece :: pieces =>
          if letter = separator then [] :: piece :: pieces else (letter :: piece) :: pieces

theorem splitAll_ne_nil (sep : Char) (text : Text) : splitAll sep text ≠ [] := by
  cases text with
  | nil => simp [splitAll]
  | cons c rest =>
    unfold splitAll
    split
    next => simp
    next => split <;> simp

theorem flatMap_splitAll (sep : Char) (text : Text) :
    (splitAll sep text).flatMap (sep :: ·) = sep :: text := by
  induction text with
  | nil => simp [splitAll]
  | cons c rest ih =>
    unfold splitAll
    split
    next none => exact absurd none (splitAll_ne_nil sep rest)
    next pc ps split =>
    rw [split, flatMap_cons, cons_append, cons.injEq] at ih
    split
    next same => simp [ih.2, same]
    next => simp [ih.2]

theorem clean_of_mem_splitAll {text pc : Text} (hm : pc ∈ splitAll sep text) : sep ∉ pc := by
  induction text generalizing pc with
  | nil => simp_all [splitAll]
  | cons c rest ih =>
    unfold splitAll at hm
    split at hm
    next => simp_all
    next first ps split =>
    rw [split] at ih
    split at hm
    next =>
      rcases mem_cons.mp hm with rfl | ho
      · exact not_mem_nil
      · exact ih ho
    next apart =>
    rcases mem_cons.mp hm with rfl | ho
    · simp [Ne.symm apart, ih (mem_cons_self ..)]
    · exact ih (mem_cons_of_mem _ ho)

theorem splitAll_of_clean {text : Text} (hc : sep ∉ text) : splitAll sep text = [text] := by
  induction text with
  | nil => rfl
  | cons c rest ih =>
    rw [mem_cons, not_or] at hc
    simp [splitAll, ih hc.2, Ne.symm hc.1]

theorem splitAll_append {x rest : Text} (hc : sep ∉ x) :
    splitAll sep (x ++ sep :: rest) = x :: splitAll sep rest := by
  induction x with
  | nil =>
    rw [nil_append, splitAll]
    split
    next none => exact absurd none (splitAll_ne_nil sep rest)
    next => simp_all
  | cons c tail ih =>
    rw [mem_cons, not_or] at hc
    simp [splitAll, ih hc.2, Ne.symm hc.1]

theorem splitAll_flatMap {ps : List Text} (hc : ∀ pc ∈ ps, sep ∉ pc) :
    splitAll sep (ps.flatMap (sep :: ·)) = [] :: ps := by
  suffices hl : ∀ x, sep ∉ x →
      splitAll sep (x ++ ps.flatMap (sep :: ·)) = x :: ps by
    exact hl [] not_mem_nil
  induction ps with
  | nil => simpa using fun x => splitAll_of_clean
  | cons pc rest ih =>
    rw [forall_mem_cons] at hc
    intro x hf
    rw [flatMap_cons, cons_append, splitAll_append hf, ih hc.2 pc hc.1]

def joinAll (separator : Text) : List Text → Text
  | [] => []
  | [piece] => piece
  | piece :: next :: pieces => piece ++ separator ++ joinAll separator (next :: pieces)

theorem cons_joinAll (sep : Char) {ps : List Text} (hs : ps ≠ []) :
    sep :: joinAll [sep] ps = ps.flatMap (sep :: ·) := by
  induction ps with
  | nil => exact absurd rfl hs
  | cons pc rest ih =>
    cases rest with
    | nil => simp [joinAll]
    | cons next o =>
      rw [flatMap_cons, ← ih (cons_ne_nil _ _), joinAll]
      simp

variable (letter : Char)

def isWhitespace : Bool :=
  (9 ≤ letter.toNat && letter.toNat ≤ 13) ||
    [0x20, 0x85, 0xA0, 0x1680, 0x2028, 0x2029, 0x202F, 0x205F, 0x3000].contains letter.toNat ||
    (0x2000 ≤ letter.toNat && letter.toNat ≤ 0x200A)

def trimStart (dropped : Char → Bool) (text : Text) : Text := text.dropWhile dropped

def trimEnd (dropped : Char → Bool) (text : Text) : Text :=
  (text.reverse.dropWhile dropped).reverse

def trim : Text :=
  ((text.dropWhile isWhitespace).reverse.dropWhile isWhitespace).reverse

def isAsciiDigit : Bool := '0' ≤ letter && letter ≤ '9'

def isAsciiAlphabetic : Bool :=
  ('a' ≤ letter && letter ≤ 'z') || ('A' ≤ letter && letter ≤ 'Z')

def isAsciiAlphanumeric : Bool := isAsciiAlphabetic letter || isAsciiDigit letter

def toAsciiLowercase : Text := text.map Char.toLower

def eqIgnoreAsciiCase (first second : Text) : Bool :=
  toAsciiLowercase first == toAsciiLowercase second

def decimalValue (digits : Text) : Nat :=
  digits.foldl (fun value digit => value * 10 + (digit.toNat - '0'.toNat)) 0

/-- Parse an unsigned number below a bound: an optional plus sign and digits. -/
def parseUnsigned (bound : Nat) (text : Text) : Option Nat :=
  let digits := match text with
    | '+' :: rest => rest
    | other => other
  if digits ≠ [] ∧ digits.all Char.isDigit ∧ decimalValue digits < bound then
    some (decimalValue digits)
  else none

def byteLength : Nat := (text.map Char.utf8Size).sum

abbrev Octets := List UInt8

def toUtf8 : Octets := text.flatMap String.utf8EncodeChar

def utf8Bytes : List Char := (toUtf8 text).map fun byte => Char.ofNat byte.toNat

/-- How many bytes the first byte of a character announces. -/
def sequenceLength (byte : UInt8) : Nat :=
  if byte < 0x80 then 1 else if byte < 0xE0 then 2 else if byte < 0xF0 then 3 else 4

def codePoint : Octets → Nat
  | [] => 0
  | [byte] => byte.toNat
  | [first, second] => first.toNat % 32 * 64 + second.toNat % 64
  | [first, second, third] =>
      first.toNat % 16 * 4096 + second.toNat % 64 * 64 + third.toNat % 64
  | first :: second :: third :: fourth :: _ =>
      first.toNat % 8 * 262144 + second.toNat % 64 * 4096 + third.toNat % 64 * 64 +
        fourth.toNat % 64

/-- Decode one character after the other; each is accepted in its own encoding only. -/
def decodeUtf8 : (fuel : Nat) → Octets → Option Text
  | _, [] => some []
  | 0, _ :: _ => none
  | fuel + 1, byte :: rest =>
      let unit := (byte :: rest).take (sequenceLength byte)
      let letter := Char.ofNat (codePoint unit)
      if String.utf8EncodeChar letter = unit then
        (decodeUtf8 fuel ((byte :: rest).drop (sequenceLength byte))).map (letter :: ·)
      else none

def fromUtf8 (bytes : Octets) : Option Text := decodeUtf8 bytes.length bytes

def debugText : Text :=
  let escaped (letter : Char) : Text :=
    if letter = '"' ∨ letter = '\\' then ['\\', letter]
    else if letter = '\n' then ['\\', 'n']
    else if letter = '\r' then ['\\', 'r']
    else if letter = '\t' then ['\\', 't']
    else if letter.toNat = 0 then ['\\', '0']
    else [letter]
  '"' :: text.flatMap escaped ++ ['"']

end BoatRamp

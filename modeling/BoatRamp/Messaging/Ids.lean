import BoatRamp.Messaging.Record

/-!
# Message ids

Ids start with the publish time in zero-padded decimal milliseconds, followed
by a per-process sequence number and, on a cluster, the node id before it.
-/

namespace BoatRamp.Messaging

open Nat List

def padded (width base number : Nat) : Text :=
  List.leftpad width '0' (Nat.toDigits base number)

def singleNodeId (nowMs : UInt64) (seq : UInt64) : Text :=
  padded 13 10 nowMs.toNat ++ '-' :: padded 16 16 seq.toNat

def nextId (nowMs nodeId : UInt64) (seq : UInt64) : Text :=
  padded 13 10 nowMs.toNat ++ '-' :: (padded 16 16 nodeId.toNat ++ '-' :: padded 16 16 seq.toNat)

def parseU64 (text : Text) : Option UInt64 := (parseUnsigned UInt64.size text).map UInt64.ofNat

def beforeDash (text : Text) : Text := text.takeWhile fun letter => letter ≠ '-'

/-- The publish time embedded in an id, `0` when it does not parse. -/
def idMillis (id : Text) : UInt64 := (parseU64 (beforeDash id)).getD 0

def GROUP_RETENTION_MS : UInt64 := 24 * 60 * 60 * 1000

section Digits

variable {letter : Char} (hun : ∀ digit : Nat, digit.digitChar ≠ letter)

include hun in
theorem notMem_toDigitsCore (b fuel n : Nat) (d : Text)
    (hf : letter ∉ d) : letter ∉ toDigitsCore b fuel n d := by
  induction fuel generalizing n d with
  | zero => exact hf
  | succ fuel ih =>
    have he : letter ∉ digitChar (n % b) :: d := by
      rw [mem_cons, not_or]
      exact ⟨fun hs => hun _ hs.symm, hf⟩
    unfold toDigitsCore
    dsimp only
    split_ifs
    · exact he
    · exact ih _ _ he

include hun in
theorem notMem_padded (w b n : Nat) : letter ∉ padded w b n := by
  have hd : letter ∉ toDigits b n :=
    notMem_toDigitsCore hun b _ n [] (by simp)
  have hp : letter ≠ '0' := fun hs => hun 0 hs.symm
  simp [padded, leftpad, hd, hp]

end Digits

theorem slash_notMem_padded (w b n : Nat) : '/' ∉ padded w b n :=
  notMem_padded (fun _ => Nat.digitChar_ne '/' (by decide)) w b n

theorem dash_notMem_padded (w b n : Nat) : '-' ∉ padded w b n :=
  notMem_padded (fun _ => Nat.digitChar_ne '-' (by decide)) w b n

def hexDigit (letter : Char) : Nat :=
  if letter.isDigit then letter.toNat - '0'.toNat else letter.toNat - 'a'.toNat + 10

def hexValue (text : Text) : Nat :=
  text.foldl (fun value letter => 16 * value + hexDigit letter) 0

theorem hexDigit_digitChar : ∀ digit < 16, hexDigit digit.digitChar = digit := by
  decide

theorem hexValue_append_digit (text : Text) {digit : Nat} (hb : digit < 16) :
    hexValue (text ++ [digit.digitChar]) = 16 * hexValue text + digit := by
  simp [hexValue, hexDigit_digitChar digit hb]

theorem hexValue_toDigits (n : Nat) : hexValue (toDigits 16 n) = n := by
  induction n using base_induction 16 (by decide) with
  | single digit hb =>
    rw [toDigits_of_lt_base hb]
    simpa [hexValue] using hexDigit_digitChar digit hb
  | digit h digit hb hp ih =>
    rw [← toDigits_append_toDigits (by decide) hp hb,
      toDigits_of_lt_base hb, hexValue_append_digit _ hb, ih]

theorem hexValue_padded (w n : Nat) : hexValue (padded w 16 n) = n := by
  have hz : ∀ c : Nat,
      (replicate c '0').foldl (fun v letter => 16 * v + hexDigit letter) 0 = 0 := by
    intro c
    induction c with
    | zero => rfl
    | succ c ih =>
      rw [replicate_succ, foldl_cons]
      exact ih
  have hd := hexValue_toDigits n
  unfold hexValue at hd ⊢
  rw [padded, leftpad, foldl_append, hz, hd]

theorem singleNodeId_seq_eq {nm om seq o : UInt64}
    (hs : singleNodeId nm seq = singleNodeId om o) : seq = o := by
  have ht := (Library.joined_injective (dash_notMem_padded 16 16 _)
    (dash_notMem_padded 16 16 _) hs).2
  have hv := congrArg hexValue ht
  rw [hexValue_padded, hexValue_padded] at hv
  exact UInt64.toNat_inj.mp hv

theorem singleNodeId_isSegment (nm : UInt64) (seq : UInt64) : IsSegment (singleNodeId nm seq) := by
  constructor
  · simp [singleNodeId]
  · simp [singleNodeId, slash_notMem_padded]

end BoatRamp.Messaging

import BoatRamp.Http.Fields
import Mathlib.Data.Nat.Digits.Lemmas

/-!
# Numbers in messages

A number that is written in decimal or hexadecimal digits is read back as the
same number.
-/

namespace BoatRamp.Http

open List Nat

/-- The written digits are the digits of the number, the most significant first. -/
theorem digitsOf_eq {base : Nat} (hpo : 1 < base) {fuel nm : Nat} (he : nm < fuel) (hp : 0 < nm) :
    digitsOf base fuel nm = (digits base nm).reverse := by
  induction fuel generalizing nm with
  | zero => omega
  | succ fuel ih =>
    unfold digitsOf
    split
    next small => rw [digits_of_lt base nm (by omega) small, reverse_singleton]
    next large =>
    have hs : nm / base < nm := div_lt_self hp hpo
    have hr : 0 < nm / base := div_pos (by omega) (by omega)
    rw [ih (by omega) hr, digits_def' hpo hp, reverse_cons]

def valueOf (base : Nat) (digits : List Nat) : Nat :=
  digits.foldl (fun value digit => value * base + digit) 0

theorem valueOf_reverse (base : Nat) (d : List Nat) : valueOf base d.reverse = ofDigits base d := by
  induction d with
  | nil => rfl
  | cons dg rest ih =>
    rw [reverse_cons, valueOf, foldl_append, ofDigits_cons]
    simp only [foldl_cons, foldl_nil]
    rw [← ih, valueOf, mul_comm, add_comm]

section Written

variable {base : Nat} (hpo : 1 < base) (n : Nat)

include hpo

theorem valueOf_digitsOf : valueOf base (digitsOf base (n + 1) n) = n := by
  rcases Nat.eq_zero_or_pos n with rfl | hp
  · simp [digitsOf, valueOf]
  · rw [digitsOf_eq hpo (by omega) hp, valueOf_reverse, Nat.ofDigits_digits]

theorem digitsOf_lt : ∀ d ∈ digitsOf base (n + 1) n, d < base := by
  intro d hw
  rcases Nat.eq_zero_or_pos n with rfl | hp
  · simp only [digitsOf] at hw
    split at hw
    · simp only [mem_singleton] at hw
      omega
    · omega
  · rw [digitsOf_eq hpo (by omega) hp, mem_reverse] at hw
    exact Nat.digits_lt_base hpo hw

omit hpo in
theorem digitsOf_ne_nil : digitsOf base (n + 1) n ≠ [] := by
  unfold digitsOf
  split <;> simp

theorem length_digitsOf {w : Nat} (hp : 0 < w) (hs : n < base ^ w) :
    (digitsOf base (n + 1) n).length ≤ w := by
  rcases Nat.eq_zero_or_pos n with rfl | positive'
  · unfold digitsOf
    rw [if_pos (by omega)]
    exact hp
  · rw [digitsOf_eq hpo (by omega) positive', length_reverse]
    exact (Nat.digits_length_le_iff hpo n).mpr hs

end Written

variable {good : UInt8 → Bool} {bs : Octets}

theorem foldl_map_digitByte (base : Nat) (r : UInt8 → Nat) {d : List Nat}
    (hr : ∀ dg ∈ d, r (digitByte dg) = dg) : (d.map digitByte).foldl (fun v b => v * base + r b) 0 =
      valueOf base d := by
  unfold valueOf
  rw [foldl_map]
  generalize (0 : Nat) = s
  induction d generalizing s with
  | nil => rfl
  | cons dg rest ih =>
    rw [foldl_cons, foldl_cons, hr dg (by simp)]
    exact ih (fun o hl => hr o (mem_cons_of_mem _ hl)) _

theorem all_map_digitByte {base : Nat} (hpo : 1 < base) (nm : Nat)
    (hd : ∀ d < base, good (digitByte d) = true) :
    ((digitsOf base (nm + 1) nm).map digitByte).all good = true := by
  rw [all_map, all_eq_true]
  intro d hw
  exact hd d (digitsOf_lt hpo nm d hw)

theorem all_decimal (hd : ∀ digit < 10, good (digitByte digit) = true) (nm : Nat) :
    (decimal nm).all good = true :=
  all_map_digitByte (by decide) nm hd

theorem all_hexadecimal (hd : ∀ digit < 16, good (digitByte digit) = true) (nm : Nat) :
    (hexadecimal nm).all good = true :=
  all_map_digitByte (by decide) nm hd

def HeaderValue.ofNat (number : Nat) : HeaderValue :=
  ⟨decimal number, all_decimal (by decide) number⟩

theorem decimal_ne_nil (nm : Nat) : decimal nm ≠ [] := by
  simpa [decimal] using digitsOf_ne_nil nm

theorem hexadecimal_ne_nil (nm : Nat) : hexadecimal nm ≠ [] := by
  simpa [hexadecimal] using digitsOf_ne_nil nm

theorem length_hexadecimal {nm w : Nat} (hp : 0 < w)
    (hs : nm < 16 ^ w) : (hexadecimal nm).length ≤ w := by
  rw [hexadecimal, length_map]
  exact length_digitsOf (by decide) nm hp hs

theorem length_decimal {nm w : Nat} (hp : 0 < w) (hs : nm < 10 ^ w)
    (hl : 10 ^ (w - 1) ≤ nm) : (decimal nm).length = w := by
  have hso : 0 < nm := Nat.lt_of_lt_of_le (Nat.pow_pos (by decide)) hl
  have ha : (decimal nm).length ≤ w := by
    rw [decimal, length_map]
    exact length_digitsOf (by decide) nm hp hs
  have hb : nm < 10 ^ (decimal nm).length := by
    rw [decimal, length_map, digitsOf_eq (by decide) (by omega) hso, length_reverse]
    exact Nat.lt_base_pow_length_digits (by decide)
  have hw := (Nat.pow_lt_pow_iff_right (show 1 < 10 by decide)).mp (Nat.lt_of_le_of_lt hl hb)
  omega

theorem digitsValue_decimal (nm : Nat) : digitsValue (decimal nm) = nm := by
  have hr : ∀ d < 10, (digitByte d).toNat - 0x30 = d := by decide
  unfold digitsValue decimal
  rw [foldl_map_digitByte 10 fun b => b.toNat - 0x30]
  · exact valueOf_digitsOf (by decide) nm
  · intro d hw
    exact hr d (digitsOf_lt (by decide) nm d hw)

theorem parseU64_of_digits (hd : bs.all isDigit = true) (hs : bs ≠ []) :
    parseU64 bs = if 2 ^ 64 ≤ digitsValue bs then none else .some (digitsValue bs) := by
  have hu : withoutPlus bs = bs := by
    unfold withoutPlus
    split
    next rest => exact absurd hd (by simp [isDigit])
    next => rfl
  simp only [parseU64, hu, hd, hs, Bool.not_true, Bool.false_eq_true, false_or]

theorem parseU64_digits (hd : bs.all isDigit = true) (hso : bs ≠ [])
    (hs : digitsValue bs < 2 ^ 64) : parseU64 bs = .some (digitsValue bs) := by
  rw [parseU64_of_digits hd hso, if_neg (not_le.mpr hs)]

theorem parseU64_lt {nm : Nat} (hr : parseU64 bs = some nm) : nm < 2 ^ 64 := by
  unfold parseU64 at hr
  dsimp only at hr
  split at hr
  · cases hr
  next fits =>
    cases hr
    exact Nat.lt_of_not_le fun hl => fits (.inr (.inr hl))

theorem parseU64_decimal {nm : Nat} (hs : nm < 2 ^ 64) : parseU64 (decimal nm) = some nm := by
  have hr := parseU64_digits (all_decimal (by decide) nm) (decimal_ne_nil nm)
    (by rwa [digitsValue_decimal])
  rwa [digitsValue_decimal] at hr

end BoatRamp.Http

import BoatRamp.Http2.Huffman
import Mathlib.Data.Nat.Bitwise
import Mathlib.Tactic.IntervalCases

/-!
# Huffman decoding inverts encoding

The encoder writes the codes of its octets bit by bit and then ones up to the
next byte.  The paths to the leaves of the tree are the codes, so the bits that
are walked to the end are these and no others.
-/

namespace BoatRamp.Http2.Huffman

open List

def codeOf (byte : UInt8) : Nat × Nat := CODES.getD byte.toNat (0, 0)

def codesOf (input : Octets) : List Bool := input.flatMap fun byte => codeBits (codeOf byte)

theorem codesOf_cons (b : UInt8) (rest : Octets) :
    codesOf (b :: rest) = codeBits (codeOf b) ++ codesOf rest := rfl

section Bits

variable {nm other size more : Nat}

theorem length_codeBits : (codeBits (nm, size)).length = size := by simp [codeBits]

theorem codeBits_congr (hb : ∀ i < size, nm.testBit i = other.testBit i) :
    codeBits (nm, size) = codeBits (other, size) := by
  refine map_congr_left fun i hi => hb i ?_
  simpa using hi

theorem codeBits_add : codeBits (nm, size + more) =
      codeBits (nm >>> more, size) ++ codeBits (nm, more) := by
  unfold codeBits
  rw [Nat.add_comm, range_add, reverse_append, map_append, ← map_reverse, map_map]
  congr 1
  refine map_congr_left fun i _ => ?_
  simp [Nat.testBit_shiftRight]

variable (acc : UInt64)

theorem codeBits_appended (size : Nat) (hs : size + more < 64) (hn : nm < 2 ^ more) :
    codeBits (((acc <<< UInt64.ofNat more) ||| UInt64.ofNat nm).toNat, size + more) =
      codeBits (acc.toNat, size) ++ codeBits (nm, more) := by
  have hm : more % 2 ^ 64 % 64 = more := by omega
  have hl : nm < 2 ^ 64 := hn.trans (Nat.pow_lt_pow_right (by omega) (by omega))
  have hb (i : Nat) (hi : i < 64) :
      ((acc <<< UInt64.ofNat more) ||| UInt64.ofNat nm).toNat.testBit i =
        ((decide (more ≤ i) && acc.toNat.testBit (i - more)) || nm.testBit i) := by
    rw [UInt64.toNat_or, Nat.testBit_or, UInt64.toNat_shiftLeft, UInt64.toNat_ofNat', hm,
      Nat.testBit_mod_two_pow, Nat.testBit_shiftLeft, UInt64.toNat_ofNat', Nat.mod_eq_of_lt hl]
    simp [hi]
  rw [codeBits_add]
  congr 1
  · refine codeBits_congr fun i hi => ?_
    rw [Nat.testBit_shiftRight, hb _ (by omega)]
    have hz : nm.testBit (more + i) = false :=
      Nat.testBit_eq_false_of_lt (hn.trans_le (Nat.pow_le_pow_right (by omega) (by omega)))
    simp [hz]
  · refine codeBits_congr fun i hi => ?_
    rw [hb _ (by omega)]
    simp [Nat.not_le.mpr hi]

theorem bitsOf_toUInt8 : bitsOf acc.toUInt8 = codeBits (acc.toNat, 8) := by
  rw [bitsOf, UInt64.toNat_toUInt8]
  exact codeBits_congr fun i hi => by
    rw [Nat.testBit_mod_two_pow, decide_eq_true hi, Bool.true_and]

theorem flushBytes_bits {fuel n : Nat} (he : n ≤ fuel) (hs : n < 64) :
    (flushBytes acc fuel n).1.flatMap bitsOf ++
        codeBits (acc.toNat, (flushBytes acc fuel n).2) = codeBits (acc.toNat, n) ∧
      (flushBytes acc fuel n).2 < 8 := by
  induction fuel generalizing n with
  | zero =>
    obtain rfl : n = 0 := by omega
    exact ⟨rfl, Nat.succ_pos 7⟩
  | succ fuel ih =>
    unfold flushBytes
    split
    · next hn =>
      obtain ⟨hb, hl⟩ := ih (show n - 8 ≤ fuel by omega) (by omega)
      have hk : (n - 8) % 2 ^ 64 % 64 = n - 8 := by omega
      refine ⟨?_, hl⟩
      rw [flatMap_cons, append_assoc, hb, bitsOf_toUInt8, UInt64.toNat_shiftRight,
        UInt64.toNat_ofNat', hk, ← codeBits_add]
      congr 2
      omega
    · next hn => exact ⟨rfl, by omega⟩

end Bits

theorem codeOf_bounds (b : UInt8) : (codeOf b).2 ≤ 30 ∧ (codeOf b).1 < 2 ^ (codeOf b).2 := by
  have ht : ∀ c ∈ (0, 0) :: CODES, c.2 ≤ 30 ∧ c.1 < 2 ^ c.2 := by decide +kernel
  refine ht _ ?_
  unfold codeOf
  rw [getD_eq_getElem?_getD]
  cases hc : CODES[b.toNat]? with
  | none => exact mem_cons_self
  | some c => exact mem_cons_of_mem _ (mem_of_getElem? hc)

variable (i : Octets) (o : Octets)

theorem encodeFrom_bits (acc : UInt64) {n : Nat} (hn : n < 8) :
    ∃ pad < 8, (encodeFrom i acc n).flatMap bitsOf =
      codeBits (acc.toNat, n) ++ (codesOf i ++ replicate pad true) := by
  induction i generalizing acc n with
  | nil =>
    unfold encodeFrom
    split
    · next hz => exact ⟨0, by decide, by simp [hz, codeBits, codesOf]⟩
    next hz =>
    refine ⟨8 - n, by omega, ?_⟩
    have hp : (1 : UInt64) <<< UInt64.ofNat (8 - n) - 1 = UInt64.ofNat (2 ^ (8 - n) - 1) ∧
        codeBits (2 ^ (8 - n) - 1, 8 - n) = replicate (8 - n) true := by
      interval_cases n <;> decide
    have ha := codeBits_appended acc n (show n + (8 - n) < 64 by omega)
      (Nat.sub_lt (Nat.two_pow_pos _) (Nat.succ_pos 0))
    rw [hp.2, Nat.add_sub_cancel' (by omega)] at ha
    simp only [hp.1, flatMap_cons, flatMap_nil, append_nil, bitsOf_toUInt8, ha, codesOf, nil_append]
  | cons b rest ih =>
    obtain ⟨hs, hc⟩ := codeOf_bounds b
    have ha := codeBits_appended acc n (show n + (codeOf b).2 < 64 by omega) hc
    obtain ⟨next, hx⟩ : ∃ next, next =
        (acc <<< UInt64.ofNat (codeOf b).2) ||| UInt64.ofNat (codeOf b).1 := ⟨_, rfl⟩
    have he : encodeFrom (b :: rest) acc n =
        (flushBytes next (n + (codeOf b).2) (n + (codeOf b).2)).1 ++ encodeFrom rest next
            (flushBytes next (n + (codeOf b).2) (n + (codeOf b).2)).2 := by
      rw [hx]
      rfl
    obtain ⟨hb, hl⟩ := flushBytes_bits next (le_refl (n + (codeOf b).2)) (by omega)
    obtain ⟨pad, hp, hr⟩ := ih next hl
    refine ⟨pad, hp, ?_⟩
    rw [he, flatMap_append, hr, ← append_assoc, hb, hx, ha, codesOf_cons]
    simp only [append_assoc]

theorem encode_bits : ∃ pad < 8, (encode i).flatMap bitsOf = codesOf i ++ replicate pad true :=
  encodeFrom_bits i 0 (Nat.succ_pos 7)

def Trie.leaves : Trie → List (List Bool × UInt8)
  | .none => []
  | .leaf symbol => [([], symbol)]
  | .node zero one =>
      zero.leaves.map (fun leaf => (false :: leaf.1, leaf.2)) ++
        one.leaves.map fun leaf => (true :: leaf.1, leaf.2)

theorem mem_leaves_child {p : Trie} {bit : Bool} {path : List Bool} {sym : UInt8} :
    (path, sym) ∈ (p.child bit).leaves ↔ (bit :: path, sym) ∈ p.leaves := by
  cases p <;> cases bit <;> simp [Trie.child, Trie.leaves]

theorem codes_of_leaves : ∀ l ∈ trie.leaves, codeBits (codeOf l.2) = l.1 ∧ l.1 ≠ [] := by
  decide +kernel

theorem leaf_of_code (b : UInt8) : (codeBits (codeOf b), b) ∈ trie.leaves := by
  have ht : (range 256).Perm (trie.leaves.map fun l => l.2.toNat) := by decide +kernel
  obtain ⟨l, hl, hs⟩ := mem_map.mp (ht.mem_iff.mp (mem_range.mpr b.toNat_lt))
  obtain rfl := UInt8.toNat_inj.mp hs
  rwa [(codes_of_leaves l hl).1]

theorem bits_of_walk {b : List Bool} {p : Trie} (path : List Bool) {o : Octets}
    (hp : ∀ l ∈ p.leaves, (path ++ l.1, l.2) ∈ trie.leaves)
    (hw : walk trie b p path.length (path.all id) = some o) :
    ∃ pad < 8, path ++ b = codesOf o ++ replicate pad true := by
  induction b generalizing p path o with
  | nil =>
    unfold walk at hw
    split at hw
    · cases hw
    next hr =>
    cases hw
    by_cases hz : path = []
    · exact ⟨0, by decide, by simp [hz, codesOf]⟩
    have ho : path.all id = true ∧ path.length < 8 := by
      simpa [hz] using hr
    refine ⟨path.length, ho.2, ?_⟩
    rw [append_nil, codesOf, flatMap_nil, nil_append]
    exact eq_replicate_iff.mpr ⟨rfl, fun bit hb => by simpa using all_eq_true.mp ho.1 bit hb⟩
  | cons bit b ih =>
    have hc : ∀ l ∈ (p.child bit).leaves, (path ++ [bit] ++ l.1, l.2) ∈ trie.leaves := by
      intro l hl
      simpa using hp _ (mem_leaves_child.mp hl)
    unfold walk at hw
    split at hw
    · cases hw
    · next sym hs =>
      obtain ⟨rest, hr, rfl⟩ := Option.map_eq_some_iff.mp hw
      obtain ⟨pad, hd, hb⟩ := ih [] (fun l hl => hl) hr
      rw [hs] at hc
      have hh := (codes_of_leaves _ (hc ([], sym) mem_cons_self)).1
      refine ⟨pad, hd, ?_⟩
      rw [nil_append] at hb
      simp only [append_nil] at hh
      rw [hb, codesOf_cons, hh, append_assoc, append_assoc, singleton_append]
    next z one hs =>
    rw [hs] at hc
    obtain ⟨pad, hd, hb⟩ := ih _ hc (by simpa using hw)
    exact ⟨pad, hd, by simpa using hb⟩

theorem walk_leaf {path : List Bool} {sym : UInt8} {p : Trie}
    (hl : (path, sym) ∈ p.leaves) (hn : path ≠ []) (rest : List Bool) (pb : Nat) (ao : Bool) :
    walk trie (path ++ rest) p pb ao = (walk trie rest trie 0 true).map (sym :: ·) := by
  induction path generalizing p pb ao with
  | nil => exact absurd rfl hn
  | cons bit path ih =>
    have hc := mem_leaves_child.mpr hl
    rw [cons_append, walk]
    cases hs : p.child bit with
    | none => simp [hs, Trie.leaves] at hc
    | leaf other =>
      rw [hs] at hc
      simp only [Trie.leaves, mem_singleton, Prod.mk.injEq] at hc
      obtain ⟨rfl, rfl⟩ := hc
      rfl
    | node zero one =>
      rw [hs] at hc
      refine ih hc ?_ _ _
      rintro rfl
      simp [Trie.leaves] at hc

theorem walk_codes {pad : Nat} (hp : pad < 8) :
    walk trie (codesOf o ++ replicate pad true) trie 0 true = some o := by
  induction o with
  | nil =>
    have ht : ∀ pad : Fin 8, walk trie (replicate pad true) trie 0 true = some [] := by
      decide +kernel
    exact ht ⟨pad, hp⟩
  | cons b rest ih =>
    have hl := leaf_of_code b
    rw [codesOf_cons, append_assoc, walk_leaf hl (codes_of_leaves _ hl).2, ih]
    rfl

theorem bitsOf_injective : Function.Injective bitsOf := by
  have ht : ∀ number : Fin 256,
      (bitsOf (UInt8.ofNat number)).foldl (fun v bit => 2 * v + bit.toNat) 0 = (number : Nat) := by
    decide +kernel
  intro x y hs
  have hf := ht ⟨x.toNat, x.toNat_lt⟩
  have hg := ht ⟨y.toNat, y.toNat_lt⟩
  simp only [UInt8.ofNat_toNat] at hf hg
  exact UInt8.toNat_inj.mp (hf.symm.trans (hs ▸ hg))

theorem flatMap_bitsOf_injective {x y : Octets}
    (hs : x.flatMap bitsOf = y.flatMap bitsOf) : x = y := by
  induction x generalizing y with
  | nil =>
    cases y with
    | nil => rfl
    | cons b rest => simp [bitsOf, codeBits] at hs
  | cons b rest ih =>
    cases y with
    | nil => simp [bitsOf, codeBits] at hs
    | cons other o =>
      obtain ⟨hb, hr⟩ := append_inj hs (length_codeBits.trans length_codeBits.symm)
      rw [bitsOf_injective hb, ih hr]

theorem length_bits : (i.flatMap bitsOf).length = 8 * i.length := by
  simp [length_flatMap, bitsOf, length_codeBits, Nat.mul_comm]

theorem decode_encode : decode (encode o) = some o := by
  obtain ⟨pad, hp, he⟩ := encode_bits o
  rw [decode, he]
  exact walk_codes o hp

theorem length_encode : (encode o).length = encodedLen o := by
  obtain ⟨pad, hp, he⟩ := encode_bits o
  have hl := congrArg length he
  rw [length_bits, length_append, length_replicate] at hl
  have hc : (codesOf o).length = (o.map fun b => (CODES.getD b.toNat (0, 0)).2).sum := by
    rw [codesOf, length_flatMap]
    exact congrArg sum (map_congr_left fun b _ => length_codeBits)
  rw [encodedLen, ← hc]
  omega

/-- Decoding is the inverse of encoding, on all byte strings; and the length of an encoding is
known before it is written. -/
theorem decode_eq_some_iff_encode (input output : Octets) :
    (decode input = some output ↔ input = encode output) ∧
      encodedLen output = (encode output).length := by
  refine ⟨⟨fun hd => ?_, ?_⟩, (length_encode output).symm⟩
  · obtain ⟨pad, hp, he⟩ := encode_bits output
    obtain ⟨more, hm, hb⟩ := bits_of_walk [] (fun l hl => hl) hd
    rw [List.nil_append] at hb
    have hle := congrArg List.length he
    have hli := congrArg List.length hb
    rw [length_bits, List.length_append, List.length_replicate] at hle hli
    obtain rfl : more = pad := by omega
    exact flatMap_bitsOf_injective (hb.trans he.symm)
  · rintro rfl
    exact decode_encode output

end BoatRamp.Http2.Huffman

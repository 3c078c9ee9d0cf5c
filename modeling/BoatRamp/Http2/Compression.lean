import BoatRamp.Http2.Codes
import BoatRamp.Http2.Hpack

/-!
# Header decoding inverts encoding

Whatever the table of a decoder holds, it reads an encoded header block as the
fields that were encoded, and the table stays as it is.
-/

namespace BoatRamp.Http2

open Http List Option

theorem octet_parts {n m : Nat} (hn : n < 128) (hm : m = 0 ∨ m = 128) :
    (UInt8.ofNat (n + m) &&& 0x7f).toNat = n ∧ UInt8.ofNat (n + m) &&& 0x80 = UInt8.ofNat m := by
  have ht : ∀ n : Fin 128, ∀ m ∈ [0, 128], (UInt8.ofNat (n + m) &&& 0x7f).toNat = n ∧
      UInt8.ofNat (n + m) &&& 0x80 = UInt8.ofNat m := by
    decide +kernel
  exact ht ⟨n, hn⟩ m (by simpa using hm)

theorem decodeIntTail_last {n : Nat} (hn : n < 128) (rest : Octets) (o s v : Nat) :
    decodeIntTail (o + 1) s v (UInt8.ofNat n :: rest) = some (v + n * 2 ^ s, rest) := by
  obtain ⟨hv, hb⟩ := octet_parts hn (.inl rfl)
  rw [Nat.add_zero] at hv hb
  simp [decodeIntTail, hv, hb]

theorem decodeIntTail_encodeIntTail (rest : Octets) (o : Nat) {fuel n : Nat} (hf : n ≤ fuel)
    (hn : n < 128 ^ (o + 1)) (s v : Nat) :
    decodeIntTail (o + 1) s v (encodeIntTail fuel n ++ rest) = some (v + n * 2 ^ s, rest) := by
  induction o generalizing fuel n s v with
  | zero =>
    have hl : encodeIntTail fuel n = [UInt8.ofNat n] := by
      cases fuel with
      | zero => rfl
      | succ fuel => rw [encodeIntTail, if_neg (by omega)]
    rw [hl]
    exact decodeIntTail_last (by omega) rest 0 s v
  | succ o ih =>
    cases fuel with
    | zero => exact decodeIntTail_last (by omega) rest _ s v
    | succ fuel =>
      rw [encodeIntTail]
      split
      · obtain ⟨hv, hb⟩ := octet_parts (Nat.mod_lt n (by decide : 0 < 128)) (.inr rfl)
        have hd : n / 128 < 128 ^ (o + 1) := by
          rw [Nat.pow_succ] at hn
          exact Nat.div_lt_of_lt_mul (by omega)
        have hs : n % 128 * 2 ^ s + n / 128 * 2 ^ (s + 7) = n * 2 ^ s := by
          rw [Nat.pow_add, Nat.mul_comm (2 ^ s), ← Nat.mul_assoc, ← Nat.add_mul,
            Nat.mul_comm (n / 128), Nat.mod_add_div]
        rw [cons_append, decodeIntTail]
        simp only [hv, hb]
        rw [if_neg (by decide), ih (by omega) hd, Nat.add_assoc, hs]
      · exact decodeIntTail_last (by omega) rest _ s v

section Integers

variable {width n : Nat} {flags : UInt8}

/-- The first octet of an integer holds the flags, and below them what fits of the integer. -/
theorem encodeInt_eq_cons (width n : Nat) (flags : UInt8) :
    ∃ low < 2 ^ width, ∃ tail, encodeInt n width flags = (flags ||| UInt8.ofNat low) :: tail := by
  have hp := Nat.two_pow_pos width
  unfold encodeInt
  dsimp only
  split
  · exact ⟨n, by omega, [], rfl⟩
  · exact ⟨2 ^ width - 1, by omega, _, rfl⟩

theorem decodeInt_encodeInt
    (hf : ∀ low < 2 ^ width, (flags ||| UInt8.ofNat low).toNat % 2 ^ width = low)
    (hn : n < 2 ^ 28) (rest : Octets) :
    decodeInt width (encodeInt n width flags ++ rest) = some (n, rest) := by
  have hp := Nat.two_pow_pos width
  unfold encodeInt
  dsimp only
  split
  next hs =>
    rw [singleton_append, decodeInt, hf n (by omega)]
    exact if_pos hs
  next hl =>
  rw [cons_append, decodeInt, hf (2 ^ width - 1) (by omega)]
  simp only [lt_irrefl, if_false]
  rw [decodeIntTail_encodeIntTail rest 3 (Nat.sub_le n _) (by omega)]
  simp only [Nat.pow_zero, Nat.mul_one]
  congr 2
  omega

theorem flagged_octet {flags : UInt8} (hm : flags = 0x80 ∨ flags = 0x00) {low : Nat}
    (hl : low < 2 ^ 7) : (flags ||| UInt8.ofNat low).toNat % 2 ^ 7 = low ∧
      (flags ||| UInt8.ofNat low) &&& 0x80 = flags := by
  have ht : ∀ low : Fin 128, ∀ flags ∈ [0x80, 0x00],
      (flags ||| UInt8.ofNat low).toNat % 2 ^ 7 = low ∧
        (flags ||| UInt8.ofNat low) &&& 0x80 = flags := by
    decide +kernel
  exact ht ⟨low, hl⟩ flags (by simpa using hm)

end Integers

theorem decodeStr_of_length {flags : UInt8} {raw t : Octets} (hm : flags = 0x80 ∨ flags = 0x00)
    (hl : raw.length < 2 ^ 28) (hd : (if flags != 0 then Huffman.decode raw else some raw) = some t)
    (rest : Octets) : decodeStr (encodeInt raw.length 7 flags ++ raw ++ rest) = some (t, rest) := by
  have hf (low : Nat) (hs : low < 2 ^ 7) := flagged_octet hm hs
  obtain ⟨low, hs, tail, he⟩ := encodeInt_eq_cons 7 raw.length flags
  have hi := decodeInt_encodeInt (fun low hs => (hf low hs).1) hl (raw ++ rest)
  have hh : (encodeInt raw.length 7 flags ++ (raw ++ rest)).head?.any
      (fun o : UInt8 => o &&& 0x80 != 0) = (flags != 0) := by
    simp [he, (hf low hs).2]
  rw [append_assoc, decodeStr, hi]
  simp only [hh, bind_eq_bind, bind_some, take_left, drop_left]
  rw [if_neg (by simp)]
  split at hd
  next hc =>
    rw [if_pos hc, hd]
    rfl
  next hc =>
  cases hd
  rw [if_neg hc]
  rfl

theorem decodeStr_encodeStr {t : Octets} (hl : t.length < 2 ^ 28) (rest : Octets) :
    decodeStr (encodeStr t ++ rest) = some (t, rest) := by
  unfold encodeStr
  split
  next hs =>
    rw [← Huffman.length_encode] at hs
    exact decodeStr_of_length (.inl rfl) (hs.trans hl) (Huffman.decode_encode t) rest
  · exact decodeStr_of_length (.inr rfl) hl rfl rest

namespace Hpack

theorem encode_cons (f : Octets × Octets) (fs : HeaderList) :
    encode (f :: fs) = encodeField f ++ encode fs := rfl

theorem get_of_findIdx {p : Octets × Octets → Bool} {i : Nat} (hf : STATIC.findIdx? p = some i)
    (t : DynamicTable) : ∃ e, t.get (i + 1) = some e ∧ p e ∧ i + 1 < 127 := by
  obtain ⟨hi, hp, _⟩ := findIdx?_eq_some_iff_getElem.mp hf
  refine ⟨STATIC[i], ?_, hp, ?_⟩
  · simp [DynamicTable.get, Nat.succ_le_of_lt hi, hi]
  · have hl : STATIC.length = 61 := rfl
    omega

theorem literal_octet {low : Nat} (hl : low < 2 ^ 4) :
    (0x00 ||| UInt8.ofNat low).toNat % 2 ^ 4 = low ∧
      ∀ bit ∈ [0x80, 0x40, 0x20], (0x00 ||| UInt8.ofNat low) &&& bit = 0 := by
  have ht : ∀ low : Fin 16, (0x00 ||| UInt8.ofNat low).toNat % 2 ^ 4 = low ∧
      ∀ bit ∈ [0x80, 0x40, 0x20], (0x00 ||| UInt8.ofNat low) &&& bit = 0 := by
    decide +kernel
  exact ht ⟨low, hl⟩

variable {h : Hpack} {f : Octets × Octets} {rest : Octets}

theorem decodeInt_index {i : Nat} (hi : i < 127) (rest : Octets) :
    decodeInt 4 (encodeInt i 4 0x00 ++ rest) = some (i, rest) :=
  decodeInt_encodeInt (fun _ hl => (literal_octet hl).1) (by omega) rest

theorem decodeField_literal (i : Nat) {tail : Octets} (sf : Bool)
    (hr : h.literal 4 (encodeInt i 4 0x00 ++ tail) = some (f, rest)) :
    h.decodeField sf (encodeInt i 4 0x00 ++ tail) = some (some f, h, rest) := by
  obtain ⟨low, hl, m, he⟩ := encodeInt_eq_cons 4 i 0x00
  obtain ⟨_, hb⟩ := literal_octet hl
  rw [he, cons_append] at hr ⊢
  simp only [decodeField, hb 0x80 (by simp), hb 0x40 (by simp), hb 0x20 (by simp), hr]
  rfl

theorem decodeField_encodeField (sf : Bool) (hl : f.1.length < 2 ^ 28 ∧ f.2.length < 2 ^ 28)
    (rest : Octets) : h.decodeField sf (encodeField f ++ rest) = some (some f, h, rest) := by
  have hv := decodeStr_encodeStr hl.2 rest
  unfold encodeField staticLookup
  cases hf : STATIC.findIdx? (fun en => en = f) with
  | some i =>
    obtain ⟨e, hg, he, hi⟩ := get_of_findIdx hf h.dynamic
    obtain rfl : e = f := by simpa using he
    have hx (low : Nat) (hs : low < 2 ^ 7) := flagged_octet (.inl rfl) hs
    obtain ⟨low, hs, m, hc⟩ := encodeInt_eq_cons 7 (i + 1) 0x80
    have hd := decodeInt_encodeInt (fun low hs => (hx low hs).1) (show i + 1 < 2 ^ 28 by omega) rest
    dsimp only
    rw [hc, cons_append] at hd ⊢
    simp only [decodeField, (hx low hs).2, hd, bind_eq_bind, bind_some, hg]
    rfl
  | none =>
    cases hn : STATIC.findIdx? (fun en => en.1 = f.1) with
    | some i =>
      obtain ⟨e, hg, he, hi⟩ := get_of_findIdx hn h.dynamic
      dsimp only
      rw [append_assoc]
      apply decodeField_literal
      rw [literal, decodeInt_index hi]
      simp [hg, hv, of_decide_eq_true he]
    | none =>
      have hz : encodeInt 0 4 0x00 = [0x00] := rfl
      have hn := decodeStr_encodeStr hl.1 (encodeStr f.2 ++ rest)
      dsimp only
      rw [← singleton_append, ← hz, append_assoc, append_assoc]
      apply decodeField_literal
      rw [literal, decodeInt_index (by decide)]
      simp [hn, hv]

theorem encodeField_ne_nil (hl : f.1.length < 2 ^ 28 ∧ f.2.length < 2 ^ 28) :
    encodeField f ≠ [] := by
  intro hz
  have hd := decodeField_encodeField (h := new) false hl []
  simp [hz, decodeField] at hd

theorem decodeFields_encode (h : Hpack) (sf : Bool) {fs : HeaderList}
    (hl : ∀ f ∈ fs, f.1.length < 2 ^ 28 ∧ f.2.length < 2 ^ 28) {fuel : Nat}
    (hf : (encode fs).length ≤ fuel) : decodeFields fuel h sf (encode fs) = (.ok fs, h) := by
  induction fs generalizing fuel sf with
  | nil => cases fuel <;> rfl
  | cons f fs ih =>
    have hs := hl f mem_cons_self
    have hd := decodeField_encodeField (h := h) sf hs (encode fs)
    obtain ⟨o, tail, hc⟩ := exists_cons_of_ne_nil (encodeField_ne_nil hs)
    rw [encode_cons, hc, cons_append] at hf ⊢
    rw [hc, cons_append] at hd
    simp only [length_cons, length_append] at hf
    obtain ⟨fuel, rfl⟩ : ∃ k, fuel = k + 1 := Nat.exists_eq_add_one_of_ne_zero (by omega)
    have hn := ih (sf || true) (fun g hg => hl g (mem_cons_of_mem f hg)) (by omega : _ ≤ fuel)
    simp only [decodeFields, hd, isSome_some, hn]
    rfl

/-- A decoder reads an encoded block as the fields that were encoded, whatever its table holds,
and leaves the table as it is. -/
theorem decode_encoded_block (hpack : Hpack) (headers : HeaderList)
    (short : ∀ field ∈ headers, field.1.length < 2 ^ 28 ∧ field.2.length < 2 ^ 28) :
    hpack.decode (encode headers) = (.ok headers, hpack) :=
  decodeFields_encode hpack false short (Nat.le_refl _)

theorem decode_encoded_status :
    new.decode (encode [(ascii ":status", ascii "404"), (ascii "x-id", ascii "~")]) =
      (.ok [(ascii ":status", ascii "404"), (ascii "x-id", ascii "~")], new) :=
  decode_encoded_block _ _ (by decide)

end Hpack

end BoatRamp.Http2

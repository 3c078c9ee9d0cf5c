import BoatRamp.Library.Lexicographic
import Mathlib.Data.List.Sort
import Mathlib.Data.Prod.Lex

/-!
# Ordered maps

A finite map kept as a list of entries with strictly increasing keys, in the
manner of a B-tree map.  Lookups determine the map, and the entries are
enumerated in key order, so that scans over two maps that agree on the scanned
keys return the same list.
-/

namespace Library

open List

universe u v

/-- A finite map whose entries are listed in strictly increasing key order. -/
structure SortedMap (Key : Type u) (Value : Type v) [LinearOrder Key] where
  entries : List (Key × Value)
  sorted : entries.Pairwise fun first second => first.1 < second.1

namespace SortedMap

variable {Key : Type u} {Value : Type v} [LinearOrder Key]

theorem entries_eq_of_mem_iff {x y : List (Key × Value)} (hf : x.Pairwise fun a b => a.1 < b.1)
    (hs : y.Pairwise fun a b => a.1 < b.1) (hm : ∀ entry, entry ∈ x ↔ entry ∈ y) : x = y := by
  have hd : ∀ {l : List (Key × Value)}, l.Pairwise (fun a b => a.1 < b.1) → l.Nodup := by
    intro l ho
    refine List.Pairwise.imp ?_ ho
    intro a b hb hsa
    exact lt_irrefl b.1 (hsa ▸ hb)
  have hp : x.Perm y :=
    (perm_ext_iff_of_nodup (hd hf) (hd hs)).mpr hm
  apply List.Perm.eq_of_pairwise _ hf hs hp
  intro a b _ _ hb ha
  exact absurd (hb.trans ha) (lt_irrefl _)

instance [DecidableEq Value] : DecidableEq (SortedMap Key Value) :=
  fun first second =>
    decidable_of_iff (first.entries = second.entries) (by
      cases first
      cases second
      simp)

def empty : SortedMap Key Value := ⟨[], List.Pairwise.nil⟩

variable (map : SortedMap Key Value) (key : Key) (val : Value)

def get? : Option Value :=
  (map.entries.find? fun entry => decide (entry.1 = key)).map Prod.snd

def contains (map : SortedMap Key Value) (key : Key) : Bool :=
  (map.get? key).isSome

theorem mem_entries_iff : (key, val) ∈ map.entries ↔ map.get? key = some val := by
  rcases map with ⟨es, hs⟩
  unfold get?
  induction es with
  | nil => simp
  | cons e rest ih =>
    rcases e with ⟨x, sd⟩
    rcases pairwise_cons.mp hs with ⟨hb, hr⟩
    have ht := ih hr
    by_cases hsa : x = key
    · subst hsa
      have ha : (x, val) ∉ rest := fun hi =>
        lt_irrefl _ (hb (x, val) hi)
      simp [ha, eq_comm]
    · have hd : ¬key = x := fun he => hsa he.symm
      simpa [hsa, hd] using ht

@[ext]
theorem ext {x y : SortedMap Key Value} (hlo : ∀ key, x.get? key = y.get? key) : x = y := by
  have hl : x.entries = y.entries := by
    apply entries_eq_of_mem_iff x.sorted y.sorted
    rintro ⟨key, val⟩
    rw [mem_entries_iff, mem_entries_iff, hlo]
  cases x
  cases y
  simpa using hl

@[simp]
theorem get?_empty : (empty : SortedMap Key Value).get? key = none := rfl

def insertEntry (key : Key) (value : Value) : List (Key × Value) → List (Key × Value)
  | [] => [(key, value)]
  | entry :: rest =>
      if key < entry.1 then (key, value) :: entry :: rest
      else if key = entry.1 then (key, value) :: rest
      else entry :: insertEntry key value rest

theorem mem_insertEntry (es : List (Key × Value)) (hs : es.Pairwise fun x y => x.1 < y.1)
    (e : Key × Value) : e ∈ insertEntry key val es ↔ e = (key, val) ∨ (e ∈ es ∧ e.1 ≠ key) := by
  induction es with
  | nil => simp [insertEntry]
  | cons head rest ih =>
    rcases pairwise_cons.mp hs with ⟨hb, hr⟩
    unfold insertEntry
    split_ifs with hle hsa
    · have hl : e ∈ head :: rest → e.1 ≠ key := by
        intro hin he
        rcases mem_cons.mp hin with rfl | hi
        · exact absurd hle (by simp [he])
        · exact lt_irrefl _ (he ▸ hle.trans (hb e hi))
      rw [mem_cons, and_iff_left_of_imp hl]
    · have hl : e ∈ rest → e.1 ≠ key := by
        intro hi he
        exact lt_irrefl _ (he ▸ hsa ▸ hb e hi)
      have ho : e ∈ head :: rest ∧ e.1 ≠ key ↔ e ∈ rest := by
        constructor
        · rintro ⟨hin, hd⟩
          rcases mem_cons.mp hin with rfl | hi
          · exact absurd hsa.symm hd
          · exact hi
        · intro hi
          exact ⟨mem_cons_of_mem _ hi, hl hi⟩
      rw [mem_cons, ho]
    have hh : e = head → e.1 ≠ key := by
      rintro rfl he
      exact hsa he.symm
    rw [mem_cons, ih hr, mem_cons, or_and_right, and_iff_left_of_imp hh, or_left_comm]

theorem insertEntry_sorted (es : List (Key × Value)) (hs : es.Pairwise fun x y => x.1 < y.1) :
    (insertEntry key val es).Pairwise (fun x y => x.1 < y.1) := by
  induction es with
  | nil => simp [insertEntry]
  | cons head rest ih =>
    rcases pairwise_cons.mp hs with ⟨hb, hr⟩
    unfold insertEntry
    split_ifs with hl hsa
    · refine pairwise_cons.mpr ⟨?_, hs⟩
      intro e hin
      rcases mem_cons.mp hin with rfl | hi
      · exact hl
      · exact hl.trans (hb e hi)
    · refine pairwise_cons.mpr ⟨?_, hr⟩
      intro e hi
      exact hsa ▸ hb e hi
    refine pairwise_cons.mpr ⟨?_, ih hr⟩
    intro e hin
    rcases (mem_insertEntry key val rest hr e).mp hin with
      rfl | ⟨hi, _⟩
    · exact lt_of_le_of_ne (not_lt.mp hl) fun he => hsa he.symm
    · exact hb e hi

def insert (map : SortedMap Key Value) (key : Key) (value : Value) :
    SortedMap Key Value :=
  ⟨insertEntry key value map.entries, insertEntry_sorted key value map.entries map.sorted⟩

def erase : SortedMap Key Value :=
  ⟨map.entries.filter (fun entry => decide (entry.1 ≠ key)),
    map.sorted.sublist List.filter_sublist⟩

theorem get?_insert (o : Key) :
    (map.insert key val).get? o = if o = key then some val else map.get? o := by
  apply Option.ext
  intro f
  rw [← mem_entries_iff]
  unfold insert
  rw [mem_insertEntry key val map.entries map.sorted, mem_entries_iff]
  by_cases hs : o = key
  · simp [hs, eq_comm]
  · simp [hs]

theorem get?_erase (key o : Key) :
    (map.erase key).get? o = if o = key then none else map.get? o := by
  apply Option.ext
  intro f
  rw [← mem_entries_iff]
  unfold erase
  simp only [mem_filter, mem_entries_iff, decide_eq_true_eq]
  by_cases hs : o = key <;> simp [hs]

@[simp]
theorem get?_insert_self : (map.insert key val).get? key = some val := by
  simp [get?_insert]

@[simp]
theorem get?_erase_self : (map.erase key).get? key = none := by
  simp [get?_erase]

theorem get?_insert_of_ne {key o : Key} (val : Value)
    (hd : o ≠ key) : (map.insert key val).get? o = map.get? o := by
  simp [get?_insert, hd]

theorem get?_erase_of_ne {key o : Key} (hd : o ≠ key) : (map.erase key).get? o = map.get? o := by
  simp [get?_erase, hd]

@[simp]
theorem contains_insert (o : Key) :
    (map.insert key val).contains o = (decide (o = key) || map.contains o) := by
  unfold contains
  rw [get?_insert]
  by_cases hs : o = key <;> simp [hs]

@[simp]
theorem contains_erase (key o : Key) :
    (map.erase key).contains o = (!decide (o = key) && map.contains o) := by
  unfold contains
  rw [get?_erase]
  by_cases hs : o = key <;> simp [hs]

@[simp]
theorem insert_insert_self (val o : Value) :
    (map.insert key val).insert key o = map.insert key o := by
  ext1 a
  simp only [get?_insert]
  by_cases hs : a = key <;> simp [hs]

theorem erase_insert_of_ne {key o : Key} (val : Value) (hd : key ≠ o) :
    (map.insert key val).erase o = (map.erase o).insert key val := by
  ext1 a
  simp only [get?_erase, get?_insert]
  by_cases hs : a = o
  · simp [hs, hd.symm]
  · simp [hs]

@[simp]
theorem erase_insert_self : (map.insert key val).erase key = map.erase key := by
  ext1 a
  simp only [get?_erase, get?_insert]
  by_cases hs : a = key <;> simp [hs]

theorem erase_of_absent {map : SortedMap Key Value} {key : Key} (ha : map.get? key = none) :
    map.erase key = map := by
  ext1 a
  rw [get?_erase]
  split
  · next same => rw [same, ha]
  · rfl

theorem get?_foldl_erase (k : List Key) (key : Key) :
    (k.foldl erase map).get? key = if key ∈ k then none else map.get? key := by
  induction k generalizing map with
  | nil => simp
  | cons x rest ih =>
    rw [foldl_cons, ih, get?_erase]
    by_cases hs : key = x <;> simp [hs]

def range (map : SortedMap Key Value) (start : Key) : List (Key × Value) :=
  map.entries.filter fun entry => decide (start ≤ entry.1)

theorem mem_range_iff (s key : Key) (val : Value) :
    (key, val) ∈ map.range s ↔ map.get? key = some val ∧ s ≤ key := by
  simp [range, mem_entries_iff]

theorem range_sorted (s : Key) : (map.range s).Pairwise (fun x y => x.1 < y.1) :=
  map.sorted.sublist filter_sublist

/-- On a list whose satisfying elements come first, stopping at the first
failure loses nothing. -/
theorem takeWhile_eq_filter {Element : Type u} (prd : Element → Bool)
    (b : Element → Element → Prop) {l : List Element} (ho : l.Pairwise b)
    (hi : ∀ x ∈ l, ∀ y ∈ l, b x y → prd y = true → prd x = true) :
    l.takeWhile prd = l.filter prd := by
  induction l with
  | nil => rfl
  | cons head rest ih =>
    rcases pairwise_cons.mp ho with ⟨he, hr⟩
    have ht := ih hr fun x hf y hs =>
      hi x (mem_cons_of_mem head hf) y (mem_cons_of_mem head hs)
    by_cases hp : prd head = true
    · simp [hp, ht]
    have hl : rest.filter prd = [] := by
      apply filter_eq_nil_iff.mpr
      intro y hs hse
      exact hp (hi head (by simp) y (by simp [hs]) (he y hs) hse)
    simp [hp, hl]

end SortedMap

namespace SortedMap

variable {Letter : Type u} {Value : Type v} [LinearOrder Letter]

/-- Walk the entries from `start` on while their keys extend `head`. -/
def scanFrom (map : SortedMap (List Letter) Value) (head start : List Letter) :
    List (List Letter × Value) :=
  (map.range start).takeWhile fun entry => head.isPrefixOf entry.1

/-- The entries whose keys extend `head`, in key order. -/
def scan (map : SortedMap (List Letter) Value) (head : List Letter) :
    List (List Letter × Value) :=
  map.scanFrom head head

section Map

variable (map : SortedMap (List Letter) Value)

theorem scanFrom_eq_filter {head s : List Letter} (hr : head ≤ s) :
    map.scanFrom head s = (map.range s).filter (fun e => head.isPrefixOf e.1) := by
  apply takeWhile_eq_filter _ _ (map.range_sorted s)
  intro x hf y _ hb he
  rw [ isPrefixOf_iff_prefix] at he ⊢
  have hl : s ≤ x.1 :=
    ((mem_range_iff map s x.1 x.2).mp hf).2
  exact isPrefix_of_between (hr.trans hl) hb.le he

theorem mem_scanFrom_iff {head s : List Letter} (hr : head ≤ s) (key : List Letter) (val : Value) :
    (key, val) ∈ map.scanFrom head s ↔ map.get? key = some val ∧ s ≤ key ∧ head <+: key := by
  simp [scanFrom_eq_filter map hr, mem_range_iff, and_assoc]

theorem scanFrom_sorted (head s : List Letter) :
    (map.scanFrom head s).Pairwise (fun x y => x.1 < y.1) :=
  (map.range_sorted s).sublist (takeWhile_sublist _)

theorem mem_scan_iff (head key : List Letter) (val : Value) :
    (key, val) ∈ map.scan head ↔ map.get? key = some val ∧ head <+: key := by
  rw [scan, mem_scanFrom_iff map le_rfl]
  constructor
  · rintro ⟨hf, _, he⟩
    exact ⟨hf, he⟩
  · rintro ⟨hf, he⟩
    exact ⟨hf, le_of_isPrefix he, he⟩

theorem scan_sorted (head : List Letter) : (map.scan head).Pairwise (fun x y => x.1 < y.1) :=
  map.scanFrom_sorted head head

theorem scanFrom_eq_scan_filter {head s : List Letter} (hr : head ≤ s) :
    map.scanFrom head s = (map.scan head).filter (fun e => s ≤ e.1) := by
  apply entries_eq_of_mem_iff (map.scanFrom_sorted head s)
    ((map.scan_sorted head).sublist filter_sublist)
  rintro ⟨key, val⟩
  rw [mem_scanFrom_iff map hr, mem_filter, mem_scan_iff, decide_eq_true_iff]
  constructor
  · rintro ⟨hf, hl, he⟩
    exact ⟨⟨hf, he⟩, hl⟩
  · rintro ⟨⟨hf, he⟩, hl⟩
    exact ⟨hf, hl, he⟩

end Map

theorem scan_congr {x y : SortedMap (List Letter) Value} {head : List Letter}
    (hl : ∀ key, head <+: key → x.get? key = y.get? key) : x.scan head = y.scan head := by
  apply entries_eq_of_mem_iff (x.scan_sorted head) (y.scan_sorted head)
  rintro ⟨key, val⟩
  rw [mem_scan_iff, mem_scan_iff]
  constructor
  · rintro ⟨hf, he⟩
    exact ⟨hl key he ▸ hf, he⟩
  · rintro ⟨hf, he⟩
    exact ⟨(hl key he).symm ▸ hf, he⟩

end SortedMap

end Library

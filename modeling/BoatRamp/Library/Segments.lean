import Mathlib.Data.List.Sort
import Mathlib.Data.List.Count
import Mathlib.Order.Basic

/-!
# Work lists done from the front

A list of items is worked off from its front and the work may stop anywhere.  In
one mode it stops at the first item that has been done before.  The part done is
an initial segment of the list.  In descending lists repeated items are
neighbours, which tells where the work stops.
-/

namespace Library

open List

universe u

section Stable

variable {Element : Type u} {b bs w : Element → Element → Prop} [DecidableRel b]
  [IsTrans Element b]

theorem pairwise_orderedInsert_of_stable
    (ht : ∀ first second, bs first second → b first second → w first second)
    (hs : ∀ first second, ¬b second first → w first second) {head : Element} {list : List Element}
    (hso : list.Pairwise b) (ho : list.Pairwise w) (ha : ∀ item ∈ list, bs head item) :
    (list.orderedInsert b head).Pairwise w := by
  induction list with
  | nil => simp
  | cons item rest ih =>
    rcases pairwise_cons.mp hso with ⟨hu, hre⟩
    rcases pairwise_cons.mp ho with ⟨first, hr⟩
    rw [orderedInsert_cons]
    split_ifs with hb
    · refine pairwise_cons.mpr ⟨?_, ho⟩
      intro ot hi
      apply ht head ot (ha ot hi)
      rcases mem_cons.mp hi with rfl | hl
      · exact hb
      · exact IsTrans.trans _ _ _ hb (hu ot hl)
    refine pairwise_cons.mpr ⟨?_, ih hre hr fun ot hl => ha ot (mem_cons_of_mem item hl)⟩
    intro ot hi
    rcases (mem_orderedInsert b).mp hi with rfl | hl
    · exact hs item ot hb
    · exact first ot hl

variable [Std.Total b]

/-- Insertion sort leaves items that are below each other in the order they had. -/
theorem pairwise_insertionSort_of_stable
    (ht : ∀ first second, bs first second → b first second → w first second)
    (hs : ∀ first second, ¬b second first → w first second) {list : List Element}
    (ho : list.Pairwise bs) : (list.insertionSort b).Pairwise w := by
  induction list with
  | nil => simp
  | cons head rest ih =>
    rcases pairwise_cons.mp ho with ⟨ha, hr⟩
    apply pairwise_orderedInsert_of_stable ht hs (pairwise_insertionSort b rest) (ih hr)
    intro item hi
    exact ha item ((mem_insertionSort b).mp hi)

end Stable

section Segments

variable {Item : Type u} {once : Bool} {list x y finished rest : List Item}

/-- What is done of a list when the work stops somewhere; with `once`, nothing is done twice. -/
structure Segment (once : Bool) (list finished : List Item) : Prop where
  initial : finished <+: list
  nodup : once = true → finished.Nodup

/-- The work went as far as it can. -/
structure FullSegment (once : Bool) (list finished : List Item) : Prop
    extends Segment once list finished where
  ended : finished = list ∨ once = true ∧ ∃ item ∈ finished, finished ++ [item] <+: list

theorem FullSegment.le_of_segment (hf : FullSegment once list x)
    (other : Segment once list y) : y <+: x := by
  rcases prefix_or_prefix_of_prefix hf.initial other.initial with hi | hi
  · rcases hf.ended with rfl | ⟨hs, item, hb, hn⟩
    · exact other.initial
    rcases prefix_or_prefix_of_prefix hn other.initial with hl | hsh
    · have hr := ((other.nodup hs).sublist hl.sublist)
      rw [nodup_append] at hr
      exact absurd rfl (hr.2.2 item hb item (by simp))
    rcases prefix_concat_iff.mp hsh with rfl | hw
    · have hr := other.nodup hs
      rw [nodup_append] at hr
      exact absurd rfl (hr.2.2 item hb item (by simp))
    · exact hw
  · exact hi

theorem FullSegment.unique (hf : FullSegment once list x)
    (other : FullSegment once list y) : x = y :=
  (other.le_of_segment hf.toSegment).eq_of_length_le (hf.le_of_segment other.toSegment).length_le

theorem FullSegment.append (hst : Segment once (x ++ rest) x) (hf : FullSegment once rest finished)
    (ha : ∀ item ∈ x, item ∉ rest) : FullSegment once (x ++ rest) (x ++ finished) where
  initial := (prefix_append_right_inj x).mpr hf.initial
  nodup hs := nodup_append.mpr ⟨hst.nodup hs, hf.nodup hs,
    fun item hb ot haf hsa => ha item hb (hsa ▸ hf.initial.subset haf)⟩
  ended := by
    rcases hf.ended with rfl | ⟨hs, item, hb, hn⟩
    · exact .inl rfl
    · refine .inr ⟨hs, item, mem_append_right _ hb, ?_⟩
      rw [append_assoc]
      exact (prefix_append_right_inj x).mpr hn

end Segments

section Descending

variable {Item : Type u} [LinearOrder Item] {once : Bool} {list first rest f : List Item}
  {item o : Item}

theorem le_of_mem_append (hd : (first ++ rest).Pairwise (· ≥ ·)) (hb : item ∈ first)
    (ha : o ∈ rest) : o ≤ item :=
  (pairwise_append.mp hd).2.2 item hb o ha

theorem Segment.mem_of_lt (hs : Segment once list f)
    (hd : list.Pairwise (· ≥ ·)) (hdo : item ∈ f) (hh : item < o) (hl : o ∈ list) : o ∈ f := by
  obtain ⟨rest, rfl⟩ := hs.initial
  rcases mem_append.mp hl with hi | ha
  · exact hi
  · exact absurd (le_of_mem_append hd hdo ha) (not_le.mpr hh)

/-- Above an item that is done nothing is listed twice, where the work stops at repeated items. -/
theorem Segment.count_le_one (hse : Segment once list f) (hs : once = true)
    (hd : list.Pairwise (· ≥ ·)) (hdo : item ∈ f) (hh : item < o) : list.count o ≤ 1 := by
  obtain ⟨rest, rfl⟩ := hse.initial
  have hl : o ∉ rest := fun ha =>
    absurd (le_of_mem_append hd hdo ha) (not_le.mpr hh)
  rw [count_append, count_eq_zero_of_not_mem hl, Nat.add_zero]
  exact nodup_iff_count_le_one.mp (hse.nodup hs) o

theorem Segment.full_of_repeated (hs : Segment once list f) (hst : once = true)
    (hd : list.Pairwise (· ≥ ·)) (hdo : item ∈ f)
    (hre : 2 ≤ list.count item) : FullSegment once list f := by
  obtain ⟨rest, rfl⟩ := hs.initial
  have hsi := nodup_iff_count_le_one.mp (hs.nodup hst) item
  have ha : item ∈ rest := by
    rw [count_append] at hre
    exact count_pos_iff.mp (by omega)
  cases rest with
  | nil => cases ha
  | cons next l =>
    have hr : item ≤ next := by
      rcases mem_cons.mp ha with rfl | haf
      · exact le_rfl
      · exact (pairwise_cons.mp (pairwise_append.mp hd).2.1).1 item haf
    have hsa : next = item := le_antisymm (le_of_mem_append hd hdo (by simp)) hr
    subst hsa
    exact ⟨hs, .inr ⟨hst, next, hdo, ⟨l, by simp⟩⟩⟩

/-- Full work reaches every item above which nothing is repeated. -/
theorem FullSegment.mem_of_reached (hfu : FullSegment once list f) (hd : list.Pairwise (· ≥ ·))
    (hl : item ∈ list) (hr : once = true → ∀ o, item < o → list.count o ≤ 1) : item ∈ f := by
  rcases hfu.ended with rfl | ⟨hs, next, hdo, hf⟩
  · exact hl
  obtain ⟨rest, rfl⟩ := hf
  have ht : 2 ≤ (f ++ [next] ++ rest).count next := by
    have hb := count_pos_iff.mpr hdo
    simp only [count_append, count_singleton_self]
    omega
  have low : next ≤ item := by
    by_contra ha
    have hal := hr hs next (not_le.mp ha)
    omega
  rcases mem_append.mp hl with hi | haf
  · rcases mem_append.mp hi with he | hla
    · exact he
    · rw [mem_singleton.mp hla]
      exact hdo
  have hsa : item = next :=
    le_antisymm (le_of_mem_append hd (by simp) haf) low
  rw [hsa]
  exact hdo

end Descending

end Library

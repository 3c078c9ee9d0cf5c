import Mathlib.Data.List.Basic

/-!
# Fallible traversals

A computation that may fail stops at the first failure; when it succeeds, every
step did.
-/

namespace Library

open List

universe u

theorem bind_eq_ok_iff {Error First Last : Type u} {first : Except Error First}
    {next : First → Except Error Last} {last : Last} :
    (first >>= next) = .ok last ↔ ∃ result, first = .ok result ∧ next result = .ok last := by
  cases first with
  | error error | ok result => simp [bind, Except.bind]

theorem map_eq_ok_iff {Error First Last : Type u} {x : Except Error First}
    {next : First → Last} {l : Last} : x.map next = .ok l ↔ ∃ res, x = .ok res ∧ next res = l := by
  cases x <;> simp [Except.map]

theorem toOption_eq_some_iff {Error Result : Type u} {a : Except Error Result}
    {res : Result} : a.toOption = some res ↔ a = .ok res := by
  cases a <;> simp [Except.toOption]

theorem forM_eq_ok_iff {Error Element : Type} {c : Element → Except Error Unit}
    {list : List Element} : list.forM c = .ok () ↔ ∀ e ∈ list, c e = .ok () := by
  induction list with
  | nil => simp [pure, Except.pure]
  | cons e rest ih =>
    rw [List.forM, bind_eq_ok_iff, List.forall_mem_cons]
    constructor
    · rintro ⟨⟨⟩, hf, hl⟩
      exact ⟨hf, ih.mp hl⟩
    · rintro ⟨hf, hl⟩
      exact ⟨(), hf, ih.mpr hl⟩

variable {Error Element Result : Type u} {op : Element → Except Error Result}
  {list : List Element} {r : List Result}

theorem mapM_eq_ok_iff : list.mapM op = .ok r ↔ list.map op = r.map .ok := by
  induction list generalizing r with
  | nil =>
    constructor
    · intro hd
      cases hd
      rfl
    intro hs
    rw [map_eq_nil_iff.mp hs.symm]
    rfl
  | cons element rest ih =>
    rw [mapM_cons]
    cases hf : op element with
    | error error => cases r <;> simp [hf, bind, Except.bind]
    | ok result =>
      cases hl : rest.mapM op with
      | error error =>
        have hn : ∀ others : List Result, rest.map op ≠ others.map .ok := by
          intro others hs
          rw [ih.mpr hs] at hl
          cases hl
        cases r <;> simp [hf, bind, Except.bind, hn]
      | ok others =>
        have hs := ih.mp hl
        cases r with
        | nil => simp [bind, Except.bind, pure, Except.pure]
        | cons head tail =>
          simp only [bind, Except.bind, pure, Except.pure, map_cons, hf, hs,
            Except.ok.injEq, cons.injEq]
          rw [map_inj_right fun _ _ => Except.ok.inj]

theorem eq_filterMap_of_mapM_ok (hd : list.mapM op = .ok r) :
    r = list.filterMap (fun e => (op e).toOption) := by
  have hs := congrArg (filterMap Except.toOption) (mapM_eq_ok_iff.mp hd)
  rw [filterMap_map, filterMap_map] at hs
  have all : r.filterMap (Except.toOption ∘ (Except.ok : Result → Except Error Result)) = r := by
    simp [Function.comp_def, Except.toOption]
  rw [all] at hs
  exact hs.symm

theorem mapM_ok_of_forall (he : ∀ e ∈ list, ∃ res, op e = .ok res) :
    list.mapM op = .ok (list.filterMap fun e => (op e).toOption) := by
  induction list with
  | nil => rfl
  | cons e rest ih =>
    obtain ⟨res, hd⟩ := he e (by simp)
    rw [mapM_cons, hd, ih fun o hi =>
      he o (by simp [hi])]
    simp [bind, Except.bind, pure, Except.pure, hd, Except.toOption]

theorem exists_of_mapM (hd : list.mapM op = .ok r) {e : Element}
    (hin : e ∈ list) : ∃ res, op e = .ok res := by
  have hi : op e ∈ list.map op := mem_map_of_mem hin
  rw [mapM_eq_ok_iff.mp hd] at hi
  obtain ⟨res, _, hs⟩ := mem_map.mp hi
  exact ⟨res, hs.symm⟩

theorem mem_zip_of_mapM (hd : list.mapM op = .ok r) {e : Element} {res : Result} :
    (e, res) ∈ list.zip r ↔ e ∈ list ∧ op e = .ok res := by
  have hs := mapM_eq_ok_iff.mp hd
  clear hd
  induction list generalizing r with
  | nil => simp
  | cons x rest ih =>
    cases r with
    | nil => cases hs
    | cons v vs =>
      obtain ⟨hh, ht⟩ := cons.inj hs
      simp only [zip_cons_cons, mem_cons, Prod.mk.injEq, ih ht]
      constructor
      · rintro (⟨rfl, rfl⟩ | ⟨hi, hf⟩)
        · exact ⟨.inl rfl, hh⟩
        · exact ⟨.inr hi, hf⟩
      rintro ⟨rfl | hi, hf⟩
      · exact .inl ⟨rfl, Except.ok.inj (hf.symm.trans hh)⟩
      · exact .inr ⟨hi, hf⟩

end Library

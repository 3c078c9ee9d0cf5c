import Mathlib.Data.List.Basic
import Mathlib.Order.Basic

/-!
# Three-valued truth

A condition of a query is true, false or unknown.  The connectives follow
Kleene; what a filter keeps is decided by truth alone, so the lemmas say when a
compound condition is true.
-/

namespace Library

abbrev Truth := Option Bool

namespace Truth

def and : Truth → Truth → Truth
  | some true, second => second
  | some false, _ => some false
  | none, some false => some false
  | none, _ => none

def or : Truth → Truth → Truth
  | some false, second => second
  | some true, _ => some true
  | none, some true => some true
  | none, _ => none

def not : Truth → Truth := Option.map Bool.not

@[simp]
theorem and_eq_true_iff {x y : Truth} : x.and y = some true ↔ x = some true ∧ y = some true := by
  rcases x with _ | (_ | _) <;> rcases y with _ | (_ | _) <;> simp [and]

@[simp]
theorem or_eq_true_iff {x y : Truth} : x.or y = some true ↔ x = some true ∨ y = some true := by
  rcases x with _ | (_ | _) <;> rcases y with _ | (_ | _) <;> simp [or]

def all (truths : List Truth) : Truth := truths.foldr and (some true)

def any (truths : List Truth) : Truth := truths.foldr or (some false)

@[simp]
theorem all_eq_true_iff {t : List Truth} : all t = some true ↔ ∀ tr ∈ t, tr = some true := by
  induction t with
  | nil => simp [all]
  | cons x rest ih =>
    rw [all] at ih ⊢
    simp [ih]

@[simp]
theorem any_eq_true_iff {t : List Truth} : any t = some true ↔ ∃ tr ∈ t, tr = some true := by
  induction t with
  | nil => simp [any]
  | cons x rest ih =>
    rw [any] at ih ⊢
    simp only [List.foldr_cons, or_eq_true_iff, ih, List.mem_cons, exists_eq_or_imp]

end Truth

end Library

import Mathlib.Data.List.Lex
import Mathlib.Data.List.Infix
import Mathlib.Order.Lattice

/-!
# Lexicographic prefix ranges and separated segments

Strings are lists over a linearly ordered alphabet, compared
lexicographically.  The strings extending a fixed head form an interval of
this order, which is what makes a prefix scan over an ordered map complete.
Strings built from segments joined by a separator can be taken apart again at
the last separator, provided that the last segment is free of it.
-/

namespace Library

open List

universe u

section Order

variable {Letter : Type u} [LinearOrder Letter]

theorem not_lt_of_isPrefix {head w : List Letter} (he : head <+: w) : ¬w < head := by
  induction head generalizing w with
  | nil => exact not_lt_nil w
  | cons c head ih =>
    rcases he with ⟨rest, rfl⟩
    rw [cons_append, cons_lt_cons_iff]
    rintro (hb | ⟨_, hb⟩)
    · exact lt_irrefl _ hb
    · exact ih ⟨rest, rfl⟩ hb

theorem le_of_isPrefix {head w : List Letter} (he : head <+: w) : head ≤ w :=
  not_lt.mp (not_lt_of_isPrefix he)

/-- The extensions of `head` are convex: nothing else lies between `head` and
one of its extensions. -/
theorem isPrefix_of_between {head m w : List Letter} (hl : head ≤ m)
    (hu : m ≤ w) (he : head <+: w) : head <+: m := by
  induction head generalizing m w with
  | nil => exact nil_prefix
  | cons c head ih =>
    rcases he with ⟨rest, rfl⟩
    cases m with
    | nil => exact absurd (nil_lt_cons c head) (not_lt.mpr hl)
    | cons x m =>
      rw [cons_append] at hu
      rw [← not_lt, cons_lt_cons_iff, not_or, not_and] at hl hu
      have hs : x = c :=
        le_antisymm (not_lt.mp hu.1) (not_lt.mp hl.1)
      subst hs
      have hlo := not_lt.mp (hl.2 rfl)
      have hup := not_lt.mp (hu.2 rfl)
      exact cons_prefix_cons.mpr ⟨rfl, ih hlo hup ⟨rest, rfl⟩⟩

end Order

section Segments

variable {Letter : Type u} {separator : Letter}

/-- The last separator determines both sides of a joined string. -/
theorem joined_injective {x y l o : List Letter} (hl : separator ∉ l) (ho : separator ∉ o)
    (hj : x ++ separator :: l = y ++ separator :: o) : x = y ∧ l = o := by
  induction x generalizing y with
  | nil =>
    cases y with
    | nil => exact ⟨rfl, cons.inj hj |>.2⟩
    | cons c y =>
      have ht := (cons.inj hj).2
      rw [ht] at hl
      exact absurd (by simp) hl
  | cons c x ih =>
    cases y with
    | nil =>
      have ht := (cons.inj hj).2
      rw [← ht] at ho
      exact absurd (by simp) ho
    | cons letter' y =>
      have hp := cons.inj hj
      have ht := ih hp.2
      exact ⟨by rw [hp.1, ht.1], ht.2⟩

end Segments

end Library

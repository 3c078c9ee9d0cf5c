import Mathlib.Data.List.Infix

/-!
# Keyspaces

Keys that start with one of several tags, none of which starts another.  The
tag of a key and what follows it can then be read off the key.
-/

namespace Library

open List

universe u v

/-- Tags of which none starts another. -/
structure Keyspace (Family : Type u) (Letter : Type v) where
  tag : Family → List Letter
  apart : ∀ first second, tag first <+: tag second → first = second

namespace Keyspace

variable {Family : Type u} {Letter : Type v} (space : Keyspace Family Letter)

def key (family : Family) (rest : List Letter) : List Letter := space.tag family ++ rest

variable {space} {x y : Family} {rest o : List Letter}

theorem isPrefix_key_iff : space.key x rest <+: space.key y o ↔ x = y ∧ rest <+: o := by
  constructor
  · intro he
    have hf : space.tag x <+: space.key y o :=
      (prefix_append _ _).trans he
    have hse : space.tag y <+: space.key y o := prefix_append _ _
    have hsa : x = y := by
      rcases prefix_or_prefix_of_prefix hf hse with hs | hs
      · exact space.apart _ _ hs
      · exact (space.apart _ _ hs).symm
    subst hsa
    exact ⟨rfl, (prefix_append_right_inj _).mp he⟩
  · rintro ⟨rfl, he⟩
    exact (prefix_append_right_inj _).mpr he

@[simp]
theorem key_inj : space.key x rest = space.key y o ↔ x = y ∧ rest = o := by
  constructor
  · intro he
    have hex : space.key x rest <+: space.key y o := by rw [he]
    have hs := (isPrefix_key_iff.mp hex).1
    subst hs
    exact ⟨rfl, append_cancel_left he⟩
  · rintro ⟨rfl, rfl⟩
    rfl

end Keyspace

/-- Two segments with a separator between them, of which the first has none, can be read off. -/
theorem segment_inj {Letter : Type v} {sep : Letter} {f s rest ot : List Letter}
    (hc : sep ∉ f) (hal : sep ∉ s) : f ++ sep :: rest = s ++ sep :: ot ↔ f = s ∧ rest = ot := by
  induction f generalizing s with
  | nil =>
    cases s with
    | nil => simp
    | cons c tail =>
      have ha : sep ≠ c := fun hs => hal (by simp [hs])
      simp [ha]
  | cons c tail ih =>
    cases s with
    | nil =>
      have ha : c ≠ sep := fun hs => hc (by simp [hs])
      simp [ha]
    | cons head o =>
      have ht : sep ∉ tail := fun hi => hc (by simp [hi])
      have ho : sep ∉ o := fun hi => hal (by simp [hi])
      simp only [cons_append, cons.injEq, ih ht ho, and_assoc]

end Library

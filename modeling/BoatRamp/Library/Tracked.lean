import Mathlib.Data.List.Basic

/-!
# Computations that report what they read

A tracked computation returns a value and the names of the parts of the world
it looked at.  It is *sound* when two comparable worlds that agree on the
reported names give the same result and the same report, so that the report can
key a cache.  Soundness is closed under sequencing, whichever way the later
computation depends on the earlier value.
-/

namespace Library

universe u

/-- A value with the names read on the way to it. -/
structure Tracked (Name Result : Type u) where
  result : Result
  names : List Name

namespace Tracked

variable {Name Result Next World : Type u}

instance : Monad (Tracked Name) where
  pure result := ⟨result, []⟩
  bind first next := ⟨(next first.result).result, first.names ++ (next first.result).names⟩

@[simp] theorem pure_result (res : Result) : (pure res : Tracked Name Result).result = res :=
  rfl

@[simp] theorem pure_names (res : Result) : (pure res : Tracked Name Result).names = [] := rfl

@[simp] theorem bind_names (x : Tracked Name Result) (next : Result → Tracked Name Next) :
    (x >>= next).names = x.names ++ (next x.result).names := rfl

/-- Comparable worlds that agree on the names reported in the first give the same outcome. -/
def Sound (comparable : World → World → Prop) (agree : Name → World → World → Prop)
    (run : World → Tracked Name Result) : Prop :=
  ∀ first second, comparable first second →
    (∀ name ∈ (run first).names, agree name first second) → run first = run second

variable {comparable : World → World → Prop} {agree : Name → World → World → Prop}

theorem Sound.const (t : Tracked Name Result) : Sound comparable agree (fun _ : World => t) :=
  fun _ _ _ _ => rfl

theorem Sound.bind {run : World → Tracked Name Result} {next : Result → World → Tracked Name Next}
    (hr : Sound comparable agree run) (hn : ∀ res, Sound comparable agree (next res)) :
    Sound comparable agree (fun w => run w >>= fun res => next res w) := by
  intro x y hal ha
  simp only [bind_names, List.mem_append] at ha
  have he : run x = run y :=
    hr x y hal fun name hre => ha name (.inl hre)
  have hl : next (run x).result x = next (run x).result y :=
    hn _ x y hal fun name hre => ha name (.inr hre)
  simp only [Bind.bind, hl, ← he]

end Tracked

end Library

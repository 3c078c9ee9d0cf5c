import BoatRamp.Library.Machine

/-!
# Interleaved calls

Calls run concurrently over a shared state.  Each call is a task that takes one
atomic step at a time; a schedule starts calls and picks which task moves next.
The invariant rule splits the running tasks around the one that moves.
-/

namespace Library

universe u

/-- The shared state and the calls in progress, oldest first. -/
structure Pool (Shared Task : Type u) where
  shared : Shared
  running : List Task
  deriving DecidableEq

inductive Schedule (Call Choice : Type u) where
  | invoke (call : Call)
  | run (index : Nat) (choice : Choice)
  deriving DecidableEq

/-- A component whose calls are split into atomic steps.  A step continues the
task or returns from the call. -/
structure Concurrent (Shared Call Choice Task Output : Type u) where
  start : Call → Task
  step : Shared → Task → Choice → Shared × (Task ⊕ Output)

namespace Concurrent

variable {Shared Call Choice Task Output : Type u}

def runTask (component : Concurrent Shared Call Choice Task Output)
    (pool : Pool Shared Task) (index : Nat) (choice : Choice) :
    Pool Shared Task × Option Output :=
  match pool.running[index]? with
  | none => (pool, none)
  | some task =>
      match component.step pool.shared task choice with
      | (shared, .inl next) => (⟨shared, pool.running.set index next⟩, none)
      | (shared, .inr output) => (⟨shared, pool.running.eraseIdx index⟩, some output)

def machine (component : Concurrent Shared Call Choice Task Output) :
    Machine (Pool Shared Task) (Schedule Call Choice) (Option Output) where
  step pool
    | .invoke call => (⟨pool.shared, pool.running ++ [component.start call]⟩, none)
    | .run index choice => component.runTask pool index choice

theorem split_at_index {r : List Task} {i : Nat} {t : Task} (hf : r[i]? = some t) :
    ∃ b a, r = b ++ t :: a ∧ b.length = i := by
  obtain ⟨hb, hs⟩ := List.getElem?_eq_some_iff.mp hf
  refine ⟨r.take i, r.drop (i + 1), ?_, ?_⟩
  · rw [← hs, List.getElem_cons_drop, List.take_append_drop]
  · exact List.length_take_of_le (Nat.le_of_lt hb)

theorem mem_around {b a : List Task} {t o : Task} : o ∈ b ++ t :: a ↔ o = t ∨ o ∈ b ++ a :=
  List.perm_middle.mem_iff.trans List.mem_cons

theorem eraseIdx_around (b a : List Task) (t : Task) :
    (b ++ t :: a).eraseIdx b.length = b ++ a := by
  simp [List.eraseIdx_append_of_length_le]

variable {cm : Concurrent Shared Call Choice Task Output}

theorem runTask_continues {s next : Shared} {b a : List Task} {t c : Task}
    {ch : Choice} (hc : cm.step s t ch = (next, .inl c)) : cm.runTask ⟨s, b ++ t :: a⟩ b.length ch =
      (⟨next, b ++ c :: a⟩, none) := by
  simp [runTask, hc]

theorem runTask_returns {s next : Shared} {b a : List Task} {t : Task} {c : Choice} {o : Output}
    (hr : cm.step s t c = (next, .inr o)) : cm.runTask ⟨s, b ++ t :: a⟩ b.length c =
      (⟨next, b ++ a⟩, some o) := by
  simp [runTask, hr, eraseIdx_around]

theorem runTask_cases (p : Pool Shared Task) (i : Nat) (c : Choice) : cm.runTask p i c = (p, none) ∨
      ∃ b t a, p.running = b ++ t :: a ∧ b.length = i := by
  cases hf : p.running[i]? with
  | none =>
    left
    simp only [runTask, hf]
  | some t =>
    right
    obtain ⟨b, a, hs, hl⟩ := split_at_index hf
    exact ⟨b, t, a, hs, hl⟩

variable (cm) in
theorem shared_of_step (p : Pool Shared Task) (act : Schedule Call Choice) :
    (cm.machine.step p act).1.shared = p.shared ∨ ∃ i c t, act = .run i c ∧ p.running[i]? = some t ∧
        (cm.machine.step p act).1.shared = (cm.step p.shared t c).1 := by
  cases act with
  | invoke cl => exact .inl rfl
  | run i c =>
    cases hf : p.running[i]? with
    | none =>
      left
      simp only [machine, runTask, hf]
    | some t =>
      refine .inr ⟨i, c, t, rfl, hf, ?_⟩
      simp only [machine, runTask, hf]
      split <;> simp_all

theorem output_of_task {p : Pool Shared Task} {act : Schedule Call Choice}
    {o : Output} (ha : (cm.machine.step p act).2 = some o) : ∃ t ∈ p.running, ∃ c next,
      cm.step p.shared t c = (next, .inr o) := by
  cases act with
  | invoke cl => cases ha
  | run i c =>
    change (cm.runTask p i c).2 = some o at ha
    unfold runTask at ha
    split at ha
    · cases ha
    rename_i t found
    split at ha
    · cases ha
    rename_i next a hm
    cases ha
    exact ⟨t, List.mem_of_getElem? found, c, next, hm⟩

/-- An invariant kept when a call starts, when a task moves on and when a call
returns is kept by every step of a schedule. -/
theorem kept_of_tasks (al : Pool Shared Task → Schedule Call Choice → Prop)
    {Invariant : Pool Shared Task → Prop} (hs : ∀ s r cl, Invariant ⟨s, r⟩ →
      al ⟨s, r⟩ (.invoke cl) → Invariant ⟨s, r ++ [cm.start cl]⟩) (hc : ∀ s b t af c next cn,
      Invariant ⟨s, b ++ t :: af⟩ → al ⟨s, b ++ t :: af⟩ (.run b.length c) →
      cm.step s t c = (next, .inl cn) → Invariant ⟨next, b ++ cn :: af⟩) (hr : ∀ s b t af c next o,
      Invariant ⟨s, b ++ t :: af⟩ → al ⟨s, b ++ t :: af⟩ (.run b.length c) →
      cm.step s t c = (next, .inr o) →
      Invariant ⟨next, b ++ af⟩) (p : Pool Shared Task) (act : Schedule Call Choice)
    (hi : Invariant p) (hme : al p act) : Invariant (cm.machine.step p act).1 := by
  cases act with
  | invoke cl => exact hs p.shared p.running cl hi hme
  | run i c =>
    change Invariant (cm.runTask p i c).1
    rcases runTask_cases p i c with hid | ⟨b, t, af, hsp, rfl⟩
    · rw [hid]
      exact hi
    obtain ⟨s, r⟩ := p
    obtain rfl : r = b ++ t :: af := hsp
    cases hm : cm.step s t c with
    | mk next an =>
      cases an with
      | inl cn =>
        rw [runTask_continues hm]
        exact hc _ _ _ _ _ _ _ hi hme hm
      | inr o =>
        rw [runTask_returns hm]
        exact hr _ _ _ _ _ _ _ hi hme hm

end Concurrent

end Library

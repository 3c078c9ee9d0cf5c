/-!
# Runs of deterministic machines

A machine maps a state and an action to the next state and an output.  The
invariant rules take one obligation about a single step and turn it into a
statement about every run whose steps meet a condition on the state before
them.
-/

namespace Library

universe u v w x

structure Machine (State : Type u) (Action : Type v) (Output : Type w) where
  step : State → Action → State × Output

namespace Machine

variable {State : Type u} {Action : Type v} {Output : Type w}

def final (machine : Machine State Action Output) (state : State) : List Action → State
  | [] => state
  | action :: rest => machine.final (machine.step state action).1 rest

def history (machine : Machine State Action Output) (state : State) :
    List Action → List (Action × Output)
  | [] => []
  | action :: rest =>
      (action, (machine.step state action).2) ::
        machine.history (machine.step state action).1 rest

/-- Every step of the run is allowed in the state before it. -/
def Meets (machine : Machine State Action Output) (allowed : State → Action → Prop)
    (state : State) : List Action → Prop
  | [] => True
  | action :: rest =>
      allowed state action ∧ machine.Meets allowed (machine.step state action).1 rest

instance decidableMeets (machine : Machine State Action Output)
    (allowed : State → Action → Prop) [∀ state action, Decidable (allowed state action)]
    (state : State) : (actions : List Action) → Decidable (machine.Meets allowed state actions)
  | [] => .isTrue trivial
  | action :: rest =>
    have := machine.decidableMeets allowed (machine.step state action).1 rest
    inferInstanceAs (Decidable (_ ∧ _))

variable (m : Machine State Action Output)
  (s : State) {acts : List Action} {a : State → Action → Prop}
  {Invariant : State → Prop}

@[simp]
theorem final_nil : m.final s [] = s := rfl

@[simp]
theorem final_cons (act : Action) (rest : List Action) :
    m.final s (act :: rest) = m.final (m.step s act).1 rest := rfl

theorem final_append (x y : List Action) : m.final s (x ++ y) = m.final (m.final s x) y := by
  induction x generalizing s with
  | nil => rfl
  | cons act rest ih =>
    exact ih (m.step s act).1

theorem history_append (x y : List Action) : m.history s (x ++ y) = m.history s x ++
        m.history (m.final s x) y := by
  induction x generalizing s with
  | nil => rfl
  | cons act rest ih =>
    simp only [List.cons_append, history, final_cons]
    rw [ih]

theorem meets_append (a : State → Action → Prop) (s : State) (x y : List Action) :
    m.Meets a s (x ++ y) ↔ m.Meets a s x ∧ m.Meets a (m.final s x) y := by
  induction x generalizing s with
  | nil => simp [Meets]
  | cons act rest ih =>
    simp only [List.cons_append, Meets, final_cons, ih, and_assoc]

theorem meets_and (x y : State → Action → Prop) (s : State) (acts : List Action) :
    m.Meets (fun s act => x s act ∧ y s act) s acts ↔ m.Meets x s acts ∧ m.Meets y s acts := by
  induction acts generalizing s with
  | nil => simp [Meets]
  | cons act rest ih =>
    simp only [Meets, ih, and_and_and_comm]

theorem history_map_fst (acts : List Action) : (m.history s acts).map Prod.fst = acts := by
  induction acts generalizing s with
  | nil => rfl
  | cons act rest ih =>
    simp only [history, List.map_cons, ih]

theorem meets_of_forall {a : Action → Prop} (all : ∀ act ∈ acts, a act) :
    m.Meets (fun _ act => a act) s acts := by
  induction acts generalizing s with
  | nil => trivial
  | cons act rest ih =>
    exact ⟨all act (by simp), ih _ fun o hi =>
      all o (List.mem_cons_of_mem _ hi)⟩

variable {m}

/-- An invariant kept by every allowed step holds after every allowed run. -/
theorem invariant (hk : ∀ s act, Invariant s → a s act → Invariant (m.step s act).1) {s : State}
    (hi : Invariant s) (hm : m.Meets a s acts) : Invariant (m.final s acts) := by
  induction acts generalizing s with
  | nil => exact hi
  | cons act rest ih =>
    exact ih (hk s act hi hm.1) hm.2

theorem invariant_always (hk : ∀ s act, Invariant s → Invariant (m.step s act).1)
    {s : State} (hi : Invariant s) (acts : List Action) : Invariant (m.final s acts) :=
  invariant (fun s act hh _ => hk s act hh) hi (m.meets_of_forall s fun _ _ => trivial)

/-- The invariant rule for properties that also speak about what the run did
and answered so far. -/
theorem invariant_history {Invariant : List (Action × Output) → State → Prop}
    (hk : ∀ p s act, Invariant p s → a s act → Invariant (p ++ [(act, (m.step s act).2)])
        (m.step s act).1) {p : List (Action × Output)} {s : State} (hi : Invariant p s)
    (hm : m.Meets a s acts) : Invariant (p ++ m.history s acts) (m.final s acts) := by
  induction acts generalizing p s with
  | nil => simpa [history] using hi
  | cons act rest ih =>
    have hn := ih (hk p s act hi hm.1) hm.2
    simpa [history, List.append_assoc] using hn

/-- What an invariant implies for the output of one step holds for every
output of the run. -/
theorem outputs_of_invariant (Good : Action → Output → Prop)
    (hk : ∀ s act, Invariant s → a s act → Invariant (m.step s act).1)
    (hg : ∀ s act, Invariant s → a s act → Good act (m.step s act).2) {s : State} (hi : Invariant s)
    (hm : m.Meets a s acts) : ∀ e ∈ m.history s acts, Good e.1 e.2 := by
  induction acts generalizing s with
  | nil => simp [history]
  | cons act rest ih =>
    intro e hin
    rcases List.mem_cons.mp hin with rfl | hit
    · exact hg s act hi hm.1
    · exact ih (hk s act hi hm.1) hm.2 e hit

/-- Machines whose related states step to related states with the same output
answer alike along every run. -/
theorem history_eq_of_simulation {Other : Type x} {o : Machine Other Action Output}
    {Related : State → Other → Prop} (hs : ∀ s p act, Related s p → a s act →
      Related (m.step s act).1 (o.step p act).1 ∧ (m.step s act).2 = (o.step p act).2) {s : State}
    {p : Other} (hr : Related s p) (hm : m.Meets a s acts) :
    Related (m.final s acts) (o.final p acts) ∧ m.history s acts = o.history p acts := by
  induction acts generalizing s p with
  | nil => exact ⟨hr, rfl⟩
  | cons act rest ih =>
    obtain ⟨hn, hsa⟩ := hs s p act hr hm.1
    obtain ⟨hl, ha⟩ := ih hn hm.2
    exact ⟨hl, by simp only [history, hsa, ha]⟩

end Machine

end Library

/-!
# Computations that may stop

A computation changes a state and either returns a value or stops; what it
changed before it stopped stays.  The rules are those of pre- and
postconditions, with one condition more for the states in which it stops.
-/

namespace Library

universe u v

def Attempt (State : Type u) (Value : Type v) := State → Option Value × State

namespace Attempt

variable {State : Type} {Value Other : Type}

instance : Monad (Attempt State) where
  pure value state := (some value, state)
  bind first next state :=
    match first state with
    | (some value, state) => next value state
    | (none, state) => (none, state)

def stop : Attempt State Value := fun state => (none, state)

def modify (change : State → State) : Attempt State Unit := fun state => (some (), change state)

def read (view : State → Value) : Attempt State Value := fun state => (some (view state), state)

/-- From a state in `Before` the computation returns in a state in `After`, or stops in one in
`Stopped`. -/
def Triple (Before : State → Prop) (computation : Attempt State Value)
    (After : Value → State → Prop) (Stopped : State → Prop) : Prop :=
  ∀ state, Before state →
    match computation state with
    | (some value, state) => After value state
    | (none, state) => Stopped state

namespace Triple

variable {Before Stopped : State → Prop} {After : Value → State → Prop}

theorem pure (v : Value) : Triple Before (Pure.pure v) (fun _ => Before) Stopped :=
  fun _ hb => hb

theorem stop : Triple Before (Attempt.stop : Attempt State Value) After Before :=
  fun _ hb => hb

theorem bind {Middle : Value → State → Prop} {x : Attempt State Value}
    {next : Value → Attempt State Other} {Last : Other → State → Prop}
    (hf : Triple Before x Middle Stopped) (hn : ∀ v, Triple (Middle v) (next v) Last Stopped) :
    Triple Before (x >>= next) Last Stopped := by
  intro s hb
  have hm := hf s hb
  show match (match x s with
    | (some v, s) => next v s
    | (none, s) => (none, s)) with
    | (some v, s) => Last v s
    | (none, s) => Stopped s
  generalize x s = result at hm ⊢
  obtain ⟨_ | v, s⟩ := result
  · exact hm
  · exact hn v s hm

theorem imp {Last : Value → State → Prop} {Ended : State → Prop} {c : Attempt State Value}
    (ht : Triple Before c After Stopped) (ha : ∀ v s, After v s → Last v s)
    (hs : ∀ s, Stopped s → Ended s) : Triple Before c Last Ended := by
  intro s hb
  have h := ht s hb
  generalize c s = result at h ⊢
  obtain ⟨_ | v, s⟩ := result
  · exact hs s h
  · exact ha v s h

/-- What holds after the computation whichever way it ends. -/
theorem ends {Always : State → Prop} {c : Attempt State Value}
    (ht : Triple Before c (fun _ => Always) Always) {s : State}
    (hb : Before s) : Always (c s).2 := by
  have h := ht s hb
  generalize c s = result at h ⊢
  obtain ⟨_ | v, s⟩ := result <;> exact h

end Triple

end Attempt

end Library

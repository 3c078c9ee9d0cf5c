import BoatRamp.Functions.Invocations

/-!
# Attempts of an invocation

A claim counts an attempt before it runs, and the cap is looked at when a run is
settled.  A run that takes its node down is never settled, and its invocation is
claimed again whatever its count.
-/

namespace BoatRamp.Functions

open Library Concurrent

/-- How often the record was started since it was enqueued or fired again. -/
def Shared.starts (shared : Shared) (key : Text) (count : Nat) (task : Task) (choice : Choice) :
    Nat :=
  match task with
  | .claim _ project observed =>
    if observed.key project = key ∧ shared.grants project observed choice.now then count + 1
    else count
  | .overwrite project trigger _ current =>
    if trigger.invocation.key project = key ∧ shared.kv.get? key = current then 0 else count
  | .enqueue project trigger =>
    if trigger.invocation.key project = key ∧ shared.kv.get? key = none then 0 else count
  | _ => count

/-- The nodes, with the starts of one record beside what they share. -/
def counted (key : Text) : Concurrent (Shared × Nat) Call Choice Task Bool where
  start := nodes.start
  step shared task choice :=
    let (next, outcome) := shared.1.step task choice
    ((next, shared.1.starts key shared.2 task choice), outcome)

/-- No run with an elapsed lease is taken over whose invocation has used up its attempts. -/
def Task.capped (shared : Shared) (now : UInt64) : Task → Bool
  | .claim _ project observed => !shared.grants project observed now ||
      observed.status ≠ .running || observed.attempts < MAX_INVOKE_ATTEMPTS
  | _ => true

def Capped (pool : Pool (Shared × Nat) Task) : Schedule Call Choice → Bool
  | .invoke _ => true
  | .run index choice => pool.running[index]?.all (Task.capped pool.shared.1 choice.now)

/-- The attempts of a record are its starts, and a queued one may be started once more. -/
def Counts (starts : Nat) : Option Invocation → Prop
  | none => starts = 0
  | some inv => inv.attempts.toNat = starts ∧ starts ≤ MAX_INVOKE_ATTEMPTS.toNat ∧
      (inv.status = .queued → starts < MAX_INVOKE_ATTEMPTS.toNat)

variable {shared : Shared} {key : Text} {n : Nat} {inv : Invocation}

theorem toNat_nextAttempt {a : UInt32} (ha : a.toNat < MAX_INVOKE_ATTEMPTS.toNat) :
    (nextAttempt a).toNat = a.toNat + 1 := by
  have hs : a.toNat < 5 := ha
  unfold nextAttempt
  split
  · next hm =>
    rw [hm] at hs
    exact absurd hs (by decide)
  · rw [UInt32.toNat_add]
    exact Nat.mod_eq_of_lt (by simp; omega)

theorem Counts.claimed (hc : Counts n (some inv)) (l : UInt64) {now : UInt64}
    (hq : inv.claimable now = true)
    (hb : inv.status ≠ .running ∨ inv.attempts < MAX_INVOKE_ATTEMPTS) :
    Counts (n + 1) (some (inv.claimed l now)) := by
  have hl : n < MAX_INVOKE_ATTEMPTS.toNat := by
    rcases hb with hb | hb
    · refine hc.2.2 ?_
      unfold Invocation.claimable at hq
      cases hs : inv.status with
      | queued => rfl
      | running => exact absurd hs hb
      | succeeded | failed => simp [hs] at hq
    · rw [← hc.1]
      exact hb
  refine ⟨?_, hl, nofun⟩
  rw [Invocation.claimed, toNat_nextAttempt (by rw [hc.1]; exact hl), hc.1]

theorem Counts.settled (hc : Counts n (some inv)) (now : UInt64) (ran : Ran) :
    Counts n (some (inv.settled now ran)) := by
  cases ran with
  | versionGone => exact ⟨hc.1, hc.2.1, nofun⟩
  | responded s ct b =>
    unfold Invocation.settled
    dsimp only
    split
    · exact ⟨hc.1, hc.2.1, nofun⟩
    split
    · exact ⟨hc.1, hc.2.1, nofun⟩
    · next hm =>
      refine ⟨hc.1, hc.2.1, fun _ => ?_⟩
      rw [← hc.1]
      exact Nat.lt_of_not_le hm

/-- A swap of one record counts when its new content does. -/
theorem counts_swap {k : Text} {e : Option Invocation} {new : Invocation} {m : Nat}
    (hc : Counts n (shared.kv.get? key))
    (hs : k = key → shared.kv.get? key = e → Counts m (some new)) :
    Counts (if k = key ∧ shared.kv.get? key = e then m else n)
      ((shared.compareAndSwap k e new).1.kv.get? key) := by
  unfold Shared.compareAndSwap
  by_cases hk : k = key
  · subst hk
    by_cases he : shared.kv.get? k = e
    · rw [if_pos ⟨rfl, he⟩, if_pos he, Shared.write, SortedMap.get?_insert_self]
      exact hs rfl he
    · rwa [if_neg fun h => he h.2, if_neg he]
  · rw [if_neg fun h => hk h.1]
    split
    · rwa [Shared.write, SortedMap.get?_insert_of_ne _ _ (Ne.symm hk)]
    · exact hc

theorem step_counts {task : Task} (ch : Choice) (hc : Counts n (shared.kv.get? key))
    (hb : task.capped shared ch.now = true) :
    Counts (shared.starts key n task ch) ((shared.step task ch).1.kv.get? key) := by
  cases task with
  | list l p f id =>
    unfold Shared.step
    dsimp only
    split <;> exact hc
  | claim l p o =>
    unfold Shared.step Shared.starts
    by_cases claimable : o.claimable ch.now = true
    · have swapped := @counts_swap shared key n (o.key p) (some o) (o.claimed l ch.now) (n + 1) hc
        fun own stored => (stored ▸ hc).claimed l claimable (by
          simpa [Task.capped, Shared.grants, claimable, own, stored] using hb)
      have granted : o.key p = key ∧ shared.grants p o ch.now = true ↔
          o.key p = key ∧ shared.kv.get? key = some o := by
        simp +contextual [Shared.grants, claimable]
      simp only [granted, if_pos claimable]
      cases swap : shared.compareAndSwap (o.key p) (some o) (o.claimed l ch.now) with
      | mk next won =>
        rw [swap] at swapped
        cases won with
        | true | false => exact swapped
    · simpa [Shared.grants, claimable] using hc
  | run p c v =>
    have hw := @counts_swap shared key n (c.key p) (some c) (c.settled ch.now ch.ran) n hc
      fun _ hs => (hs ▸ hc).settled _ _
    rw [ite_self] at hw
    exact hw
  | refire p t tr =>
    cases tr with
    | zero => exact hc
    | succ tr =>
      unfold Shared.step
      dsimp only
      split
      · exact hc
      · split <;> exact hc
  | overwrite p t tr cr =>
    have hw := @counts_swap shared key n (t.invocation.key p) cr t.invocation 0 hc
      fun _ _ => ⟨rfl, Nat.zero_le _, fun _ => by decide⟩
    unfold Shared.step
    dsimp only
    split
    · next hs =>
      rw [hs] at hw
      exact hw
    · next hs =>
      rw [hs] at hw
      exact hw
  | enqueue p t =>
    exact @counts_swap shared key n (t.invocation.key p) none t.invocation 0 hc
      fun _ _ => ⟨rfl, Nat.zero_le _, fun _ => by decide⟩

def unstarted : Pool (Shared × Nat) Task := ⟨(⟨.empty, fun _ => 0, []⟩, 0), []⟩

/-- As long as no run with an elapsed lease is taken over whose invocation has used up its
attempts, an invocation is started at most that often. -/
theorem starts_le_of_capped (key : Text) (actions : List (Schedule Call Choice))
    (capped : (counted key).machine.Meets (fun pool action => Capped pool action = true)
      unstarted actions) :
    ((counted key).machine.final unstarted actions).shared.2 ≤ MAX_INVOKE_ATTEMPTS.toNat := by
  have hk : ∀ (pool : Pool (Shared × Nat) Task) (action : Schedule Call Choice),
      Counts pool.shared.2 (pool.shared.1.kv.get? key) → Capped pool action = true →
      Counts ((counted key).machine.step pool action).1.shared.2
        (((counted key).machine.step pool action).1.shared.1.kv.get? key) := by
    intro pool action hc hb
    rcases (counted key).shared_of_step pool action with hs | ⟨i, c, t, rfl, ht, hs⟩
    · rw [hs]
      exact hc
    · rw [hs]
      simp only [Capped, ht] at hb
      exact step_counts c hc hb
  have hf := Machine.invariant hk (show Counts 0 none from rfl) capped
  cases hg : ((counted key).machine.final unstarted actions).shared.1.kv.get? key with
  | none =>
    rw [hg] at hf
    rw [show _ = 0 from hf]
    exact Nat.zero_le _
  | some inv =>
    rw [hg] at hf
    exact hf.2.1

namespace Poison

open Recurring

def poisoned : Text := (trigger 100).invocation.key project

/-- The next node lists and claims the invocation. -/
def claims (node : Nat) (now : UInt64) : List (Schedule Call Choice) :=
  [drain, .run node (answered now), .run node (answered now)]

/-- One node after the other claims the invocation and is gone. -/
def crashes (count : Nat) : List (Schedule Call Choice) :=
  [.invoke (.enqueueIfAbsent project (trigger 100)), .run 0 (answered 100)] ++
    (List.range count).flatMap fun node => claims node (.ofNat (100 * (node + 1)))

theorem started_six_times :
    ¬((counted poisoned).machine.final unstarted (crashes 6)).shared.2 ≤
      MAX_INVOKE_ATTEMPTS.toNat := by
  decide +kernel

/-- Another node looks at the invocation while its fifth run is under lease. -/
theorem five_crashes_within : (counted poisoned).machine.Meets
      (fun pool action => Capped pool action = true) unstarted (crashes 5 ++ claims 5 510) ∧
    ((counted poisoned).machine.final unstarted (crashes 5 ++ claims 5 510)).shared.2 ≤
      MAX_INVOKE_ATTEMPTS.toNat := by
  have capped : (counted poisoned).machine.Meets (fun pool action => Capped pool action = true)
      unstarted (crashes 5 ++ claims 5 510) := by decide +kernel
  exact ⟨capped, starts_le_of_capped poisoned _ capped⟩

end Poison

end BoatRamp.Functions

import BoatRamp.Node.GroupCommit
import Mathlib.Data.List.DropRight

/-!
# The relaxed budget

A batch may be acknowledged before it is flushed while the number of such
messages stays within the least budget of its topics.  There is one number for
the whole node, and it bounds the messages of every topic.
-/

namespace BoatRamp.Node.GroupCommit

open Library Messaging Function List

variable {Op : Type}

def USIZE_MAX : Nat := 2 ^ 64 - 1

def publishJob (budget : Text → Nat) (ops : List Op) (topics : List Text) : Job Op where
  ops := ops
  msgs := topics.length
  maxUnflushed := topics.foldl (fun least topic => min least (budget topic)) USIZE_MAX

theorem publishJob_maxUnflushed_le (b : Text → Nat) (ops : List Op) {tp : List Text}
    {t : Text} (hi : t ∈ tp) : (publishJob b ops tp).maxUnflushed ≤ b t := by
  have hb : ∀ (rest : List Text) (l : Nat), rest.foldl (fun l t => min l (b t)) l ≤ l := by
    intro rest
    induction rest with
    | nil => exact Nat.le_refl
    | cons o rest ih => exact fun l => (ih _).trans (Nat.min_le_left _ _)
  obtain ⟨bf, a, rfl⟩ := append_of_mem hi
  rw [publishJob, foldl_append]
  exact (hb a _).trans (Nat.min_le_right _ _)

/-- The jobs of the batches that no durable batch has followed. -/
def uncovered (committed : List (Submission Op)) : List Nat :=
  jobsOf (committed.rtakeWhile Submission.relaxed)

theorem uncovered_append (c : List (Submission Op)) (sub : Submission Op) : uncovered (c ++ [sub]) =
      if sub.relaxed then uncovered c ++ sub.jobs else [] := by
  unfold uncovered
  rw [rtakeWhile_concat]
  split_ifs <;> simp [jobsOf]

theorem uncovered_subset (c : List (Submission Op)) : uncovered c ⊆ jobsOf c :=
  jobsOf_subset (rtakeWhile_suffix _ _).subset

namespace State

variable (state : State Op)

def messages (calls : List Nat) : Nat := (calls.map fun call => (state.job call).msgs).sum

theorem messages_append (x y : List Nat) :
    state.messages (x ++ y) = state.messages x + state.messages y := by
  simp [messages]

theorem messages_filter_le (ch : Nat → Bool) (c : List Nat) :
    state.messages (c.filter ch) ≤ state.messages c :=
  (filter_sublist.map _).sum_le_sum fun _ _ => Nat.zero_le _

/-- A batch on its way to the store fits into the budgets of its jobs. -/
structure Admits (submission : Submission Op) : Prop where
  counts : submission.msgs = state.messages submission.jobs
  within : submission.relaxed = true → ∀ call ∈ submission.jobs,
    state.unflushed + submission.msgs ≤ (state.job call).maxUnflushed

theorem admits_build (j : List Nat) : state.Admits (state.build j) := by
  refine ⟨rfl, fun hr c hi => ?_⟩
  have hl : (state.job c).maxUnflushed ∈
      j.map fun c => (state.job c).maxUnflushed := mem_map_of_mem hi
  cases hle : (j.map fun c => (state.job c).maxUnflushed).min? with
  | none =>
    rw [min?_eq_none_iff.mp hle] at hl
    cases hl
  | some b =>
    have hf : state.unflushed + (state.build j).msgs ≤ b := by
      simpa [build, hle] using hr
    exact hf.trans ((min?_eq_some_iff.mp hle).2 _ hl)

structure Bounded : Prop where
  sound : Sound state
  unflushed : state.unflushed = state.messages (uncovered state.committed)
  flushing : ∀ call submission, state.phase call = .flushing submission → state.Admits submission
  /-- A bound on the budgets of some jobs bounds their messages. -/
  bounded : ∀ chosen bound,
    (∀ call ∈ (uncovered state.committed).filter chosen, (state.job call).maxUnflushed ≤ bound) →
      state.messages ((uncovered state.committed).filter chosen) ≤ bound

end State

open State

variable {state af : State Op}

theorem bounded_new : Bounded (State.new 0 : State Op) where
  sound := sound_new 0
  unflushed := rfl
  flushing _ _ hs := by cases hs
  bounded _ b _ := Nat.zero_le b

namespace State.Bounded

variable (hbd : Bounded state)

include hbd

/-- Nothing is written, and a batch that is new on its way fits. -/
theorem kept (hs : Sound af) (hc : af.committed = state.committed)
    (hu : af.unflushed = state.unflushed)
    (hj : ∀ cl ∈ jobsOf state.submitted, af.job cl = state.job cl)
    (hf : ∀ cl sub, af.phase cl = .flushing sub → state.phase cl = .flushing sub ∨ af.Admits sub) :
    Bounded af := by
  have hk : ∀ cl ∈ uncovered state.committed, af.job cl = state.job cl :=
    fun cl hi => hj cl (jobsOf_subset hbd.sound.accepted (uncovered_subset _ hi))
  have hsa : ∀ c, (∀ cl ∈ c, af.job cl = state.job cl) → af.messages c = state.messages c :=
    fun c hhe => congrArg sum (map_congr_left fun cl hi =>
      congrArg Job.msgs (hhe cl hi))
  refine ⟨hs, ?_, fun cl sub hfl => ?_, fun ch b hbu => ?_⟩
  · rw [hu, hc, hbd.unflushed, hsa _ hk]
  · rcases hf cl sub hfl with hb | ha
    · have hhe : ∀ cl ∈ sub.jobs, af.job cl = state.job cl := by
        intro job hi
        apply hj
        have hh := (hbd.sound.fits cl).inHand
        rw [hb] at hh
        exact hh job hi
      obtain ⟨hco, hw⟩ := hbd.flushing cl sub hb
      refine ⟨hco.trans (hsa _ hhe).symm, fun hr cl hi => ?_⟩
      rw [hu, hhe cl hi]
      exact hw hr cl hi
    · exact ha
  rw [hc] at hbu ⊢
  have hhe : ∀ cl ∈ (uncovered state.committed).filter ch, af.job cl = state.job cl :=
    fun cl hi => hk cl (mem_of_mem_filter hi)
  rw [hsa _ hhe]
  refine hbd.bounded ch b fun cl hi => ?_
  rw [← hhe cl hi]
  exact hbu cl hi

theorem push (job : Job Op) : Bounded (state.push job) := by
  refine hbd.kept (hbd.sound.push job) rfl rfl ?_ fun c sub hf => .inl ?_
  · intro c hi
    apply update_of_ne
    exact Nat.ne_of_lt (hbd.sound.known c (mem_append_left _ hi))
  by_cases hs : c = state.next
  · simp [State.push, hs] at hf
  · simpa [State.push, hs] using hf

theorem moved {c : Nat} {p : Phase Op} (hs : Sound af) (job : af.job = state.job)
    (hc : af.committed = state.committed) (hu : af.unflushed = state.unflushed)
    (hm : af.phase = update state.phase c p) (ha : ∀ sub, p = .flushing sub → af.Admits sub) :
    Bounded af := by
  refine hbd.kept hs hc hu (fun _ _ => by rw [job]) fun o sub hf => ?_
  rw [hm] at hf
  by_cases hsa : o = c
  · rw [hsa, update_self] at hf
    exact .inr (ha sub hf)
  · rw [update_of_ne hsa] at hf
    exact .inl hf

theorem poll (c : Nat) : Bounded (state.poll c) := by
  have hs := hbd.sound.poll c
  revert hs
  unfold State.poll State.receive
  repeat' split
  all_goals intro hs
  case h_2.isFalse =>
    refine hbd.moved hs rfl rfl rfl rfl fun _ hsa => ?_
    cases hsa
    exact ⟨(state.admits_build _).counts, (state.admits_build _).within⟩
  all_goals first
    | exact hbd
    | exact hbd.moved hs rfl rfl rfl rfl fun _ hsa => by cases hsa

theorem cancel (c : Nat) : Bounded (state.cancel c) := by
  have hs := hbd.sound.cancel c
  revert hs
  unfold State.cancel
  split
  all_goals intro hs
  all_goals first
    | exact hbd
    | exact hbd.moved hs rfl rfl rfl rfl fun _ hsa => by cases hsa

theorem written (cl : Nat) (out : Outcome) : Bounded (state.written cl out) := by
  have hs : Sound (state.written cl out) := hbd.sound.written out
  unfold State.written at hs ⊢
  cases hp : state.phase cl with
  | flushing sub =>
    rw [hp] at hs
    cases out with
    | error => exact hbd.moved hs rfl rfl rfl rfl fun _ hsa => by cases hsa
    | ok =>
      obtain ⟨hc, hw⟩ := hbd.flushing cl sub hp
      refine ⟨hs, ?_, fun o next hf => ?_, fun c b hb => ?_⟩
      · dsimp only
        rw [uncovered_append, hbd.unflushed, hc]
        split_ifs <;> simp [messages, move]
      · -- Only the holder of the gate is in a flush, and it has just left it.
        by_cases hsa : o = cl
        · simp [State.move, hsa] at hf
        have hbe : state.phase o = .flushing next := by
          simpa [State.move, hsa] using hf
        have hhe := (hbd.sound.holder cl).mp (by simp [hp, Phase.leads])
        have hh := (hbd.sound.holder o).mp (by simp [hbe, Phase.leads])
        exact absurd (Option.some.inj (hh.symm.trans hhe)) hsa
      dsimp only at hb ⊢
      rw [uncovered_append] at hb ⊢
      split_ifs at hb ⊢ with hr
      · rw [filter_append] at hb ⊢
        rw [messages_append]
        cases hso : sub.jobs.filter c with
        | nil =>
          exact hbd.bounded c b fun cl hi =>
            hb cl (mem_append_left _ hi)
        | cons x rest =>
          have hn : x ∈ sub.jobs.filter c := by simp [hso]
          rw [← hso]
          refine le_trans ?_ (hb x (mem_append_right _ hn))
          refine le_trans ?_ (hw hr x (mem_of_mem_filter hn))
          rw [hbd.unflushed, hc]
          exact Nat.add_le_add (state.messages_filter_le _ _) (state.messages_filter_le _ _)
      · exact Nat.zero_le b
  | _ => exact hbd

end State.Bounded

theorem bounded_of_run (acts : List (Action Op)) : Bounded (machine.final (State.new 0) acts) := by
  refine Machine.invariant_always (fun state act hb => ?_) bounded_new acts
  cases act with
  | groupCommit job => exact hb.push job
  | poll c => exact hb.poll c
  | written c out => exact hb.written c out
  | cancel c => exact hb.cancel c

theorem count_le_messages {c : List Nat} {t : Nat → List Text} (tp : Text)
    (hc : ∀ cl ∈ c, (state.job cl).msgs = (t cl).length) : (c.flatMap t).count tp ≤
      state.messages (c.filter fun cl => tp ∈ t cl) := by
  induction c with
  | nil => exact Nat.zero_le _
  | cons cl rest ih =>
    obtain ⟨hh, hl⟩ := forall_mem_cons.mp hc
    rw [flatMap_cons, count_append]
    by_cases hi : tp ∈ t cl
    · rw [filter_cons_of_pos (by simpa using hi)]
      exact Nat.add_le_add (count_le_length.trans hh.ge) (ih hl)
    rw [filter_cons_of_neg (by simpa using hi), count_eq_zero.mpr hi, Nat.zero_add]
    exact ih hl

/-- In every state of a run of publishes: of a topic's messages in relaxed batches that no durable
batch has followed, there are at most as many as the topic allows. -/
theorem unflushed_within_budget (actions : List (Action Op)) (budget : Text → Nat)
    (topics : Nat → List Text) (topic : Text)
    (published : ∀ call < (machine.final (State.new 0) actions).next, ∃ ops,
      (machine.final (State.new 0) actions).job call = publishJob budget ops (topics call)) :
    ((uncovered (machine.final (State.new 0) actions).committed).flatMap topics).count topic ≤
      budget topic := by
  have hb := bounded_of_run actions
  set state := machine.final (State.new 0) actions
  have hm : ∀ call ∈ uncovered state.committed, call < state.next := fun call hi =>
    hb.sound.known call (List.mem_append_left _
      (jobsOf_subset hb.sound.accepted (uncovered_subset _ hi)))
  refine le_trans ?_ (hb.bounded (fun call => topic ∈ topics call) _ fun call hi => ?_)
  · refine count_le_messages topic fun call hi => ?_
    obtain ⟨ops, job⟩ := published call (hm call hi)
    rw [job, publishJob]
  obtain ⟨ops, job⟩ := published call (hm call (List.mem_of_mem_filter hi))
  rw [job]
  exact publishJob_maxUnflushed_le budget ops (by simpa using (List.mem_filter.mp hi).2)

namespace FastAcknowledged

def budget : Text → Nat := fun _ => 1

def topic : Text := "jobs".toList

def actions : List (Action Nat) :=
  [.groupCommit (publishJob budget [7] [topic]), .poll 0, .poll 0, .written 0 (.ok ())]

/-- One message is acknowledged without a flush, as its topic allows. -/
theorem one_unflushed : uncovered (machine.final (State.new 0) actions).committed = [0] ∧
      ((uncovered (machine.final (State.new 0) actions).committed).flatMap
        fun _ => [topic]).count topic ≤ 1 := by
  refine ⟨by decide, unflushed_within_budget actions budget _ topic fun c hm => ?_⟩
  obtain rfl : c = 0 := Nat.lt_one_iff.mp hm
  exact ⟨[7], rfl⟩

end FastAcknowledged

end BoatRamp.Node.GroupCommit

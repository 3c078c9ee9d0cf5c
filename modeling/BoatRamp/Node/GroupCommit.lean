import BoatRamp.Library.Machine
import BoatRamp.Messaging.Messages
import Mathlib.Data.List.Nodup
import Mathlib.Logic.Function.Basic

/-!
# Group commit

Publishers queue their writes.  Whoever gets the commit gate drains the queue in
bounded chunks and writes each chunk as one batch for everybody in it; the
others wait for the gate or for a signal, whichever comes first.  A publisher may
be cancelled wherever it waits.  A job is named by the call that queued it.
-/

namespace BoatRamp.Node.GroupCommit

open Library Messaging Function List List.Subset

def GROUP_COMMIT_MAX : Nat := 512

abbrev Outcome := Except MessagingError Unit

/-- What a call hands in: its writes, how many messages they are, how many may stay unflushed. -/
structure Job (Op : Type) where
  ops : List Op
  msgs : Nat
  maxUnflushed : Nat

/-- A batch as it is given to the store, with the jobs that it was built from. -/
structure Submission (Op : Type) where
  jobs : List Nat
  ops : List Op
  msgs : Nat
  relaxed : Bool
  deriving DecidableEq

/-- The one-shot channel of a call. -/
inductive Signal where
  | pending
  | sent (outcome : Outcome)
  | dropped

inductive Phase (Op : Type) where
  | absent
  /-- Waiting for the gate or its signal. -/
  | waiting
  /-- Holding the gate, about to look at the queue. -/
  | draining
  /-- Holding the gate, having seen an empty queue. -/
  | leaving
  /-- Holding the gate while the store writes. -/
  | flushing (submission : Submission Op)
  /-- Holding the gate, with calls left to be told the outcome. -/
  | signalling (outcome : Outcome) (left : List Nat)
  /-- Waiting for its own signal without the gate. -/
  | reading
  | returned (outcome : Outcome)
  | cancelled
  deriving DecidableEq

structure State (Op : Type) where
  /-- The number of calls made so far. -/
  next : Nat
  job : Nat → Job Op
  phase : Nat → Phase Op
  signal : Nat → Signal
  queue : List Nat
  gate : Option Nat
  unflushed : Nat
  /-- Every batch given to the store, and those that it wrote. -/
  submitted : List (Submission Op)
  committed : List (Submission Op)

namespace State

variable {Op : Type}

def new (unflushed : Nat) : State Op where
  next := 0
  job _ := ⟨[], 0, 0⟩
  phase _ := .absent
  signal _ := .pending
  queue := []
  gate := none
  unflushed := unflushed
  submitted := []
  committed := []

variable (state : State Op)

def move (call : Nat) (phase : Phase Op) : State Op :=
  { state with phase := update state.phase call phase }

def push (job : Job Op) : State Op where
  next := state.next + 1
  job := update state.job state.next job
  phase := update state.phase state.next .waiting
  signal := update state.signal state.next .pending
  queue := state.queue ++ [state.next]
  gate := state.gate
  unflushed := state.unflushed
  submitted := state.submitted
  committed := state.committed

/-- How many jobs from the front of the queue fit into one batch; the first always does. -/
def chunk (taken opCount : Nat) : List Nat → Nat
  | [] => taken
  | call :: rest =>
    if 0 < taken ∧ GROUP_COMMIT_MAX < opCount + (state.job call).ops.length then taken
    else chunk (taken + 1) (opCount + (state.job call).ops.length) rest

/-- The batch for some jobs.  It may stay unflushed as far as every one of them allows it. -/
def build (jobs : List Nat) : Submission Op :=
  let msgs := (jobs.map fun call => (state.job call).msgs).sum
  let budget := (jobs.map fun call => (state.job call).maxUnflushed).min?
  { jobs
    ops := jobs.flatMap fun call => (state.job call).ops
    msgs
    relaxed := budget.all fun maxUnflushed => decide (state.unflushed + msgs ≤ maxUnflushed) }

def submit (call : Nat) : State Op :=
  let taken := state.chunk 0 0 state.queue
  let submission := state.build (state.queue.take taken)
  { state.move call (.flushing submission) with
    queue := state.queue.drop taken
    submitted := state.submitted ++ [submission] }

def DROPPED : MessagingError := .backend "group-commit dropped before durable".toList

def receive (call : Nat) : State Op :=
  match state.signal call with
  | .pending => state
  | .sent outcome => state.move call (.returned outcome)
  | .dropped => state.move call (.returned (.error DROPPED))

def poll (call : Nat) : State Op :=
  match state.phase call with
  | .waiting =>
    -- The gate is asked first, also when the signal has come.
    match state.gate with
    | none => { state.move call .draining with gate := some call }
    | some _ => state.receive call
  | .draining => if state.queue = [] then state.move call .leaving else state.submit call
  | .leaving => { state.move call .reading with gate := none }
  | .signalling _ [] => state.move call .draining
  | .signalling outcome (told :: left) =>
    { state.move call (.signalling outcome left) with
      signal := update state.signal told (.sent outcome) }
  | .reading => state.receive call
  | _ => state

def written (call : Nat) (outcome : Outcome) : State Op :=
  match state.phase call with
  | .flushing submission =>
    let answered := state.move call (.signalling outcome submission.jobs)
    match outcome with
    | .error _ => answered
    | .ok () => { answered with
        committed := state.committed ++ [submission]
        unflushed := if submission.relaxed then state.unflushed + submission.msgs else 0 }
  | _ => state

def cancel (call : Nat) : State Op :=
  match state.phase call with
  | .waiting => state.move call .cancelled
  | .reading => state.move call .cancelled
  | .flushing submission =>
    { state.move call .cancelled with
      gate := none
      signal := fun other => if other ∈ submission.jobs then .dropped else state.signal other }
  | _ => state

end State

inductive Action (Op : Type) where
  | groupCommit (job : Job Op)
  | poll (call : Nat)
  | written (call : Nat) (outcome : Outcome)
  | cancel (call : Nat)

variable {Op : Type}

def machine : Machine (State Op) (Action Op) Unit where
  step state
    | .groupCommit job => (state.push job, ())
    | .poll call => (state.poll call, ())
    | .written call outcome => (state.written call outcome, ())
    | .cancel call => (state.cancel call, ())

namespace Phase

def leads : Phase Op → Bool
  | .draining => true
  | .leaving => true
  | .flushing _ => true
  | .signalling _ _ => true
  | _ => false

def hand : Phase Op → List Nat
  | .flushing submission => submission.jobs
  | .signalling _ left => left
  | _ => []

/-- The phases of a call whose own job has left the queue. -/
def settled : Phase Op → Bool
  | .leaving => true
  | .reading => true
  | .returned _ => true
  | _ => false

end Phase

/-- The jobs of some batches, in the order in which they were given to the store. -/
def jobsOf (submissions : List (Submission Op)) : List Nat :=
  submissions.flatMap Submission.jobs

theorem jobsOf_subset {x y : List (Submission Op)} (hs : x ⊆ y) : jobsOf x ⊆ jobsOf y := by
  intro job hm
  obtain ⟨sub, hi, hh⟩ := mem_flatMap.mp hm
  exact mem_flatMap.mpr ⟨sub, hs hi, hh⟩

structure Phase.Fits (submitted committed : List (Submission Op)) (phase : Phase Op) : Prop where
  inHand : ∀ job ∈ phase.hand, job ∈ jobsOf submitted
  flushed : ∀ submission, phase = .flushing submission → submission ∈ submitted
  written : ∀ left, phase = .signalling (.ok ()) left → ∀ job ∈ left, job ∈ jobsOf committed

/-- The phases in which a call has no batch. -/
def Phase.idle : Phase Op → Bool
  | .flushing _ => false
  | .signalling _ _ => false
  | _ => true

namespace Phase.Fits

variable {s c sl cl : List (Submission Op)} {phase : Phase Op}

theorem of_idle (hi : phase.idle = true) : phase.Fits s c := by
  cases phase with
  | flushing | signalling => cases hi
  | _ =>
    exact ⟨by simp [hand], (fun _ hs => by cases hs), (fun _ hs => by cases hs)⟩

theorem mono (hf : phase.Fits s c) (hs : s ⊆ sl) (hc : c ⊆ cl) : phase.Fits sl cl where
  inHand job hm := jobsOf_subset hs (hf.inHand job hm)
  flushed sub hsa := hs (hf.flushed sub hsa)
  written l hsa job hm :=
    jobsOf_subset hc (hf.written l hsa job hm)

end Phase.Fits

structure Sound (state : State Op) : Prop where
  known : ∀ call ∈ jobsOf state.submitted ++ state.queue, call < state.next
  distinct : (jobsOf state.submitted ++ state.queue).Nodup
  built : ∀ submission ∈ state.submitted,
    submission.ops = submission.jobs.flatMap fun call => (state.job call).ops
  accepted : state.committed ⊆ state.submitted
  unmade : ∀ call, state.next ≤ call → state.phase call = .absent
  pending : ∀ call ∈ state.queue, state.signal call = .pending
  unsettled : ∀ call ∈ state.queue, (state.phase call).settled = false
  holder : ∀ call, (state.phase call).leads = true ↔ state.gate = some call
  fits : ∀ call, (state.phase call).Fits state.submitted state.committed
  told : ∀ call, state.signal call = .sent (.ok ()) → call ∈ jobsOf state.committed
  answered : ∀ call, state.phase call = .returned (.ok ()) → call ∈ jobsOf state.committed

open Phase State

theorem sound_new (u : Nat) : Sound (new u : State Op) where
  known := by simp [new, jobsOf]
  distinct := by simp [new, jobsOf]
  built := by simp [new]
  accepted := by simp [new]
  unmade call _ := rfl
  pending := by simp [new]
  unsettled := by simp [new]
  holder := by simp [new, leads]
  fits call := .of_idle rfl
  told call hs := by cases hs
  answered call hr := by cases hr

namespace Sound

variable {sta : State Op} (hsd : Sound sta) {call : Nat} {p : Phase Op}

include hsd

theorem advanced {a : State Op} (hpr : sta.phase call ≠ .absent) (hma : a.next = sta.next)
    (hj : a.job = sta.job) (hp : a.phase = update sta.phase call p) (hs : a.signal = sta.signal)
    (hm : jobsOf a.submitted ++ a.queue = jobsOf sta.submitted ++ sta.queue)
    (hqu : a.queue ⊆ sta.queue) (hsu : sta.submitted ⊆ a.submitted)
    (hc : sta.committed ⊆ a.committed) (hac : a.committed ⊆ a.submitted)
    (hbu : ∀ sub ∈ a.submitted, sub ∉ sta.submitted →
      sub.ops = sub.jobs.flatMap fun call => (sta.job call).ops)
    (hf : p.Fits a.submitted a.committed) (hu : call ∈ sta.queue → p.settled = false)
    (hh : ∀ o, (update sta.phase call p o).leads = true ↔ a.gate = some o)
    (ha : p = .returned (.ok ()) → call ∈ jobsOf a.committed) : Sound a := by
  have ho : ∀ {o}, o ≠ call → a.phase o = sta.phase o := by
    intro o hd
    rw [hp, update_of_ne hd]
  have hhe : a.phase call = p := by rw [hp, update_self]
  refine
    { known := by rw [hm, hma]; exact hsd.known
      distinct := by rw [hm]; exact hsd.distinct
      built := ?_, accepted := hac, unmade := ?_
      pending := fun o hq => by rw [hs]; exact hsd.pending o (hqu hq)
      unsettled := ?_
      holder := by rw [hp]; exact hh
      fits := ?_
      told := fun o hse =>
        jobsOf_subset hc (hsd.told o (hs ▸ hse))
      answered := ?_ }
  · intro sub hme
    by_cases old : sub ∈ sta.submitted
    · rw [hj, hsd.built sub old]
    · rw [hj, hbu sub hme old]
  · intro o hb
    rw [hma] at hb
    rw [ho fun hsa => hpr (hsd.unmade call (hsa ▸ hb)), hsd.unmade o hb]
  · intro o hq
    by_cases hsa : o = call
    · rw [hsa, hhe]
      exact hu (hsa ▸ hqu hq)
    · rw [ho hsa]
      exact hsd.unsettled o (hqu hq)
  · intro o
    by_cases hsa : o = call
    · rw [hsa, hhe]
      exact hf
    · rw [ho hsa]
      exact (hsd.fits o).mono hsu hc
  intro o hr
  by_cases hsa : o = call
  · rw [hsa, hhe] at hr
    exact hsa ▸ ha hr
  · rw [ho hsa] at hr
    exact jobsOf_subset hc (hsd.answered o hr)

theorem moved {g : Option Nat} (hp : sta.phase call ≠ .absent)
    (hfi : p.Fits sta.submitted sta.committed) (hu : call ∈ sta.queue → p.settled = false)
    (hh : ∀ other, (update sta.phase call p other).leads = true ↔ g = some other)
    (ha : p = .returned (.ok ()) → call ∈ jobsOf sta.committed) :
    Sound { sta.move call p with gate := g } :=
  hsd.advanced hp rfl rfl rfl rfl rfl (refl _) (refl _)
    (refl _) hsd.accepted (fun _ hm hf => absurd hm hf) hfi hu hh ha

theorem holder_update (hs : p.leads = (sta.phase call).leads) (o : Nat) :
    (update sta.phase call p o).leads = true ↔ sta.gate = some o := by
  by_cases he : o = call
  · subst he
    rw [update_self, hs]
    exact hsd.holder o
  · rw [update_of_ne he]
    exact hsd.holder o

theorem receive (hp : sta.phase call ≠ .absent) (free : (sta.phase call).leads = false) :
    Sound (sta.receive call) := by
  have hr : ∀ out, sta.signal call ≠ .pending → (out = .ok () → sta.signal call = .sent (.ok ())) →
      Sound (sta.move call (.returned out)) := by
    intro out hre hs
    refine hsd.moved hp (.of_idle rfl) ?_ (hsd.holder_update free.symm) ?_
    · intro hq
      exact absurd (hsd.pending call hq) hre
    intro same
    cases same
    exact hsd.told call (hs rfl)
  unfold State.receive
  cases sent : sta.signal call with
  | pending => exact hsd
  | sent out =>
    apply hr out
    · rw [sent]
      exact fun same => by cases same
    · rintro rfl
      exact sent
  | dropped =>
    apply hr
    · rw [sent]
      exact fun same => by cases same
    · exact fun same => by cases same

theorem acquire (hw : sta.phase call = .waiting) (hf : sta.gate = none) :
    Sound { sta.move call .draining with gate := some call } := by
  refine hsd.moved (by simp [hw]) (.of_idle rfl) (fun _ => rfl) ?_ fun hs => by cases hs
  intro o
  by_cases he : o = call
  · simp [he, leads]
  · rw [update_of_ne he, hsd.holder o, hf]
    simp [Ne.symm he]

theorem leave (hd : sta.phase call = .draining) (he : sta.queue = []) :
    Sound (sta.move call .leaving) := by
  refine hsd.moved (by simp [hd]) (.of_idle rfl) ?_
    (hsd.holder_update (by rw [hd]; rfl)) fun hs => by cases hs
  simp [he]

theorem holder_release (hh : (sta.phase call).leads = true) (hf : p.leads = false)
    (o : Nat) : (update sta.phase call p o).leads = true ↔ none = some o := by
  have hg : sta.gate = some call := (hsd.holder call).mp hh
  by_cases he : o = call
  · simp [he, hf]
  · rw [update_of_ne he, hsd.holder o, hg]
    simp [Ne.symm he]

theorem release (hl : sta.phase call = .leaving) :
    Sound { sta.move call .reading with gate := none } := by
  refine hsd.moved (by simp [hl]) (.of_idle rfl) ?_
    (hsd.holder_release (by simp [hl, leads]) rfl) fun hsa => by cases hsa
  intro hq
  have hs := hsd.unsettled call hq
  rw [hl] at hs
  exact hs

theorem again {out : Outcome} (ht : sta.phase call = .signalling out []) :
    Sound (sta.move call .draining) := by
  exact hsd.moved (by simp [ht]) (.of_idle rfl) (fun _ => rfl)
    (hsd.holder_update (by rw [ht]; rfl)) fun hs => by cases hs

theorem dropped (hp : sta.phase call ≠ .absent) (hf : (sta.phase call).leads = false) :
    Sound (sta.move call .cancelled) := by
  exact hsd.moved hp (.of_idle rfl) (fun _ => rfl) (hsd.holder_update hf.symm)
    (fun hs => by cases hs)

theorem signalled {s : Nat → Signal} (hq : ∀ call ∈ sta.queue, s call = sta.signal call)
    (ht : ∀ call, s call = .sent (.ok ()) → call ∈ jobsOf sta.committed) :
    Sound { sta with signal := s } where
  known := hsd.known
  distinct := hsd.distinct
  built := hsd.built
  accepted := hsd.accepted
  unmade := hsd.unmade
  pending call hm := (hq call hm).trans (hsd.pending call hm)
  unsettled := hsd.unsettled
  holder := hsd.holder
  fits := hsd.fits
  told := ht
  answered := hsd.answered

theorem not_queued {job : Nat} (hh : job ∈ (sta.phase call).hand) : job ∉ sta.queue := by
  intro hq
  exact (nodup_append.mp hsd.distinct).2.2 job ((hsd.fits call).inHand job hh) job hq rfl

theorem tell {t : Nat} {out : Outcome} {l : List Nat}
    (hs : sta.phase call = .signalling out (t :: l)) :
    Sound { sta.move call (.signalling out l) with signal := update sta.signal t (.sent out) } := by
  have hf := hsd.fits call
  rw [hs] at hf
  have hfi : (signalling out l : Phase Op).Fits sta.submitted sta.committed := by
    refine ⟨fun job hm => hf.inHand job (mem_cons_of_mem t hm), (fun _ hsa => by cases hsa), ?_⟩
    intro rest hsa job hm
    cases hsa
    exact hf.written _ rfl job (mem_cons_of_mem t hm)
  have hmo : Sound (sta.move call (.signalling out l)) :=
    hsd.moved (by simp [hs]) hfi (fun _ => rfl)
      (hsd.holder_update (by rw [hs]; rfl)) fun hsa => by cases hsa
  have hh : t ∈ (sta.phase call).hand := by simp [hs, hand]
  have hu : t ∉ sta.queue := hsd.not_queued hh
  refine hmo.signalled ?_ ?_
  · intro o hq
    have hd : o ≠ t := fun hsa => hu (hsa ▸ hq)
    simp [move, hd]
  intro o hse
  by_cases hsa : o = t
  · subst hsa
    rw [update_self] at hse
    cases hse
    exact hf.written _ rfl o mem_cons_self
  · rw [update_of_ne hsa] at hse
    exact hsd.told o hse

theorem submit (hd : sta.phase call = .draining) : Sound (sta.submit call) := by
  have hb : sta.build (sta.queue.take (sta.chunk 0 0 sta.queue)) ∈
      (sta.submit call).submitted := mem_append_right _ mem_cons_self
  have hfi : (flushing (sta.build (sta.queue.take (sta.chunk 0 0 sta.queue)))).Fits
      (sta.submit call).submitted sta.committed := by
    refine ⟨fun job hm => mem_flatMap.mpr ⟨_, hb, hm⟩, ?_, (fun _ hs => by cases hs)⟩
    intro sub hf
    cases hf
    exact hb
  refine hsd.advanced (by simp [hd]) rfl rfl rfl rfl ?_ (drop_subset _ _)
    (subset_append_left _ _) (List.Subset.refl _)
    (List.Subset.trans hsd.accepted (subset_append_left _ _)) ?_ hfi (fun _ => rfl)
    (hsd.holder_update (by rw [hd]; rfl)) fun hs => by cases hs
  · simp [State.submit, jobsOf, State.build, append_assoc]
  intro sub hm hfr
  rw [mem_singleton.mp ((mem_append.mp hm).resolve_left hfr)]
  rfl

/-- The store has answered; a batch that it wrote counts as committed. -/
theorem written (out : Outcome) : Sound (sta.written call out) := by
  unfold State.written
  cases p : sta.phase call with
  | flushing sub =>
    have hf := hsd.fits call
    rw [p] at hf
    have hfl : sub ∈ sta.submitted := hf.flushed sub rfl
    have hh : ∀ other, (update sta.phase call (.signalling out sub.jobs) other).leads = true ↔
          sta.gate = some other := by
      apply hsd.holder_update
      rw [p]
      rfl
    cases out with
    | error msg =>
      have hfi : (signalling (.error msg) sub.jobs : Phase Op).Fits sta.submitted sta.committed :=
        ⟨hf.inHand, (fun _ hs => by cases hs), (fun _ hs => by cases hs)⟩
      exact hsd.moved (by simp [p]) hfi (fun _ => rfl) hh fun hs => by cases hs
    | ok d =>
      have hfi : (signalling (.ok d) sub.jobs : Phase Op).Fits sta.submitted
          (sta.committed ++ [sub]) := by
        refine ⟨hf.inHand, (fun _ hs => by cases hs), ?_⟩
        intro l hs job hm
        cases hs
        exact mem_flatMap.mpr ⟨sub, by simp, hm⟩
      refine hsd.advanced (by simp [p]) rfl rfl rfl rfl rfl (refl _)
        (refl _) (subset_append_left _ _) ?_
        (fun _ hm hfr => absurd hm hfr) hfi (fun _ => rfl) hh fun hs => by cases hs
      exact append_subset.mpr ⟨hsd.accepted, cons_subset.mpr ⟨hfl, nil_subset _⟩⟩
  | _ => exact hsd

theorem cancel (call : Nat) : Sound (sta.cancel call) := by
  unfold State.cancel
  cases p : sta.phase call with
  | waiting | reading => exact hsd.dropped (by simp [p]) (by simp [p, leads])
  | flushing sub =>
    have hh : (sta.phase call).leads = true := by simp [p, leads]
    have hm : Sound { sta.move call .cancelled with gate := none } :=
      hsd.moved (by simp [p]) (.of_idle rfl) (fun _ => rfl) (hsd.holder_release hh rfl)
        (fun hsa => by cases hsa)
    refine hm.signalled ?_ ?_
    · intro o hq
      have hhe : o ∈ sub.jobs → o ∈ (sta.phase call).hand := by
        simp [p, hand]
      rw [if_neg fun hi => hsd.not_queued (hhe hi) hq]
      rfl
    intro o hs
    split_ifs at hs
    exact hsd.told o hs
  | _ => exact hsd

theorem push (job : Job Op) : Sound (sta.push job) := by
  have hf : ∀ {call}, call ∈ jobsOf sta.submitted ++ sta.queue → call ≠ sta.next :=
    fun hm => Nat.ne_of_lt (hsd.known _ hm)
  have hsu : ∀ {call}, call ∈ jobsOf sta.submitted → call ≠ sta.next :=
    fun hm => hf (mem_append_left _ hm)
  have ha : sta.phase sta.next = .absent := hsd.unmade _ (Nat.le_refl _)
  have hfr : sta.gate ≠ some sta.next := by
    intro hh
    have hl := (hsd.holder sta.next).mpr hh
    rw [ha] at hl
    cases hl
  refine
    { known := ?_, distinct := ?_, built := ?_, accepted := hsd.accepted, unmade := ?_,
      pending := ?_, unsettled := ?_, holder := ?_, fits := ?_, told := ?_, answered := ?_ }
  · intro call hm
    simp only [State.push, ← append_assoc] at hm ⊢
    rcases mem_append.mp hm with old | new
    · exact Nat.lt_succ_of_lt (hsd.known call old)
    · exact mem_singleton.mp new ▸ Nat.lt_succ_self _
  · simp only [State.push, ← append_assoc]
    refine nodup_append.mpr ⟨hsd.distinct, nodup_singleton _, ?_⟩
    intro call hm o new
    exact mem_singleton.mp new ▸ hf hm
  · intro sub hm
    rw [hsd.built sub hm]
    apply flatMap_congr
    intro call hi
    have hd : call ≠ sta.next :=
      hsu (mem_flatMap.mpr ⟨sub, hm, hi⟩)
    simp [State.push, hd]
  · intro call hb
    have hla : sta.next < call := hb
    simpa [State.push, Nat.ne_of_gt hla] using hsd.unmade call (Nat.le_of_lt hla)
  · intro call hm
    rcases mem_append.mp hm with old | new
    · simpa [State.push, hf (mem_append_right _ old)] using hsd.pending call old
    · simp [State.push, mem_singleton.mp new]
  · intro call hm
    rcases mem_append.mp hm with old | new
    · simpa [State.push, hf (mem_append_right _ old)] using hsd.unsettled call old
    · simp [State.push, mem_singleton.mp new, settled]
  · intro call
    by_cases he : call = sta.next
    · subst he
      simpa [State.push, leads] using hfr
    · simpa [State.push, he] using hsd.holder call
  · intro call
    by_cases he : call = sta.next
    · subst he
      simp only [State.push, update_self]
      exact .of_idle rfl
    · simpa [State.push, he] using hsd.fits call
  · intro call hs
    by_cases he : call = sta.next
    · simp [State.push, he] at hs
    · exact hsd.told call (by simpa [State.push, he] using hs)
  intro call hr
  by_cases he : call = sta.next
  · simp [State.push, he] at hr
  · exact hsd.answered call (by simpa [State.push, he] using hr)

theorem poll (call : Nat) : Sound (sta.poll call) := by
  unfold State.poll
  cases p : sta.phase call with
  | waiting =>
    cases hg : sta.gate with
    | none => exact hsd.acquire p hg
    | some h => exact hsd.receive (by simp [p]) (by simp [p, leads])
  | draining =>
    split_ifs with he
    · exact hsd.leave p he
    · exact hsd.submit p
  | leaving => exact hsd.release p
  | signalling out l =>
    cases l with
    | nil => exact hsd.again p
    | cons t l => exact hsd.tell p
  | reading => exact hsd.receive (by simp [p]) (by simp [p, leads])
  | _ => exact hsd

end Sound

theorem sound_step (state : State Op) (act : Action Op) (hs : Sound state) :
    Sound (machine.step state act).1 := by
  cases act with
  | groupCommit job => exact hs.push job
  | poll call => exact hs.poll call
  | written call out => exact hs.written out
  | cancel call => exact hs.cancel call

theorem sound_of_run (u : Nat) (acts : List (Action Op)) : Sound (machine.final (new u) acts) :=
  Machine.invariant_always sound_step (sound_new u) acts

theorem Sound.ops_of_committed {state : State Op} (hso : Sound state) {call : Nat}
    (hm : call ∈ jobsOf state.committed) : ∃ sub ∈ state.committed, ∃ b a,
      sub.ops = b ++ (state.job call).ops ++ a := by
  obtain ⟨sub, hi, hn⟩ := mem_flatMap.mp hm
  obtain ⟨x, l, hs⟩ := append_of_mem hn
  refine ⟨sub, hi, x.flatMap (fun call => (state.job call).ops),
    l.flatMap (fun call => (state.job call).ops), ?_⟩
  rw [hso.built sub (hso.accepted hi), hs]
  simp

/-- In every state: a call that has returned Ok has its writes, in order and in one piece, in a
batch that was written; no job is in two batches; and while the gate is free, not every owner of a
queued job that was not cancelled has returned, if there is such an owner. -/
theorem group_commit_safe (unflushed : Nat) (actions : List (Action Op)) :
    let state := machine.final (State.new unflushed) actions
    (∀ call, state.phase call = .returned (.ok ()) → ∃ sub ∈ state.committed, ∃ b af,
        sub.ops = b ++ (state.job call).ops ++ af) ∧ (jobsOf state.submitted).Nodup ∧
    ¬(state.gate = none ∧ (∃ call ∈ state.queue, state.phase call ≠ .cancelled) ∧
      ∀ call ∈ state.queue, state.phase call ≠ .cancelled →
        state.phase call = .returned (.ok ())) := by
  intro state
  have hs : Sound state := sound_of_run unflushed actions
  refine ⟨?_, (List.nodup_append.mp hs.distinct).1, ?_⟩
  · intro call returned
    exact hs.ops_of_committed (hs.answered call returned)
  rintro ⟨-, ⟨call, queued, hp⟩, all⟩
  have hu := hs.unsettled call queued
  rw [all call queued hp] at hu
  cases hu

/-- Whoever is cancelled, only the holder of the gate drains the queue, writes and signals. -/
theorem only_holder_leads (unflushed : Nat) (actions : List (Action Op)) (call : Nat) :
    let state := machine.final (State.new unflushed) actions
    (state.phase call).leads = true ↔ state.gate = some call :=
  (sound_of_run unflushed actions).holder call

namespace Orphaned

def job : Job Nat := ⟨[7], 1, 0⟩

/-- The holder of the gate is cancelled in its flush, after a second call has queued its job and
was cancelled too. -/
def actions : List (Action Nat) :=
  [.groupCommit job, .poll 0, .poll 0, .groupCommit job, .poll 1, .cancel 1, .cancel 0]

def state : State Nat := machine.final (State.new 0) actions

/-- The gate is free and a job is queued, and nobody is left who waits for it. -/
theorem orphan_left_queued : state.gate = none ∧ state.queue ≠ [] ∧
      ∀ call ∈ state.queue, state.phase call ≠ .cancelled →
        state.phase call = .returned (.ok ()) := by
  decide

end Orphaned

end BoatRamp.Node.GroupCommit

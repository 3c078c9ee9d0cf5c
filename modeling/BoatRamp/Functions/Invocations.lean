import BoatRamp.Library.Pool
import BoatRamp.Messaging.Messages
import Mathlib.Logic.Function.Basic

/-!
# Asynchronous invocations

Nodes claim a queued invocation by a compare-and-swap of its whole record, run
it, and settle it by another one.  A claim carries no mark of its node: it is
the record with one more attempt, the time and a lease.
-/

namespace BoatRamp.Functions

open Library Messaging Concurrent List

def MAX_INVOKE_ATTEMPTS : UInt32 := 5

inductive InvokeMode where
  | sync
  | async
  deriving DecidableEq

inductive InvocationStatus where
  | queued
  | running
  | succeeded
  | failed
  deriving DecidableEq

structure InvocationResult where
  status : UInt16
  contentType : Option Text
  bodyB64 : Text
  deriving DecidableEq

structure Invocation where
  id : Text
  function : Text
  version : Text
  mode : InvokeMode
  status : InvocationStatus
  idempotencyKey : Option Text
  attempts : UInt32
  leaseExpires : Option UInt64
  requestB64 : Option Text
  requestContentType : Option Text
  result : Option InvocationResult
  created : UInt64
  updated : UInt64
  deriving DecidableEq

def invocationKey (project name id : Text) : Text :=
  "project/".toList ++ project ++ "/functions/".toList ++ name ++ "/invocations/".toList ++ id

/-- What comes of running a claimed invocation: its version is gone, or there is a response. -/
inductive Ran where
  | versionGone
  | responded (status : UInt16) (contentType : Option Text) (bodyB64 : Text)

def nextAttempt (attempts : UInt32) : UInt32 := if attempts = -1 then attempts else attempts + 1

namespace Invocation

def key (project : Text) (inv : Invocation) : Text := invocationKey project inv.function inv.id

def isTerminal (inv : Invocation) : Bool := inv.status = .succeeded || inv.status = .failed

def claimable (inv : Invocation) (now : UInt64) : Bool :=
  match inv.status with
  | .queued => true
  | .running => inv.leaseExpires.all fun expires => expires ≤ now
  | .succeeded | .failed => false

def claimed (inv : Invocation) (leaseTtl now : UInt64) : Invocation :=
  { inv with
    status := .running
    attempts := nextAttempt inv.attempts
    leaseExpires := some (saturatingAdd now leaseTtl)
    updated := now }

/-- The errors of the engine are retried; every other response is a delivery. -/
def settled (inv : Invocation) (now : UInt64) : Ran → Invocation
  | .versionGone => { inv with status := .failed, leaseExpires := none, updated := now }
  | .responded status contentType bodyB64 =>
    let finished :=
      if status ≠ 500 ∧ status ≠ 504 ∧ status ≠ 503 then
        { inv with status := .succeeded, result := some ⟨status, contentType, bodyB64⟩ }
      else if MAX_INVOKE_ATTEMPTS ≤ inv.attempts then { inv with status := .failed }
      else { inv with status := .queued }
    { finished with leaseExpires := none, updated := now }

end Invocation

/-- What a schedule or a watcher enqueues, at its clock. -/
structure Trigger where
  id : Text
  function : Text
  version : Text
  requestB64 : Option Text
  requestContentType : Option Text
  now : UInt64
  deriving DecidableEq

def Trigger.invocation (trigger : Trigger) : Invocation where
  id := trigger.id
  function := trigger.function
  version := trigger.version
  mode := .async
  status := .queued
  idempotencyKey := none
  attempts := 0
  leaseExpires := none
  requestB64 := trigger.requestB64
  requestContentType := trigger.requestContentType
  result := none
  created := trigger.now
  updated := trigger.now

/-- The records, how often each key was written, and the versions that were claimed. -/
structure Shared where
  kv : Store Invocation
  version : Text → Nat
  claims : List (Text × Nat)

def Shared.write (shared : Shared) (key : Text) (new : Invocation) : Shared :=
  { shared with
    kv := shared.kv.insert key new
    version := Function.update shared.version key (shared.version key + 1) }

def Shared.compareAndSwap (shared : Shared) (key : Text) (expected : Option Invocation)
    (new : Invocation) : Shared × Bool :=
  if shared.kv.get? key = expected then (shared.write key new, true) else (shared, false)

inductive Call where
  | drain (leaseTtl : UInt64) (project function id : Text)
  | refire (project : Text) (trigger : Trigger)
  | enqueueIfAbsent (project : Text) (trigger : Trigger)

/-- Where a call is.  A drain is followed for one of the records it lists, since it goes on to the
next one while this one runs.  A run knows the version that its claim made. -/
inductive Task where
  | list (leaseTtl : UInt64) (project function id : Text)
  | claim (leaseTtl : UInt64) (project : Text) (observed : Invocation)
  | run (project : Text) (claimed : Invocation) (version : Nat)
  | refire (project : Text) (trigger : Trigger) (tries : Nat)
  | overwrite (project : Text) (trigger : Trigger) (tries : Nat) (current : Option Invocation)
  | enqueue (project : Text) (trigger : Trigger)
  deriving DecidableEq

/-- The clock of the node, and what comes of a run. -/
structure Choice where
  now : UInt64
  ran : Ran

def Shared.step (shared : Shared) (task : Task) (choice : Choice) : Shared × (Task ⊕ Bool) :=
  match task with
  | .list leaseTtl project function id =>
    match shared.kv.get? (invocationKey project function id) with
    | none => (shared, .inr false)
    | some observed => (shared, .inl (.claim leaseTtl project observed))
  | .claim leaseTtl project observed =>
    if observed.claimable choice.now then
      let key := observed.key project
      let claimed := observed.claimed leaseTtl choice.now
      match shared.compareAndSwap key (some observed) claimed with
      | (next, true) =>
        ({ next with claims := shared.claims ++ [(key, shared.version key)] },
          .inl (.run project claimed (next.version key)))
      | (next, false) => (next, .inr false)
    else (shared, .inr false)
  | .run project claimed _ =>
    let (next, won) := shared.compareAndSwap (claimed.key project) (some claimed)
      (claimed.settled choice.now choice.ran)
    (next, .inr won)
  | .refire _ _ 0 => (shared, .inr false)
  | .refire project trigger (tries + 1) =>
    match shared.kv.get? (trigger.invocation.key project) with
    | none => (shared, .inl (.overwrite project trigger tries none))
    | some current =>
      if current.isTerminal then (shared, .inl (.overwrite project trigger tries (some current)))
      else (shared, .inr false)
  | .overwrite project trigger tries current =>
    match shared.compareAndSwap (trigger.invocation.key project) current trigger.invocation with
    | (next, true) => (next, .inr true)
    | (next, false) => (next, .inl (.refire project trigger tries))
  | .enqueue project trigger =>
    let (next, created) := shared.compareAndSwap (trigger.invocation.key project) none
      trigger.invocation
    (next, .inr created)

def nodes : Concurrent Shared Call Choice Task Bool where
  start
    | .drain leaseTtl project function id => .list leaseTtl project function id
    | .refire project trigger => .refire project trigger 4
    | .enqueueIfAbsent project trigger => .enqueue project trigger
  step := Shared.step

def start (kv : Store Invocation) : Pool Shared Task := ⟨⟨kv, fun _ => 0, []⟩, []⟩

structure Exclusive (pool : Pool Shared Task) : Prop where
  once : pool.shared.claims.Nodup
  own : ∀ project claimed version, .run project claimed version ∈ pool.running →
    pool.shared.kv.get? (claimed.key project) = some claimed →
    pool.shared.version (claimed.key project) = version

def Task.resembles (key : Text) (observed : Invocation) (now : UInt64) : Task → Bool
  | .run project claimed _ => claimed.key project = key && claimed.updated = now &&
      claimed.attempts = nextAttempt observed.attempts && claimed.created = observed.created
  | _ => false

/-- A claim of what was observed succeeds. -/
def Shared.grants (shared : Shared) (project : Text) (observed : Invocation) (now : UInt64) :
    Bool :=
  observed.claimable now && shared.kv.get? (observed.key project) = some observed

/-- No claim that succeeds resembles one that is still running. -/
def Distinct (pool : Pool Shared Task) : Schedule Call Choice → Bool
  | .invoke _ => true
  | .run index choice =>
    match pool.running[index]? with
    | some (.claim _ project observed) => !pool.shared.grants project observed choice.now ||
        pool.running.all fun task => !task.resembles (observed.key project) observed choice.now
    | _ => true

structure Sound (pool : Pool Shared Task) : Prop extends Exclusive pool where
  past : ∀ claim ∈ pool.shared.claims, claim.2 < pool.shared.version claim.1
  marked : ∀ project claimed version, .run project claimed version ∈ pool.running →
    claimed.status = .running

namespace Sound

variable {shared : Shared} {r others : List Task} {key : Text} {new : Invocation}
  (s : Sound ⟨shared, r⟩)

include s

theorem of_runs (hr : ∀ project claimed version, .run project claimed version ∈ others →
    .run project claimed version ∈ r) : Sound ⟨shared, others⟩ where
  once := s.once
  own _ _ _ hm := s.own _ _ _ (hr _ _ _ hm)
  past := s.past
  marked _ _ _ hm := s.marked _ _ _ (hr _ _ _ hm)

theorem write (ha : ∀ p c ver, .run p c ver ∈ r → c.key p = key → c ≠ new) :
    Sound ⟨shared.write key new, r⟩ where
  once := s.once
  own p c ver hm hs := by
    by_cases hsa : c.key p = key
    · rw [hsa] at hs
      exact absurd (Option.some.inj ((SortedMap.get?_insert_self ..).symm.trans hs)).symm
        (ha _ _ _ hm hsa)
    · rw [Shared.write, SortedMap.get?_insert_of_ne _ _ hsa] at hs
      exact (Function.update_of_ne hsa ..).trans (s.own _ _ _ hm hs)
  past cl hm := by
    have he := s.past cl hm
    by_cases hsa : cl.1 = key
    · simpa [Shared.write, hsa] using Nat.lt_succ_of_lt (hsa ▸ he)
    · simpa [Shared.write, hsa] using he
  marked := s.marked

/-- A settlement or an enqueue writes no claim. -/
theorem swap (e : Option Invocation) (hi : new.status ≠ .running) :
    Sound ⟨(shared.compareAndSwap key e new).1, r⟩ := by
  unfold Shared.compareAndSwap
  split
  · apply s.write
    rintro p c ver hm - rfl
    exact hi (s.marked _ _ _ hm)
  · exact s

end Sound

theorem Invocation.settled_idle (inv : Invocation) (now : UInt64) (ran : Ran) :
    (inv.settled now ran).status ≠ .running := by
  cases ran with
  | versionGone => exact fun hs => by cases hs
  | responded s ct bodyB64 =>
    unfold settled
    dsimp only
    split
    · exact fun hs => by cases hs
    · split <;> exact fun hs => by cases hs

section Step

variable {s : Shared} {before after : List Task} {task : Task}

theorem Sound.claim {l now : UInt64} {p : Text} {o : Invocation} (hso : Sound ⟨s, before ++ after⟩)
    (hdi : ∀ task ∈ before ++ after, (!task.resembles (o.key p) o now) = true) :
    Sound ⟨{ s.write (o.key p) (o.claimed l now) with
        claims := s.claims ++ [(o.key p, s.version (o.key p))] }, before ++ .run p (o.claimed l now)
        ((s.write (o.key p) (o.claimed l now)).version (o.key p)) :: after⟩ := by
  have hw : Sound ⟨s.write (o.key p) (o.claimed l now), before ++ after⟩ := by
    apply hso.write
    rintro h cl ver hm hs rfl
    have hd := hdi _ hm
    rw [Task.resembles, hs] at hd
    simp [Invocation.claimed] at hd
  have ha : (s.write (o.key p) (o.claimed l now)).version (o.key p) =
        s.version (o.key p) + 1 := Function.update_self ..
  refine ⟨⟨?_, ?_⟩, ?_, ?_⟩
  · rw [nodup_append]
    refine ⟨hso.once, nodup_singleton _, ?_⟩
    rintro c hm ot new rfl
    have he := hso.past c hm
    rw [mem_singleton.mp new] at he
    exact absurd he (Nat.lt_irrefl _)
  · intro h cl ver hm
    rcases mem_around.mp hm with hma | ot
    · cases hma
      exact fun _ => rfl
    · exact hw.own _ _ _ ot
  · intro c hm
    rcases mem_append.mp hm with old | new
    · exact hw.past c old
    · rw [mem_singleton.mp new]
      exact ha ▸ Nat.lt_succ_self _
  intro h cl ver hm
  rcases mem_around.mp hm with hma | ot
  · cases hma
    rfl
  · exact hw.marked _ _ _ ot

/-- What a step leaves of the calls in progress. -/
def Kept (before after : List Task) : Shared × (Task ⊕ Bool) → Prop
  | (next, .inl continued) => Sound ⟨next, before ++ continued :: after⟩
  | (next, .inr _) => Sound ⟨next, before ++ after⟩

theorem Sound.step (hso : Sound ⟨s, before ++ task :: after⟩) {ch : Choice}
    (hd : Distinct ⟨s, before ++ task :: after⟩ (.run before.length ch) = true) :
    Kept before after (s.step task ch) := by
  have hr : Sound ⟨s, before ++ after⟩ :=
    hso.of_runs fun _ _ _ hm => mem_around.mpr (.inr hm)
  have hg {next : Shared} {cn : Task} (hk : Sound ⟨next, before ++ after⟩)
      (hf : ∀ p c ver, cn ≠ .run p c ver) : Sound ⟨next, before ++ cn :: after⟩ := by
    apply hk.of_runs
    intro p c ver hm
    exact (mem_around.mp hm).resolve_left (hf _ _ _).symm
  cases task with
  | list l p f id =>
    unfold Shared.step
    dsimp only
    split
    · exact hr
    · exact hg hr fun _ _ _ hsa => by cases hsa
  | claim l p o =>
    unfold Shared.step Shared.compareAndSwap
    dsimp only
    split
    · next claimable =>
      by_cases stored : s.kv.get? (o.key p) = some o
      · rw [if_pos stored]
        simp only [Distinct, getElem?_append_right (Nat.le_refl _), Nat.sub_self,
          getElem?_cons_zero, Shared.grants, claimable, stored, decide_true, Bool.and_self,
          Bool.not_true, Bool.false_or, all_eq_true] at hd
        exact hr.claim fun other running => hd other (mem_around.mpr (.inr running))
      · rw [if_neg stored]
        exact hr
    · exact hr
  | run p c ver => exact hr.swap _ (c.settled_idle _ _)
  | refire p t tr =>
    cases tr with
    | zero => exact hr
    | succ tr =>
      unfold Shared.step
      dsimp only
      split
      · exact hg hr fun _ _ _ hsa => by cases hsa
      split
      · exact hg hr fun _ _ _ hsa => by cases hsa
      · exact hr
  | overwrite p t tr cr =>
    have hs : Sound ⟨(s.compareAndSwap (t.invocation.key p) cr
      t.invocation).1, before ++ after⟩ := hr.swap cr fun hsa => by cases hsa
    unfold Shared.step
    dsimp only
    split
    next won =>
      rw [won] at hs
      exact hs
    next lost =>
      rw [lost] at hs
      exact hg hs fun _ _ _ hsa => by cases hsa
  | enqueue p t => exact hr.swap none fun hsa => by cases hsa

theorem sound_step (pl : Pool Shared Task) (act : Schedule Call Choice) (hs : Sound pl)
    (hd : Distinct pl act = true) : Sound (nodes.machine.step pl act).1 := by
  apply kept_of_tasks (fun pl act => Distinct pl act = true) ?_ ?_ ?_ pl act hs hd
  · intro s rn ca hs _
    apply hs.of_runs
    intro p cl ver hme
    rcases mem_append.mp hme with old | new
    · exact old
    · cases ca <;> cases mem_singleton.mp new
  all_goals
    intro s before task after c next a hs hd hm
    have hk := hs.step hd
    rwa [show s.step task c = _ from hm] at hk

end Step

/-- However calls of nodes with any clocks interleave, as long as no claim resembles one that is
still running, every stored version is claimed once, and a settlement that takes effect replaces
the very version that its own claim made. -/
theorem claims_exclusive_of_distinct (kv : Store Invocation) (actions : List (Schedule Call Choice))
    (distinct : nodes.machine.Meets (fun pool action => Distinct pool action = true) (start kv)
      actions) : Exclusive (nodes.machine.final (start kv) actions) := by
  have hi : Sound (start kv) :=
    ⟨⟨List.nodup_nil, fun _ _ _ hm => (by cases hm)⟩, fun _ hm => (by cases hm),
      fun _ _ _ hm => (by cases hm)⟩
  exact (Machine.invariant sound_step hi distinct).toExclusive

namespace Recurring

def project : Text := "p".toList

def trigger (now : UInt64) : Trigger := ⟨"i".toList, "f".toList, "1".toList, none, none, now⟩

def answered (now : UInt64) : Choice := ⟨now, .responded 200 none []⟩

def drain : Schedule Call Choice := .invoke (.drain 60 project "f".toList "i".toList)

/-- The first claim runs out and a second node answers.  The invocation is fired again, and a third
node claims it. -/
def actions (now : UInt64) : List (Schedule Call Choice) :=
  [.invoke (.enqueueIfAbsent project (trigger 100)), .run 0 (answered 100),
   drain, .run 0 (answered 100), .run 0 (answered 100),
   drain, .run 1 (answered 200), .run 1 (answered 200), .run 1 (answered 200),
   .invoke (.refire project (trigger now)), .run 1 (answered now), .run 1 (answered now),
   drain, .run 1 (answered now), .run 1 (answered now)]

/-- On a clock that is behind, the third claim has the bytes of the first, and the first node
settles it. -/
theorem stale_settlement_wins :
    let pool := nodes.machine.final (start SortedMap.empty) (actions 100)
    let claim := (trigger 100).invocation.claimed 60 100
    pool.running = [.run project claim 2, .run project claim 6] ∧
      pool.shared.version (claim.key project) = 6 ∧
      (nodes.machine.step pool (.run 0 ⟨300, .responded 500 none []⟩)).2 = some true := by
  decide +kernel

theorem later_claim_exclusive : nodes.machine.Meets (fun pool action => Distinct pool action = true)
        (start SortedMap.empty) (actions 300) ∧
      Exclusive (nodes.machine.final (start SortedMap.empty) (actions 300)) := by
  have hd : nodes.machine.Meets (fun pool action => Distinct pool action = true)
      (start SortedMap.empty) (actions 300) := by decide +kernel
  exact ⟨hd, claims_exclusive_of_distinct SortedMap.empty (actions 300) hd⟩

end Recurring

end BoatRamp.Functions

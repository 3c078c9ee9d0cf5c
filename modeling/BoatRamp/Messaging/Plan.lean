import BoatRamp.Messaging.Record

/-!
# Claim planning

The two pure decisions shared by the single-node queue and the replicated
state machine: `planClaim` over the index records of a topic, and
`planClaimGrouped` over the compact state of a consumer group.  Times are
machine words, so a lease deadline wraps around as the compiled code's does.
-/

namespace BoatRamp.Messaging

open Library List GroupState

/-- One transition the claim decision produces for a single message. -/
inductive ClaimAction where
  | lease (id : Text) (record : Record)
  | deadLetter (id : Text) (record : Record)

def ClaimAction.id : ClaimAction → Text
  | .lease id _ => id
  | .deadLetter id _ => id

def ClaimAction.record : ClaimAction → Record
  | .lease _ record => record
  | .deadLetter _ record => record

def ClaimAction.isLease : ClaimAction → Bool
  | .lease _ _ => true
  | .deadLetter _ _ => false

def ClaimBefore (first second : Text × Record) : Prop :=
  second.2.priority < first.2.priority ∨
    (first.2.priority = second.2.priority ∧ first.1 ≤ second.1)

instance : DecidableRel ClaimBefore := fun first second =>
  inferInstanceAs (Decidable (second.2.priority < first.2.priority ∨
    (first.2.priority = second.2.priority ∧ first.1 ≤ second.1)))

def Record.leased (record : Record) (nowMs leaseMs : UInt64) : Record :=
  { record with attempts := record.attempts + 1, leaseUntilMs := nowMs + leaseMs }

def Record.ttlExpired (record : Record) : Record :=
  { record with lastError := some "ttl-expired".toList }

def planLoop (nowMs leaseMs : UInt64) (maxBatch : Nat) (maxAttempts : UInt32) :
    List (Text × Record) → (leased : Nat) → List ClaimAction
  | [], _ => []
  | (id, record) :: rest, leased =>
      if maxBatch ≤ leased then []
      else if nowMs < record.leaseUntilMs then
        planLoop nowMs leaseMs maxBatch maxAttempts rest leased
      else if record.expiresAtMs ≠ 0 ∧ record.expiresAtMs ≤ nowMs then
        .deadLetter id record.ttlExpired ::
          planLoop nowMs leaseMs maxBatch maxAttempts rest leased
      else if maxAttempts ≤ record.attempts then
        .deadLetter id record ::
          planLoop nowMs leaseMs maxBatch maxAttempts rest leased
      else
        .lease id (record.leased nowMs leaseMs) ::
          planLoop nowMs leaseMs maxBatch maxAttempts rest (leased + 1)

def planClaim (records : List (Text × Record)) (nowMs leaseMs : UInt64)
    (maxBatch : Nat) (maxAttempts : UInt32) : List ClaimAction :=
  planLoop nowMs leaseMs maxBatch maxAttempts (records.insertionSort ClaimBefore) 0

/-- Whether an action is what the plan may do with a record: only unleased
records move, and leasing charges one attempt. -/
inductive ActsOn (nowMs leaseMs : UInt64) : Text × Record → ClaimAction → Prop where
  | lease {id record} : ¬nowMs < record.leaseUntilMs →
      ActsOn nowMs leaseMs (id, record) (.lease id (record.leased nowMs leaseMs))
  | expire {id record} : ¬nowMs < record.leaseUntilMs →
      ActsOn nowMs leaseMs (id, record) (.deadLetter id record.ttlExpired)
  | exhaust {id record} : ¬nowMs < record.leaseUntilMs →
      ActsOn nowMs leaseMs (id, record) (.deadLetter id record)

section PlanClaim

variable {nowMs leaseMs : UInt64} {maxBatch : Nat} {maxAttempts : UInt32}
  {records : List (Text × Record)}

theorem planLoop_mem {l : Nat} {act : ClaimAction}
    (hp : act ∈ planLoop nowMs leaseMs maxBatch maxAttempts records l) :
    ∃ id r, (id, r) ∈ records ∧ r.leaseUntilMs ≤ nowMs ∧
      ((r.expiresAtMs ≠ 0 ∧ r.expiresAtMs ≤ nowMs) ∧ act = .deadLetter id r.ttlExpired ∨
        maxAttempts ≤ r.attempts ∧ act = .deadLetter id r ∨
        act = .lease id (r.leased nowMs leaseMs)) := by
  induction records generalizing l with
  | nil => simp [planLoop] at hp
  | cons e rest ih =>
    rcases e with ⟨id, r⟩
    have hl {c : Nat} (hi : act ∈ planLoop nowMs leaseMs maxBatch maxAttempts rest c) :=
      (ih hi).imp fun _ hfo =>
        hfo.imp fun _ hf => hf.imp_left (mem_cons_of_mem (id, r))
    unfold planLoop at hp
    split_ifs at hp with hfu hh hex he
    · simp at hp
    · exact hl hp
    · rcases mem_cons.mp hp with rfl | hi
      · exact ⟨id, r, by simp, UInt64.not_lt.mp hh, .inl ⟨hex, rfl⟩⟩
      · exact hl hi
    · rcases mem_cons.mp hp with rfl | hi
      · exact ⟨id, r, by simp, UInt64.not_lt.mp hh, .inr (.inl ⟨he, rfl⟩)⟩
      · exact hl hi
    rcases mem_cons.mp hp with rfl | hi
    · exact ⟨id, r, by simp, UInt64.not_lt.mp hh, .inr (.inr rfl)⟩
    · exact hl hi

theorem planLoop_ids_sublist (records : List (Text × Record)) (l : Nat) :
    ((planLoop nowMs leaseMs maxBatch maxAttempts records l).map ClaimAction.id).Sublist
      (records.map Prod.fst) := by
  induction records generalizing l with
  | nil => simp [planLoop]
  | cons e rest ih =>
    rcases e with ⟨id, r⟩
    unfold planLoop
    split_ifs
    · simp
    · exact (ih l).cons id
    · exact (ih l).cons_cons id
    · exact (ih l).cons_cons id
    · exact (ih (l + 1)).cons_cons id

theorem planClaim_actsOn {act : ClaimAction}
    (hp : act ∈ planClaim records nowMs leaseMs maxBatch maxAttempts) :
    ∃ e ∈ records, ActsOn nowMs leaseMs e act := by
  obtain ⟨id, r, hf, hh, ha⟩ := planLoop_mem hp
  refine ⟨(id, r), (perm_insertionSort ClaimBefore records).mem_iff.mp hf, ?_⟩
  rcases ha with ⟨_, rfl⟩ | ⟨_, rfl⟩ | rfl
  · exact .expire (UInt64.not_lt.mpr hh)
  · exact .exhaust (UInt64.not_lt.mpr hh)
  · exact .lease (UInt64.not_lt.mpr hh)

theorem planClaim_ids_nodup (hd : (records.map Prod.fst).Nodup) :
    ((planClaim records nowMs leaseMs maxBatch maxAttempts).map ClaimAction.id).Nodup := by
  have hp := (perm_insertionSort ClaimBefore records).map Prod.fst
  exact (planLoop_ids_sublist _ 0).nodup (hp.nodup_iff.mpr hd)

theorem claimBefore_iff {x y : Text × Record} :
    ClaimBefore x y ↔ y.2.priority.toNat < x.2.priority.toNat ∨
      x.2.priority.toNat = y.2.priority.toNat ∧ x.1 ≤ y.1 := by
  rw [ClaimBefore, UInt8.lt_iff_toNat_lt, ← UInt8.toNat_inj]

instance : Std.Total ClaimBefore := ⟨fun first second => by
  rw [claimBefore_iff, claimBefore_iff]
  rcases le_total first.1 second.1 with le | ge
  · rcases Nat.lt_or_ge first.2.priority.toNat second.2.priority.toNat with lower | upper
    · exact .inr (.inl lower)
    · exact .inl (upper.lt_or_eq.imp id fun same => ⟨same.symm, le⟩)
  rcases Nat.lt_or_ge second.2.priority.toNat first.2.priority.toNat with lower | upper
  · exact .inl (.inl lower)
  · exact .inr (upper.lt_or_eq.imp id fun same => ⟨same.symm, ge⟩)⟩

instance : IsTrans (Text × Record) ClaimBefore := ⟨fun first second third before after => by
  rw [claimBefore_iff] at before after ⊢
  rcases before with higher | ⟨same, le⟩
  · exact .inl (by omega)
  · exact after.imp (fun _ => by omega) fun below => ⟨by omega, le.trans below.2⟩⟩

def Claimable (nowMs : UInt64) (maxAttempts : UInt32) (record : Record) : Prop :=
  record.leaseUntilMs ≤ nowMs ∧ ¬(record.expiresAtMs ≠ 0 ∧ record.expiresAtMs ≤ nowMs) ∧
    record.attempts < maxAttempts

instance : DecidablePred (Claimable nowMs maxAttempts) := fun record =>
  inferInstanceAs (Decidable (record.leaseUntilMs ≤ nowMs ∧ _ ∧ record.attempts < maxAttempts))

open ClaimAction

theorem planLoop_leases (records : List (Text × Record)) (l : Nat) :
    (planLoop nowMs leaseMs maxBatch maxAttempts records l).filter isLease =
      ((records.filter fun e => Claimable nowMs maxAttempts e.2).take
        (maxBatch - l)).map fun e => .lease e.1 (e.2.leased nowMs leaseMs) := by
  induction records generalizing l with
  | nil => simp [planLoop]
  | cons e rest ih =>
    rcases e with ⟨id, r⟩
    unfold planLoop
    split_ifs with hfu hh hex he
    · simp [Nat.sub_eq_zero_of_le hfu]
    · have hu : ¬Claimable nowMs maxAttempts r :=
        fun hc => UInt64.not_lt.mpr hc.1 hh
      simp [ih, hu]
    · have hu : ¬Claimable nowMs maxAttempts r :=
        fun hc => hc.2.1 hex
      simp [ih, hu, isLease]
    · have hu : ¬Claimable nowMs maxAttempts r :=
        fun hc => UInt32.not_le.mpr hc.2.2 he
      simp [ih, hu, isLease]
    have hc : Claimable nowMs maxAttempts r :=
      ⟨UInt64.not_lt.mp hh, hex, UInt32.not_le.mp he⟩
    obtain ⟨lf, hm⟩ := Nat.exists_eq_add_of_lt (not_le.mp hfu)
    have hf : maxBatch - l = lf + 1 := by omega
    have ho : maxBatch - (l + 1) = lf := by omega
    rw [filter_cons_of_pos rfl, filter_cons_of_pos (by simpa using hc), hf,
      take_succ_cons, map_cons, ih, ho]

theorem insertionSort_eq_of_perm {o : List (Text × Record)} (hd : (records.map Prod.fst).Nodup)
    (hsa : o.Perm records) : o.insertionSort ClaimBefore = records.insertionSort ClaimBefore := by
  have hs := perm_insertionSort ClaimBefore records
  refine ((perm_insertionSort _ o).trans (hsa.trans hs.symm)).eq_of_pairwise ?_
    (pairwise_insertionSort _ _) (pairwise_insertionSort _ _)
  intro x y hf hse hb ha
  rw [claimBefore_iff] at hb ha
  have ids : x.1 = y.1 := le_antisymm (hb.resolve_left (by omega)).2 (ha.resolve_left (by omega)).2
  have hm := (perm_insertionSort ClaimBefore o).trans hsa
  exact inj_on_of_nodup_map hd (hm.mem_iff.mp hf) (hs.mem_iff.mp hse) ids

/-- What a claim plans: it leases the first claimable records in the order of priority and id,
dead-letters only unleased records that are expired or exhausted, does nothing twice, and does not
depend on the order of the records. -/
theorem planClaim_specification (distinct : (records.map Prod.fst).Nodup)
    (fits : nowMs.toNat + leaseMs.toNat < UInt64.size) :
    (∃ ordered : List (Text × Record), ordered.Perm records ∧ ordered.Pairwise ClaimBefore ∧
      (planClaim records nowMs leaseMs maxBatch maxAttempts).filter ClaimAction.isLease =
        ((ordered.filter fun entry => Claimable nowMs maxAttempts entry.2).take maxBatch).map
          fun entry => .lease entry.1 (entry.2.leased nowMs leaseMs)) ∧
    (∀ record, Claimable nowMs maxAttempts record →
      (record.leased nowMs leaseMs).attempts.toNat = record.attempts.toNat + 1 ∧
        (record.leased nowMs leaseMs).leaseUntilMs.toNat = nowMs.toNat + leaseMs.toNat) ∧
    (∀ id dead, .deadLetter id dead ∈ planClaim records nowMs leaseMs maxBatch maxAttempts →
      ∃ record, (id, record) ∈ records ∧ record.leaseUntilMs ≤ nowMs ∧
        ((record.expiresAtMs ≠ 0 ∧ record.expiresAtMs ≤ nowMs) ∧ dead = record.ttlExpired ∨
          maxAttempts ≤ record.attempts ∧ dead = record)) ∧
    ((planClaim records nowMs leaseMs maxBatch maxAttempts).map ClaimAction.id).Nodup ∧
    ∀ other, other.Perm records → planClaim other nowMs leaseMs maxBatch maxAttempts =
      planClaim records nowMs leaseMs maxBatch maxAttempts := by
  have hs := List.perm_insertionSort ClaimBefore records
  refine ⟨⟨_, hs, List.pairwise_insertionSort _ _, planLoop_leases _ 0⟩, ?_, ?_,
    planClaim_ids_nodup distinct, ?_⟩
  · intro record claimable
    have hb : record.attempts.toNat < maxAttempts.toNat := claimable.2.2
    have hbo := maxAttempts.toNat_lt
    refine ⟨?_, ?_⟩
    · simp only [Record.leased, UInt32.toNat_add, UInt32.reduceToNat]
      omega
    · simp only [Record.leased, UInt64.toNat_add]
      exact Nat.mod_eq_of_lt fits
  · intro id dead hp
    obtain ⟨other, record, hf, hh, expired | exhausted | ⟨⟨⟩⟩⟩ := planLoop_mem hp
    · obtain ⟨expired, ⟨⟩⟩ := expired
      exact ⟨record, hs.mem_iff.mp hf, hh, .inl ⟨expired, rfl⟩⟩
    · obtain ⟨exhausted, ⟨⟩⟩ := exhausted
      exact ⟨dead, hs.mem_iff.mp hf, hh, .inr ⟨exhausted, rfl⟩⟩
  · intro other hsa
    rw [planClaim, planClaim, insertionSort_eq_of_perm distinct hsa]

/-- Whichever comes first, the plan is the same. -/
theorem urgent_planned_alike :
    planClaim [("1".toList, .fresh none), ("2".toList, { Record.fresh none with priority := 5 })]
        1000 30 1 3 =
      planClaim [("2".toList, { Record.fresh none with priority := 5 }), ("1".toList, .fresh none)]
        1000 30 1 3 :=
  (planClaim_specification (by decide) (by decide)).2.2.2.2 _ (.swap _ _ _)

end PlanClaim

structure GroupedClaim where
  /-- Ids to deliver, with the attempts charged. -/
  leased : List (Text × UInt32)
  /-- Ids that exhausted their attempts. -/
  dead : List (Text × UInt32)

/-- The outcome of walking the in-flight set. -/
structure Redelivery where
  kept : List InFlight
  leased : List (Text × UInt32)
  dead : List (Text × UInt32)
  budget : Nat

def redeliver (nowMs leaseMs : UInt64) (maxAttempts : UInt32) :
    List InFlight → (budget : Nat) → Redelivery
  | [], budget => ⟨[], [], [], budget⟩
  | entry :: rest, budget =>
      if nowMs < entry.leaseUntilMs then
        let out := redeliver nowMs leaseMs maxAttempts rest budget
        { out with kept := entry :: out.kept }
      else if maxAttempts ≤ entry.attempts then
        let out := redeliver nowMs leaseMs maxAttempts rest budget
        { out with dead := (entry.id, entry.attempts) :: out.dead }
      else if budget = 0 then
        let out := redeliver nowMs leaseMs maxAttempts rest budget
        { out with kept := entry :: out.kept }
      else
        let charged := { entry with
          attempts := entry.attempts + 1, leaseUntilMs := nowMs + leaseMs }
        let out := redeliver nowMs leaseMs maxAttempts rest (budget - 1)
        { out with
          kept := charged :: out.kept
          leased := (charged.id, charged.attempts) :: out.leased }

/-- Lease new log ids in order while the batch has room. -/
def leaseNew (nowMs leaseMs : UInt64) :
    List Text → GroupState → (budget : Nat) → GroupState × List (Text × UInt32)
  | [], state, _ => (state, [])
  | id :: rest, state, budget =>
      if budget = 0 then (state, [])
      else if id ≤ state.hwm then leaseNew nowMs leaseMs rest state budget
      else
        let out := leaseNew nowMs leaseMs rest
          { state with
            hwm := id
            inFlight := state.inFlight ++ [⟨id, 1, nowMs + leaseMs⟩] } (budget - 1)
        (out.1, (id, 1) :: out.2)

variable (state : GroupState)

/-- The consumer-group claim decision over the group's state and the log ids
beyond its high-water. -/
def planClaimGrouped (nowMs leaseMs : UInt64) (maxBatch : Nat)
    (maxAttempts : UInt32) (newIds : List Text) : GroupState × GroupedClaim :=
  let inFlight := state.inFlight.insertionSort fun first second => first.id ≤ second.id
  let redelivered := redeliver nowMs leaseMs maxAttempts inFlight maxBatch
  let out := leaseNew nowMs leaseMs newIds { state with inFlight := redelivered.kept }
    redelivered.budget
  (out.1, ⟨redelivered.leased ++ out.2, redelivered.dead⟩)

def groupedMessageNeeded (states : List GroupState) (id : Text) : Bool :=
  states.any fun state =>
    decide (state.hwm < id) || state.inFlight.any fun entry => decide (entry.id = id)

def GroupState.acked (state : GroupState) (id : Text) : GroupState :=
  { state with inFlight := state.inFlight.filter (fun entry => entry.id ≠ id) }

def releaseFirst (id : Text) (untilMs : UInt64) : List InFlight → Option (List InFlight)
  | [] => none
  | entry :: rest =>
      if entry.id = id then some ({ entry with leaseUntilMs := untilMs } :: rest)
      else (releaseFirst id untilMs rest).map (entry :: ·)

def GroupState.nacked (id : Text) (untilMs : UInt64) : GroupState :=
  { state with inFlight := (releaseFirst id untilMs state.inFlight).getD state.inFlight }

/-- Put an id back in flight with fresh attempts, unless it is there already. -/
def GroupState.rearm (id : Text) : GroupState :=
  if state.inFlight.any (fun entry => decide (entry.id = id)) then state
  else { state with inFlight := state.inFlight ++ [⟨id, 0, 0⟩] }

variable {state : GroupState}

theorem GroupState.mem_acked_ids {id o : Text} :
    o ∈ (state.acked id).ids ↔ o ∈ state.ids ∧ o ≠ id := by
  simp only [acked, ids, mem_map, mem_filter,
    decide_eq_true_iff]
  constructor
  · rintro ⟨e, ⟨hi, hd⟩, rfl⟩
    exact ⟨⟨e, hi, rfl⟩, hd⟩
  · rintro ⟨⟨e, hi, rfl⟩, hd⟩
    exact ⟨e, ⟨hi, hd⟩, rfl⟩

theorem releaseFirst_ids {id : Text} {um : UInt64} {es r : List InFlight}
    (hf : releaseFirst id um es = some r) : r.map InFlight.id = es.map InFlight.id := by
  induction es generalizing r with
  | nil => simp [releaseFirst] at hf
  | cons e rest ih =>
    unfold releaseFirst at hf
    split_ifs at hf with hs
    · rw [← Option.some.inj hf]
      rfl
    · rcases Option.map_eq_some_iff.mp hf with ⟨l, hfo, rfl⟩
      simp [ih hfo]

@[simp]
theorem GroupState.nacked_hwm (state : GroupState) (id : Text) (um : UInt64) :
    (state.nacked id um).hwm = state.hwm := rfl

@[simp]
theorem GroupState.nacked_ids (state : GroupState) (id : Text) (um : UInt64) :
    (state.nacked id um).ids = state.ids := by
  unfold nacked ids
  cases hf : releaseFirst id um state.inFlight with
  | none => rfl
  | some r => exact releaseFirst_ids hf

theorem GroupState.mem_rearm_ids {id o : Text} (hh : o ∈ (state.rearm id).ids) :
    o ∈ state.ids ∨ o = id := by
  unfold rearm at hh
  split_ifs at hh
  · exact .inl hh
  · simpa [ids] using hh

section PlanClaimGrouped

variable {nm lm : UInt64} {ma : UInt32}

/-- Walking the in-flight set drops nothing: every entry is kept or dead. -/
theorem redeliver_perm (nm lm : UInt64) (ma : UInt32) (es : List InFlight) (b : Nat) :
    ((redeliver nm lm ma es b).kept.map InFlight.id ++
      (redeliver nm lm ma es b).dead.map Prod.fst).Perm (es.map InFlight.id) := by
  induction es generalizing b with
  | nil => simp [redeliver]
  | cons e rest ih =>
    unfold redeliver
    split_ifs
    · exact (ih b).cons e.id
    · exact perm_middle.trans ((ih b).cons e.id)
    · exact (ih b).cons e.id
    · exact (ih (b - 1)).cons e.id

theorem redeliver_leased_sublist (es : List InFlight) (b : Nat) :
    ((redeliver nm lm ma es b).leased.map Prod.fst).Sublist
      ((redeliver nm lm ma es b).kept.map InFlight.id) := by
  induction es generalizing b with
  | nil => simp [redeliver]
  | cons e rest ih =>
    unfold redeliver
    split_ifs
    · exact (ih b).cons e.id
    · exact ih b
    · exact (ih b).cons e.id
    · exact (ih (b - 1)).cons_cons e.id

/-- On log ids in order beyond the high-water, leasing takes the first ones. -/
theorem leaseNew_of_sorted (nm lm : UInt64) (n : List Text) (state : GroupState)
    (b : Nat) (hs : (state.hwm :: n).Pairwise (· < ·)) : leaseNew nm lm n state b = ({ state with
          hwm := (n.take b).getLastD state.hwm
          inFlight := state.inFlight ++ (n.take b).map (fun id => ⟨id, 1, nm + lm⟩) },
        (n.take b).map fun id => (id, 1)) := by
  induction n generalizing state b with
  | nil => simp [leaseNew]
  | cons id rest ih =>
    rcases pairwise_cons.mp hs with ⟨hb, hr⟩
    have hf : ¬id ≤ state.hwm := not_le.mpr (hb id (by simp))
    cases b with
    | zero => simp [leaseNew]
    | succ b =>
      unfold leaseNew
      rw [if_neg (by simp), if_neg hf]
      simp only [Nat.add_sub_cancel]
      rw [ih _ b (by simpa using hr)]
      simp [getLast?_cons]

theorem planClaimGrouped_dead_mem {state : GroupState} {maxBatch : Nat} {n : List Text} {id : Text}
    (dead : id ∈ (planClaimGrouped state nm lm maxBatch ma
      n).2.dead.map Prod.fst) : id ∈ state.ids := by
  have hw := redeliver_perm nm lm ma
    (state.inFlight.insertionSort fun x y => x.id ≤ y.id) maxBatch
  have hp := (perm_insertionSort (fun x y : InFlight => x.id ≤ y.id) state.inFlight).map InFlight.id
  exact (hw.trans hp).mem_iff.mp (mem_append_right _ dead)

/-- How a claim moves the ids of a group: each held id is kept or dead, an
initial stretch of the new ids is taken, and kept and taken ids are delivered. -/
def ClaimEffect (before : GroupState) (newIds : List Text) (after : GroupState)
    (delivered dead : List Text) : Prop :=
  ∃ kept again taken rest : List Text,
    newIds = taken ++ rest ∧
    after.ids.Perm (kept ++ taken) ∧
    (kept ++ dead).Perm before.ids ∧
    after.hwm = taken.getLastD before.hwm ∧
    delivered = again ++ taken ∧
    again.Sublist kept

theorem planClaimGrouped_effect (state : GroupState) (nm lm : UInt64)
    (maxBatch : Nat) (ma : UInt32) (n : List Text) (hs : (state.hwm :: n).Pairwise (· < ·)) :
    let out := planClaimGrouped state nm lm maxBatch ma n
    ClaimEffect state n out.1 (out.2.leased.map Prod.fst) (out.2.dead.map Prod.fst) := by
  let i := state.inFlight.insertionSort fun x y => x.id ≤ y.id
  let r := redeliver nm lm ma i maxBatch
  have hl := leaseNew_of_sorted nm lm n { state with inFlight := r.kept } r.budget hs
  have hp : i.Perm state.inFlight := perm_insertionSort _ _
  simp only [planClaimGrouped]
  rw [hl]
  refine ⟨r.kept.map InFlight.id, r.leased.map Prod.fst, n.take r.budget, n.drop r.budget,
    (take_append_drop _ _).symm, ?_, ?_, rfl, ?_, redeliver_leased_sublist i maxBatch⟩
  · simp [ids, Function.comp_def]
  · exact (redeliver_perm nm lm ma i maxBatch).trans (hp.map InFlight.id)
  · simp [Function.comp_def, r, i]

end PlanClaimGrouped

/-- The ids a group holds are distinct and not beyond its high-water. -/
structure GroupState.WellFormed (state : GroupState) : Prop where
  nodup : state.ids.Nodup
  seen : ∀ id ∈ state.ids, id ≤ state.hwm

theorem GroupState.new_wellFormed (hwm : Text) : (new hwm).WellFormed :=
  ⟨by simp [new, ids], by simp [new, ids]⟩

theorem GroupState.WellFormed.acked (hf : state.WellFormed) (id : Text) :
    (state.acked id).WellFormed := by
  refine ⟨hf.nodup.sublist (filter_sublist.map _), ?_⟩
  intro o hh
  exact hf.seen o (mem_acked_ids.mp hh).1

theorem GroupState.WellFormed.nacked (hf : state.WellFormed) (id : Text) (um : UInt64) :
    (state.nacked id um).WellFormed :=
  ⟨by simpa using hf.nodup, by simpa using hf.seen⟩

theorem GroupState.WellFormed.rearm (hf : state.WellFormed) {id : Text} (hse : id ≤ state.hwm) :
    (state.rearm id).WellFormed := by
  unfold GroupState.rearm
  split_ifs with hp
  · exact hf
  have ha : id ∉ state.ids := by
    intro hh
    rcases mem_map.mp hh with ⟨e, hie, hs⟩
    exact hp (any_eq_true.mpr ⟨e, hie, decide_eq_true hs⟩)
  have ids : GroupState.ids { state with inFlight := state.inFlight ++ [⟨id, 0, 0⟩] } =
      state.ids ++ [id] := by
    simp [GroupState.ids]
  refine ⟨?_, ?_⟩
  · rw [ids]
    refine nodup_append.mpr ⟨hf.nodup, nodup_singleton id, ?_⟩
    intro o hh s hi hs
    exact ha (mem_singleton.mp hi ▸ hs ▸ hh)
  rw [ids]
  intro o hh
  rcases mem_append.mp hh with hin | hi
  · exact hf.seen o hin
  · rw [mem_singleton.mp hi]
    exact hse

theorem le_getLastD_of_sorted {s id : Text} {ids : List Text}
    (hs : (s :: ids).Pairwise (· < ·)) (hi : id ∈ s :: ids) : id ≤ ids.getLastD s := by
  induction ids generalizing s id with
  | nil => simpa using le_of_eq (mem_singleton.mp hi)
  | cons next rest ih =>
    rcases pairwise_cons.mp hs with ⟨hb, hl⟩
    rw [getLastD_cons]
    rcases mem_cons.mp hi with rfl | hin
    · exact (hb next (by simp)).le.trans (ih hl (by simp))
    · exact ih hl hin

namespace ClaimEffect

variable {b af : GroupState} {ni d dead : List Text}

section Effect

variable (hef : ClaimEffect b ni af d dead)

include hef

theorem held_or_dead {id : Text} (hh : id ∈ b.ids) : id ∈ af.ids ∨ id ∈ dead := by
  rcases hef with ⟨k, a, t, rest, _, ha, hb, _, _, _⟩
  rcases mem_append.mp (hb.mem_iff.mpr hh) with hin | hi
  · exact .inl (ha.mem_iff.mpr (mem_append_left _ hin))
  · exact .inr hi

theorem held_or_delivered {id : Text} (hh : id ∈ af.ids) : id ∈ b.ids ∨ id ∈ d := by
  rcases hef with ⟨k, a, t, rest, _, ha, hb, _, rfl, _⟩
  rcases mem_append.mp (ha.mem_iff.mp hh) with hi | hin
  · exact .inl (hb.mem_iff.mp (mem_append_left _ hi))
  · exact .inr (mem_append_right _ hin)

theorem mem_of_delivered {id : Text} (hg : id ∈ d) : id ∈ b.ids ∨ id ∈ ni := by
  rcases hef with ⟨k, a, t, rest, rfl, _, hb, _, rfl, hr⟩
  rcases mem_append.mp hg with hi | hin
  · exact .inl (hb.mem_iff.mp (mem_append_left _ (hr.subset hi)))
  · exact .inr (mem_append_left _ hin)

/-- A pending id is taken or stays beyond the high-water: the claim does not
jump over it. -/
theorem pending_or_delivered (hs : (b.hwm :: ni).Pairwise (· < ·)) {id : Text}
    (hp : b.hwm < id) (hc : id ∈ ni ∨ ∀ e ∈ ni, e < id) : af.hwm < id ∨ (id ∈ af.ids ∧ id ∈ d) := by
  rcases hef with ⟨k, a, t, rest, rfl, ha, _, hwm, rfl, _⟩
  by_cases hi : id ∈ t
  · exact .inr ⟨ha.mem_iff.mpr (mem_append_right _ hi), mem_append_right _ hi⟩
  have hb : ∀ e ∈ b.hwm :: t, e < id := by
    intro e hin
    rcases mem_cons.mp hin with rfl | he
    · exact hp
    rcases hc with hf | all
    · have hit := (mem_append.mp hf).resolve_left hi
      exact (pairwise_append.mp (pairwise_cons.mp hs).2).2.2 e he id hit
    · exact all e (mem_append_left _ he)
  rw [hwm]
  exact .inl (hb _ getLastD_mem_cons)

end Effect

/-- A claim that delivers and buries nothing may as well not be stored. -/
theorem idle (hef : ClaimEffect b ni af [] []) : ClaimEffect b ni b [] [] := by
  rcases hef with ⟨k, a, t, rest, hs, _, hb, _, d, _⟩
  rcases append_eq_nil_iff.mp d.symm with ⟨rfl, rfl⟩
  exact ⟨k, [], [], rest, hs, by simpa using hb.symm, hb, rfl, rfl, nil_sublist k⟩

theorem taken_sorted {s : Text} {t rest : List Text}
    (hs : (s :: (t ++ rest)).Pairwise (· < ·)) : (s :: t).Pairwise (· < ·) :=
  hs.sublist ((sublist_append_left t rest).cons_cons s)

/-- New ids lie beyond the high-water, so they are none of the held ones. -/
theorem kept_taken_nodup {k t rest : List Text} (hw : b.WellFormed) (hb : (k ++ dead).Perm b.ids)
    (hs : (b.hwm :: (t ++ rest)).Pairwise (· < ·)) : (k ++ t).Nodup := by
  have ho := taken_sorted hs
  have hk := (hb.nodup_iff.mpr hw.nodup).of_append_left
  refine nodup_append.mpr ⟨hk, (pairwise_cons.mp ho).2.imp ne_of_lt, ?_⟩
  intro id hi o hin hsa
  have hse := hw.seen id (hb.mem_iff.mp (mem_append_left _ hi))
  have hbe := (pairwise_cons.mp ho).1 o hin
  exact absurd (hsa ▸ hse) (not_le.mpr hbe)

theorem wellFormed (hef : ClaimEffect b ni af d dead) (hs : (b.hwm :: ni).Pairwise (· < ·))
    (hf : b.WellFormed) : af.WellFormed := by
  rcases hef with ⟨k, a, t, rest, rfl, ha, hb, hwm, _, _⟩
  have ho := taken_sorted hs
  refine ⟨ha.nodup_iff.mpr (kept_taken_nodup hf hb hs), ?_⟩
  intro id hin
  rw [hwm]
  rcases mem_append.mp (ha.mem_iff.mp hin) with hi | hh
  · have hse := hf.seen id (hb.mem_iff.mp (mem_append_left _ hi))
    exact hse.trans (le_getLastD_of_sorted ho (by simp))
  · exact le_getLastD_of_sorted ho (mem_cons_of_mem _ hh)

theorem delivered_nodup (hef : ClaimEffect b ni af d dead) (hs : (b.hwm :: ni).Pairwise (· < ·))
    (hf : b.WellFormed) : d.Nodup := by
  rcases hef with ⟨k, a, t, rest, rfl, _, hb, _, rfl, hr⟩
  have hn := kept_taken_nodup hf hb hs
  exact hn.sublist (hr.append_right t)

end ClaimEffect

end BoatRamp.Messaging

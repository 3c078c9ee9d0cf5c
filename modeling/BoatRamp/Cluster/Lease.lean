import BoatRamp.Cluster.Frame

/-!
# Exclusive leases in the work queue

A claim leases each message it returns until `nowMs + leaseMs`.  Until then no
other claim may return the message, whatever else is applied in between, unless
the message is acked, nacked or published anew.  The deadline is computed in
64-bit arithmetic, which is the one way to break this.
-/

namespace BoatRamp.Cluster

open Library Messaging List

section Records

variable {Bytes : Type} [Codec Bytes]

/-- What a claim may do to one index record, and whether it returns it. -/
inductive RecordMove (nowMs leaseMs : UInt64) (returned : Prop) :
    Option Record → Option Record → Prop where
  | kept (record : Option Record) : ¬returned →
      RecordMove nowMs leaseMs returned record record
  | leased {record : Record} : returned → ¬nowMs < record.leaseUntilMs →
      RecordMove nowMs leaseMs returned (some record) (some (record.leased nowMs leaseMs))
  | dead {record : Record} : ¬returned → ¬nowMs < record.leaseUntilMs →
      RecordMove nowMs leaseMs returned (some record) none

theorem get?_applyClaimActions_of_notMem {t id : Text} {acts : List ClaimAction}
    (hu : id ∉ acts.map ClaimAction.id) (tg : ApplyTarget Bytes) :
    (applyClaimActions t acts tg).1.data.get? (metaKey t id) = tg.data.get? (metaKey t id) := by
  refine (applyClaimActions_writes t acts tg).get?_eq ?_
  rintro ⟨act, hi, hs | hs⟩
  · rw [metaKey_inj_id.mp hs] at hu
    exact hu (mem_map_of_mem hi)
  · simp [metaKey, deadKey] at hs

def ClaimAction.result : ClaimAction → Option Record
  | .lease _ record => some record
  | .deadLetter _ _ => none

theorem readRecord_applyClaimActions {t : Text} {acts : List ClaimAction}
    (hd : (acts.map ClaimAction.id).Nodup) {act : ClaimAction}
    (hp : act ∈ acts) (tg : ApplyTarget Bytes) :
    readRecord (applyClaimActions t acts tg).1.data (metaKey t act.id) =
      ClaimAction.result act := by
  induction acts generalizing tg with
  | nil => simp at hp
  | cons x rest ih =>
    rcases nodup_cons.mp hd with ⟨hu, hr⟩
    rcases mem_cons.mp hp with rfl | hi
    · cases act with
      | lease id r =>
        rw [applyClaimActions, readRecord_congr (get?_applyClaimActions_of_notMem hu _)]
        simp [readRecord, ClaimAction.id, ClaimAction.result, Except.toOption]
      | deadLetter id r =>
        rw [applyClaimActions, readRecord_congr (get?_applyClaimActions_of_notMem hu _)]
        simp [readRecord, ClaimAction.id, ClaimAction.result]
    cases x with
    | lease id r | deadLetter id r => exact ih hr hi _

theorem mem_applyClaimActions_ids (t id : Text) (acts : List ClaimAction) (tg : ApplyTarget Bytes) :
    id ∈ (applyClaimActions t acts tg).2.map ClaimedRecord.id ↔ ∃ r, .lease id r ∈ acts := by
  induction acts generalizing tg with
  | nil => simp [applyClaimActions]
  | cons act rest ih =>
    cases act with
    | lease o r =>
      simp only [applyClaimActions, map_cons, mem_cons, ih, ClaimAction.lease.injEq]
      constructor
      · rintro (rfl | ⟨f, hi⟩)
        · exact ⟨r, .inl ⟨rfl, rfl⟩⟩
        · exact ⟨f, .inr hi⟩
      rintro ⟨f, ⟨rfl, _⟩ | hi⟩
      · exact .inl rfl
      · exact .inr ⟨f, hi⟩
    | deadLetter o r =>
      simp [applyClaimActions, ih]

theorem RecordMove.of_returned {nm lm : UInt64} {rt : Prop}
    {b a : Option Record} (hm : RecordMove nm lm rt b a) (hi : rt) :
    ∃ r, b = some r ∧ ¬nm < r.leaseUntilMs ∧ a = some (r.leased nm lm) := by
  cases hm with
  | kept _ hu => exact absurd hi hu
  | @leased r _ hf => exact ⟨r, rfl, hf, rfl⟩
  | dead hu => exact absurd hi hu

theorem applyMqClaim_ids_isSegment {tg : ApplyTarget Bytes} {t id : Text} {nm lm : UInt64}
    {mb : Nat} {ma : UInt32} (hr : id ∈ (applyMqClaim tg t nm lm mb ma).2.map ClaimedRecord.id) :
    IsSegment id := by
  rcases (mem_applyClaimActions_ids t id _ tg).mp hr with ⟨r, hp⟩
  exact planned_isSegment hp

theorem applyMqClaim_recordMove (tg : ApplyTarget Bytes) (t id : Text)
    (nm lm : UInt64) (mb : Nat) (ma : UInt32) :
    let out := applyMqClaim tg t nm lm mb ma
    RecordMove nm lm (id ∈ out.2.map ClaimedRecord.id)
      (readRecord tg.data (metaKey t id))
      (readRecord out.1.data (metaKey t id)) := by
  unfold applyMqClaim
  dsimp only
  set acts := planClaim (topicRecords tg.data t) nm lm mb ma
    with actions_eq
  have hd : (acts.map ClaimAction.id).Nodup :=
    planClaim_ids_nodup (topicRecords_ids_nodup tg.data t)
  have hpr : readRecord (pruneReady (applyClaimActions t acts tg).1 t).data
      (metaKey t id) =
      readRecord (applyClaimActions t acts tg).1.data (metaKey t id) := by
    refine readRecord_congr ((pruneReady_writes _ t).get?_eq ?_)
    simp [metaKey, readyKey]
  rw [hpr]
  by_cases hp : id ∈ acts.map ClaimAction.id
  · rcases mem_map.mp hp with ⟨act, hi, rfl⟩
    rw [readRecord_applyClaimActions hd hi]
    rcases planClaim_actsOn hi with ⟨⟨o, r⟩, hin, ha⟩
    have hf := ((mem_topicRecords_iff _ _ _ _).mp hin).2
    -- Ids are planned once, so a dead-lettered id is not leased as well.
    have hb : ∀ {d : Record}, act = .deadLetter o d →
        o ∉ (applyClaimActions t acts tg).2.map ClaimedRecord.id := by
      rintro d rfl hr
      rcases (mem_applyClaimActions_ids t _ acts tg).mp hr with ⟨l, his⟩
      have hs := inj_on_of_nodup_map hd his hi rfl
      cases hs
    cases ha with
    | lease hfr =>
      have hr := (mem_applyClaimActions_ids t o acts tg).mpr
        ⟨_, hi⟩
      simp only [ClaimAction.id, ClaimAction.result, hf]
      exact .leased hr hfr
    | expire hfr | exhaust hfr =>
      simp only [ClaimAction.id, ClaimAction.result, hf]
      exact .dead (hb rfl) hfr
  rw [readRecord_congr (get?_applyClaimActions_of_notMem hp tg)]
  refine .kept _ ?_
  intro hr
  rcases (mem_applyClaimActions_ids t id acts tg).mp hr with
    ⟨r, hi⟩
  exact hp (mem_map_of_mem (f := ClaimAction.id) hi)

end Records

section Holding

variable {Bytes : Type}

def IsBatched : WriteOp Bytes → Prop
  | .mqPublish _ id _ _ _ _ _ _ => IsSegment id
  | .mqRedriveGroupedDead .. => True
  | .delete key => ∃ rest, key = Family.dead.key rest ∨ key = Family.gdead.key rest
  | _ => False

/-- The operations the queue proposes; message ids are single segments. -/
def IsMqOp : WriteOp Bytes → Prop
  | .mqPublish _ id _ _ _ _ _ _ => IsSegment id
  | .mqAck _ id => IsSegment id
  | .mqNack _ id _ => IsSegment id
  | .mqSetLastError _ id _ => IsSegment id
  | .batch ops => ∀ op ∈ ops, IsBatched op
  | .put .. | .delete .. | .compareAndSwap .. | .meshAdmit .. => False
  | _ => True

def Publishes (topic id : Text) : WriteOp Bytes → Prop
  | .mqPublish target member _ _ _ _ _ _ => target = topic ∧ member = id
  | _ => False

/-- The operations that end a lease early: an ack, a nack, or a publish of the
same id once its record is gone. -/
def Releases (topic id : Text) (data : Store Bytes) : WriteOp Bytes → Prop
  | .mqAck target member => target = topic ∧ member = id
  | .mqNack target member _ => target = topic ∧ member = id
  | .mqPublish target member _ _ _ _ _ _ =>
      target = topic ∧ member = id ∧ data.contains (metaKey topic id) = false
  | .batch ops => ∃ op ∈ ops, Publishes topic id op
  | _ => False

def DeadlineFits (topic : Text) : WriteOp Bytes → Prop
  | .mqClaim target nowMs leaseMs _ _ => target = topic → nowMs.toNat + leaseMs.toNat < UInt64.size
  | _ => True

variable [Codec Bytes]

def LeasedUntil (topic id : Text) (deadline : Nat) (data : Store Bytes) : Prop :=
  ∀ record, readRecord data (metaKey topic id) = some record →
    deadline ≤ record.leaseUntilMs.toNat

theorem leased_deadline {nm lm : UInt64} (hf : nm.toNat + lm.toNat < UInt64.size) (r : Record) :
    (r.leased nm lm).leaseUntilMs.toNat = nm.toNat + lm.toNat := by
  rw [Record.leased, UInt64.toNat_add]
  exact Nat.mod_eq_of_lt hf

/-- A claim never shortens a lease: it can renew one only after it ran out. -/
theorem RecordMove.deadline_le {nm lm : UInt64} {rt : Prop} {b af : Option Record}
    (move : RecordMove nm lm rt b af) (fits : nm.toNat + lm.toNat < UInt64.size) {d : Nat}
    (leased : ∀ r, b = some r → d ≤ r.leaseUntilMs.toNat) :
    ∀ r, af = some r → d ≤ r.leaseUntilMs.toNat := by
  intro r hf
  cases move with
  | kept _ _ => exact leased r hf
  | @leased old _ hfr =>
    cases hf
    have he := leased old rfl
    rw [leased_deadline fits]
    rw [UInt64.lt_iff_toNat_lt] at hfr
    omega
  | dead => cases hf

variable [DecidableEq Bytes]

theorem get?_applyBatch {t id : Text} (hse : IsSegment id) {ops : List (WriteOp Bytes)}
    (hb : ∀ op ∈ ops, IsBatched op) (hu : ∀ op ∈ ops, ¬Publishes t id op) (tg : ApplyTarget Bytes) :
    (applyBatch tg ops).data.get? (metaKey t id) = tg.data.get? (metaKey t id) := by
  induction ops generalizing tg with
  | nil => rfl
  | cons op rest ih =>
    rw [applyBatch, ih (fun o hi => hb o (mem_cons_of_mem _ hi))
      (fun o hi => hu o (mem_cons_of_mem _ hi))]
    refine (applyOp_writes tg op).get?_eq ?_
    have hs := hb op (by simp)
    have ha := hu op (by simp)
    cases op with
    | mqPublish o m =>
      simp only [MayWrite, metaKey_inj hse hs]
      rintro (⟨rfl, rfl⟩ | o)
      · exact ha ⟨rfl, rfl⟩
      · simp [metaKey, readyKey, glogKey, logmaxKey] at o
    | mqRedriveGroupedDead => simp [MayWrite, metaKey, gstateKey, gdeadKey, readyKey]
    | delete key =>
      rcases hs with ⟨rest, rfl | rfl⟩ <;> simp [MayWrite, metaKey]
    | _ => exact hs.elim

theorem LeasedUntil.step {t id : Text} {d : Nat} {dt : Store Bytes} (hs : IsSegment id)
    (hl : LeasedUntil t id d dt) {op : WriteOp Bytes} (hmq : IsMqOp op) (hfi : DeadlineFits t op)
    (hun : ¬Releases t id dt op) : LeasedUntil t id d (stateMachine.step dt op).1 := by
  have hu : ¬MayWrite dt op (metaKey t id) →
      LeasedUntil t id d (stateMachine.step dt op).1 := by
    intro hud r hf
    rw [readRecord_congr (step_get?_of_not_mayWrite hud)] at hf
    exact hl r hf
  cases op with
  | put | delete | compareAndSwap | meshAdmit => exact hmq.elim
  | batch ops =>
    have hsa := readRecord_congr (get?_applyBatch hs hmq
      (fun op hi hp => hun ⟨op, hi, hp⟩) (.new dt))
    exact fun r hf => hl r (hsa.symm.trans hf)
  | mqPublish tg m rt sc i nbm eam p =>
    by_cases hsa : metaKey t id = metaKey tg m
    · rcases (metaKey_inj hs hmq).mp hsa with ⟨rfl, rfl⟩
      have hpr : dt.contains (metaKey t id) = true := by
        simpa [Releases] using hun
      have hk := get?_applyMqPublish_of_contains (.new dt) hpr rt
        (publishedRecord sc i nbm eam p)
      exact fun r hf => hl r ((readRecord_congr hk).symm.trans hf)
    refine hu ?_
    rintro (hw | ho)
    · exact hsa hw
    · simp [metaKey, readyKey, glogKey, logmaxKey] at ho
  | mqClaim tg nm lm mb ma =>
    by_cases hsa : tg = t
    · subst hsa
      exact (applyMqClaim_recordMove (.new dt) tg id nm lm mb.toNat
        ma).deadline_le (hfi rfl) hl
    refine hu ?_
    rintro (hr | ⟨m, hme, hw | hd⟩)
    · simp [metaKey, readyKey] at hr
    · exact hsa ((metaKey_inj hs hme).mp hw).1.symm
    · simp [metaKey, deadKey] at hd
  | mqAck tg m =>
    refine hu fun hw => hun ?_
    rcases (metaKey_inj hs hmq).mp hw with ⟨rfl, rfl⟩
    exact ⟨rfl, rfl⟩
  | mqNack tg m um =>
    refine hu ?_
    rintro (hw | hr)
    · rcases (metaKey_inj hs hmq).mp hw with ⟨rfl, rfl⟩
      exact hun ⟨rfl, rfl⟩
    · simp [metaKey, readyKey] at hr
  | mqSetLastError tg m rsn =>
    by_cases hsa : metaKey t id = metaKey tg m
    · intro r hf
      have hm := readRecord_applyMqSetLastError (.new dt) tg m rsn
      rw [← hsa] at hm
      rcases Option.map_eq_some_iff.mp (hm.symm.trans hf) with ⟨old, hb, rfl⟩
      exact hl old hb
    · exact hu hsa
  | mqClaimGrouped | mqAckGrouped | mqNackGrouped | mqRedriveGroupedDead | mqResetGroup
  | mqSetPaused | mqSweepGrouped =>
    exact hu (by
      simp [MayWrite, metaKey, gstateKey, gdeadKey, readyKey, pauseKey, glogKey])
  | mqDeleteGroup =>
    exact hu (by simp [MayWrite, metaKey, gstateKey, gdeadKey, Family.isPrefix_key_iff])

/-- While deadlines fit, a claimed message is not returned by another claim
before its lease ends, unless it is released in between. -/
theorem lease_exclusive (topic id : Text) (data : Store Bytes) (nowMs leaseMs : UInt64)
    (maxBatch maxAttempts : UInt32) (between : List (WriteOp Bytes))
    (laterMs laterLeaseMs : UInt64) (laterBatch laterAttempts : UInt32)
    (returned : id ∈ (stateMachine.step data
      (.mqClaim topic nowMs leaseMs maxBatch maxAttempts)).2.claimedIds)
    (fits : nowMs.toNat + leaseMs.toNat < UInt64.size)
    (meets : stateMachine.Meets
      (fun state op => IsMqOp op ∧ DeadlineFits topic op ∧ ¬Releases topic id state op)
      (stateMachine.step data (.mqClaim topic nowMs leaseMs maxBatch maxAttempts)).1 between)
    (before : laterMs.toNat < nowMs.toNat + leaseMs.toNat) :
    id ∉ (stateMachine.step
      (stateMachine.final
        (stateMachine.step data (.mqClaim topic nowMs leaseMs maxBatch maxAttempts)).1 between)
      (.mqClaim topic laterMs laterLeaseMs laterBatch laterAttempts)).2.claimedIds := by
  have hs : IsSegment id := applyMqClaim_ids_isSegment returned
  have hl : LeasedUntil topic id (nowMs.toNat + leaseMs.toNat)
      (stateMachine.step data (.mqClaim topic nowMs leaseMs maxBatch maxAttempts)).1 := by
    rcases (applyMqClaim_recordMove (.new data) topic id nowMs leaseMs maxBatch.toNat
      maxAttempts).of_returned returned with ⟨old, _, _, haf⟩
    intro r hf
    cases haf.symm.trans hf
    exact (leased_deadline fits old).ge
  have hk : ∀ (state : Store Bytes) (op : WriteOp Bytes),
      LeasedUntil topic id (nowMs.toNat + leaseMs.toNat) state →
      (IsMqOp op ∧ DeadlineFits topic op ∧ ¬Releases topic id state op) →
      LeasedUntil topic id (nowMs.toNat + leaseMs.toNat) (stateMachine.step state op).1 :=
    fun _ _ hc ha => hc.step hs ha.1 ha.2.1 ha.2.2
  have hst := Machine.invariant hk hl meets
  intro hag
  rcases (applyMqClaim_recordMove (.new _) topic id laterMs laterLeaseMs laterBatch.toNat
    laterAttempts).of_returned hag with ⟨r, hf, hfr, _⟩
  have hd := hst r hf
  rw [UInt64.lt_iff_toNat_lt] at hfr
  omega

end Holding

namespace Wrapped

def topic : Text := "jobs".toList

def id : Text := nextId 1000 1 0

def queued : Store Stored :=
  stateMachine.final .empty [.mqPublish topic id false none none 0 0 0]

def claim (nowMs leaseMs : UInt64) : WriteOp Stored := .mqClaim topic nowMs leaseMs 1 5

/-- A claim under a lease of 30 ms keeps the message to itself. -/
theorem second_claim_empty : id ∉ (stateMachine.step
      (stateMachine.final (stateMachine.step queued (claim 1001 30)).1
        [.mqSetLastError topic id "timeout".toList]) (claim 1020 30)).2.claimedIds := by
  refine lease_exclusive topic id queued 1001 30 1 5 [.mqSetLastError topic id "timeout".toList]
    1020 30 1 5 (by decide +kernel) (by decide) ⟨⟨?_, trivial, not_false⟩, trivial⟩ (by decide)
  show IsSegment id
  decide

/-- A lease meant never to end wraps around: the deadline lies in the past and
the next claim returns the message again. -/
theorem endless_lease_claimed_twice :
    id ∈ (stateMachine.step queued (claim 1001 18446744073709551615)).2.claimedIds ∧
    (1002 : UInt64).toNat < (1001 : UInt64).toNat + (18446744073709551615 : UInt64).toNat ∧
    id ∈ (stateMachine.step (stateMachine.step queued (claim 1001 18446744073709551615)).1
      (claim 1002 30)).2.claimedIds := by
  refine ⟨by decide +kernel, by decide, by decide +kernel⟩

end Wrapped

end BoatRamp.Cluster

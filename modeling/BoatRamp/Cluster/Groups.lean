import BoatRamp.Cluster.Frame

/-!
# Consumer groups in the applied state

What the grouped operations do to stored group states, stated on message ids:
which ids a claim considers, what it leaves in flight, and how the stored state
of one group reacts to operations on it and on others.
-/

namespace BoatRamp.Cluster

open Library Messaging GroupState List

section LogIds

variable {Bytes : Type}

theorem takeBatch_isPrefix (mb : Nat) (ids : List Text) (t : Nat) : takeBatch mb ids t <+: ids := by
  induction ids generalizing t with
  | nil => exact nil_prefix
  | cons id rest ih =>
    unfold takeBatch
    split
    · exact ⟨rest, rfl⟩
    · exact cons_prefix_cons.mpr ⟨rfl, ih (t + 1)⟩

variable (data : Store Bytes)

theorem mem_glogIds_iff (t id : Text) :
    id ∈ glogIds data t ↔ IsSegment id ∧ data.contains (glogKey t id) = true := by
  simp only [glogIds, mem_map, Prod.exists, exists_and_right, exists_eq_right,
    SortedMap.contains, Option.isSome_iff_exists]
  constructor
  · rintro ⟨v, hc⟩
    rcases (mem_directChildren_iff data .glog t id v).mp hc with ⟨hs, hf⟩
    exact ⟨hs, v, hf⟩
  · rintro ⟨hs, v, hf⟩
    exact ⟨v, (mem_directChildren_iff data .glog t id v).mpr ⟨hs, hf⟩⟩

theorem glogIds_sorted (t : Text) : (glogIds data t).Pairwise (· < ·) := by
  unfold glogIds
  rw [pairwise_map]
  exact directChildren_sorted data .glog t

theorem scanned_after_hwm (t hwm : Text) :
    ((((data.scanFrom (glogPrefix t) (glogPrefix t ++ hwm)).filter
        (fun e => isDirectChild e.1 (glogPrefix t))).map
        (fun e => e.1.drop (glogPrefix t).length)).filter fun id => hwm < id) =
      (glogIds data t).filter (fun id => hwm < id) := by
  have hr : glogPrefix t ≤ glogPrefix t ++ hwm :=
    le_of_isPrefix (prefix_append _ _)
  rw [data.scanFrom_eq_scan_filter hr]
  simp only [glogIds, directChildren, map_map, filter_map, filter_filter]
  refine congrArg (map _) (filter_congr ?_)
  rintro ⟨key, v⟩ hs
  rcases ((data.mem_scan_iff _ _ _).mp hs).2 with ⟨id, rfl⟩
  simp only [Function.comp_apply, drop_left]
  by_cases hb : hwm < id
  · have hl : glogPrefix t ++ hwm ≤ glogPrefix t ++ id :=
      ((append_lt_append_left_iff _ _ _).mpr hb).le
    simp [hb, hl]
  · simp [hb]

variable [Codec Bytes]

theorem newLogIds_isPrefix (t hwm : Text) (mb : Nat) :
    newLogIds data t hwm mb <+: (glogIds data t).filter (fun id => hwm < id) := by
  unfold newLogIds
  split
  · dsimp only
    rw [scanned_after_hwm]
    exact takeBatch_isPrefix mb _ 0
  · exact nil_prefix

theorem newLogIds_sorted (t hwm : Text) (mb : Nat) :
    (hwm :: newLogIds data t hwm mb).Pairwise (· < ·) := by
  have hi := newLogIds_isPrefix data t hwm mb
  refine pairwise_cons.mpr ⟨?_, ?_⟩
  · intro id hin
    simpa using (mem_filter.mp (hi.subset hin)).2
  · exact (glogIds_sorted data t).sublist (hi.sublist.trans filter_sublist)

theorem mem_glogIds_of_mem_newLogIds {data : Store Bytes} {t hwm id : Text} {mb : Nat}
    (hi : id ∈ newLogIds data t hwm mb) : id ∈ glogIds data t :=
  (mem_filter.mp ((newLogIds_isPrefix data t hwm mb).subset hi)).1

/-- A log id beyond the high-water is considered, or comes after all that are. -/
theorem newLogIds_covers {data : Store Bytes} {t hwm id : Text} (mb : Nat)
    (hlo : id ∈ glogIds data t) (hp : hwm < id) : id ∈ newLogIds data t hwm mb ∨
      ∀ e ∈ newLogIds data t hwm mb, e < id := by
  rcases newLogIds_isPrefix data t hwm mb with ⟨rest, hs⟩
  have hi : id ∈ newLogIds data t hwm mb ++ rest := by
    rw [hs]
    exact mem_filter.mpr ⟨hlo, by simpa using hp⟩
  have ho : (newLogIds data t hwm mb ++ rest).Pairwise (· < ·) := by
    rw [hs]
    exact (glogIds_sorted data t).sublist filter_sublist
  rcases mem_append.mp hi with hf | hl
  · exact .inl hf
  · exact .inr fun e hin =>
      (pairwise_append.mp ho).2.2 e hin id hl

end LogIds

section Loading

variable {Bytes : Type} [Codec Bytes] (tg : ApplyTarget Bytes) (t g : Text)

@[simp]
theorem loadGroupState_putGroupState (s : GroupState) :
    loadGroupState (putGroupState tg t g s).data t g = some s := by
  simp [loadGroupState, putGroupState, Except.toOption]

@[simp]
theorem loadGroupState_put_readyKey (t o g : Text) (v : Bytes) :
    loadGroupState (tg.put (readyKey o) v).data t g = loadGroupState tg.data t g := by
  apply loadGroupState_congr
  rw [ApplyTarget.put_data, SortedMap.get?_insert_of_ne]
  simp [gstateKey, readyKey]

theorem putGroupedDead_foldl_contains (d : List (Text × UInt32)) (tg : ApplyTarget Bytes)
    (key : Text) (ht : tg.data.contains key = true ∨ ∃ id ∈ d.map Prod.fst, key = gdeadKey t g id) :
    (d.foldl (putGroupedDead t g) tg).data.contains key = true := by
  induction d generalizing tg with
  | nil => simpa using ht
  | cons e rest ih =>
    apply ih
    rcases ht with hp | ⟨id, hi, rfl⟩
    · exact .inl (by simp [putGroupedDead, hp])
    rcases mem_cons.mp hi with rfl | hin
    · exact .inl (by simp [putGroupedDead])
    · exact .inr ⟨id, hin, rfl⟩

def groupOrNew (data : Store Bytes) (topic group : Text) (start : StartPosition) :
    GroupState :=
  (loadGroupState data topic group).getD (.new (startHwm data topic start))

theorem mem_groupOrNew_ids {data : Store Bytes} {t g id : Text}
    {st : StartPosition} (hh : id ∈ (groupOrNew data t g st).ids) :
    ∃ s, loadGroupState data t g = some s ∧ id ∈ s.ids := by
  unfold groupOrNew at hh
  cases hl : loadGroupState data t g with
  | none => simp [hl, new, ids] at hh
  | some s => exact ⟨s, rfl, by simpa [hl] using hh⟩

/-- What a grouped claim leaves behind: the group is registered, its ids moved
as the plan says, and every dead id has its dead-letter record. -/
theorem applyMqClaimGrouped_effect (tg : ApplyTarget Bytes) (t g : Text)
    (s : StartPosition) (nm lm : UInt64) (mb : Nat) (ma : UInt32) :
    let b := groupOrNew tg.data t g s
    let out := applyMqClaimGrouped tg t g s nm lm mb ma
    ∃ af d, loadGroupState out.1.data t g = some af ∧
      ClaimEffect b (newLogIds tg.data t b.hwm mb) af (out.2.map ClaimedRecord.id) d ∧
      ∀ id ∈ d, out.1.data.contains (gdeadKey t g id) = true := by
  intro b out
  have he := planClaimGrouped_effect b nm lm mb ma _ (newLogIds_sorted tg.data t b.hwm mb)
  set p := planClaimGrouped b nm lm mb ma (newLogIds tg.data t b.hwm mb) with plan_eq
  have hd : out.2.map ClaimedRecord.id = p.2.leased.map Prod.fst := by
    simp [out, applyMqClaimGrouped, plan_eq, b, groupOrNew]
  have hs : out.1 =
      if (loadGroupState tg.data t g).isNone || !p.2.leased.isEmpty || !p.2.dead.isEmpty then
        putGroupState (p.2.dead.foldl (putGroupedDead t g) tg) t g p.1
      else p.2.dead.foldl (putGroupedDead t g) tg := rfl
  rw [hd]
  split_ifs at hs with hc
  · refine ⟨p.1, _, by rw [hs]; simp, he, ?_⟩
    intro id hi
    rw [hs, putGroupState, ApplyTarget.put_data, SortedMap.contains_insert,
      putGroupedDead_foldl_contains t g _ _ _ (.inr ⟨id, hi, rfl⟩), Bool.or_true]
  simp only [Bool.or_eq_true, Option.isNone_iff_eq_none, Bool.not_eq_true',
    isEmpty_eq_false_iff, not_or, not_not] at hc
  rcases hc with ⟨⟨hr, hn⟩, hno⟩
  simp only [hn, hno] at he hs
  rcases Option.ne_none_iff_exists'.mp hr with ⟨sta, hl⟩
  have hsa : b = sta := by simp [b, groupOrNew, hl]
  refine ⟨b, [], ?_, ?_, by simp⟩
  · rw [hs, hsa]
    exact hl
  · rw [hn]
    exact he.idle

theorem loadGroupState_applyMqAckGrouped (t g id : Text) :
    loadGroupState (applyMqAckGrouped tg t g id).data t g =
      (loadGroupState tg.data t g).map (acked · id) := by
  unfold applyMqAckGrouped
  cases hl : loadGroupState tg.data t g with
  | none => simpa using hl
  | some s =>
    dsimp only
    split_ifs with hc
    · simp [acked]
    -- The lengths agree, so the filter kept every entry.
    have hk : s.inFlight.filter (fun e => e.id ≠ id) = s.inFlight :=
      filter_sublist.eq_of_length (not_not.mp hc)
    rw [hl, Option.map_some, acked, hk]

theorem loadGroupState_applyMqNackGrouped (t g id : Text) (um : UInt64) :
    loadGroupState (applyMqNackGrouped tg t g id um).data t g =
      (loadGroupState tg.data t g).map (nacked · id um) := by
  unfold applyMqNackGrouped
  cases hl : loadGroupState tg.data t g with
  | none => simpa using hl
  | some s =>
    cases hf : releaseFirst id um s.inFlight with
    | none => simp [hl, nacked, hf]
    | some r =>
      simp only [hf, loadGroupState_put_readyKey, loadGroupState_putGroupState]
      simp [nacked, hf]

theorem loadGroupState_applyMqRedriveGroupedDead (t g id : Text) :
    loadGroupState (applyMqRedriveGroupedDead tg t g id).data t g =
      some ((groupOrNew tg.data t g .latest).rearm id) := by
  unfold applyMqRedriveGroupedDead
  dsimp only
  rw [loadGroupState_put_readyKey]
  rw [← loadGroupState_putGroupState tg t g ((groupOrNew tg.data t g .latest).rearm id)]
  apply loadGroupState_congr
  rw [ApplyTarget.remove_data, SortedMap.get?_erase_of_ne]
  · rfl
  · simp [gstateKey, gdeadKey]

theorem loadGroupState_applyMqResetGroup (s : StartPosition) :
    loadGroupState (applyMqResetGroup tg t g s).data t g = (loadGroupState tg.data t g).map
        (fun _ => .new (startHwm tg.data t s)) := by
  unfold applyMqResetGroup
  cases hl : loadGroupState tg.data t g with
  | none => simpa using hl
  | some sta => simp

theorem loadGroupState_applyMqDeleteGroup :
    loadGroupState (applyMqDeleteGroup tg t g).data t g = none := by
  simp [loadGroupState, applyMqDeleteGroup]

end Loading

section Stored

variable {Bytes : Type} [Codec Bytes] {Good : GroupState → Prop}

def StoredGroups (Good : GroupState → Prop) (data : Store Bytes) : Prop :=
  ∀ topic group state, loadGroupState data topic group = some state → Good state

/-- What a property of group states needs to survive the operations of the
groups themselves. -/
structure GroupRule (Bytes : Type) [Codec Bytes] (Good : GroupState → Prop) : Prop where
  new : ∀ hwm, Good (.new hwm)
  acked : ∀ {state} id, Good state → Good (state.acked id)
  nacked : ∀ {state} id untilMs, Good state → Good (state.nacked id untilMs)
  claimed : ∀ {data : Store Bytes} {topic before maxBatch after delivered dead},
    ClaimEffect before (newLogIds data topic before.hwm maxBatch) after delivered dead →
    Good before → Good after

/-- A single operation that cannot spoil a stored group state: raw writes stay
away from group states, and a redrive leaves a good one. -/
def GroupSafe (Good : GroupState → Prop) (data : Store Bytes) : WriteOp Bytes → Prop
  | .put key _ => ∀ topic group, gstateKey topic group ≠ key
  | .delete key => ∀ topic group, gstateKey topic group ≠ key
  | .compareAndSwap key _ _ => ∀ topic group, gstateKey topic group ≠ key
  | .batch _ => False
  | .mqRedriveGroupedDead topic group id => Good ((groupOrNew data topic group .latest).rearm id)
  | _ => True

/-- Group and topic may contain slashes, so two pairs can share a key. -/
theorem loadGroupState_of_key_eq {t o g m : Text} (hs : gstateKey t g = gstateKey o m)
    (data : Store Bytes) : loadGroupState data t g = loadGroupState data o m := by
  simp only [loadGroupState, hs]

theorem meshAdmit_not_mayWrite (data : Store Bytes) (jti : Text) (n : UInt64)
    (ph : Text) (a : Option Text) (fam : Family) (rest : Text) :
    ¬MayWrite data (.meshAdmit jti n ph a) (fam.key rest) := by
  have hq : (fam.key rest)[1]? = some 'q' := by
    cases fam <;> rfl
  rintro (hu | ht | ha)
  · rw [hu] at hq
    cases hq
  · rw [ht] at hq
    cases hq
  · rw [ha] at hq
    cases hq

theorem GroupRule.groupOrNew (hr : GroupRule Bytes Good) {data : Store Bytes}
    (hs : StoredGroups Good data) (t g : Text) (st : StartPosition) :
    Good (groupOrNew data t g st) := by
  unfold Cluster.groupOrNew
  cases hl : loadGroupState data t g with
  | none => exact hr.new _
  | some s => exact hs t g s hl

variable [DecidableEq Bytes]

theorem GroupRule.step (hru : GroupRule Bytes Good) {tgt : ApplyTarget Bytes}
    (hs : StoredGroups Good tgt.data) {op : WriteOp Bytes}
    (hse : GroupSafe Good tgt.data op) : StoredGroups Good (applyOp tgt op).1.data := by
  intro t g af hl
  by_cases hw : MayWrite tgt.data op (gstateKey t g)
  · cases op with
    | put | delete | compareAndSwap => exact absurd hw (hse t g)
    | batch => exact hse.elim
    | mqPublish | mqSweepGrouped | mqClaim | mqAck | mqNack | mqSetLastError | mqSetPaused =>
      simp [MayWrite, gstateKey, metaKey, readyKey, glogKey, logmaxKey, deadKey, pauseKey] at hw
    | meshAdmit jti nd ph ad =>
      exact absurd hw (meshAdmit_not_mayWrite _ jti nd ph ad _ _)
    | mqClaimGrouped o c st nm lm mb ma =>
      have hsa : gstateKey t g = gstateKey o c := by
        simpa [MayWrite, gstateKey, gdeadKey] using hw
      rw [loadGroupState_of_key_eq hsa] at hl
      rcases applyMqClaimGrouped_effect tgt o c st nm lm mb.toNat ma with ⟨s, d, hf, he, _⟩
      cases hl.symm.trans hf
      exact hru.claimed he (hru.groupOrNew hs _ _ _)
    | mqAckGrouped o a id =>
      rw [loadGroupState_of_key_eq hw] at hl
      have ha := loadGroupState_applyMqAckGrouped tgt o a id
      rcases Option.map_eq_some_iff.mp (ha.symm.trans hl) with ⟨s, hf, rfl⟩
      exact hru.acked id (hs o a s hf)
    | mqNackGrouped o n id um =>
      have hsa : gstateKey t g = gstateKey o n := by
        simpa [MayWrite, gstateKey, readyKey] using hw
      rw [loadGroupState_of_key_eq hsa] at hl
      have hn := loadGroupState_applyMqNackGrouped tgt o n id um
      rcases Option.map_eq_some_iff.mp (hn.symm.trans hl) with ⟨s, hf, rfl⟩
      exact hru.nacked id um (hs o n s hf)
    | mqRedriveGroupedDead o m id =>
      have hsa : gstateKey t g = gstateKey o m := by
        simpa [MayWrite, gstateKey, gdeadKey, readyKey] using hw
      rw [loadGroupState_of_key_eq hsa] at hl
      cases hl.symm.trans (loadGroupState_applyMqRedriveGroupedDead tgt o m id)
      exact hse
    | mqResetGroup o m st =>
      rw [loadGroupState_of_key_eq hw] at hl
      have hr := loadGroupState_applyMqResetGroup tgt o m st
      rcases Option.map_eq_some_iff.mp (hr.symm.trans hl) with ⟨_, _, rfl⟩
      exact hru.new _
    | mqDeleteGroup o m =>
      have hsa : gstateKey t g = gstateKey o m := by
        simpa [MayWrite, gstateKey, gdeadKey, Family.isPrefix_key_iff] using hw
      rw [loadGroupState_of_key_eq hsa] at hl
      cases hl.symm.trans (loadGroupState_applyMqDeleteGroup tgt o m)
  · rw [loadGroupState_congr ((applyOp_writes tgt op).get?_eq hw)] at hl
    exact hs t g af hl

end Stored

section WellFormed

variable {Bytes : Type}

/-- The operations on a fan-out topic, the operator's ones included. -/
def IsGroupOp : WriteOp Bytes → Prop
  | .mqPublish .. | .mqClaimGrouped .. | .mqAckGrouped .. | .mqNackGrouped ..
  | .mqRedriveGroupedDead .. | .mqResetGroup .. | .mqDeleteGroup .. | .mqSweepGrouped .. => True
  | _ => False

instance (op : WriteOp Bytes) : Decidable (IsGroupOp op) := by
  cases op <;> dsimp only [IsGroupOp] <;> infer_instance

variable [Codec Bytes]

/-- A redrive only brings back an id the group has gone past. -/
def RedrivesSeen (data : Store Bytes) : WriteOp Bytes → Prop
  | .mqRedriveGroupedDead topic group id => id ≤ (groupOrNew data topic group .latest).hwm
  | _ => True

instance (data : Store Bytes) (op : WriteOp Bytes) : Decidable (RedrivesSeen data op) := by
  cases op <;> dsimp only [RedrivesSeen] <;> infer_instance

theorem wellFormed_rule : GroupRule Bytes GroupState.WellFormed where
  new := new_wellFormed
  acked id hf := hf.acked id
  nacked id um hf := hf.nacked id um
  claimed he hf := he.wellFormed (newLogIds_sorted _ _ _ _) hf

variable [DecidableEq Bytes]

theorem storedGroups_wellFormed_step {data : Store Bytes}
    (hf : StoredGroups GroupState.WellFormed data) {op : WriteOp Bytes}
    (hg : IsGroupOp op) (hs : RedrivesSeen data op) :
    StoredGroups GroupState.WellFormed (stateMachine.step data op).1 := by
  refine wellFormed_rule.step (show StoredGroups _ (ApplyTarget.new data).data from hf) ?_
  cases op with
  | mqRedriveGroupedDead t g id =>
    exact (wellFormed_rule.groupOrNew hf t g .latest).rearm hs
  | mqPublish | mqClaimGrouped | mqAckGrouped | mqNackGrouped | mqResetGroup
  | mqDeleteGroup | mqSweepGrouped => trivial
  | _ => exact hg.elim

theorem claimedIds_nodup {data : Store Bytes} (hf : StoredGroups GroupState.WellFormed data)
    {op : WriteOp Bytes} (hg : IsGroupOp op) : (stateMachine.step data op).2.claimedIds.Nodup := by
  cases op with
  | mqClaimGrouped t g s nm lm mb ma =>
    rcases applyMqClaimGrouped_effect (.new data) t g s nm lm mb.toNat ma with ⟨_, _, _, he, _⟩
    exact he.delivered_nodup (newLogIds_sorted data t _ _) (wellFormed_rule.groupOrNew hf _ _ _)
  | mqPublish | mqAckGrouped | mqNackGrouped | mqRedriveGroupedDead | mqResetGroup
  | mqDeleteGroup | mqSweepGrouped => exact nodup_nil
  | _ => exact hg.elim

/-- As long as redrives only bring back ids the group has gone past, in-flight
ids are distinct in every reachable state and no claim returns one twice. -/
theorem inFlight_nodup_of_redrivesSeen (ops : List (WriteOp Bytes))
    (meets : stateMachine.Meets (fun data op => IsGroupOp op ∧ RedrivesSeen data op) .empty ops) :
    (∀ topic group state, loadGroupState (stateMachine.final .empty ops) topic group = some state →
        state.ids.Nodup) ∧ ∀ entry ∈ stateMachine.history .empty ops, entry.2.claimedIds.Nodup := by
  have hk : ∀ (data : Store Bytes) (op : WriteOp Bytes),
      StoredGroups GroupState.WellFormed data → IsGroupOp op ∧ RedrivesSeen data op →
      StoredGroups GroupState.WellFormed (stateMachine.step data op).1 :=
    fun _ _ hf ha => storedGroups_wellFormed_step hf ha.1 ha.2
  have hi : StoredGroups GroupState.WellFormed (.empty : Store Bytes) := by
    intro topic group state hl
    simp [loadGroupState] at hl
  constructor
  · intro topic group state hl
    exact (Machine.invariant hk hi meets topic group state hl).nodup
  · exact Machine.outputs_of_invariant (fun _ r => r.claimedIds.Nodup) hk
      (fun _ _ hf ha => claimedIds_nodup hf ha.1) hi meets

end WellFormed

namespace Redriven

def topic : Text := "orders".toList

def group : Text := "billing".toList

def id : Text := nextId 1000 1 0

def publish : WriteOp Stored := .mqPublish topic id true none none 0 0 0

def claim (nowMs : UInt64) : WriteOp Stored :=
  .mqClaimGrouped topic group .earliest nowMs 30 8 1

/-- The second claim finds the lease expired and the one attempt spent. -/
def buried : List (WriteOp Stored) := [publish, claim 1001, claim 2000]

def redrive : WriteOp Stored := .mqRedriveGroupedDead topic group id

def reset : WriteOp Stored := .mqResetGroup topic group .earliest

/-- Redriving a dead letter in place is harmless. -/
theorem redriven_claim_nodup : (stateMachine.step (stateMachine.final .empty (buried ++ [redrive]))
      (claim 3000)).2.claimedIds = [id] ∧
    ∀ entry ∈ stateMachine.history .empty (buried ++ [redrive, claim 3000]),
      entry.2.claimedIds.Nodup := by
  refine ⟨by decide +kernel,
    (inFlight_nodup_of_redrivesSeen (buried ++ [redrive, claim 3000]) ?_).2⟩
  exact ⟨⟨trivial, trivial⟩, ⟨trivial, trivial⟩, ⟨trivial, trivial⟩, ⟨trivial, by decide +kernel⟩,
    ⟨trivial, trivial⟩, trivial⟩

/-- Resetting the group first puts the redriven id ahead of the high-water, and
the next claim leases it twice. -/
theorem reset_redriven_claimed_twice :
    (∀ op ∈ buried ++ [reset, redrive, claim 3000], IsGroupOp op) ∧
    (stateMachine.step (stateMachine.final .empty (buried ++ [reset, redrive]))
      (claim 3000)).2.claimedIds = [id, id] ∧
    (loadGroupState (stateMachine.final .empty (buried ++ [reset, redrive, claim 3000]))
      topic group).map GroupState.ids = some [id, id] := by
  refine ⟨by decide, by decide +kernel, by decide +kernel⟩

end Redriven

end BoatRamp.Cluster

import BoatRamp.Cluster.Apply

/-!
# What an operation writes

`Writes allowed before after` says that `after` comes from `before` by recorded
mutations of allowed keys.  `applyOp_writes` gives, for every operation, the
keys it may write; all frame facts about the state machine follow from it.
-/

namespace BoatRamp.Cluster

open Library Messaging List Codec

section Writes

variable {Bytes : Type} {allowed : Text → Prop} {before middle after : ApplyTarget Bytes}

/-- `after` is `before` with some mutations of allowed keys, each recorded. -/
def Writes (allowed : Text → Prop) (before after : ApplyTarget Bytes) : Prop :=
  ∃ writes : List (KvWrite Bytes),
    after.muts = before.muts ++ writes ∧
    after.data = writeBatch before.data writes ∧
    ∀ write ∈ writes, allowed write.key

namespace Writes

theorem refl (tgt : ApplyTarget Bytes) : Writes allowed tgt tgt :=
  ⟨[], by simp, by simp, by simp⟩

theorem trans (hf : Writes allowed before middle) (hs : Writes allowed middle after) :
    Writes allowed before after := by
  rcases hf with ⟨e, he, hh, hea⟩
  rcases hs with ⟨l, hl, hla, hld⟩
  refine ⟨e ++ l, ?_, ?_, ?_⟩
  · rw [hl, he, append_assoc]
  · rw [hla, hh, writeBatch_append]
  intro w hin
  rcases mem_append.mp hin with hiy | hi
  · exact hea w hiy
  · exact hld w hi

theorem mono {w : Text → Prop} (written : Writes allowed before after)
    (hw : ∀ key, allowed key → w key) : Writes w before after := by
  rcases written with ⟨wr, hm, hd, hp⟩
  exact ⟨wr, hm, hd, fun write hi => hw _ (hp write hi)⟩

variable {key : Text}

theorem put (written : Writes allowed before after) (hp : allowed key) (v : Bytes) :
    Writes allowed before (after.put key v) :=
  written.trans ⟨[.put key v], rfl, rfl, by simpa [KvWrite.key] using hp⟩

theorem single (tgt : ApplyTarget Bytes) (key : Text) (v : Bytes) :
    Writes (fun written => written = key) tgt (tgt.put key v) := by
  refine put (refl tgt) ?_ v
  rfl

variable (written : Writes allowed before after)

include written

theorem putNew (hp : allowed key) (v : Bytes) : Writes allowed before (after.putNew key v) := by
  unfold ApplyTarget.putNew
  split
  · exact written
  · exact written.put hp v

theorem remove (hp : allowed key) : Writes allowed before (after.remove key) :=
  written.trans ⟨[.delete key], rfl, rfl, by simpa [KvWrite.key] using hp⟩

theorem removeAll {k : List Text} (hp : ∀ key ∈ k, allowed key) :
    Writes allowed before (after.removeAll k) := by
  unfold ApplyTarget.removeAll
  induction k generalizing after with
  | nil => exact written
  | cons key rest ih =>
    exact ih (written.remove (hp key (by simp))) fun o hi => hp o (by simp [hi])

theorem get?_eq (hu : ¬allowed key) : after.data.get? key = before.data.get? key := by
  rcases written with ⟨wr, _, hd, hp⟩
  rw [hd]
  refine get?_writeBatch_of_unnamed _ _ ?_
  intro w hi hs
  exact hu (hs ▸ hp w hi)

end Writes

end Writes

section Operations

variable {Bytes : Type} [Codec Bytes]

def MayWrite (data : Store Bytes) (op : WriteOp Bytes) (key : Text) : Prop :=
  match op with
  | .put target _ => key = target
  | .delete target => key = target
  | .batch _ => True
  | .compareAndSwap target _ _ => key = target
  | .mqPublish topic id retain _ _ _ _ _ =>
      key = metaKey topic id ∨ key = readyKey topic ∨
        (retain = true ∧ (key = glogKey topic id ∨ key = logmaxKey topic))
  | .mqClaim topic _ _ _ _ =>
      key = readyKey topic ∨
        ∃ id, IsSegment id ∧ (key = metaKey topic id ∨ key = deadKey topic id)
  | .mqAck topic id => key = metaKey topic id
  | .mqNack topic id _ => key = metaKey topic id ∨ key = readyKey topic
  | .mqSetLastError topic id _ => key = metaKey topic id
  | .mqClaimGrouped topic group _ _ _ _ _ =>
      key = gstateKey topic group ∨
        ∃ state, loadGroupState data topic group = some state ∧
          ∃ id ∈ state.ids, key = gdeadKey topic group id
  | .mqAckGrouped topic group _ => key = gstateKey topic group
  | .mqNackGrouped topic group _ _ => key = gstateKey topic group ∨ key = readyKey topic
  | .mqRedriveGroupedDead topic group id =>
      key = gstateKey topic group ∨ key = gdeadKey topic group id ∨ key = readyKey topic
  | .mqResetGroup topic group _ => key = gstateKey topic group
  | .mqDeleteGroup topic group =>
      key = gstateKey topic group ∨ gdeadKey topic group [] <+: key
  | .mqSetPaused topic _ => key = pauseKey topic
  | .mqSweepGrouped topic _ => ∃ id, IsSegment id ∧ key = glogKey topic id
  | .meshAdmit jti node pubkeyHex _ =>
      key = JOIN_USED_PREFIX ++ jti ∨ key = trustKeyHex node pubkeyHex ∨ key = addrKey node

variable (tg : ApplyTarget Bytes) (t : Text)

open Writes

theorem retainPublished_writes (id : Text) :
    Writes (fun key => key = glogKey t id ∨ key = logmaxKey t) tg (retainPublished tg t id) := by
  have hl : Writes (fun key => key = glogKey t id ∨ key = logmaxKey t) tg
      (tg.putNew (glogKey t id) empty) :=
    (refl tg).putNew (.inl rfl) _
  unfold retainPublished
  dsimp only
  split
  · exact hl.put (.inr rfl) _
  · exact hl

theorem applyMqPublish_writes (id : Text) (r : Bool) (rc : Record) :
    Writes (fun key => key = metaKey t id ∨ key = readyKey t ∨
        (r = true ∧ (key = glogKey t id ∨ key = logmaxKey t))) tg
      (applyMqPublish tg t id r rc) := by
  have ha : Writes (fun key => key = metaKey t id ∨ key = readyKey t ∨
        (r = true ∧ (key = glogKey t id ∨ key = logmaxKey t))) tg
      ((tg.putNew (metaKey t id) (recordToVec rc)).put (readyKey t) empty) :=
    ((refl tg).putNew (.inl rfl) _).put (.inr (.inl rfl)) _
  unfold applyMqPublish
  dsimp only
  split
  · rename_i retained
    refine ha.trans ((retainPublished_writes _ t id).mono ?_)
    exact fun key written => .inr (.inr ⟨retained, written⟩)
  · exact ha

theorem get?_applyMqPublish_of_contains {t id : Text}
    (hp : tg.data.contains (metaKey t id) = true) (rt : Bool) (r : Record) :
    (applyMqPublish tg t id rt r).data.get? (metaKey t id) = tg.data.get? (metaKey t id) := by
  have ha : ((tg.putNew (metaKey t id) (recordToVec r)).put
      (readyKey t) empty).data.get? (metaKey t id) = tg.data.get? (metaKey t id) := by
    rw [ApplyTarget.put_data, SortedMap.get?_insert_of_ne _ _ (by simp [metaKey, readyKey]),
      ApplyTarget.putNew, if_pos hp]
  unfold applyMqPublish
  dsimp only
  split
  · refine ((retainPublished_writes _ t id).get?_eq ?_).trans ha
    simp [metaKey, glogKey, logmaxKey]
  · exact ha

theorem readRecord_applyMqSetLastError (id rsn : Text) :
    readRecord (applyMqSetLastError tg t id rsn).data (metaKey t id) =
      (readRecord tg.data (metaKey t id)).map (fun r => { r with lastError := some rsn }) := by
  unfold applyMqSetLastError
  cases hf : readRecord tg.data (metaKey t id) with
  | none => simpa using hf
  | some r => simp [readRecord, Except.toOption]

theorem applyClaimActions_writes (acts : List ClaimAction) (tg : ApplyTarget Bytes) :
    Writes (fun key => ∃ act ∈ acts, key = metaKey t act.id ∨ key = deadKey t act.id) tg
      (applyClaimActions t acts tg).1 := by
  induction acts generalizing tg with
  | nil => exact .refl tg
  | cons act rest ih =>
    have hl : ∀ next : ApplyTarget Bytes, Writes (fun key => ∃ o ∈ act :: rest,
        key = metaKey t o.id ∨ key = deadKey t o.id) next (applyClaimActions t rest next).1 := by
      intro next
      refine (ih next).mono ?_
      rintro key ⟨o, hi, hn⟩
      exact ⟨o, mem_cons_of_mem _ hi, hn⟩
    have hh := mem_cons_self (a := act) (l := rest)
    cases act with
    | lease id r =>
      exact ((refl tg).put ⟨_, hh, .inl rfl⟩ _).trans (hl _)
    | deadLetter id r =>
      exact (((refl tg).put ⟨_, hh, .inr rfl⟩ _).remove ⟨_, hh, .inl rfl⟩).trans (hl _)

omit [Codec Bytes] in
theorem pruneReady_writes : Writes (fun key => key = readyKey t) tg (pruneReady tg t) := by
  unfold pruneReady
  split
  · exact (refl tg).remove rfl
  · exact .refl tg

theorem mem_topicRecords_iff (dt : Store Bytes) (t id : Text) (r : Record) :
    (id, r) ∈ topicRecords dt t ↔ IsSegment id ∧ readRecord dt (metaKey t id) = some r := by
  simp only [topicRecords, mem_filterMap, Prod.exists, Option.map_eq_some_iff,
    Prod.mk.injEq, readRecord, Option.bind_eq_some_iff]
  constructor
  · rintro ⟨o, raw, hc, d, ht, rfl, rfl⟩
    rcases (mem_directChildren_iff dt .mq t o raw).mp hc with ⟨hs, hf⟩
    exact ⟨hs, raw, hf, ht⟩
  rintro ⟨hs, raw, hf, ht⟩
  exact ⟨id, raw, (mem_directChildren_iff dt .mq t id raw).mpr ⟨hs, hf⟩, r, ht, rfl, rfl⟩

theorem topicRecords_ids_nodup (d : Store Bytes) (t : Text) :
    ((topicRecords d t).map Prod.fst).Nodup := by
  have ho : ((topicRecords d t).map Prod.fst).Pairwise (· < ·) := by
    rw [pairwise_map]
    refine List.Pairwise.filterMap _ ?_ (directChildren_sorted d .mq t)
    rintro ⟨x, fr⟩ ⟨y, sr⟩ hb
    simp only [Option.map_eq_some_iff]
    rintro _ ⟨_, _, rfl⟩ _ ⟨_, _, rfl⟩
    exact hb
  exact ho.imp fun hb => ne_of_lt hb

theorem planned_isSegment {d : Store Bytes} {t : Text} {nm lm : UInt64}
    {mb : Nat} {ma : UInt32} {act : ClaimAction}
    (hp : act ∈ planClaim (topicRecords d t) nm lm mb ma) : IsSegment act.id := by
  rcases planClaim_actsOn hp with ⟨⟨id, r⟩, hi, ha⟩
  have hs := ((mem_topicRecords_iff d t id r).mp hi).1
  cases ha <;> exact hs

theorem applyMqClaim_writes (nm lm : UInt64) (mb : Nat) (ma : UInt32) :
    Writes (fun key => key = readyKey t ∨
        ∃ id, IsSegment id ∧ (key = metaKey t id ∨ key = deadKey t id)) tg
      (applyMqClaim tg t nm lm mb ma).1 := by
  unfold applyMqClaim
  dsimp only
  refine trans ((applyClaimActions_writes t _ tg).mono ?_) ((pruneReady_writes _ t).mono ?_)
  on_goal 2 => exact fun key written => .inl written
  rintro key ⟨act, hp, hn⟩
  exact .inr ⟨act.id, planned_isSegment hp, hn⟩

theorem putGroupedDead_foldl_writes (g : Text) (d : List (Text × UInt32)) (tg : ApplyTarget Bytes) :
    Writes (fun key => ∃ id ∈ d.map Prod.fst, key = gdeadKey t g id) tg
      (d.foldl (putGroupedDead t g) tg) := by
  induction d generalizing tg with
  | nil => exact .refl tg
  | cons e rest ih =>
    refine Writes.trans ((Writes.refl tg).put ⟨e.1, by simp, rfl⟩ _) ((ih _).mono ?_)
    rintro key ⟨id, hi, hs⟩
    exact ⟨id, mem_cons_of_mem _ hi, hs⟩

theorem applyMqClaimGrouped_writes (g : Text) (st : StartPosition) (nm lm : UInt64)
    (mb : Nat) (ma : UInt32) : Writes (fun key => key = gstateKey t g ∨
        ∃ s, loadGroupState tg.data t g = some s ∧ ∃ id ∈ s.ids, key = gdeadKey t g id) tg
      (applyMqClaimGrouped tg t g st nm lm mb ma).1 := by
  unfold applyMqClaimGrouped
  dsimp only
  set s := (loadGroupState tg.data t g).getD (.new (startHwm tg.data t st)) with state_eq
  set p := planClaimGrouped s nm lm mb ma (newLogIds tg.data t s.hwm mb) with plan_eq
  have hb : Writes (fun key => key = gstateKey t g ∨ ∃ s, loadGroupState tg.data t g = some s ∧
          ∃ id ∈ s.ids, key = gdeadKey t g id) tg (p.2.dead.foldl (putGroupedDead t g) tg) := by
    refine (putGroupedDead_foldl_writes t g p.2.dead tg).mono ?_
    rintro key ⟨id, hd, hs⟩
    have hh : id ∈ s.ids := planClaimGrouped_dead_mem hd
    cases l : loadGroupState tg.data t g with
    | none => simp [state_eq, l, GroupState.new, GroupState.ids] at hh
    | some sd =>
      rw [state_eq, l] at hh
      exact .inr ⟨sd, rfl, id, hh, hs⟩
  split
  · exact hb.put (.inl rfl) _
  · exact hb

theorem applyMeshAdmit_writes (jti : Text) (n : UInt64) (ph : Text) (a : Option Text) :
    Writes (fun key => key = JOIN_USED_PREFIX ++ jti ∨ key = trustKeyHex n ph ∨ key = addrKey n) tg
      (applyMeshAdmit tg jti n ph a).1 := by
  have ht : Writes (fun key => key = JOIN_USED_PREFIX ++ jti ∨
        key = trustKeyHex n ph ∨ key = addrKey n) tg
      ((tg.put (JOIN_USED_PREFIX ++ jti) empty).put (trustKeyHex n ph) empty) :=
    ((refl tg).put (.inl rfl) _).put (.inr (.inl rfl)) _
  unfold applyMeshAdmit
  split_ifs
  · exact .refl tg
  · exact .refl tg
  cases a with
  | none => exact ht
  | some a => exact ht.put (.inr (.inr rfl)) _

variable [DecidableEq Bytes]

mutual

theorem applyOp_writes (tg : ApplyTarget Bytes) (op : WriteOp Bytes) :
    Writes (MayWrite tg.data op) tg (applyOp tg op).1 := by
  cases op with
  | put key value => exact .single tg _ _
  | delete key | mqAck t id => exact (refl tg).remove rfl
  | batch ops => exact applyBatch_writes tg ops
  | compareAndSwap key expected value =>
    unfold applyOp
    split
    · exact .single tg _ _
    · exact .refl tg
  | mqPublish t id retain signedContext inline notBeforeMs expiresAtMs priority =>
    exact applyMqPublish_writes tg t id retain _
  | mqClaim t nowMs leaseMs maxBatch maxAttempts =>
    unfold applyOp
    dsimp only
    exact applyMqClaim_writes tg t nowMs leaseMs maxBatch.toNat maxAttempts
  | mqNack t id untilMs =>
    unfold applyOp applyMqNack
    split
    · exact .refl tg
    · exact ((refl tg).put (.inl rfl) _).put (.inr rfl) _
  | mqSetLastError t id reason =>
    unfold applyOp applyMqSetLastError
    split
    · exact .refl tg
    · exact .single tg _ _
  | mqClaimGrouped t group start nowMs leaseMs maxBatch maxAttempts =>
    unfold applyOp
    dsimp only
    exact applyMqClaimGrouped_writes tg t group start nowMs leaseMs maxBatch.toNat maxAttempts
  | mqAckGrouped t group id =>
    unfold applyOp applyMqAckGrouped
    split
    · exact .refl tg
    dsimp only
    split
    · exact .single tg _ _
    · exact .refl tg
  | mqNackGrouped t group id untilMs =>
    unfold applyOp applyMqNackGrouped
    split
    · exact .refl tg
    split
    · exact .refl tg
    · exact ((refl tg).put (.inl rfl) _).put (.inr rfl) _
  | mqRedriveGroupedDead t group id =>
    exact (((refl tg).put (.inl rfl) _).remove (.inr (.inl rfl))).put (.inr (.inr rfl)) _
  | mqResetGroup t group start =>
    unfold applyOp applyMqResetGroup
    split
    · exact .single tg _ _
    · exact .refl tg
  | mqDeleteGroup t group =>
    refine remove (removeAll (.refl tg) ?_) (.inl rfl)
    intro key inside
    rcases mem_map.mp inside with ⟨⟨_, value⟩, scanned, rfl⟩
    exact .inr ((tg.data.mem_scan_iff _ _ value).mp scanned).2
  | mqSetPaused t paused =>
    cases paused with
    | false => exact (refl tg).remove rfl
    | true => exact .single tg _ _
  | mqSweepGrouped t nowMs =>
    refine removeAll (.refl tg) ?_
    intro key inside
    rcases mem_map.mp inside with ⟨id, reclaimed, rfl⟩
    rcases mem_map.mp (mem_filter.mp reclaimed).1 with ⟨⟨_, value⟩, child, rfl⟩
    exact ⟨_, ((mem_directChildren_iff tg.data .glog t _ value).mp child).1, rfl⟩
  | meshAdmit jti node pubkeyHex addr => exact applyMeshAdmit_writes tg jti node pubkeyHex addr

theorem applyBatch_writes (tg : ApplyTarget Bytes) (ops : List (WriteOp Bytes)) :
    Writes (fun _ => True) tg (applyBatch tg ops) := by
  cases ops with
  | nil => exact .refl tg
  | cons op rest =>
    exact ((applyOp_writes tg op).mono fun _ _ => trivial).trans
      (applyBatch_writes (applyOp tg op).1 rest)

end

theorem step_get?_of_not_mayWrite {d : Store Bytes} {op : WriteOp Bytes} {key : Text}
    (hu : ¬MayWrite d op key) : (stateMachine.step d op).1.get? key = d.get? key :=
  (applyOp_writes (.new d) op).get?_eq hu

end Operations

end BoatRamp.Cluster

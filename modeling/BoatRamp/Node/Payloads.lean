import BoatRamp.Library.Custody
import BoatRamp.Node.Interleaved

/-!
# Payload before record

A live record whose payload is not inlined refers to an object in storage.
Seen as references and their objects, the operations of the queue are moves of
`Library.Custody`, except that an ack may delete a record of which another
operation still holds a copy.  As long as no ack does that, every live record
keeps its payload and no claim fails for a missing one.
-/

namespace BoatRamp.Node

open Library Messaging Task Shared List Family

variable {Bytes : Type} [Codec Bytes]

def objectPath (message : ClaimedMessage) : List Text :=
  if message.group = [] ∧ message.inline = false then [joined message.topic message.id] else []

def recordPath (topic id : Text) (record : Record) : List Text :=
  if record.inline = none then [joined topic id] else []

def referenced (kv : Store Bytes) : Set Text :=
  {path | ∃ record, readRecord kv (Family.mq.key path) = some record ∧ record.inline = none}

def Shared.world (shared : Shared Bytes) : World Text where
  live := referenced shared.node.kv
  objects := {path | shared.node.storage.contains (Family.payload.key path) = true}
  handed := {path | path ∈ shared.delivered.flatMap objectPath}
  fresh := {path | ∃ topic nowMs seq, shared.node.seq ≤ seq ∧
    path = joined topic (singleNodeId nowMs seq)}

/-- The records an operation has read and may write back as live: a settling
call its record, a claim those it may lease or plans to. -/
def Task.copies : Task → List Text
  | .loading request nowMs _ records =>
      (records.filter fun entry => !decide (nowMs < entry.2.leaseUntilMs)).flatMap
        (fun entry => recordPath request.topic entry.1 entry.2)
  | .reading topic done pending _ _ =>
      ((done ++ pending).filter ClaimAction.isLease).flatMap
        (fun action => recordPath topic action.id action.record)
  | .rewriting topic id _ record => recordPath topic id record
  | _ => []

def Task.drops : Task → List Text
  | .dropping message => [joined message.topic message.id]
  | _ => []

/-- The messages an operation has been given or is about to return. -/
def Task.messages : Task → List ClaimedMessage
  | .start (.ack message) => [message]
  | .reading _ _ _ claimed _ => claimed
  | .checking _ claimed => claimed
  | .pruning _ claimed => claimed
  | .unmarking _ claimed => claimed
  | _ => []

/-- The record a publish is about to store the payload of. -/
def Task.unstored : Task → List Text
  | .storing publication minted => [joined publication.topic minted.id]
  | _ => []

def Task.stored : Task → List Text
  | .retaining publication minted => [joined publication.topic minted.id]
  | .gating publication minted => [joined publication.topic minted.id]
  | .committing publication minted _ =>
      recordPath publication.topic minted.id (publication.record minted.inline)
  | _ => []

def Task.hand (task : Task) : Hand Text where
  copies := {path | path ∈ task.copies}
  dropping := {path | path ∈ task.drops}
  noted := {path | path ∈ task.messages.flatMap objectPath}
  unstored := {path | path ∈ task.unstored}
  stored := {path | path ∈ task.stored}

theorem mem_recordPath {path t id : Text} {r : Record} :
    path ∈ recordPath t id r ↔ r.inline = none ∧ path = joined t id := by
  unfold recordPath
  split_ifs with hi <;> simp [hi]

theorem mem_objectPath {path : Text} {msg : ClaimedMessage} : path ∈ objectPath msg ↔
      msg.group = [] ∧ msg.inline = false ∧ path = joined msg.topic msg.id := by
  unfold objectPath
  split_ifs with hs
  · simp [hs]
  · simpa using fun hg hi => absurd ⟨hg, hi⟩ hs

theorem referenced_of_read {kv : Store Bytes} {t id : Text} {raw : Bytes} {r : Record}
    (hf : kv.get? (metaKey t id) = some raw) (hd : decodeRecord raw = .ok r)
    {path : Text} (hr : path ∈ recordPath t id r) : path ∈ referenced kv := by
  obtain ⟨hi, rfl⟩ := mem_recordPath.mp hr
  refine ⟨r, readRecord_eq_some_iff.mpr ⟨raw, hf, ?_⟩, hi⟩
  exact decodeRecord_eq_ok_iff.mp hd

/-- The records without an inlined payload that a batch puts among the live. -/
def putReferences (ops : List (KvWrite Bytes)) : Set Text :=
  {path | ∃ raw record, .put (Family.mq.key path) raw ∈ ops ∧
    Codec.recordFromSlice raw = .ok record ∧ record.inline = none}

theorem referenced_writeBatch (kv : Store Bytes) (ops : List (KvWrite Bytes)) :
    referenced (writeBatch kv ops) ⊆ referenced kv ∪ putReferences ops := by
  induction ops generalizing kv with
  | nil => exact Set.subset_union_left
  | cons op rest ih =>
    intro path hl
    rcases ih (op.apply kv) hl with ⟨r, hf, hi⟩ | put
    · obtain ⟨raw, hs, hd⟩ := readRecord_eq_some_iff.mp hf
      by_cases hw : mq.key path = op.key
      · cases op with
        | put key v =>
          obtain rfl : mq.key path = key := hw
          obtain rfl : v = raw := by simpa [KvWrite.apply] using hs
          exact .inr ⟨_, r, by simp, hd, hi⟩
        | delete key =>
          obtain rfl : mq.key path = key := hw
          simp [KvWrite.apply] at hs
      · rw [op.get?_apply_of_ne kv hw] at hs
        exact .inl ⟨r, readRecord_eq_some_iff.mpr ⟨raw, hs, hd⟩, hi⟩
    · obtain ⟨raw, r, put, hd, hi⟩ := put
      exact .inr ⟨raw, r, mem_cons_of_mem _ put, hd, hi⟩

theorem referenced_writeBatch_subset (kv : Store Bytes) {ops : List (KvWrite Bytes)} {c : Set Text}
    (hp : putReferences ops ⊆ c) : referenced (writeBatch kv ops) ⊆ referenced kv ∪ c :=
  (referenced_writeBatch kv ops).trans (Set.union_subset_union_right _ hp)

@[simp]
theorem putReferences_nil : putReferences ([] : List (KvWrite Bytes)) = ∅ := by
  simp [putReferences]

@[simp]
theorem putReferences_put_record (t id : Text) (r : Record) (rest : List (KvWrite Bytes)) :
    putReferences (.put (metaKey t id) (Codec.recordToVec r) :: rest) =
      {path | path ∈ recordPath t id r} ∪ putReferences rest := by
  ext path
  constructor
  · rintro ⟨raw, sd, put, hd, hi⟩
    rcases mem_cons.mp put with hh | hl
    · obtain ⟨key, rfl⟩ := KvWrite.put.inj hh
      obtain rfl : r = sd := by simpa using hd
      exact .inl (mem_recordPath.mpr ⟨hi, (key_inj.mp key).2⟩)
    · exact .inr ⟨raw, sd, hl, hd, hi⟩
  rintro (hh | ⟨raw, sd, put, hd, hi⟩)
  · obtain ⟨hi, rfl⟩ := mem_recordPath.mp hh
    exact ⟨_, r, mem_cons_self, Codec.record_round r, hi⟩
  · exact ⟨raw, sd, mem_cons_of_mem _ put, hd, hi⟩

@[simp]
theorem putReferences_put_other {fam : Family} (ho : fam ≠ .mq) (name : Text)
    (v : Bytes) (rest : List (KvWrite Bytes)) :
    putReferences (.put (fam.key name) v :: rest) = putReferences rest := by
  simp [putReferences, ho.symm]

@[simp]
theorem putReferences_delete (key : Text) (rest : List (KvWrite Bytes)) :
    putReferences (.delete key :: rest) = putReferences rest := by
  simp [putReferences]

theorem putReferences_append (x y : List (KvWrite Bytes)) :
    putReferences (x ++ y) = putReferences x ∪ putReferences y := by
  ext path
  simp only [putReferences, mem_append, Set.mem_union, Set.mem_ofPred_eq]
  grind

theorem putReferences_publishWrites (p : Publication) (minted : Minted) (l : Text) :
    putReferences (publishWrites p minted l : List (KvWrite Bytes)) =
      {path | path ∈ recordPath p.topic minted.id (p.record minted.inline)} := by
  unfold publishWrites
  simp only [readyKey, glogKey, logmaxKey]
  split_ifs <;> simp

theorem putReferences_rewrite (t id : Text) (rc : Record) (r : Rewrite) :
    putReferences (r.writes t id rc : List (KvWrite Bytes)) =
      {path | path ∈ recordPath t id rc} := by
  cases r with
  | nack um => simp [Rewrite.writes, nackWrites, readyKey, recordPath]
  | lastError rsn => simp [Rewrite.writes, lastErrorWrites, recordPath]

theorem putReferences_actions (t : Text) (acts : List ClaimAction) :
    putReferences (acts.flatMap (actionOps t) : List (KvWrite Bytes)) =
      {path | path ∈ (acts.filter ClaimAction.isLease).flatMap
        (fun act => recordPath t act.id act.record)} := by
  induction acts with
  | nil => simp
  | cons act rest ih =>
    rw [flatMap_cons, putReferences_append, ih]
    cases act with
    | lease id r =>
      rw [filter_cons_of_pos rfl, flatMap_cons, actionOps, putReferences_put_record,
        putReferences_nil, Set.union_empty]
      ext path
      exact mem_append.symm
    | deadLetter id r => simp [actionOps, deadKey, ClaimAction.isLease]

section Moves

variable {shared next : Shared Bytes} {others : List (Hand Text)} {hand : Hand Text}

theorem Shared.worked (c : List ClaimedMessage)
    (hl : referenced next.node.kv ⊆ referenced shared.node.kv ∪ hand.copies)
    (hst : next.node.storage = shared.node.storage) (hd : next.delivered = shared.delivered ++ c)
    (hk : {path | path ∈ c.flatMap objectPath} ⊆ hand.known)
    (seq : next.node.seq = shared.node.seq) : World.Worked hand shared.world next.world := by
  refine ⟨hl, ?_, ?_, ?_⟩
  · intro path hs
    simpa only [world, hst] using hs
  · intro path h
    simp only [world, hd, flatMap_append] at h
    rcases mem_append.mp h with old | new
    · exact .inl old
    · exact .inr (hk new)
  · intro path f
    simpa only [world, seq] using f

theorem Shared.idle (kv : next.node.kv = shared.node.kv)
    (hs : next.node.storage = shared.node.storage) (hd : next.delivered = shared.delivered)
    (seq : next.node.seq = shared.node.seq) : World.Worked hand shared.world next.world := by
  apply worked [] _ hs (by simpa using hd) (by simp) seq
  rw [kv]
  exact Set.subset_union_left

variable {task : Task}

theorem Task.taken {c : Task}
    (hc : ∀ path ∈ c.copies, path ∈ task.copies ∨ path ∈ referenced shared.node.kv)
    (hm : ∀ path ∈ c.messages.flatMap objectPath, path ∈ task.hand.known)
    (hd : c.drops ⊆ task.drops) (hu : c.unstored ⊆ task.unstored) (hs : c.stored ⊆ task.stored) :
    Hand.Taken shared.world task.hand c.hand := by
  refine ⟨hc, ?_, fun _ => @hd _, ?_, fun _ => @hs _⟩
  · rintro path ((hco | hdr) | hn)
    · rcases hc path hco with old | hl
      · exact .inl (.inl (.inl (.inl old)))
      · exact .inl (.inr hl)
    · exact .inl (.inl (.inl (.inr (hd hdr))))
    · exact .inl (.inl (hm path hn))
  rintro path (hw | hr)
  · exact .inl (hu hw)
  · exact .inr (hs hr)

theorem Task.taken_idle {c : Task} (hc : c.copies = []) (hm : c.messages = []) (hd : c.drops = [])
    (hu : c.unstored = []) (hs : c.stored = []) : Hand.Taken shared.world task.hand c.hand := by
  apply taken <;> simp [hc, hm, hd, hu, hs]

def Moves (others : List (Hand Text)) (shared : Shared Bytes) (task : Task)
    (out : Stepped Bytes) : Prop :=
  Move others shared.world task.hand out.1.world (handAfter Task.hand out.2)

theorem Moves.answer (hw : World.Worked task.hand shared.world next.world)
    (a : Except MessagingError Reply) : Moves others shared task (next, .inr a) :=
  .of_worked hw (.empty _ _)

theorem Moves.write {out : Stepped Bytes} {a : Except MessagingError Reply} (hr : out.2 = .inr a)
    (hl : referenced out.1.node.kv ⊆ referenced shared.node.kv ∪ task.hand.copies)
    (hs : out.1.node.storage = shared.node.storage) (hd : out.1.delivered = shared.delivered)
    (seq : out.1.node.seq = shared.node.seq) : Moves others shared task out := by
  unfold Moves
  rw [hr]
  exact .of_worked (worked [] hl hs (by simpa using hd) (by simp) seq) (.empty _ _)

theorem Moves.wait (shared : Shared Bytes) (task : Task) :
    Moves others shared task (shared, .inl task) :=
  .of_worked (.refl _ _) (.refl _ _)

theorem Moves.finish {c : List ClaimedMessage}
    (hl : referenced next.node.kv ⊆ referenced shared.node.kv ∪ task.hand.copies)
    (hs : next.node.storage = shared.node.storage) (hd : next.delivered = shared.delivered)
    (hk : ∀ path ∈ c.flatMap objectPath, path ∈ task.hand.known)
    (seq : next.node.seq = shared.node.seq) : Moves others shared task (next.finishClaim c) := by
  apply Moves.answer
  exact worked c hl hs (congrArg (· ++ c) hd) hk seq

theorem Moves.fail (err : MessagingError) : Moves others shared task (shared.failClaim err) :=
  .answer (idle rfl rfl rfl rfl) _

variable (pub : Publication) (nm : UInt64) (minted : Minted)

theorem minted_fresh (t : Text) (hu : shared.node.seq.toNat + 1 < UInt64.size)
    (seq : next.node.seq = shared.node.seq + 1) :
    next.world.fresh ⊆ shared.world.fresh ∧ joined t (singleNodeId nm shared.node.seq) ∈
        shared.world.fresh \ next.world.fresh := by
  have hl : next.node.seq.toNat = shared.node.seq.toNat + 1 := by
    rw [seq, UInt64.toNat_add]
    exact Nat.mod_eq_of_lt hu
  refine ⟨?_, ⟨t, nm, shared.node.seq, UInt64.le_refl _, rfl⟩, ?_⟩
  · rintro path ⟨t, nm, o, ha, rfl⟩
    refine ⟨t, nm, o, ?_, rfl⟩
    rw [UInt64.le_iff_toNat_le] at ha ⊢
    omega
  rintro ⟨ot, om, o, ha, hs⟩
  have ids := (joined_inj (singleNodeId_isSegment _ _).2 (singleNodeId_isSegment _ _).2).mp hs
  obtain rfl := singleNodeId_seq_eq ids.2
  rw [UInt64.le_iff_toNat_le] at ha
  omega

theorem objects_putObject (shared : Shared Bytes) (fam : Family) (path : Text) (pl : Payload) :
    shared.world.objects ⊆ (shared.putObject (fam.key path) pl).world.objects := by
  intro o hs
  have hf : (shared.node.storage.insert (fam.key path) pl).contains (payload.key o) = true := by
    rw [SortedMap.contains, SortedMap.get?_insert]
    split_ifs
    · rfl
    · exact hs
  exact hf

theorem startPublish_moves (pub : Publication) (hu : shared.node.seq.toNat + 1 < UInt64.size) :
    Moves others shared (.start (.publish pub)) (startPublish shared nm pub) := by
  have seq : (startPublish shared nm pub).1.node.seq = shared.node.seq + 1 :=
    shared.node.mint_seq nm _ _
  obtain ⟨hf, fresh⟩ := minted_fresh nm pub.topic hu seq
  have id : (shared.node.mint nm pub.topic pub.payload).2.id =
    singleNodeId nm shared.node.seq := rfl
  have kv : (startPublish shared nm pub).1.node.kv = shared.node.kv :=
    shared.node.mint_kv nm _ _
  have hs : (startPublish shared nm pub).1.node.storage = shared.node.storage :=
    shared.node.mint_storage nm _ _
  constructor
  case live =>
    intro path live
    simp only [world, kv] at live
    exact .inl (.inl live)
  case objects =>
    intro path kept
    simpa only [world, hs] using kept.1
  case handed => exact Set.subset_union_left
  case fresh => exact hf
  case minted =>
    rintro path minted
    right
    have hn : path = joined pub.topic (singleNodeId nm shared.node.seq) := by
      simp only [startPublish] at minted
      split_ifs at minted with hi
      · simp [handAfter, hand, Hand.minted, unstored, stored, mem_recordPath,
          Publication.record, hi] at minted
      · simpa [handAfter, hand, Hand.minted, unstored, stored, id] using minted
    exact hn ▸ fresh
  all_goals
    simp only [startPublish]
    split_ifs with hi <;>
      simp [handAfter, hand, Hand.known, copies, drops, messages, stored,
        recordPath, Publication.record, hi]

theorem storePayloadStep_moves : Moves others shared (.storing pub minted)
      (storePayloadStep shared pub minted) := by
  have hn : ∀ path ∈ (handAfter hand (storePayloadStep shared pub minted).2).minted,
      path = joined pub.topic minted.id := by
    intro path hr
    simp only [storePayloadStep] at hr
    split_ifs at hr
    · simpa [handAfter, hand, Hand.minted, unstored, stored] using hr
    have hp : path ∈ recordPath pub.topic minted.id (pub.record minted.inline) := by
      simpa [handAfter, hand, Hand.minted, unstored, stored] using hr
    exact (mem_recordPath.mp hp).2
  constructor
  case live => exact fun path live => .inl (.inl live)
  case objects => exact fun path kept => objects_putObject shared .payload _ _ kept.1
  case handed => exact Set.subset_union_left
  case fresh => exact subset_rfl
  case minted =>
    intro path hr
    exact .inl (.inl (by simp [hand, unstored, hn path hr]))
  case stored =>
    intro path hr
    obtain rfl := hn path (.inr hr)
    right
    have hpr : (shared.node.storage.insert (payloadKey pub.topic minted.id)
        pub.payload).contains (payloadKey pub.topic minted.id) = true := by
      simp [SortedMap.contains]
    exact hpr
  all_goals
    simp only [storePayloadStep]
    split_ifs <;>
      simp [handAfter, hand, Hand.known, copies, drops, messages]

theorem commitStep_moves (l : Text) : Moves others shared (.committing pub minted l)
      (commitStep shared pub minted l) := by
  unfold commitStep
  split_ifs
  · exact .wait shared _
  constructor
  case live =>
    intro path live
    rcases referenced_writeBatch _ _ live with old | new
    · exact .inl (.inl old)
    · rw [putReferences_publishWrites] at new
      exact .inr ⟨new, by simp [done, handAfter, Hand.empty, Hand.minted]⟩
  case objects => exact fun path kept => kept.1
  case handed => exact Set.subset_union_left
  case fresh => exact subset_rfl
  all_goals simp [done, handAfter, Hand.empty, Hand.known, Hand.minted]

theorem retainStep_moves :
    Moves others shared (.retaining pub minted) (retainStep shared pub minted) := by
  refine .of_worked ⟨Set.subset_union_left, ?_, Set.subset_union_left, subset_rfl⟩ (.refl _ _)
  exact objects_putObject shared .gpayload _ _

theorem gating_moves (l : Text) : Moves others shared (.gating pub minted)
      (shared, .inl (.committing pub minted l)) := by
  refine .of_worked (.refl _ _) (taken ?_ ?_ ?_ ?_ ?_)
  case refine_5 =>
    intro path hp
    simpa [stored] using (mem_recordPath.mp hp).2
  all_goals simp [copies, messages, drops, unstored]

theorem enterClaim_moves (req : ClaimRequest) :
    Moves others shared (.entering req) (enterClaim shared nm req) := by
  unfold enterClaim
  split_ifs
  · exact .wait shared _
  · exact .of_worked (idle rfl rfl rfl rfl) (taken_idle rfl rfl rfl rfl rfl)

omit [Codec Bytes] in
theorem planStep_copies {req : ClaimRequest} {nm : UInt64} {k : List Text}
    {rs : List (Text × Record)} {path : Text} (hp : path ∈ (planStep req nm rs).copies) :
    path ∈ (loading req nm k rs).copies := by
  simp only [planStep, copies, nil_append, mem_flatMap, mem_filter] at hp ⊢
  obtain ⟨act, ⟨hc, lease⟩, named⟩ := hp
  obtain ⟨e, read, ha⟩ := planClaim_actsOn hc
  refine ⟨e, ⟨read, ?_⟩, ?_⟩
  · cases ha with
    | lease hu | expire hu | exhaust hu => simpa using hu
  cases ha with
  | lease hu => exact named
  | expire hu | exhaust hu => cases lease

theorem loadStep_moves (req : ClaimRequest) (nm : UInt64) (rs : List (Text × Record))
    (s : List Text) : Moves others shared (.loading req nm s rs) (loadStep shared req nm rs s) := by
  cases s with
  | nil =>
    refine .of_worked (.refl _ _) (taken ?_ ?_ ?_ ?_ ?_)
    case refine_1 => exact fun path hp => .inl (planStep_copies hp)
    all_goals simp [planStep, messages, drops, unstored, stored]
  | cons sf rest =>
    have hs : Moves others shared (.loading req nm (sf :: rest) rs)
        (shared, .inl (.loading req nm rest rs)) := .wait shared _
    simp only [loadStep]
    split_ifs with hch
    · split
      · exact hs
      rename_i raw found
      split
      · exact .fail _
      rename_i r decoded
      refine .of_worked (.refl _ _) (taken ?_ ?_ ?_ ?_ ?_)
      case refine_1 =>
        intro path hc
        simp only [copies, filter_append, flatMap_append, mem_append] at hc
        rcases hc with old | new
        · exact .inl old
        right
        have key : metaPrefix req.topic ++ sf = metaKey req.topic sf := by
          simp [metaPrefix, metaKey, key, joined_nil_append]
        obtain ⟨e, hk, hn⟩ := mem_flatMap.mp new
        obtain rfl := mem_singleton.mp (mem_of_mem_filter hk)
        exact referenced_of_read (key ▸ found) decoded hn
      all_goals simp [messages, drops, unstored, stored]
    · exact hs

theorem delivery_paths {storage : Storage} {topic : Text} {action : ClaimAction}
    {messages : List ClaimedMessage} (hd : delivery storage topic action = .ok messages)
    {path : Text} (hn : path ∈ messages.flatMap objectPath) :
    action.isLease = true ∧ path ∈ recordPath topic action.id action.record := by
  cases action with
  | deadLetter id record =>
    cases hd
    simp at hn
  | lease id record =>
    refine ⟨rfl, mem_recordPath.mpr ?_⟩
    rw [delivery] at hd
    cases hr : leasedPayload storage topic id record with
    | error error => simp [hr, Except.map] at hd
    | ok payload =>
      obtain rfl : [leasedMessage topic id record payload] = messages := by
        simpa [hr, Except.map] using hd
      have hu : path ∈ objectPath (leasedMessage topic id record payload) := by
        simpa using hn
      obtain ⟨_, hi, path⟩ := mem_objectPath.mp hu
      exact ⟨by simpa [leasedMessage, ClaimAction.record] using hi, path⟩

variable (t : Text) (c : List ClaimedMessage)

theorem readStep_moves (dn : List ClaimAction) (c : List ClaimedMessage)
    (d : Bool) (p : List ClaimAction) : Moves others shared (.reading t dn p c d)
      (readStep shared t dn c d p) := by
  cases p with
  | nil =>
    have hli : referenced (shared.commit (dn.flatMap (actionOps t))).node.kv ⊆
        referenced shared.node.kv ∪ (reading t dn [] c d).hand.copies := by
      apply referenced_writeBatch_subset
      simp [putReferences_actions, hand, copies]
    have hk : ∀ path ∈ c.flatMap objectPath, path ∈ (reading t dn [] c d).hand.known :=
      fun path hn => .inr hn
    simp only [readStep]
    split_ifs
    · refine .of_worked (worked [] hli rfl (by simp [commit, withNode])
        (by simp) rfl) (taken ?_ hk ?_ ?_ ?_)
      all_goals simp [copies, drops, unstored, stored]
    · exact .finish hli rfl rfl hk rfl
  | cons act p =>
    simp only [readStep]
    split
    · exact .fail _
    rename_i msgs delivered
    refine .of_worked (.refl _ _) (taken ?_ ?_ ?_ ?_ ?_)
    case refine_1 =>
      intro path hc
      left
      simpa [copies] using hc
    case refine_2 =>
      intro path hn
      rcases mem_append.mp (flatMap_append ▸ hn) with old | new
      · exact .inr old
      obtain ⟨hl, hc⟩ := delivery_paths delivered new
      refine .inl (.inl (mem_flatMap.mpr ⟨act, ?_, hc⟩))
      exact mem_filter.mpr ⟨by simp, hl⟩
    all_goals simp [drops, unstored, stored]

theorem checkStep_moves : Moves others shared (.checking t c) (checkStep shared t c) := by
  unfold checkStep
  dsimp only
  split_ifs
  · apply Moves.finish
    · simp [withNode]
    · simp [withNode]
    · rfl
    · exact fun path hn => .inr hn
    · simp [withNode]
  · refine .of_worked (idle ?_ ?_ rfl ?_) (.refl _ _)
    all_goals simp [withNode]

theorem pruneStep_moves : Moves others shared (.pruning t c) (pruneStep shared t c) := by
  unfold pruneStep
  split_ifs
  · exact .wait shared _
  · exact .of_worked (idle rfl rfl rfl rfl) (.refl _ _)
  · exact .finish Set.subset_union_left rfl rfl (fun path hn => .inr hn) rfl

theorem unmarkStep_moves : Moves others shared (.unmarking t c) (unmarkStep shared t c) := by
  refine .finish ?_ rfl rfl (fun path hn => .inr hn) rfl
  exact referenced_writeBatch_subset _ (by simp)

theorem groupStep_moves (cl : Call) (t g : Text) (c : GroupState → Option GroupState) (r : Bool) :
    Moves others shared (.start cl) (groupStep shared cl t g c r) := by
  unfold groupStep
  split_ifs
  · exact .wait shared _
  split
  · exact .answer (.refl _ _) _
  · exact .answer (.refl _ _) _
  split
  · exact .answer (.refl _ _) _
  · exact .of_worked (idle rfl rfl rfl rfl) (taken_idle rfl rfl rfl rfl rfl)

theorem regroupStep_moves (t g : Text) (s : GroupState) (r : Bool) :
    Moves others shared (.regrouping t g s r) (regroupStep shared t g s r) := by
  refine .write rfl (referenced_writeBatch_subset _ ?_) rfl rfl rfl
  rw [gstateKey, putReferences_put_other (by decide)]
  split_ifs <;> simp [readyKey]

theorem referenced_erase (kv : Store Bytes) (path : Text) :
    referenced (kv.erase (mq.key path)) ⊆ referenced kv \ {path} := by
  rintro o ⟨r, hf, hi⟩
  by_cases hs : o = path
  · simp [readRecord, hs] at hf
  refine ⟨⟨r, ?_, hi⟩, hs⟩
  rw [← hf]
  exact readRecord_congr (kv.get?_erase_of_ne (by simp [hs])).symm

/-- An ack may remove a record that no other operation has a copy of. -/
theorem startAck_moves (message : ClaimedMessage)
    (ha : ∀ path ∈ objectPath message, ∀ other ∈ others, path ∉ other.copies) :
    Moves others shared (.start (.ack message)) (startAck shared message) := by
  have d := referenced_erase shared.node.kv (joined message.topic message.id)
  unfold startAck
  split_ifs with grouped inline
  · exact groupStep_moves _ _ _ _ _
  · exact .write rfl (fun path live => .inl (d live).1) rfl rfl rfl
  have path : joined message.topic message.id ∈ objectPath message := by
    simpa [mem_objectPath, inline] using grouped
  constructor
  case live => exact fun path live => .inl (.inl (d live).1)
  case objects => exact fun path kept => kept.1
  case handed => exact Set.subset_union_left
  case fresh => exact subset_rfl
  case dropping =>
    intro other dropped
    right
    obtain rfl : other = joined message.topic message.id := by
      simpa [handAfter, hand, drops] using dropped
    refine ⟨fun live => (d live).2 rfl, ?_, ha _ path⟩
    simp [handAfter, hand, copies]
  case known =>
    intro other known
    obtain rfl : other = joined message.topic message.id := by
      simpa [handAfter, hand, Hand.known, copies, drops, messages] using known
    exact .inl (.inl (.inr (by simpa [hand, messages] using path)))
  all_goals simp [handAfter, hand, Hand.minted, copies, unstored, stored]

theorem dropStep_moves (msg : ClaimedMessage) :
    Moves others shared (.dropping msg) (dropStep shared msg) := by
  constructor
  case live => exact fun path live => .inl (.inl live)
  case objects =>
    rintro path ⟨sd, kept⟩
    have ha : path ≠ joined msg.topic msg.id := by
      simpa [hand, drops] using kept
    have hf : (shared.node.storage.erase (payloadKey msg.topic msg.id)).contains
        (payload.key path) = true := by
      rw [SortedMap.contains, SortedMap.get?_erase_of_ne _ (by simp [payloadKey, ha])]
      exact sd
    exact hf
  case handed => exact Set.subset_union_left
  case fresh => exact subset_rfl
  all_goals simp [dropStep, done, handAfter, Hand.empty, Hand.known, Hand.minted]

theorem recordStep_moves (c : Call) (t id : Text) (r : Rewrite) :
    Moves others shared (.start c) (recordStep shared t id r) := by
  unfold recordStep
  split
  · exact .answer (.refl _ _) _
  rename_i raw found
  split
  · exact .answer (.refl _ _) _
  rename_i rc decoded
  refine .of_worked (.refl _ _) (taken ?_ ?_ ?_ ?_ ?_)
  case refine_1 => exact fun path hr => .inr (referenced_of_read found decoded hr)
  all_goals simp [messages, drops, unstored, stored]

theorem rewriteStep_moves (t id : Text) (r : Rewrite) (rc : Record) :
    Moves others shared (.rewriting t id r rc) (rewriteStep shared t id r rc) := by
  refine .write rfl (referenced_writeBatch_subset _ ?_) rfl rfl rfl
  rw [putReferences_rewrite]
  rfl

end Moves

/-- What the next step of a task needs from the state before it: sequence
numbers are not exhausted, and no other operation has a copy of the record an
ack deletes. -/
def Task.Admitted (shared : Shared Bytes) (others : List Task) : Task → Prop
  | .start (.publish _) => shared.node.seq.toNat + 1 < UInt64.size
  | .start (.ack message) =>
      ∀ path ∈ objectPath message, ∀ other ∈ others, path ∉ other.copies
  | _ => True

/-- Clients ack what a claim has returned, and every step is admitted. -/
def Quiet (pool : Pool (Shared Bytes) Task) : Schedule Call UInt64 → Prop
  | .invoke (.ack message) => message ∈ pool.shared.delivered
  | .invoke _ => True
  | .run index _ =>
      ∀ task ∈ pool.running[index]?, task.Admitted pool.shared (pool.running.eraseIdx index)

instance (shared : Shared Bytes) (others : List Task) (task : Task) :
    Decidable (task.Admitted shared others) :=
  match task with
  | .start (.publish _) => inferInstanceAs (Decidable (_ < _))
  | .start (.ack message) =>
    inferInstanceAs (Decidable (∀ path ∈ objectPath message, ∀ other ∈ others, _))
  | .start (.claim _) | .start (.nackAfter _ _) | .start (.setLastError _ _)
  | .storing _ _ | .retaining _ _ | .gating _ _ | .committing _ _ _ | .entering _
  | .loading _ _ _ _ | .reading _ _ _ _ _ | .checking _ _ | .pruning _ _ | .unmarking _ _
  | .dropping _ | .rewriting _ _ _ _ | .regrouping _ _ _ _ => .isTrue trivial

instance (pool : Pool (Shared Bytes) Task) (action : Schedule Call UInt64) :
    Decidable (Quiet pool action) :=
  match action with
  | .invoke (.ack message) => inferInstanceAs (Decidable (message ∈ pool.shared.delivered))
  | .invoke (.publish _) | .invoke (.claim _) | .invoke (.nackAfter _ _)
  | .invoke (.setLastError _ _) => .isTrue trivial
  | .run index _ =>
    match found : pool.running[index]? with
    | none => .isTrue (by simp [Quiet, found])
    | some task =>
      decidable_of_iff (task.Admitted pool.shared (pool.running.eraseIdx index))
        (by simp [Quiet, found])

theorem taskStep_moves {shared : Shared Bytes} {task : Task} {others : List Task}
    (now : UInt64) (ha : task.Admitted shared others) :
    Moves (others.map hand) shared task (taskStep shared task now) := by
  cases task with
  | start cl =>
    cases cl with
    | publish pb => exact startPublish_moves now pb ha
    | claim req =>
      simp only [taskStep, startStep]
      split_ifs
      · exact .answer (.refl _ _) _
      · exact .of_worked (.refl _ _) (taken_idle rfl rfl rfl rfl rfl)
    | ack msg =>
      refine startAck_moves msg fun path hn hand hh hc => ?_
      obtain ⟨o, hr, rfl⟩ := mem_map.mp hh
      exact ha path hn o hr hc
    | nackAfter msg dm =>
      simp only [taskStep, startStep, startNack]
      split_ifs
      · exact groupStep_moves _ _ _ _ _
      · exact recordStep_moves _ _ _ _
    | setLastError msg rsn =>
      simp only [taskStep, startStep, startSetLastError]
      split_ifs
      · exact .answer (.refl _ _) _
      · exact recordStep_moves _ _ _ _
  | storing pb minted => exact storePayloadStep_moves pb minted
  | retaining pb minted => exact retainStep_moves pb minted
  | gating pb minted => exact gating_moves pb minted _
  | committing pb minted l => exact commitStep_moves pb minted l
  | entering req => exact enterClaim_moves now req
  | loading req cm s rs => exact loadStep_moves req cm rs s
  | reading t dn p c d => exact readStep_moves t dn c d p
  | checking t c => exact checkStep_moves t c
  | pruning t c => exact pruneStep_moves t c
  | unmarking t c => exact unmarkStep_moves t c
  | dropping msg => exact dropStep_moves msg
  | rewriting t id re rc => exact rewriteStep_moves t id re rc
  | regrouping t g sta r => exact regroupStep_moves t g sta r

theorem start_moves {shared : Shared Bytes} {r : List Task} {c : Call}
    (hq : Quiet ⟨shared, r⟩ (.invoke c)) :
    Move (r.map hand) shared.world .empty shared.world (start c).hand := by
  refine .of_worked (.refl _ _) ⟨?_, ?_, ?_, ?_, ?_⟩
  case refine_2 =>
    intro path hk
    right
    cases c with
    | ack msg =>
      have hn : path ∈ objectPath msg := by
        simpa [hand, Hand.known, copies, drops, messages] using hk
      exact mem_flatMap.mpr ⟨msg, hq, hn⟩
    | publish | claim | nackAfter | setLastError =>
      simp [hand, Hand.known, copies, drops, messages] at hk
  all_goals simp [hand, Hand.minted, copies, drops, unstored, stored]

theorem quiet_step (p : Pool (Shared Bytes) Task) (act : Schedule Call UInt64)
    (hc : InCustody world hand p) (hq : Quiet p act) :
    InCustody world hand (operations.machine.step p act).1 := by
  refine custody_kept_of_moves _ _ Quiet (fun shared r c => start_moves) ?_ p act hc hq
  intro shared b task a now hq
  apply taskStep_moves
  have ha := hq task (by simp)
  rwa [Concurrent.eraseIdx_around] at ha

section Answers

variable {sh : Shared Bytes} {text : Text}

theorem decodeRecord_ne_backend {raw : Bytes} : decodeRecord raw ≠ .error (.backend text) := by
  unfold decodeRecord
  cases Codec.recordFromSlice raw <;> simp [Except.mapError]

theorem getGroupState_ne_backend {kv : Store Bytes} {t g : Text} :
    getGroupState kv t g ≠ .error (.backend text) := by
  unfold getGroupState
  split
  · simp
  · rename_i raw found
    cases Codec.groupFromSlice raw <;> simp [Except.mapError, Except.map]

theorem delivery_ne_error {sto : Storage} {t : Text} {act : ClaimAction} {err : MessagingError}
    (hs : act.isLease = true → ∀ path ∈ recordPath t act.id act.record,
      sto.contains (payload.key path) = true) : delivery sto t act ≠ .error err := by
  cases act with
  | deadLetter id r => simp [delivery]
  | lease id r =>
    intro hf
    rw [delivery] at hf
    cases hi : r.inline with
    | some pl => simp [leasedPayload, hi, Except.map] at hf
    | none =>
      have ho := hs rfl _ (mem_recordPath.mpr ⟨hi, rfl⟩)
      obtain ⟨pl, hfo⟩ := Option.isSome_iff_exists.mp ho
      have hr : sto.get? (payloadKey t id) = some pl := hfo
      simp [leasedPayload, hi, readStorage, hr, Except.map] at hf

theorem taskStep_ne_backend {task : Task} (now : UInt64)
    (hst : ∀ path ∈ task.copies, path ∈ sh.world.objects) :
    (taskStep sh task now).2 ≠ .inr (.error (.backend text)) := by
  have hg : ∀ ca t g c r, (groupStep sh ca t g c r).2 ≠ .inr (.error (.backend text)) := by
    intro ca t g c r
    unfold groupStep
    split_ifs
    · simp
    split
    · rename_i err hf
      rintro ⟨⟩
      exact getGroupState_ne_backend hf
    · simp [done]
    · split <;> simp [done]
  have hs : ∀ t id re, (recordStep sh t id re).2 ≠ .inr (.error (.backend text)) := by
    intro t id re
    unfold recordStep
    split
    · simp [done]
    split
    · rename_i err hf
      rintro ⟨⟩
      exact decodeRecord_ne_backend hf
    · simp
  cases task with
  | start ca =>
    cases ca with
    | publish pb => simp [taskStep, startStep, startPublish]
    | claim req =>
      simp only [taskStep, startStep]
      split_ifs <;> simp
    | ack msg =>
      simp only [taskStep, startStep, startAck]
      split_ifs
      · exact hg _ _ _ _ _
      · simp [done]
      · simp
    | nackAfter msg dm =>
      simp only [taskStep, startStep, startNack]
      split_ifs
      · exact hg _ _ _ _ _
      · exact hs _ _ _
    | setLastError msg rsn =>
      simp only [taskStep, startStep, startSetLastError]
      split_ifs
      · simp [done]
      · exact hs _ _ _
  | loading req cm s rs =>
    cases s with
    | nil => simp [taskStep, loadStep]
    | cons sf rest =>
      simp only [taskStep, loadStep]
      split_ifs
      · split
        · simp
        split
        · rename_i err hf
          rintro ⟨⟩
          exact decodeRecord_ne_backend hf
        · simp
      · simp
  | reading t dn p cl d =>
    cases p with
    | nil =>
      simp only [taskStep, readStep]
      split_ifs <;> simp [finishClaim]
    | cons act p =>
      simp only [taskStep, readStep]
      split
      · rename_i err hf
        refine absurd hf (delivery_ne_error fun hl path hn => hst path ?_)
        refine mem_flatMap.mpr ⟨act, mem_filter.mpr ⟨by simp, hl⟩, hn⟩
      · simp
  | committing pb minted l =>
    simp only [taskStep, commitStep]
    split_ifs <;> simp [done]
  | entering req =>
    simp only [taskStep, enterClaim]
    split_ifs <;> simp
  | checking t cl =>
    simp only [taskStep, checkStep]
    split_ifs <;> simp [finishClaim]
  | pruning t cl =>
    simp only [taskStep, pruneStep]
    split_ifs <;> simp [finishClaim]
  | storing | retaining | gating =>
    simp [taskStep, storePayloadStep, retainStep]
  | unmarking | dropping | rewriting | regrouping =>
    simp [taskStep, unmarkStep, dropStep, rewriteStep, regroupStep, finishClaim, done]

end Answers

/-- A start whose live records have their payload and whose ids are not among
those still to be minted. -/
structure Sound (shared : Shared Bytes) : Prop where
  backed : shared.world.live ⊆ shared.world.objects
  unminted : ∀ path ∈ shared.world.fresh, path ∉ shared.world.live ∧ path ∉ shared.world.handed

theorem Sound.inCustody {shared : Shared Bytes} (sound : Sound shared) :
    InCustody world hand ⟨shared, []⟩ := by
  constructor
  case live => exact sound.backed
  case fresh =>
    intro path fresh
    obtain ⟨dead, unknown⟩ := sound.unminted path fresh
    refine ⟨?_, by simp⟩
    rintro (live | handed | ⟨hand, running, _⟩)
    · exact dead live
    · exact unknown handed
    · simp at running
  all_goals simp

/-- Along every quiet schedule: every live record whose payload is not inlined
has its object in storage, and no call fails for a missing object. -/
theorem payload_present_of_quiet (start : Shared Bytes) (sound : Sound start)
    (actions : List (Schedule Call UInt64))
    (quiet : operations.machine.Meets Quiet ⟨start, []⟩ actions) :
    let node := (operations.machine.final ⟨start, []⟩ actions).shared.node
    (∀ t id record, readRecord node.kv (metaKey t id) = some record →
      record.inline = none → node.storage.contains (payloadKey t id) = true) ∧
    ∀ p ∈ operations.machine.history ⟨start, []⟩ actions, ∀ text,
      p.2 ≠ some (.error (.backend text)) := by
  intro node
  have hc := Machine.invariant quiet_step sound.inCustody quiet
  constructor
  · intro t id record hf hi
    exact hc.live ⟨record, hf, hi⟩
  refine Machine.outputs_of_invariant (fun _ o => ∀ text,
    o ≠ some (.error (.backend text))) quiet_step ?_ sound.inCustody quiet
  intro pl act hc _ text ha
  obtain ⟨task, hr, now, next, hm⟩ := Concurrent.output_of_task ha
  refine taskStep_ne_backend now (fun path hco => ?_) (congrArg Prod.snd hm)
  exact hc.copies task.hand (List.mem_map_of_mem hr) hco

namespace Resurrected

def topic : Text := "jobs".toList

def start : Shared Stored :=
  ⟨(LogMessaging.new .empty .empty).withInlineBudget 0, false, false, []⟩

def request : ClaimRequest := ⟨topic, 1000000, 8, 5⟩

def run (nowMs : UInt64) (steps : Nat) : List (Schedule Call UInt64) :=
  List.replicate steps (.run 0 nowMs)

def message (attempts : UInt32) : ClaimedMessage :=
  ⟨singleNodeId 1000 0, topic, [7], attempts, [], none, false⟩

/-- A message is delivered to one consumer and, its lease expired, to another. -/
def delivered : List (Schedule Call UInt64) :=
  [.invoke (.publish ⟨topic, [7], none, 0, 0, 0⟩)] ++ run 1000 3 ++
    [.invoke (.claim request)] ++ run 1001 8 ++ [.invoke (.claim request)] ++ run 2000 8

def orderly : List (Schedule Call UInt64) :=
  delivered ++ [.invoke (.nackAfter (message 1) 0)] ++ run 2001 2 ++
    [.invoke (.ack (message 2))] ++ run 2001 2

def overlapping : List (Schedule Call UInt64) :=
  delivered ++ [.invoke (.nackAfter (message 1) 0), .run 0 2001, .invoke (.ack (message 2)),
    .run 1 2001, .run 1 2001, .run 0 2001]

theorem sound_start : Sound start where
  backed := by
    rintro path ⟨r, hf, _⟩
    cases hf
  unminted path _ := by
    constructor
    · rintro ⟨r, hf, _⟩
      cases hf
    · exact not_mem_nil

def final (actions : List (Schedule Call UInt64)) : Pool (Shared Stored) Task :=
  operations.machine.final ⟨start, []⟩ actions

def lastAnswer (actions : List (Schedule Call UInt64)) : Option (Except MessagingError Reply) :=
  (operations.machine.history ⟨start, []⟩ actions).getLast?.bind Prod.snd

/-- One call at a time, nothing is left behind. -/
theorem orderly_present :
    operations.machine.Meets Quiet ⟨start, []⟩ orderly ∧ (final orderly).running.length = 0 ∧
      let node := (operations.machine.final ⟨start, []⟩ orderly).shared.node
      (∀ t id r, readRecord node.kv (metaKey t id) = some r →
        r.inline = none → node.storage.contains (payloadKey t id) = true) ∧
      ∀ p ∈ operations.machine.history ⟨start, []⟩ orderly, ∀ text,
        p.2 ≠ some (.error (.backend text)) := by
  refine ⟨by decide +kernel, by decide +kernel, ?_⟩
  exact payload_present_of_quiet start sound_start orderly (by decide +kernel)

/-- The nack writes the acked record back without its payload, and every later
claim of the topic fails. -/
theorem overlapping_dangling : (final overlapping).running.length = 0 ∧
      (readRecord (final overlapping).shared.node.kv (metaKey topic (singleNodeId 1000 0))).map
        Record.inline = some none ∧ (final overlapping).shared.node.storage.contains
        (payloadKey topic (singleNodeId 1000 0)) = false ∧
      lastAnswer (overlapping ++ [.invoke (.claim request)] ++ run 3000 5) =
        some (.error (.backend ("object not found: ".toList ++
          payloadKey topic (singleNodeId 1000 0)))) := by
  refine ⟨by decide +kernel, by decide +kernel, by decide +kernel, by decide +kernel⟩

end Resurrected

end BoatRamp.Node

import BoatRamp.Cluster.Frame

/-!
# The durable state machine

Each node keeps the applied map in memory and writes every mutation through to
its own key/value store, together with the applied cursor, in one atomic batch.
The system below runs one node with crashes between any two store calls.  Next
to the store it keeps two history variables, the snapshot last installed and
the entries durably applied since; recovery has to restore their fold.
-/

namespace BoatRamp.Cluster

open Library Messaging SortedMap List KvWrite

structure LogId where
  term : UInt64
  node : UInt64
  index : UInt64

structure StoredMembership (Membership : Type) where
  logId : Option LogId
  membership : Membership

inductive EntryPayload (Bytes Membership : Type) where
  | blank
  | normal (op : WriteOp Bytes)
  | membership (membership : Membership)

structure Entry (Bytes Membership : Type) where
  logId : LogId
  payload : EntryPayload Bytes Membership

structure SnapshotPayload (Bytes Membership : Type) where
  lastApplied : Option LogId
  lastMembership : StoredMembership Membership
  data : Store Bytes

structure SnapshotMeta (Membership : Type) where
  lastLogId : Option LogId
  lastMembership : StoredMembership Membership
  snapshotId : Text

/-- The encodings of the durable records, with the round trips recovery needs. -/
class RaftCodec (Bytes Membership : Type) where
  lastAppliedToVec : Option LogId → Bytes
  lastAppliedFromSlice : Bytes → Except Text (Option LogId)
  membershipToVec : StoredMembership Membership → Bytes
  membershipFromSlice : Bytes → Except Text (StoredMembership Membership)
  payloadFromSlice : Bytes → Except Text (SnapshotPayload Bytes Membership)
  storedSnapshotToVec : SnapshotMeta Membership → Bytes → Bytes
  lastApplied_round : ∀ last, lastAppliedFromSlice (lastAppliedToVec last) = .ok last
  membership_round : ∀ stored, membershipFromSlice (membershipToVec stored) = .ok stored

attribute [simp] RaftCodec.lastApplied_round RaftCodec.membership_round

def KEY_SM_LAST : Text := "raft/sm/last_applied".toList
def KEY_SM_MEMBERSHIP : Text := "raft/sm/membership".toList
def SM_DATA_PREFIX : Text := "raft/sm/d/".toList
def KEY_SNAPSHOT : Text := "raft/snapshot".toList

variable (key : Text)

/-- Durable state-machine key for a raw applied-state key. -/
def smDataKey : Text := SM_DATA_PREFIX ++ key

@[simp]
theorem smDataKey_inj {x y : Text} : smDataKey x = smDataKey y ↔ x = y := by
  simp [smDataKey]

theorem smDataKey_ne_last : smDataKey key ≠ KEY_SM_LAST := by
  intro hs
  have hl := congrArg (fun text : Text => text[8]?) hs
  cases hl

theorem smDataKey_ne_membership : smDataKey key ≠ KEY_SM_MEMBERSHIP := by
  intro hs
  have hl := congrArg (fun text : Text => text[8]?) hs
  cases hl

theorem smDataKey_ne_snapshot : smDataKey key ≠ KEY_SNAPSHOT := by
  intro hs
  have hl := congrArg (fun text : Text => text[6]?) hs
  cases hl

section Machine

variable {Bytes Membership : Type} [Codec Bytes] [DecidableEq Bytes]

def applyEntry (state : SnapshotPayload Bytes Membership) (entry : Entry Bytes Membership) :
    SnapshotPayload Bytes Membership :=
  match entry.payload with
  | .blank => { state with lastApplied := some entry.logId }
  | .normal op =>
      { state with
        lastApplied := some entry.logId
        data := (applyOp (.new state.data) op).1.data }
  | .membership membership =>
      { state with
        lastApplied := some entry.logId
        lastMembership := ⟨some entry.logId, membership⟩ }

def foldEntries (state : SnapshotPayload Bytes Membership)
    (entries : List (Entry Bytes Membership)) : SnapshotPayload Bytes Membership :=
  entries.foldl applyEntry state

theorem foldEntries_append (s : SnapshotPayload Bytes Membership)
    (x y : List (Entry Bytes Membership)) :
    foldEntries s (x ++ y) = foldEntries (foldEntries s x) y :=
  foldl_append

def durableWrite : KvWrite Bytes → KvWrite Bytes
  | .put key value => .put (smDataKey key) value
  | .delete key => .delete (smDataKey key)

/-- What the loop over a batch of entries accumulates. -/
structure Applying (Bytes Membership : Type) where
  inner : SnapshotPayload Bytes Membership
  batch : List (KvWrite Bytes)
  membershipChanged : Bool
  responses : List WriteResponse

def applyLoop (acc : Applying Bytes Membership) (entry : Entry Bytes Membership) :
    Applying Bytes Membership :=
  let inner := { acc.inner with lastApplied := some entry.logId }
  match entry.payload with
  | .blank => { acc with inner := inner, responses := acc.responses ++ [.kv] }
  | .normal op =>
      let out := applyOp (.new inner.data) op
      { acc with
        inner := { inner with data := out.1.data }
        batch := acc.batch ++ out.1.muts.map durableWrite
        responses := acc.responses ++ [out.2] }
  | .membership membership =>
      { acc with
        inner := { inner with lastMembership := ⟨some entry.logId, membership⟩ }
        membershipChanged := true
        responses := acc.responses ++ [.kv] }

variable [RaftCodec Bytes Membership]

def commitBatch (acc : Applying Bytes Membership) : List (KvWrite Bytes) :=
  acc.batch ++
    [.put KEY_SM_LAST (RaftCodec.lastAppliedToVec Membership acc.inner.lastApplied)] ++
    if acc.membershipChanged then
      [.put KEY_SM_MEMBERSHIP (RaftCodec.membershipToVec acc.inner.lastMembership)]
    else []

def installBatch (keys : List Text) (snapshotMeta : SnapshotMeta Membership)
    (bytes : Bytes) (payload : SnapshotPayload Bytes Membership) : List (KvWrite Bytes) :=
  keys.map .delete ++
    payload.data.entries.map (fun entry => .put (smDataKey entry.1) entry.2) ++
    [.put KEY_SM_LAST (RaftCodec.lastAppliedToVec Membership payload.lastApplied),
      .put KEY_SM_MEMBERSHIP (RaftCodec.membershipToVec payload.lastMembership),
      .put KEY_SNAPSHOT (RaftCodec.storedSnapshotToVec snapshotMeta bytes)]

def readOr {Value : Type} (kv : Store Bytes) (key : Text)
    (fromSlice : Bytes → Except Text Value) (default : Value) : Except Text Value :=
  match kv.get? key with
  | none => .ok default
  | some raw => fromSlice raw

def loadKey (kv data : Store Bytes) (key : Text) : Store Bytes :=
  match kv.get? key with
  | none => data
  | some raw => data.insert (key.drop SM_DATA_PREFIX.length) raw

def loadData (kv : Store Bytes) : Store Bytes :=
  (listPrefix kv SM_DATA_PREFIX).foldl (loadKey kv) .empty

variable [Inhabited Membership]

def SnapshotPayload.initial : SnapshotPayload Bytes Membership := ⟨none, ⟨none, default⟩, .empty⟩

def openStateMachine (kv : Store Bytes) : Except Text (SnapshotPayload Bytes Membership) := do
  let lastApplied ← readOr kv KEY_SM_LAST
    (RaftCodec.lastAppliedFromSlice Membership) none
  let lastMembership ← readOr kv KEY_SM_MEMBERSHIP RaftCodec.membershipFromSlice
    ⟨none, default⟩
  return ⟨lastApplied, lastMembership, loadData kv⟩

/-- Where the running process is between two calls to the store. -/
inductive Phase (Bytes Membership : Type) where
  | down
  | idle (inner : SnapshotPayload Bytes Membership)
  /-- `apply` has changed the memory and is about to commit. -/
  | applying (entries : List (Entry Bytes Membership)) (acc : Applying Bytes Membership)
  /-- `installSnapshot` has listed the old keys. -/
  | listed (snapshotMeta : SnapshotMeta Membership) (bytes : Bytes)
      (payload : SnapshotPayload Bytes Membership) (keys : List Text)
  /-- `installSnapshot` has committed and is about to replace the memory. -/
  | installed (payload : SnapshotPayload Bytes Membership)

/-- A node: its store, its process, and the history the store should reflect. -/
structure System (Bytes Membership : Type) where
  kv : Store Bytes
  phase : Phase Bytes Membership
  base : SnapshotPayload Bytes Membership
  log : List (Entry Bytes Membership)

inductive Event (Bytes Membership : Type) where
  | apply (entries : List (Entry Bytes Membership))
  | installSnapshot (snapshotMeta : SnapshotMeta Membership) (bytes : Bytes)
  /-- The call in progress takes its next step. -/
  | proceed
  /-- The log store and the snapshot builder write elsewhere in the same store. -/
  | writeElsewhere (writes : List (KvWrite Bytes))
  | crash
  | restart

/-- A key of the state machine's own part of the store. -/
def IsStateKey (key : Text) : Prop :=
  key = KEY_SM_LAST ∨ key = KEY_SM_MEMBERSHIP ∨ SM_DATA_PREFIX <+: key

instance (key : Text) : Decidable (IsStateKey key) :=
  inferInstanceAs (Decidable (key = KEY_SM_LAST ∨ key = KEY_SM_MEMBERSHIP ∨
    SM_DATA_PREFIX <+: key))

variable (system : System Bytes Membership)

def System.proceed : System Bytes Membership :=
  match system.phase with
  | .applying entries acc =>
      { system with
        kv := writeBatch system.kv (commitBatch acc)
        phase := .idle acc.inner
        log := system.log ++ entries }
  | .listed snapshotMeta bytes payload keys =>
      { kv := writeBatch system.kv (installBatch keys snapshotMeta bytes payload)
        phase := .installed payload
        base := payload
        log := [] }
  | .installed payload => { system with phase := .idle payload }
  | .down => system
  | .idle _ => system

def System.apply (system : System Bytes Membership)
    (entries : List (Entry Bytes Membership)) : System Bytes Membership :=
  match system.phase with
  | .idle inner =>
      { system with
        phase := .applying entries (entries.foldl applyLoop ⟨inner, [], false, []⟩) }
  | _ => system

def System.installSnapshot (snapshotMeta : SnapshotMeta Membership) (bytes : Bytes) :
    System Bytes Membership :=
  match system.phase, RaftCodec.payloadFromSlice bytes with
  | .idle _, .ok payload =>
      { system with
        phase := .listed snapshotMeta bytes payload (listPrefix system.kv SM_DATA_PREFIX) }
  | _, _ => system

def System.writeElsewhere (writes : List (KvWrite Bytes)) : System Bytes Membership :=
  if ∀ write ∈ writes, ¬IsStateKey write.key then
    { system with kv := writeBatch system.kv writes }
  else system

def System.restart : System Bytes Membership :=
  match system.phase, openStateMachine system.kv with
  | .down, .ok inner => { system with phase := .idle inner }
  | _, _ => system

def System.step (system : System Bytes Membership) :
    Event Bytes Membership → System Bytes Membership
  | .apply entries => system.apply entries
  | .installSnapshot snapshotMeta bytes => system.installSnapshot snapshotMeta bytes
  | .proceed => system.proceed
  | .writeElsewhere writes => system.writeElsewhere writes
  | .crash => { system with phase := .down }
  | .restart => system.restart

def System.initial : System Bytes Membership := ⟨.empty, .down, .initial, []⟩

def durableMachine : Machine (System Bytes Membership) (Event Bytes Membership) Unit where
  step system event := (system.step event, ())

end Machine

section Loading

variable {Bytes : Type} (kv : Store Bytes)

theorem get?_loadKey (d : Store Bytes) (name key : Text) :
    (loadKey kv d (smDataKey name)).get? key =
      if key = name then (kv.get? (smDataKey key)).or (d.get? key) else d.get? key := by
  unfold loadKey
  have hd : (smDataKey name).drop SM_DATA_PREFIX.length = name := drop_left
  by_cases hs : key = name
  · subst hs
    cases hf : kv.get? (smDataKey key) with
    | none => simp
    | some raw => simp [hd]
  cases hf : kv.get? (smDataKey name) with
  | none => simp [hs]
  | some raw => simp [hd, hs, get?_insert_of_ne d raw hs]

theorem get?_foldl_loadKey (n : List Text) (d : Store Bytes) (key : Text) :
    ((n.map smDataKey).foldl (loadKey kv) d).get? key =
      if key ∈ n then (kv.get? (smDataKey key)).or (d.get? key)
      else d.get? key := by
  induction n generalizing d with
  | nil => simp
  | cons name rest ih =>
    rw [map_cons, foldl_cons, ih, get?_loadKey]
    by_cases hs : key = name
    · subst hs
      simp [← Option.or_assoc]
    · simp [hs]

theorem listPrefix_eq_map : listPrefix kv SM_DATA_PREFIX =
      ((listPrefix kv SM_DATA_PREFIX).map (drop SM_DATA_PREFIX.length)).map smDataKey := by
  rw [map_map]
  refine (map_id _).symm.trans (map_congr_left ?_)
  intro key hm
  rcases mem_map.mp hm with ⟨⟨_, v⟩, hs, rfl⟩
  rcases ((kv.mem_scan_iff _ _ _).mp hs).2 with ⟨name, hsa⟩
  simp only [Function.comp_apply, id_eq, ← hsa, drop_left, smDataKey]

theorem get?_loadData (key : Text) : (loadData kv).get? key = kv.get? (smDataKey key) := by
  unfold loadData
  rw [listPrefix_eq_map, get?_foldl_loadKey]
  split_ifs with hl
  · simp
  -- An unlisted key is not stored.
  cases hf : kv.get? (smDataKey key) with
  | none => simp
  | some raw =>
    refine absurd (mem_map.mpr ⟨smDataKey key, ?_, drop_left⟩) hl
    exact (mem_listPrefix_iff kv _ _).mpr ⟨by simp [hf], prefix_append _ _⟩

end Loading

section Reflects

variable {Bytes Membership : Type} [RaftCodec Bytes Membership] [Inhabited Membership]

structure Reflects (kv : Store Bytes) (state : SnapshotPayload Bytes Membership) : Prop where
  lastApplied : readOr kv KEY_SM_LAST (RaftCodec.lastAppliedFromSlice Membership) none =
    .ok state.lastApplied
  lastMembership : readOr kv KEY_SM_MEMBERSHIP RaftCodec.membershipFromSlice ⟨none, default⟩ =
    .ok state.lastMembership
  data : ∀ key, kv.get? (smDataKey key) = state.data.get? key

variable {kv : Store Bytes}

theorem Reflects.opens {s : SnapshotPayload Bytes Membership} (hr : Reflects kv s) :
    openStateMachine kv = .ok s := by
  have hd : loadData kv = s.data :=
    ext fun key => (get?_loadData kv key).trans (hr.data key)
  unfold openStateMachine
  rw [hr.lastApplied, hr.lastMembership, hd]
  rfl

theorem readOr_congr {Value : Type} {x y : Store Bytes} {key : Text} (hs : x.get? key = y.get? key)
    (fs : Bytes → Except Text Value) (d : Value) : readOr x key fs d = readOr y key fs d := by
  simp only [readOr, hs]

theorem readOr_insert_self {Value : Type} (kv : Store Bytes) (key : Text) (raw : Bytes)
    (fs : Bytes → Except Text Value) (d : Value) :
    readOr (kv.insert key raw) key fs d = fs raw := by
  simp [readOr]

theorem get?_writeBatch_elsewhere (kv : Store Bytes) {w : List (KvWrite Bytes)}
    (ho : ∀ wr ∈ w, ¬IsStateKey wr.key) {key : Text}
    (hs : IsStateKey key) : (writeBatch kv w).get? key = kv.get? key := by
  refine get?_writeBatch_of_unnamed kv w ?_
  rintro wr hm rfl
  exact ho wr hm hs

theorem Reflects.elsewhere {s : SnapshotPayload Bytes Membership} (hr : Reflects kv s)
    {w : List (KvWrite Bytes)} (ho : ∀ write ∈ w, ¬IsStateKey write.key) :
    Reflects (writeBatch kv w) s := by
  have hk : ∀ key, IsStateKey key → (writeBatch kv w).get? key = kv.get? key :=
    fun _ hs => get?_writeBatch_elsewhere kv ho hs
  refine ⟨?_, ?_, ?_⟩
  · exact (readOr_congr (hk _ (.inl rfl)) _ _).trans hr.lastApplied
  · exact (readOr_congr (hk _ (.inr (.inl rfl))) _ _).trans hr.lastMembership
  · intro key
    exact (hk _ (.inr (.inr (prefix_append _ _)))).trans (hr.data key)

theorem get?_writeBatch_durableWrite {d : Store Bytes}
    (hs : ∀ key, kv.get? (smDataKey key) = d.get? key) (w : List (KvWrite Bytes)) :
    ∀ key, (writeBatch kv (w.map durableWrite)).get? (smDataKey key) =
      (writeBatch d w).get? key := by
  induction w generalizing kv d with
  | nil => exact hs
  | cons wr rest ih =>
    refine ih ?_
    intro key
    cases wr with
    | put name v =>
      simp only [durableWrite, apply, get?_insert, smDataKey_inj, hs]
      split_ifs <;> rfl
    | delete name =>
      simp only [durableWrite, apply, get?_erase, smDataKey_inj, hs]
      split_ifs <;> rfl

theorem durableWrite_isData (wr : List (KvWrite Bytes)) :
    ∀ w ∈ wr.map durableWrite, ∃ name, w.key = smDataKey name := by
  intro w hm
  rcases mem_map.mp hm with ⟨raw, _, rfl⟩
  cases raw with
  | put name v | delete name => exact ⟨name, rfl⟩

end Reflects

section Commit

variable {Bytes Membership : Type} [Codec Bytes] [DecidableEq Bytes]

/-- What the loop has accumulated after `entries`: the folded state, and the
mutations that lead to its data. -/
structure Accumulated (start : SnapshotPayload Bytes Membership)
    (entries : List (Entry Bytes Membership)) (acc : Applying Bytes Membership) : Prop where
  inner : acc.inner = foldEntries start entries
  batch : ∃ muts, acc.batch = muts.map durableWrite ∧
    acc.inner.data = writeBatch start.data muts
  membership : acc.membershipChanged = false →
    acc.inner.lastMembership = start.lastMembership

/-- Every mutation an operation makes to the map is recorded, in order. -/
theorem applyOp_muts (d : Store Bytes) (op : WriteOp Bytes) :
    (applyOp (.new d) op).1.data = writeBatch d (applyOp (.new d) op).1.muts := by
  rcases applyOp_writes (.new d) op with ⟨w, hm, hw, _⟩
  rw [hw, hm]
  rfl

theorem Accumulated.next {start : SnapshotPayload Bytes Membership}
    {entries : List (Entry Bytes Membership)} {acc : Applying Bytes Membership}
    (ha : Accumulated start entries acc) (entry : Entry Bytes Membership) :
    Accumulated start (entries ++ [entry]) (applyLoop acc entry) := by
  rcases ha with ⟨hi, ⟨muts, hb, hd⟩, membership⟩
  have hf : foldEntries start (entries ++ [entry]) = applyEntry acc.inner entry := by
    rw [foldEntries_append, ← hi]
    rfl
  rcases entry with ⟨logId, payload⟩
  cases payload with
  | blank => exact ⟨hf.symm, ⟨muts, hb, hd⟩, membership⟩
  | normal op =>
    refine ⟨hf.symm, ⟨muts ++ (applyOp (.new acc.inner.data) op).1.muts, ?_, ?_⟩, membership⟩
    · rw [map_append, ← hb]
      rfl
    · rw [writeBatch_append, ← hd]
      exact applyOp_muts acc.inner.data op
  | membership membership =>
    exact ⟨hf.symm, ⟨muts, hb, hd⟩, fun hc => by cases hc⟩

theorem accumulated_foldl (s : SnapshotPayload Bytes Membership)
    (es : List (Entry Bytes Membership)) :
    Accumulated s es (es.foldl applyLoop ⟨s, [], false, []⟩) := by
  induction es using reverseRecOn with
  | nil => exact ⟨rfl, ⟨[], rfl, rfl⟩, fun _ => rfl⟩
  | append_singleton es e ih =>
    rw [foldl_append]
    exact ih.next e

variable [RaftCodec Bytes Membership] [Inhabited Membership]

open RaftCodec

/-- Committing the batch of an apply call makes the folded state durable. -/
theorem Reflects.commit {kv : Store Bytes} {s : SnapshotPayload Bytes Membership}
    (hr : Reflects kv s) {es : List (Entry Bytes Membership)} {acc : Applying Bytes Membership}
    (hac : Accumulated s es acc) : Reflects (writeBatch kv (commitBatch acc)) acc.inner := by
  rcases hac with ⟨_, ⟨m, hb, hd⟩, hm⟩
  have hmi := get?_writeBatch_durableWrite hr.data m
  rw [← hd, ← hb] at hmi
  have hu : ∀ key, (∀ name, smDataKey name ≠ key) →
      (writeBatch kv acc.batch).get? key = kv.get? key := by
    intro key ha
    refine get?_writeBatch_of_unnamed kv acc.batch ?_
    intro w hm hs
    rcases durableWrite_isData m w (hb ▸ hm) with ⟨name, hn⟩
    exact ha name (hn.symm.trans hs.symm)
  have hl : KEY_SM_MEMBERSHIP ≠ KEY_SM_LAST := by decide
  cases hc : acc.membershipChanged with
  | false =>
    simp only [commitBatch, hc, Bool.false_eq_true, if_false, append_nil,
      writeBatch_append, writeBatch_cons, writeBatch_nil, apply]
    refine ⟨?_, ?_, ?_⟩
    · rw [readOr_insert_self, lastApplied_round]
    · rw [readOr_congr ((get?_insert_of_ne _ _ hl).trans
        (hu _ smDataKey_ne_membership)), hr.lastMembership, hm hc]
    · intro key
      rw [get?_insert_of_ne _ _ (smDataKey_ne_last key), hmi]
  | true =>
    simp only [commitBatch, hc, if_true, writeBatch_append, writeBatch_cons, writeBatch_nil, apply]
    refine ⟨?_, ?_, ?_⟩
    · rw [readOr_congr (get?_insert_of_ne _ _ hl.symm), readOr_insert_self, lastApplied_round]
    · rw [readOr_insert_self, membership_round]
    intro key
    rw [get?_insert_of_ne _ _ (smDataKey_ne_membership key),
      get?_insert_of_ne _ _ (smDataKey_ne_last key), hmi]

end Commit

section Install

variable {Bytes Membership : Type}

theorem get?_writeBatch_delete (s : Store Bytes) (k : List Text) (key : Text) :
    (writeBatch s (k.map .delete)).get? key = if key ∈ k then none else s.get? key := by
  induction k generalizing s with
  | nil => simp
  | cons x rest ih =>
    rw [map_cons, writeBatch_cons, ih, apply, get?_erase]
    by_cases hs : key = x <;> simp [hs]

theorem writeBatch_put_entries {es : List (Text × Bytes)}
    (hs : es.Pairwise fun x y => x.1 < y.1) (s : Store Bytes) (key : Text) (v : Bytes) :
    (writeBatch s (es.map fun e => .put e.1 e.2)).get? key = some v ↔
      (key, v) ∈ es ∨ (key ∉ es.map Prod.fst ∧ s.get? key = some v) := by
  induction es generalizing s with
  | nil => simp
  | cons e rest ih =>
    rcases pairwise_cons.mp hs with ⟨hb, hr⟩
    rw [map_cons, writeBatch_cons, ih hr, apply, get?_insert]
    by_cases hsa : key = e.1
    · have hu : ∀ o, (e.1, o) ∉ rest := fun o hm =>
        lt_irrefl e.1 (hb (e.1, o) hm)
      simp [hsa, hu, Prod.ext_iff, eq_comm]
    · simp [hsa, Prod.ext_iff]

theorem writeBatch_empty_entries (map : Store Bytes) :
    writeBatch .empty (map.entries.map fun e => .put e.1 e.2) = map := by
  refine ext fun key => Option.ext fun v => ?_
  rw [writeBatch_put_entries map.sorted, mem_entries_iff]
  simp

variable [RaftCodec Bytes Membership] [Inhabited Membership]

theorem reflects_install (kv : Store Bytes) {k : List Text}
    (hl : ∀ key, (kv.get? (smDataKey key)).isSome → smDataKey key ∈ k)
    (sm : SnapshotMeta Membership) (bs : Bytes) (pl : SnapshotPayload Bytes Membership) :
    Reflects (writeBatch kv (installBatch k sm bs pl)) pl := by
  have hc : ∀ key, (writeBatch kv (k.map .delete)).get? (smDataKey key) =
      (empty : Store Bytes).get? key := by
    intro key
    rw [get?_writeBatch_delete, get?_empty]
    split_ifs with hi
    · rfl
    · exact Option.not_isSome_iff_eq_none.mp fun hs => hi (hl key hs)
  have hm := get?_writeBatch_durableWrite hc (pl.data.entries.map fun e => .put e.1 e.2)
  rw [writeBatch_empty_entries, map_map] at hm
  simp only [installBatch, writeBatch_append, writeBatch_cons, writeBatch_nil, apply]
  refine ⟨?_, ?_, ?_⟩
  · rw [readOr_congr (get?_insert_of_ne _ _ (by decide)),
      readOr_congr (get?_insert_of_ne _ _ (by decide)), readOr_insert_self,
      RaftCodec.lastApplied_round]
  · rw [readOr_congr (get?_insert_of_ne _ _ (by decide)), readOr_insert_self,
      RaftCodec.membership_round]
  intro key
  rw [get?_insert_of_ne _ _ (smDataKey_ne_snapshot key),
    get?_insert_of_ne _ _ (smDataKey_ne_membership key),
    get?_insert_of_ne _ _ (smDataKey_ne_last key)]
  exact hm key

end Install

section Recovery

variable {Bytes Membership : Type} [Codec Bytes] [DecidableEq Bytes]
  [RaftCodec Bytes Membership] [Inhabited Membership]

/-- How far the call in progress has come, seen from the state that is durable
before it commits. -/
def Phase.InStep (kv : Store Bytes) (state : SnapshotPayload Bytes Membership) :
    Phase Bytes Membership → Prop
  | .down => True
  | .idle inner => inner = state
  | .applying entries acc => acc = entries.foldl applyLoop ⟨state, [], false, []⟩
  | .listed _ bytes payload keys =>
      RaftCodec.payloadFromSlice bytes = .ok payload ∧ keys = listPrefix kv SM_DATA_PREFIX
  | .installed payload => payload = state

/-- The store holds the fold of the history, and the process agrees with it. -/
structure System.Consistent (system : System Bytes Membership) : Prop where
  durable : Reflects system.kv (foldEntries system.base system.log)
  inStep : system.phase.InStep system.kv (foldEntries system.base system.log)

theorem System.Consistent.initial : (System.initial : System Bytes Membership).Consistent :=
  ⟨⟨rfl, rfl, fun _ => rfl⟩, trivial⟩

variable {system : System Bytes Membership}

theorem System.Consistent.proceed (consistent : system.Consistent) : system.proceed.Consistent := by
  rcases system with ⟨kv, p, b, log⟩
  rcases consistent with ⟨durable, inStep⟩
  cases p with
  | down | idle | installed => exact ⟨durable, inStep⟩
  | applying es acc =>
    have ha : Accumulated (foldEntries b log) es acc :=
      inStep ▸ accumulated_foldl (foldEntries b log) es
    have hf : acc.inner = foldEntries b (log ++ es) := by
      rw [foldEntries_append]
      exact ha.inner
    exact ⟨hf ▸ durable.commit ha, hf⟩
  | listed sm bs pl k =>
    have listed : ∀ key, (kv.get? (smDataKey key)).isSome → smDataKey key ∈ k := by
      intro key stored
      rw [inStep.2, mem_listPrefix_iff]
      exact ⟨stored, prefix_append _ _⟩
    exact ⟨reflects_install kv listed sm bs pl, rfl⟩

theorem System.Consistent.apply (hc : system.Consistent)
    (es : List (Entry Bytes Membership)) : (system.apply es).Consistent := by
  rcases system with ⟨kv, p, b, log⟩
  cases p with
  | idle i =>
    have hcu : i = foldEntries b log := hc.inStep
    subst hcu
    exact ⟨hc.durable, rfl⟩
  | down | applying | listed | installed => exact hc

theorem System.Consistent.installSnapshot (hc : system.Consistent)
    (sm : SnapshotMeta Membership) (bs : Bytes) : (system.installSnapshot sm bs).Consistent := by
  unfold System.installSnapshot
  split
  · rename_i decoded
    exact ⟨hc.durable, decoded, rfl⟩
  · exact hc

omit [Codec Bytes] [DecidableEq Bytes] in
theorem listPrefix_writeBatch_elsewhere (kv : Store Bytes) {w : List (KvWrite Bytes)}
    (ho : ∀ write ∈ w, ¬IsStateKey write.key) :
    listPrefix (writeBatch kv w) SM_DATA_PREFIX = listPrefix kv SM_DATA_PREFIX := by
  refine congrArg (map Prod.fst) (scan_congr fun key hb => ?_)
  exact get?_writeBatch_elsewhere kv ho (.inr (.inr hb))

theorem System.Consistent.writeElsewhere (hc : system.Consistent)
    (w : List (KvWrite Bytes)) : (system.writeElsewhere w).Consistent := by
  unfold System.writeElsewhere
  split_ifs with ho
  · rcases system with ⟨kv, p, b, log⟩
    refine ⟨hc.durable.elsewhere ho, ?_⟩
    cases p with
    | listed sm bs pl k =>
      refine ⟨hc.inStep.1, hc.inStep.2.trans ?_⟩
      exact (listPrefix_writeBatch_elsewhere kv ho).symm
    | down | idle | applying | installed => exact hc.inStep
  · exact hc

theorem System.Consistent.restart (hc : system.Consistent) : system.restart.Consistent := by
  unfold System.restart
  split
  · rename_i i _ opened
    exact ⟨hc.durable, Except.ok.inj (opened.symm.trans hc.durable.opens)⟩
  · exact hc

theorem System.Consistent.step (hc : system.Consistent) (ev : Event Bytes Membership) :
    (system.step ev).Consistent := by
  cases ev with
  | apply es => exact hc.apply es
  | installSnapshot sm bs => exact hc.installSnapshot sm bs
  | proceed => exact hc.proceed
  | writeElsewhere w => exact hc.writeElsewhere w
  | crash => exact ⟨hc.durable, trivial⟩
  | restart => exact hc.restart

theorem consistent_run (evs : List (Event Bytes Membership)) :
    (durableMachine.final System.initial evs : System Bytes Membership).Consistent :=
  Machine.invariant_always (fun _ ev hc => hc.step ev) System.Consistent.initial evs

/-- What the call in progress still does when nothing interrupts it. -/
def Phase.finish : Phase Bytes Membership → List (Event Bytes Membership)
  | .down => [.restart]
  | .idle _ => []
  | .applying _ _ => [.proceed]
  | .listed _ _ _ _ => [.proceed, .proceed]
  | .installed _ => [.proceed]

/-- What is asked again of a restarted process: the call in progress, unless
it has committed. -/
def Phase.redo : Phase Bytes Membership → List (Event Bytes Membership)
  | .applying entries _ => [.apply entries, .proceed]
  | .listed snapshotMeta bytes _ _ =>
      [.installSnapshot snapshotMeta bytes, .proceed, .proceed]
  | _ => []

omit [RaftCodec Bytes Membership] [Inhabited Membership] in
theorem foldEntries_lastApplied (b : SnapshotPayload Bytes Membership)
    (log : List (Entry Bytes Membership)) :
    (foldEntries b log).lastApplied = (log.getLast?.map Entry.logId).or b.lastApplied := by
  induction log using reverseRecOn with
  | nil => rfl
  | append_singleton es e _ =>
    rw [foldEntries_append, getLast?_concat]
    rcases e with ⟨li, pl⟩
    cases pl <;> rfl

/-- Restarting after a crash and asking again ends where finishing the call
would have. -/
theorem System.Consistent.redo_eq_finish (consistent : system.Consistent) :
    durableMachine.final system (.crash :: .restart :: system.phase.redo) =
      durableMachine.final system system.phase.finish := by
  rcases system with ⟨kv, p, b, log⟩
  have opened : openStateMachine kv = .ok (foldEntries b log) := consistent.durable.opens
  have hr : (System.mk kv .down b log).restart = ⟨kv, .idle (foldEntries b log), b, log⟩ := by
    simp only [System.restart, opened]
  have inStep : p.InStep kv (foldEntries b log) := consistent.inStep
  cases p with
  | down => rfl
  | idle i | installed i =>
    rw [show i = foldEntries b log from inStep]
    exact hr
  | applying es acc =>
    rw [show acc = es.foldl applyLoop ⟨foldEntries b log, [], false, []⟩ from inStep]
    exact congrArg (fun next => (System.apply next es).proceed) hr
  | listed sm bs pl k =>
    rcases inStep with ⟨decoded, rfl⟩
    have listed : System.installSnapshot ⟨kv, .idle (foldEntries b log), b, log⟩ sm bs =
        ⟨kv, .listed sm bs pl (listPrefix kv SM_DATA_PREFIX), b, log⟩ := by
      simp only [System.installSnapshot, decoded]
    rw [← hr] at listed
    exact congrArg (fun next => (System.proceed next).proceed) listed

/-- In every state of every run, with crashes between any two calls to the
store: opening the store yields the fold of the entries applied since the last
installed snapshot; the recovered cursor is that of the last of them; and a
crash, a restart and the call in progress asked again lead to the very state an
uninterrupted process reaches, after any further events. -/
theorem recovery_restores_applied_state (events more : List (Event Bytes Membership)) :
    let system := durableMachine.final System.initial events
    openStateMachine system.kv = .ok (foldEntries system.base system.log) ∧
      (foldEntries system.base system.log).lastApplied =
        (system.log.getLast?.map Entry.logId).or system.base.lastApplied ∧
      durableMachine.final system (.crash :: .restart :: system.phase.redo ++ more) =
        durableMachine.final system (system.phase.finish ++ more) := by
  intro system
  have hc : system.Consistent := consistent_run events
  refine ⟨hc.durable.opens, foldEntries_lastApplied _ _, ?_⟩
  rw [Machine.final_append, Machine.final_append, hc.redo_eq_finish]

end Recovery

/-- Byte strings by what they encode. -/
inductive RaftBytes where
  | value (stored : Stored)
  | lastApplied (last : Option LogId)
  | membership (stored : StoredMembership (List UInt64))
  | payload (last : Option LogId) (stored : StoredMembership (List UInt64))
      (entries : List (Text × Stored))

def RaftBytes.stored : RaftBytes → Stored
  | .value stored => stored
  | _ => .empty

instance : Codec RaftBytes where
  empty := .value Codec.empty
  recordToVec record := .value (Codec.recordToVec record)
  recordFromSlice bytes := Codec.recordFromSlice bytes.stored
  groupToVec state := .value (Codec.groupToVec state)
  groupFromSlice bytes := Codec.groupFromSlice bytes.stored
  intoBytes text := .value (Codec.intoBytes text)
  fromUtf8Lossy bytes := Codec.fromUtf8Lossy bytes.stored
  record_round _ := rfl
  group_round _ := rfl
  text_round _ := rfl

instance : RaftCodec RaftBytes (List UInt64) where
  lastAppliedToVec := .lastApplied
  lastAppliedFromSlice
    | .lastApplied last => .ok last
    | _ => .error []
  membershipToVec := .membership
  membershipFromSlice
    | .membership stored => .ok stored
    | _ => .error []
  payloadFromSlice
    | .payload last stored ents =>
      .ok ⟨last, stored, ents.foldl (fun map (key, v) => map.insert key (.value v)) .empty⟩
    | _ => .error []
  storedSnapshotToVec _ bytes := bytes
  lastApplied_round _ := rfl
  membership_round _ := rfl

end BoatRamp.Cluster

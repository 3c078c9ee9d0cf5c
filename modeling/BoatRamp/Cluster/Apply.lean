import BoatRamp.Library.Machine
import BoatRamp.Messaging.Ids
import BoatRamp.Messaging.Plan

/-!
# The replicated state machine

`applyOp` applies one committed `WriteOp` to the applied key/value map.  It is
the only code that changes the map, on every replica, so what it does for every
sequence of operations is what the cluster does.

An `ApplyTarget` carries, besides the map, the mutations made to it.  The
persistent state machine writes these through to its own store.
-/

namespace BoatRamp.Cluster

open Library Messaging SortedMap

/-- An operation proposed to the cluster. -/
inductive WriteOp (Bytes : Type) where
  | put (key : Text) (value : Bytes)
  | delete (key : Text)
  | batch (ops : List (WriteOp Bytes))
  | compareAndSwap (key : Text) (expected : Option Bytes) (value : Bytes)
  | mqPublish (topic id : Text) (retain : Bool) (signedContext : Option Text)
      (inline : Option (List UInt8)) (notBeforeMs expiresAtMs : UInt64) (priority : UInt8)
  | mqClaim (topic : Text) (nowMs leaseMs : UInt64) (maxBatch maxAttempts : UInt32)
  | mqAck (topic id : Text)
  | mqNack (topic id : Text) (untilMs : UInt64)
  | mqSetLastError (topic id reason : Text)
  | mqClaimGrouped (topic group : Text) (start : StartPosition) (nowMs leaseMs : UInt64)
      (maxBatch maxAttempts : UInt32)
  | mqAckGrouped (topic group id : Text)
  | mqNackGrouped (topic group id : Text) (untilMs : UInt64)
  | mqRedriveGroupedDead (topic group id : Text)
  | mqResetGroup (topic group : Text) (start : StartPosition)
  | mqDeleteGroup (topic group : Text)
  | mqSetPaused (topic : Text) (paused : Bool)
  | mqSweepGrouped (topic : Text) (nowMs : UInt64)
  | meshAdmit (jti : Text) (node : UInt64) (pubkeyHex : Text) (addr : Option Text)

structure ClaimedRecord where
  id : Text
  attempts : UInt32
  signedContext : Option Text
  inline : Option (List UInt8)

inductive AdmitOutcome where
  | admitted
  | spent
  | revoked

inductive WriteResponse where
  | kv
  | claimed (records : List ClaimedRecord)
  | cas (swapped : Bool)
  | reclaimed (ids : List Text)
  | admitted (outcome : AdmitOutcome)

def WriteResponse.claimedIds : WriteResponse → List Text
  | .claimed records => records.map ClaimedRecord.id
  | _ => []

/-- The applied map with the mutations made to it so far. -/
structure ApplyTarget (Bytes : Type) where
  data : Store Bytes
  muts : List (KvWrite Bytes)

namespace ApplyTarget

variable {Bytes : Type}

def new (data : Store Bytes) : ApplyTarget Bytes := ⟨data, []⟩

def put (target : ApplyTarget Bytes) (key : Text) (value : Bytes) : ApplyTarget Bytes where
  data := target.data.insert key value
  muts := target.muts ++ [.put key value]

variable (target : ApplyTarget Bytes)

def remove (key : Text) : ApplyTarget Bytes where
  data := target.data.erase key
  muts := target.muts ++ [.delete key]

def putNew (key : Text) (value : Bytes) : ApplyTarget Bytes :=
  if target.data.contains key then target else target.put key value

def removeAll (keys : List Text) : ApplyTarget Bytes :=
  keys.foldl remove target

@[simp]
theorem new_data (d : Store Bytes) : (new d).data = d := rfl

variable (tg : ApplyTarget Bytes) (key : Text) (value : Bytes)

@[simp]
theorem put_data : (tg.put key value).data = tg.data.insert key value := rfl

@[simp]
theorem remove_data : (tg.remove key).data = tg.data.erase key := rfl

theorem get?_putNew (o : Text) : (tg.putNew key value).data.get? o =
      if o = key then some ((tg.data.get? key).getD value)
      else tg.data.get? o := by
  unfold putNew contains
  split
  · rename_i present
    rcases Option.isSome_iff_exists.mp present with ⟨sd, hf⟩
    split
    · rename_i same
      rw [same, hf]
      rfl
    · rfl
  rename_i absent
  have hm : tg.data.get? key = none := by simpa using absent
  rw [put_data, get?_insert, hm]
  simp only [Option.getD_none]
  split_ifs <;> rfl

@[simp]
theorem contains_putNew (o : Text) : (tg.putNew key value).data.contains o =
      (decide (o = key) || tg.data.contains o) := by
  unfold contains
  rw [get?_putNew]
  by_cases hs : o = key <;> simp [hs]

theorem get?_removeAll (k : List Text) (key : Text) :
    (tg.removeAll k).data.get? key = if key ∈ k then none else tg.data.get? key := by
  unfold removeAll
  induction k generalizing tg with
  | nil => simp
  | cons x rest ih =>
    rw [List.foldl_cons, ih, remove_data, get?_erase]
    by_cases hs : key = x <;> simp [hs]

end ApplyTarget

def TRUST_PREFIX : Text := "mesh/trust/".toList
def JOIN_USED_PREFIX : Text := "mesh/join/used/".toList
def REVOKED_PREFIX : Text := "mesh/revoked/".toList
def ADDR_PREFIX : Text := "mesh/addr/".toList

def trustKeyHex (node : UInt64) (pubkeyHex : Text) : Text :=
  TRUST_PREFIX ++ joined (Nat.toDigits 10 node.toNat) pubkeyHex

def revokedKey (pubkeyHex : Text) : Text := REVOKED_PREFIX ++ pubkeyHex

def addrKey (node : UInt64) : Text := ADDR_PREFIX ++ Nat.toDigits 10 node.toNat

section Apply

variable {Bytes : Type} [Codec Bytes]

def publishedRecord (signedContext : Option Text) (inline : Option (List UInt8))
    (notBeforeMs expiresAtMs : UInt64) (priority : UInt8) : Record :=
  { Record.fresh signedContext with
    inline := inline
    leaseUntilMs := notBeforeMs
    expiresAtMs := expiresAtMs
    priority := priority }

variable (target : ApplyTarget Bytes) (data : Store Bytes) (topic : Text)

/-- Append the fan-out log entry and advance the topic's gate. -/
def retainPublished (topic id : Text) : ApplyTarget Bytes :=
  let target := target.putNew (glogKey topic id) Codec.empty
  if readText target.data (logmaxKey topic) < id then
    target.put (logmaxKey topic) (Codec.intoBytes id)
  else target

def applyMqPublish (topic id : Text) (retain : Bool)
    (record : Record) : ApplyTarget Bytes :=
  -- An existing record, possibly already claimed, is never overwritten.
  let target := target.putNew (metaKey topic id) (Codec.recordToVec record)
  let target := target.put (readyKey topic) Codec.empty
  if retain then retainPublished target topic id else target

def topicRecords : List (Text × Record) :=
  (directChildren data (metaPrefix topic)).filterMap fun entry =>
    (Codec.recordFromSlice entry.2).toOption.map fun record => (entry.1, record)

def applyClaimActions (topic : Text) :
    List ClaimAction → ApplyTarget Bytes → ApplyTarget Bytes × List ClaimedRecord
  | [], target => (target, [])
  | .lease id record :: rest, target =>
      let out := applyClaimActions topic rest
        (target.put (metaKey topic id) (Codec.recordToVec record))
      (out.1, ⟨id, record.attempts, record.signedContext, record.inline⟩ :: out.2)
  | .deadLetter id record :: rest, target =>
      applyClaimActions topic rest
        ((target.put (deadKey topic id) (Codec.recordToVec record)).remove (metaKey topic id))

def topicHasGroupsApplied : Bool :=
  !(directChildren data (gstatePrefix topic)).isEmpty

/-- Drop the ready marker once the work queue is empty and has no groups. -/
def pruneReady : ApplyTarget Bytes :=
  if (directChildren target.data (metaPrefix topic)).isEmpty &&
      !topicHasGroupsApplied target.data topic then
    target.remove (readyKey topic)
  else target

def applyMqClaim (nowMs leaseMs : UInt64)
    (maxBatch : Nat) (maxAttempts : UInt32) : ApplyTarget Bytes × List ClaimedRecord :=
  let actions := planClaim (topicRecords target.data topic) nowMs leaseMs maxBatch maxAttempts
  let out := applyClaimActions topic actions target
  (pruneReady out.1 topic, out.2)

def applyMqNack (topic id : Text) (untilMs : UInt64) :
    ApplyTarget Bytes :=
  match readRecord target.data (metaKey topic id) with
  | none => target
  | some record =>
      (target.put (metaKey topic id)
        (Codec.recordToVec { record with leaseUntilMs := untilMs })).put
        (readyKey topic) Codec.empty

def applyMqSetLastError (topic id reason : Text) :
    ApplyTarget Bytes :=
  match readRecord target.data (metaKey topic id) with
  | none => target
  | some record =>
      target.put (metaKey topic id)
        (Codec.recordToVec { record with lastError := some reason })

def putGroupState (topic group : Text) (state : GroupState) :
    ApplyTarget Bytes :=
  target.put (gstateKey topic group) (Codec.groupToVec state)

def startHwm : StartPosition → Text
  | .latest => readText data (logmaxKey topic)
  | .earliest => []

/-- The loop collecting new log ids stops once the batch is full, which it
checks only after taking an id. -/
def takeBatch (maxBatch : Nat) : List Text → (taken : Nat) → List Text
  | [], _ => []
  | id :: rest, taken =>
      if maxBatch ≤ taken + 1 then [id] else id :: takeBatch maxBatch rest (taken + 1)

/-- The fan-out log ids strictly after the high-water, capped at the batch. -/
def newLogIds (topic hwm : Text) (maxBatch : Nat) : List Text :=
  if hwm < readText data (logmaxKey topic) then
    let entries := (data.scanFrom (glogPrefix topic) (glogPrefix topic ++ hwm)).filter
      (fun entry => isDirectChild entry.1 (glogPrefix topic))
    let ids := entries.map fun entry => entry.1.drop (glogPrefix topic).length
    takeBatch maxBatch (ids.filter fun id => hwm < id) 0
  else []

def signedContextOf (topic id : Text) : Option Text :=
  (readRecord data (metaKey topic id)).bind Record.signedContext

def groupedDeadRecord (attempts : UInt32) (signedContext : Option Text) : Record where
  version := SCHEMA_VERSION
  attempts := attempts
  leaseUntilMs := 0
  signedContext := signedContext
  inline := none
  lastError := none
  expiresAtMs := 0
  priority := 0

def putGroupedDead (topic group : Text) (target : ApplyTarget Bytes)
    (entry : Text × UInt32) : ApplyTarget Bytes :=
  target.put (gdeadKey topic group entry.1)
    (Codec.recordToVec (groupedDeadRecord entry.2 (signedContextOf target.data topic entry.1)))

def applyMqClaimGrouped (topic group : Text)
    (start : StartPosition) (nowMs leaseMs : UInt64) (maxBatch : Nat) (maxAttempts : UInt32) :
    ApplyTarget Bytes × List ClaimedRecord :=
  let loaded := loadGroupState target.data topic group
  let state := loaded.getD (.new (startHwm target.data topic start))
  let newIds := newLogIds target.data topic state.hwm maxBatch
  let plan := planClaimGrouped state nowMs leaseMs maxBatch maxAttempts newIds
  let target := plan.2.dead.foldl (putGroupedDead topic group) target
  let target :=
    if loaded.isNone || !plan.2.leased.isEmpty || !plan.2.dead.isEmpty then
      putGroupState target topic group plan.1
    else target
  (target, plan.2.leased.map fun entry =>
    ⟨entry.1, entry.2, signedContextOf target.data topic entry.1, none⟩)

def applyMqAckGrouped (topic group id : Text) :
    ApplyTarget Bytes :=
  match loadGroupState target.data topic group with
  | none => target
  | some state =>
      let retained := state.inFlight.filter fun entry => entry.id ≠ id
      if retained.length ≠ state.inFlight.length then
        putGroupState target topic group { state with inFlight := retained }
      else target

def applyMqNackGrouped (topic group id : Text)
    (untilMs : UInt64) : ApplyTarget Bytes :=
  match loadGroupState target.data topic group with
  | none => target
  | some state =>
      match releaseFirst id untilMs state.inFlight with
      | none => target
      | some inFlight =>
          (putGroupState target topic group { state with inFlight := inFlight }).put
            (readyKey topic) Codec.empty

def applyMqRedriveGroupedDead (topic group id : Text) :
    ApplyTarget Bytes :=
  -- A deregistered group comes back at the current log head.
  let state := (loadGroupState target.data topic group).getD
    (.new (readText target.data (logmaxKey topic)))
  let target := putGroupState target topic group (state.rearm id)
  (target.remove (gdeadKey topic group id)).put (readyKey topic) Codec.empty

def applyMqResetGroup (topic group : Text)
    (start : StartPosition) : ApplyTarget Bytes :=
  if (loadGroupState target.data topic group).isSome then
    putGroupState target topic group (.new (startHwm target.data topic start))
  else target

def applyMqDeleteGroup (topic group : Text) :
    ApplyTarget Bytes :=
  let dead := (target.data.scan (gdeadKey topic group [])).map Prod.fst
  (target.removeAll dead).remove (gstateKey topic group)

def applyMqSetPaused (paused : Bool) :
    ApplyTarget Bytes :=
  if paused then target.put (pauseKey topic) Codec.empty else target.remove (pauseKey topic)

def groupStates : List GroupState :=
  (directChildren data (gstatePrefix topic)).filterMap fun entry =>
    (Codec.groupFromSlice entry.2).toOption

def glogIds : List Text :=
  (directChildren data (glogPrefix topic)).map Prod.fst

def groupedDeadIds : List Text :=
  (data.scan (gdeadTopicPrefix topic)).filterMap fun entry =>
    (splitGroupId (entry.1.drop (gdeadTopicPrefix topic).length)).map Prod.snd

def reclaimable (nowMs : UInt64) (id : Text) : Bool :=
  let pinned := (groupedDeadIds data topic).contains id
  let needed := groupedMessageNeeded (groupStates data topic) id
  let expired := decide (idMillis id + GROUP_RETENTION_MS < nowMs)
  !pinned && (!needed || expired)

def applyMqSweepGrouped (nowMs : UInt64) :
    ApplyTarget Bytes × List Text :=
  let reclaimed := (glogIds target.data topic).filter (reclaimable target.data topic nowMs)
  (target.removeAll (reclaimed.map (glogKey topic)), reclaimed)

def applyMeshAdmit (jti : Text) (node : UInt64)
    (pubkeyHex : Text) (addr : Option Text) : ApplyTarget Bytes × AdmitOutcome :=
  if target.data.contains (revokedKey pubkeyHex) then (target, .revoked)
  else if target.data.contains (JOIN_USED_PREFIX ++ jti) then (target, .spent)
  else
    let target := target.put (JOIN_USED_PREFIX ++ jti) Codec.empty
    let target := target.put (trustKeyHex node pubkeyHex) Codec.empty
    match addr with
    | none => (target, .admitted)
    | some addr => (target.put (addrKey node) (Codec.intoBytes addr), .admitted)

variable [DecidableEq Bytes]

mutual

def applyOp (target : ApplyTarget Bytes) : WriteOp Bytes → ApplyTarget Bytes × WriteResponse
  | .put key value => (target.put key value, .kv)
  | .delete key => (target.remove key, .kv)
  | .batch ops => (applyBatch target ops, .kv)
  | .compareAndSwap key expected value =>
      if target.data.get? key = expected then (target.put key value, .cas true)
      else (target, .cas false)
  | .mqPublish topic id retain signedContext inline notBeforeMs expiresAtMs priority =>
      (applyMqPublish target topic id retain
        (publishedRecord signedContext inline notBeforeMs expiresAtMs priority), .kv)
  | .mqClaim topic nowMs leaseMs maxBatch maxAttempts =>
      let out := applyMqClaim target topic nowMs leaseMs maxBatch.toNat maxAttempts
      (out.1, .claimed out.2)
  | .mqAck topic id => (target.remove (metaKey topic id), .kv)
  | .mqNack topic id untilMs => (applyMqNack target topic id untilMs, .kv)
  | .mqSetLastError topic id reason => (applyMqSetLastError target topic id reason, .kv)
  | .mqClaimGrouped topic group start nowMs leaseMs maxBatch maxAttempts =>
      let out := applyMqClaimGrouped target topic group start nowMs leaseMs maxBatch.toNat
        maxAttempts
      (out.1, .claimed out.2)
  | .mqAckGrouped topic group id => (applyMqAckGrouped target topic group id, .kv)
  | .mqNackGrouped topic group id untilMs =>
      (applyMqNackGrouped target topic group id untilMs, .kv)
  | .mqRedriveGroupedDead topic group id =>
      (applyMqRedriveGroupedDead target topic group id, .kv)
  | .mqResetGroup topic group start => (applyMqResetGroup target topic group start, .kv)
  | .mqDeleteGroup topic group => (applyMqDeleteGroup target topic group, .kv)
  | .mqSetPaused topic paused => (applyMqSetPaused target topic paused, .kv)
  | .mqSweepGrouped topic nowMs =>
      let out := applyMqSweepGrouped target topic nowMs
      (out.1, .reclaimed out.2)
  | .meshAdmit jti node pubkeyHex addr =>
      let out := applyMeshAdmit target jti node pubkeyHex addr
      (out.1, .admitted out.2)

def applyBatch (target : ApplyTarget Bytes) : List (WriteOp Bytes) → ApplyTarget Bytes
  | [] => target
  | op :: rest => applyBatch (applyOp target op).1 rest

end

/-- The replicated state machine: each committed operation is applied to the
map in turn. -/
def stateMachine : Machine (Store Bytes) (WriteOp Bytes) WriteResponse where
  step data op :=
    let out := applyOp (.new data) op
    (out.1.data, out.2)

end Apply

end BoatRamp.Cluster

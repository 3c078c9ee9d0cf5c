import BoatRamp.Cluster.Apply
import BoatRamp.Node.Log

/-!
# The cluster queue

`RaftMessaging` is the queue of one cluster node: payloads go to shared object
storage, every change of the index is a proposal.  A proposal here is applied
before the call goes on, as it is for a caller that waits for it.
-/

namespace BoatRamp.Cluster

open Library Messaging Node

structure RaftMessaging (Bytes : Type) where
  storage : Storage
  /-- This node's applied state. -/
  state : Store Bytes
  nodeId : UInt64
  seq : UInt64
  inlineInflightBytes : Nat

namespace RaftMessaging

section Plain

variable {Bytes : Type}

def new (storage : Storage) (state : Store Bytes) (nodeId : UInt64) : RaftMessaging Bytes where
  storage := storage
  state := state
  nodeId := nodeId
  seq := 0
  inlineInflightBytes := 0

variable (cluster : RaftMessaging Bytes)

def isPaused (topic : Text) : Bool :=
  cluster.state.contains (pauseKey topic)

def publishOp (publication : Publication) (minted : Minted) : WriteOp Bytes :=
  .mqPublish publication.topic minted.id minted.retain publication.signedContext
    (if minted.inline then some publication.payload else none) publication.notBeforeMs
    publication.expiresAtMs publication.priority

def releaseInline (bytes : Nat) : RaftMessaging Bytes :=
  { cluster with inlineInflightBytes := cluster.inlineInflightBytes - bytes }

def deleteObject (key : Text) : RaftMessaging Bytes :=
  { cluster with storage := cluster.storage.erase key }

def deliverRecord (storage : Storage) (topic : Text) (record : ClaimedRecord) :
    Except MessagingError ClaimedMessage :=
  let payload : Except MessagingError Payload := match record.inline with
    | some bytes => .ok bytes
    | none => readStorage storage (payloadKey topic record.id)
  payload.map fun payload => ⟨record.id, topic, payload, record.attempts, [],
    record.signedContext, record.inline.isSome⟩

end Plain

section Proposals

variable {Bytes : Type} [Codec Bytes] (state : Store Bytes) (topic : Text)

def collectDeadLetters : List DeadLetter :=
  let work := (directChildren state (deadPrefix topic)).filterMap fun entry =>
    (Codec.recordFromSlice entry.2).toOption.map (DeadLetter.of [] entry.1)
  let grouped := (state.scan (gdeadTopicPrefix topic)).filterMap fun entry =>
    (splitGroupId (entry.1.drop (gdeadTopicPrefix topic).length)).bind fun name =>
      (Codec.recordFromSlice entry.2).toOption.map (DeadLetter.of name.1 name.2)
  (work ++ grouped).insertionSort fun first second => first.id ≤ second.id

/-- The operations that re-arm a dead letter: a publish of what its record
carries, at normal priority, and the removal of the record. -/
def rearmOps (topic id : Text) : List (WriteOp Bytes) :=
  let record := readRecord state (deadKey topic id)
  [.mqPublish topic id false (record.bind Record.signedContext) (record.bind Record.inline) 0 0 0,
    .delete (deadKey topic id)]

def redriveOps (letter : DeadLetter) :
    List (WriteOp Bytes) :=
  if letter.group = [] then rearmOps state topic letter.id
  else [.mqRedriveGroupedDead topic letter.group letter.id]

def inlineLength (topic id : Text) : Option Nat :=
  ((readRecord state (deadKey topic id)).bind Record.inline).map List.length

def objectIds (ids : List Text) : List Text :=
  ids.filter fun id => (inlineLength state topic id).isNone

def inlineRelease (ids : List Text) : Nat :=
  (ids.filterMap (inlineLength state topic)).sum

variable [DecidableEq Bytes] (cluster : RaftMessaging Bytes)

def propose (op : WriteOp Bytes) :
    RaftMessaging Bytes × WriteResponse :=
  let out := stateMachine.step cluster.state op
  ({ cluster with state := out.1 }, out.2)

def publishAs (publication : Publication) (minted : Minted) :
    RaftMessaging Bytes :=
  ({ cluster with storage := storePayload cluster.storage publication minted }.propose
    (.batch [publishOp publication minted])).1

def claim (cluster : RaftMessaging Bytes) (nowMs : UInt64) (topic : Text) (lease : Duration)
    (maxBatch : Nat) (maxAttempts : UInt32) :
    RaftMessaging Bytes × Except MessagingError (List ClaimedMessage) :=
  if cluster.isPaused topic then (cluster, .ok [])
  else
    let out := cluster.propose
      (.mqClaim topic nowMs (Duration.asMillis lease) (UInt32.ofNat maxBatch) maxAttempts)
    match out.2 with
    | .claimed records => (out.1, records.mapM (deliverRecord out.1.storage topic))
    | _ => (out.1, .error (.backend "claim proposal returned a non-claim response".toList))

def ack (cluster : RaftMessaging Bytes) (message : ClaimedMessage) : RaftMessaging Bytes :=
  if message.group ≠ [] then
    (cluster.propose (.mqAckGrouped message.topic message.group message.id)).1
  else
    let cluster := (cluster.propose (.mqAck message.topic message.id)).1
    if message.inline then cluster.releaseInline message.payload.length
    else cluster.deleteObject (payloadKey message.topic message.id)

variable (nowMs : UInt64) (topic : Text)

def nackAfter (message : ClaimedMessage)
    (delayMs : UInt64) : RaftMessaging Bytes :=
  let untilMs := nackUntil nowMs delayMs
  if message.group ≠ [] then
    (cluster.propose (.mqNackGrouped message.topic message.group message.id untilMs)).1
  else (cluster.propose (.mqNack message.topic message.id untilMs)).1

def setLastError (message : ClaimedMessage) (reason : Text) :
    RaftMessaging Bytes :=
  if message.group ≠ [] then cluster
  else (cluster.propose (.mqSetLastError message.topic message.id (sanitizeReason reason))).1

def redriveDeadLetters :
    RaftMessaging Bytes × Nat :=
  let ids := deadIds cluster.state topic
  let grouped := groupedDead cluster.state topic
  if ids = [] ∧ grouped = [] then (cluster, 0)
  else
    let ops := ids.flatMap (rearmOps cluster.state topic) ++
      grouped.map fun name => .mqRedriveGroupedDead topic name.1 name.2
    ((cluster.propose (.batch ops)).1, ids.length + grouped.length)

def redriveDeadLettersFiltered (filter : DeadLetterFilter) : RaftMessaging Bytes × Nat :=
  let matched := filter.select (collectDeadLetters cluster.state topic) nowMs
  if matched = [] then (cluster, 0)
  else ((cluster.propose (.batch (matched.flatMap (redriveOps cluster.state topic)))).1,
    matched.length)

/-- Remove dead letters in one proposal, then free the payloads of those on the
work queue.  Where the payloads are is read before the records go. -/
def removeDead (ids : List Text)
    (deletes : List (WriteOp Bytes)) : RaftMessaging Bytes :=
  let objects := objectIds cluster.state topic ids
  let release := inlineRelease cluster.state topic ids
  let cluster := (cluster.propose (.batch deletes)).1
  (objects.foldl (fun cluster id => cluster.deleteObject (payloadKey topic id))
    cluster).releaseInline release

def purgeDeadLetters :
    RaftMessaging Bytes × Nat :=
  let ids := deadIds cluster.state topic
  let grouped := groupedDead cluster.state topic
  if ids = [] ∧ grouped = [] then (cluster, 0)
  else
    (cluster.removeDead topic ids (ids.map (fun id => .delete (deadKey topic id)) ++
      grouped.map fun name => .delete (gdeadKey topic name.1 name.2)),
      ids.length + grouped.length)

def discardDeadLetters (filter : DeadLetterFilter) : RaftMessaging Bytes × Nat :=
  let matched := filter.select (collectDeadLetters cluster.state topic) nowMs
  if matched = [] then (cluster, 0)
  else
    (cluster.removeDead topic (workIds matched) (matched.map fun letter =>
      if letter.group = [] then .delete (deadKey topic letter.id)
      else .delete (gdeadKey topic letter.group letter.id)), matched.length)

end Proposals

end RaftMessaging

end BoatRamp.Cluster

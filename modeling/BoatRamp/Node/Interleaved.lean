import BoatRamp.Library.Pool
import BoatRamp.Node.Log

/-!
# Interleaved queue operations

Concurrent callers share the single-node queue.  An operation is split at its
calls to the key/value store and to object storage; between two of them any
other operation may run.  The claim lock is taken by claims and by grouped acks
and nacks only, and the commit gate by the commit of a publish and by a claim
that looks whether a topic is drained.  A task that waits for a lock stays
where it is.
-/

namespace BoatRamp.Node

open Library Messaging

structure Shared (Bytes : Type) where
  node : LogMessaging Bytes
  claimLock : Bool
  commitGate : Bool
  delivered : List ClaimedMessage

structure ClaimRequest where
  topic : Text
  lease : Duration
  maxBatch : Nat
  maxAttempts : UInt32

inductive Call where
  | publish (publication : Publication)
  | claim (request : ClaimRequest)
  | ack (message : ClaimedMessage)
  | nackAfter (message : ClaimedMessage) (delayMs : UInt64)
  | setLastError (message : ClaimedMessage) (reason : Text)

/-- How a settling call changes the record it has read. -/
inductive Rewrite where
  | nack (untilMs : UInt64)
  | lastError (reason : Text)

/-- Where an operation is between two of its steps. -/
inductive Task where
  | start (call : Call)
  /-- A publish about to store its payload. -/
  | storing (publication : Publication) (minted : Minted)
  /-- A publish about to store the fan-out copy. -/
  | retaining (publication : Publication) (minted : Minted)
  /-- A publish about to read how far the log reaches. -/
  | gating (publication : Publication) (minted : Minted)
  | committing (publication : Publication) (minted : Minted) (logmax : Text)
  /-- A claim waiting for the claim lock. -/
  | entering (request : ClaimRequest)
  /-- A claim reading the records of the listed keys, kept without the part
  they all start with. -/
  | loading (request : ClaimRequest) (nowMs : UInt64) (suffixes : List Text)
      (records : List (Text × Record))
  /-- A claim reading the payloads of what it plans to lease. -/
  | reading (topic : Text) (done pending : List ClaimAction) (claimed : List ClaimedMessage)
      (drained : Bool)
  /-- A claim about to look for consumer groups. -/
  | checking (topic : Text) (claimed : List ClaimedMessage)
  /-- A claim waiting for the commit gate. -/
  | pruning (topic : Text) (claimed : List ClaimedMessage)
  /-- A claim about to delete the ready marker, holding the gate. -/
  | unmarking (topic : Text) (claimed : List ClaimedMessage)
  /-- An ack about to delete the payload. -/
  | dropping (message : ClaimedMessage)
  /-- A nack, or a note of the last error, about to write its record back. -/
  | rewriting (topic id : Text) (rewrite : Rewrite) (record : Record)
  /-- A grouped ack or nack about to write the group state; a nack also marks
  the topic as having work. -/
  | regrouping (topic group : Text) (state : GroupState) (rearms : Bool)

variable {Bytes : Type} [Codec Bytes]

def Rewrite.writes (topic id : Text) (record : Record) : Rewrite → List (KvWrite Bytes)
  | .nack untilMs => nackWrites topic id untilMs record
  | .lastError reason => lastErrorWrites topic id reason record

/-- A step: the shared state after it, and the task's next place or its answer. -/
abbrev Stepped (Bytes : Type) := Shared Bytes × (Task ⊕ Except MessagingError Reply)

namespace Shared

omit [Codec Bytes]

variable (shared : Shared Bytes)

def withNode (node : LogMessaging Bytes) : Shared Bytes :=
  { shared with node := node }

def commit (shared : Shared Bytes) (ops : List (KvWrite Bytes)) : Shared Bytes :=
  shared.withNode (shared.node.commit ops)

def putObject (key : Text) (payload : Payload) : Shared Bytes :=
  shared.withNode { shared.node with storage := shared.node.storage.insert key payload }

def done (shared : Shared Bytes) : Stepped Bytes := (shared, .inr (.ok .done))

def failClaim (error : MessagingError) : Stepped Bytes :=
  ({ shared with claimLock := false }, .inr (.error error))

def finishClaim (claimed : List ClaimedMessage) : Stepped Bytes :=
  ({ shared with claimLock := false, delivered := shared.delivered ++ claimed },
    .inr (.ok (.claimed claimed)))

end Shared

section Steps

variable (shared : Shared Bytes)

omit [Codec Bytes] in
def startPublish (nowMs : UInt64) (publication : Publication) : Stepped Bytes :=
  let out := shared.node.mint nowMs publication.topic publication.payload
  (shared.withNode out.1,
    .inl (if out.2.inline then .committing publication out.2 [] else .storing publication out.2))

omit [Codec Bytes] in
def storePayloadStep (publication : Publication) (minted : Minted) : Stepped Bytes :=
  (shared.putObject (payloadKey publication.topic minted.id) publication.payload,
    .inl (if minted.retain then .retaining publication minted
      else .committing publication minted []))

omit [Codec Bytes] in
def retainStep (publication : Publication) (minted : Minted) : Stepped Bytes :=
  (shared.putObject (gpayloadKey publication.topic minted.id) publication.payload,
    .inl (.gating publication minted))

def commitStep (publication : Publication) (minted : Minted) (logmax : Text) : Stepped Bytes :=
  if shared.commitGate then (shared, .inl (.committing publication minted logmax))
  else (shared.commit (publishWrites publication minted logmax)).done

def enterClaim (nowMs : UInt64) (request : ClaimRequest) : Stepped Bytes :=
  if shared.claimLock then (shared, .inl (.entering request))
  else
    let scope := metaPrefix request.topic
    let suffixes := (listPrefix shared.node.kv scope).map fun key => key.drop scope.length
    ({ shared with claimLock := true }, .inl (.loading request nowMs suffixes []))

def planStep (request : ClaimRequest) (nowMs : UInt64) (records : List (Text × Record)) :
    Task :=
  let claimableBefore :=
    (records.filter fun entry => claimableNow nowMs request.maxAttempts entry.2).length
  let actions := planClaim records nowMs (Duration.asMillis request.lease) request.maxBatch
    request.maxAttempts
  let residual := claimableBefore - (actions.filter ClaimAction.isLease).length
  .reading request.topic [] actions [] (decide (residual = 0))

/-- Read one listed record; one that is gone was acked meanwhile. -/
def loadStep (request : ClaimRequest) (nowMs : UInt64) (records : List (Text × Record)) :
    List Text → Stepped Bytes
  | [] => (shared, .inl (planStep request nowMs records))
  | suffix :: rest =>
      let key := metaPrefix request.topic ++ suffix
      if isDirectChild key (metaPrefix request.topic) then
        match shared.node.kv.get? key with
        | none => (shared, .inl (.loading request nowMs rest records))
        | some raw =>
            match decodeRecord raw with
            | .error error => shared.failClaim error
            | .ok record =>
                (shared, .inl (.loading request nowMs rest (records ++ [(suffix, record)])))
      else (shared, .inl (.loading request nowMs rest records))

/-- Read the payload of one planned lease, or write all the plan once every
payload is read. -/
def readStep (topic : Text) (done : List ClaimAction) (claimed : List ClaimedMessage)
    (drained : Bool) : List ClaimAction → Stepped Bytes
  | [] =>
      let written := shared.commit (done.flatMap (actionOps topic))
      if drained then (written, .inl (.checking topic claimed)) else written.finishClaim claimed
  | action :: pending =>
      match delivery shared.node.storage topic action with
      | .error error => shared.failClaim error
      | .ok messages =>
          (shared, .inl (.reading topic (done ++ [action]) pending (claimed ++ messages) drained))

omit [Codec Bytes] in
def checkStep (topic : Text) (claimed : List ClaimedMessage) : Stepped Bytes :=
  let grouped := shared.node.topicHasGroups topic
  if grouped.2 then (shared.withNode grouped.1).finishClaim claimed
  else (shared.withNode grouped.1, .inl (.pruning topic claimed))

omit [Codec Bytes] in
def pruneStep (topic : Text) (claimed : List ClaimedMessage) : Stepped Bytes :=
  if shared.commitGate then (shared, .inl (.pruning topic claimed))
  else if (directChildren shared.node.kv (metaPrefix topic)).isEmpty then
    ({ shared with commitGate := true }, .inl (.unmarking topic claimed))
  else shared.finishClaim claimed

omit [Codec Bytes] in
def unmarkStep (topic : Text) (claimed : List ClaimedMessage) : Stepped Bytes :=
  { shared.commit [.delete (readyKey topic)] with commitGate := false }.finishClaim claimed

def groupStep (call : Call) (topic group : Text) (change : GroupState → Option GroupState)
    (rearms : Bool) : Stepped Bytes :=
  if shared.claimLock then (shared, .inl (.start call))
  else
    match getGroupState shared.node.kv topic group with
    | .error error => (shared, .inr (.error error))
    | .ok none => shared.done
    | .ok (some state) =>
        match change state with
        | none => shared.done
        | some changed =>
            ({ shared with claimLock := true }, .inl (.regrouping topic group changed rearms))

def regroupStep (topic group : Text) (state : GroupState) (rearms : Bool) : Stepped Bytes :=
  let writes := .put (gstateKey topic group) (Codec.groupToVec state) ::
    if rearms then [.put (readyKey topic) Codec.empty] else []
  { shared.commit writes with claimLock := false }.done

def startAck (message : ClaimedMessage) : Stepped Bytes :=
  if message.group ≠ [] then
    groupStep shared (.ack message) message.topic message.group (fun state =>
      if (state.acked message.id).inFlight.length ≠ state.inFlight.length then
        some (state.acked message.id)
      else none) false
  else
    let deleted := shared.node.deleteKey (metaKey message.topic message.id)
    if message.inline then
      (shared.withNode (deleted.releaseInline message.payload.length)).done
    else (shared.withNode deleted, .inl (.dropping message))

omit [Codec Bytes] in
def dropStep (message : ClaimedMessage) : Stepped Bytes :=
  (shared.withNode (shared.node.deleteObject (payloadKey message.topic message.id))).done

/-- Read a record to write it back changed; nothing happens when it is gone. -/
def recordStep (topic id : Text) (rewrite : Rewrite) : Stepped Bytes :=
  match shared.node.kv.get? (metaKey topic id) with
  | none => shared.done
  | some raw =>
      match decodeRecord raw with
      | .error error => (shared, .inr (.error error))
      | .ok record => (shared, .inl (.rewriting topic id rewrite record))

def startNack (nowMs : UInt64) (message : ClaimedMessage) (delayMs : UInt64) : Stepped Bytes :=
  let untilMs := nackUntil nowMs delayMs
  if message.group ≠ [] then
    groupStep shared (.nackAfter message delayMs) message.topic message.group (fun state =>
      (releaseFirst message.id untilMs state.inFlight).map fun inFlight =>
        { state with inFlight := inFlight }) true
  else recordStep shared message.topic message.id (.nack untilMs)

def startSetLastError (message : ClaimedMessage) (reason : Text) : Stepped Bytes :=
  if message.group ≠ [] then shared.done
  else recordStep shared message.topic message.id (.lastError reason)

def rewriteStep (topic id : Text) (rewrite : Rewrite) (record : Record) : Stepped Bytes :=
  (shared.commit (rewrite.writes topic id record)).done

def startStep (nowMs : UInt64) : Call → Stepped Bytes
  | .publish publication => startPublish shared nowMs publication
  | .claim request =>
      if shared.node.isPaused request.topic then (shared, .inr (.ok (.claimed [])))
      else (shared, .inl (.entering request))
  | .ack message => startAck shared message
  | .nackAfter message delayMs => startNack shared nowMs message delayMs
  | .setLastError message reason => startSetLastError shared message reason

def taskStep (task : Task) (nowMs : UInt64) : Stepped Bytes :=
  match task with
  | .start call => startStep shared nowMs call
  | .storing publication minted => storePayloadStep shared publication minted
  | .retaining publication minted => retainStep shared publication minted
  | .gating publication minted =>
      (shared, .inl (.committing publication minted
        (readText shared.node.kv (logmaxKey publication.topic))))
  | .committing publication minted logmax => commitStep shared publication minted logmax
  | .entering request => enterClaim shared nowMs request
  | .loading request claimMs suffixes records => loadStep shared request claimMs records suffixes
  | .reading topic done pending claimed drained =>
      readStep shared topic done claimed drained pending
  | .checking topic claimed => checkStep shared topic claimed
  | .pruning topic claimed => pruneStep shared topic claimed
  | .unmarking topic claimed => unmarkStep shared topic claimed
  | .dropping message => dropStep shared message
  | .rewriting topic id rewrite record => rewriteStep shared topic id rewrite record
  | .regrouping topic group state rearms => regroupStep shared topic group state rearms

end Steps

/-- The queue's operations as interleaved tasks; a step may read the clock. -/
def operations : Concurrent (Shared Bytes) Call UInt64 (Task)
    (Except MessagingError Reply) where
  start := .start
  step := taskStep

end BoatRamp.Node

import BoatRamp.Library.Machine
import BoatRamp.Messaging.Messages
import BoatRamp.Messaging.Plan

/-!
# The single-node queue

`LogMessaging` keeps the message index in a key/value store and larger payloads
in object storage.  The functions here run one operation from start to end; the
clock readings an operation takes are its arguments.  A backend that fails is
not modelled, so the errors left are a record that does not decode and an
object that is not there.
-/

namespace BoatRamp.Node

open Library Messaging

abbrev Storage := SortedMap Text Payload

structure LogMessaging (Bytes : Type) where
  kv : Store Bytes
  storage : Storage
  /-- Tiebreaker for ids minted in the same millisecond. -/
  seq : UInt64
  /-- Topics known to have a consumer group; `none` until first loaded. -/
  groupedTopics : Option (List Text)
  inlineInflightBytes : Nat
  inlineBudgetBytes : Nat

def readStorage (storage : Storage) (key : Text) : Except MessagingError Payload :=
  match storage.get? key with
  | none => .error (.backend ("object not found: ".toList ++ key))
  | some payload => .ok payload

def beforeLastSlash (text : Text) : Option Text :=
  if '/' ∈ text then some ((text.reverse.dropWhile fun letter => letter ≠ '/').drop 1).reverse
  else none

/-- What an operation leaves behind, and what it returns. -/
abbrev Answer (Bytes Result : Type) := LogMessaging Bytes × Except MessagingError Result

section Node

variable {Bytes : Type}

namespace LogMessaging

def new (storage : Storage) (kv : Store Bytes) : LogMessaging Bytes where
  kv := kv
  storage := storage
  seq := 0
  groupedTopics := none
  inlineInflightBytes := 0
  inlineBudgetBytes := INLINE_INFLIGHT_MAX_BYTES

variable (node : LogMessaging Bytes)

def withInlineBudget (bytes : Nat) : LogMessaging Bytes :=
  { node with inlineBudgetBytes := bytes }

/-- A new process over the same backends, configured alike. -/
def restart : LogMessaging Bytes :=
  (new node.storage node.kv).withInlineBudget node.inlineBudgetBytes

def loadGroupedTopics (kv : Store Bytes) : List Text :=
  (listPrefix kv Family.gstate.tag).filterMap fun key =>
    beforeLastSlash (key.drop Family.gstate.tag.length)

/-- Whether a topic has a consumer group, loading the set on first use. -/
def topicHasGroups (topic : Text) : LogMessaging Bytes × Bool :=
  match node.groupedTopics with
  | some topics => (node, decide (topic ∈ topics))
  | none =>
      let topics := loadGroupedTopics node.kv
      ({ node with groupedTopics := some topics }, decide (topic ∈ topics))

section

variable (node : LogMessaging Bytes) (topic : Text)

@[simp]
theorem topicHasGroups_kv : (node.topicHasGroups topic).1.kv = node.kv := by
  unfold topicHasGroups
  split <;> rfl

@[simp]
theorem topicHasGroups_storage : (node.topicHasGroups topic).1.storage = node.storage := by
  unfold topicHasGroups
  split <;> rfl

@[simp]
theorem topicHasGroups_seq : (node.topicHasGroups topic).1.seq = node.seq := by
  unfold topicHasGroups
  split <;> rfl

end

/-- Note a topic as grouped, in a set that may not have been loaded. -/
def markGrouped (node : LogMessaging Bytes) (topic : Text) : LogMessaging Bytes :=
  { node with groupedTopics := some (topic :: node.groupedTopics.getD []) }

end LogMessaging

structure Publication where
  topic : Text
  payload : Payload
  signedContext : Option Text
  notBeforeMs : UInt64
  expiresAtMs : UInt64
  priority : UInt8

/-- What a publish decides before it writes: its id, whether the topic retains
a fan-out copy, and whether the payload rides in the record. -/
structure Minted where
  id : Text
  retain : Bool
  inline : Bool

def Publication.record (publication : Publication) (inline : Bool) : Record :=
  { Record.fresh publication.signedContext with
    leaseUntilMs := publication.notBeforeMs
    expiresAtMs := publication.expiresAtMs
    priority := publication.priority
    inline := if inline then some publication.payload else none }

def storePayload (storage : Storage) (publication : Publication) (minted : Minted) : Storage :=
  let storage := if minted.inline then storage
    else storage.insert (payloadKey publication.topic minted.id) publication.payload
  if minted.retain then
    storage.insert (gpayloadKey publication.topic minted.id) publication.payload
  else storage

variable [Codec Bytes]

/-- The index writes of a publish: the record, the ready marker and, on a
grouped topic, the log entry and the advance of the gate past the given id. -/
def publishWrites (publication : Publication) (minted : Minted) (logmax : Text) :
    List (KvWrite Bytes) :=
  let topic := publication.topic
  [.put (metaKey topic minted.id) (Codec.recordToVec (publication.record minted.inline)),
    .put (readyKey topic) Codec.empty] ++
    if minted.retain then
      .put (glogKey topic minted.id) Codec.empty ::
        if logmax < minted.id then
          [.put (logmaxKey topic) (Codec.intoBytes minted.id)]
        else []
    else []

def indexOps (kv : Store Bytes) (publication : Publication) (minted : Minted) :
    List (KvWrite Bytes) :=
  publishWrites publication minted (readText kv (logmaxKey publication.topic))

namespace LogMessaging

def commit (node : LogMessaging Bytes) (ops : List (KvWrite Bytes)) : LogMessaging Bytes :=
  { node with kv := writeBatch node.kv ops }

omit [Codec Bytes] in
def mint (node : LogMessaging Bytes) (nowMs : UInt64) (topic : Text) (payload : Payload) :
    LogMessaging Bytes × Minted :=
  let id := singleNodeId nowMs node.seq
  let grouped := { node with seq := node.seq + 1 }.topicHasGroups topic
  let node := grouped.1
  let retain := grouped.2
  let inline := !retain && decide (payload.length ≤ INLINE_MAX) &&
    decide (node.inlineInflightBytes + payload.length ≤ node.inlineBudgetBytes)
  let node := if inline then
      { node with inlineInflightBytes := node.inlineInflightBytes + payload.length }
    else node
  (node, ⟨id, retain, inline⟩)

section

variable (node : LogMessaging Bytes) (nowMs : UInt64) (topic : Text) (payload : Payload)

omit [Codec Bytes]

@[simp]
theorem mint_kv : (node.mint nowMs topic payload).1.kv = node.kv := by
  unfold mint
  dsimp only
  split_ifs <;> simp

@[simp]
theorem mint_storage : (node.mint nowMs topic payload).1.storage = node.storage := by
  unfold mint
  dsimp only
  split_ifs <;> simp

@[simp]
theorem mint_seq : (node.mint nowMs topic payload).1.seq = node.seq + 1 := by
  unfold mint
  dsimp only
  split_ifs <;> simp

end

variable (node : LogMessaging Bytes) (nowMs : UInt64)

def buildPublishOps (publication : Publication) :
    LogMessaging Bytes × List (KvWrite Bytes) :=
  let out := node.mint nowMs publication.topic publication.payload
  ({ out.1 with storage := storePayload out.1.storage publication out.2 },
    indexOps out.1.kv publication out.2)

def publishAs (publication : Publication) (minted : Minted) :
    LogMessaging Bytes :=
  { node with storage := storePayload node.storage publication minted }.commit
    (indexOps node.kv publication minted)

def publish (node : LogMessaging Bytes) (nowMs : UInt64) (publication : Publication) :
    LogMessaging Bytes :=
  let out := node.buildPublishOps nowMs publication
  out.1.commit out.2

variable (topic : Text) (payload : Payload)

def buildBatch (signedContext : Option Text) :
    List (UInt64 × Text × Payload) → LogMessaging Bytes →
      LogMessaging Bytes × List (KvWrite Bytes)
  | [], node => (node, [])
  | (nowMs, topic, payload) :: rest, node =>
      let out := node.buildPublishOps nowMs ⟨topic, payload, signedContext, 0, 0, 0⟩
      let later := buildBatch signedContext rest out.1
      (later.1, out.2 ++ later.2)

def publishBatchCtx (messages : List (UInt64 × Text × Payload))
    (signedContext : Option Text) : LogMessaging Bytes :=
  let out := buildBatch signedContext messages node
  out.1.commit out.2

end LogMessaging

def decodeRecord (raw : Bytes) : Except MessagingError Record :=
  (Codec.recordFromSlice raw).mapError .decode

theorem decodeRecord_eq_ok_iff {raw : Bytes} {r : Record} :
    decodeRecord raw = .ok r ↔ Codec.recordFromSlice raw = .ok r := by
  unfold decodeRecord
  cases Codec.recordFromSlice raw <;> simp [Except.mapError]

def loadRecords (kv : Store Bytes) (topic : Text) :
    Except MessagingError (List (Text × Record)) :=
  (directChildren kv (metaPrefix topic)).mapM fun entry =>
    (decodeRecord entry.2).map fun record => (entry.1, record)

omit [Codec Bytes] in
def claimableNow (nowMs : UInt64) (maxAttempts : UInt32) (record : Record) : Bool :=
  decide (record.leaseUntilMs ≤ nowMs) &&
    !(decide (record.expiresAtMs ≠ 0) && decide (record.expiresAtMs ≤ nowMs)) &&
    decide (record.attempts < maxAttempts)

def leasedPayload (storage : Storage) (topic id : Text) (record : Record) :
    Except MessagingError Payload :=
  match record.inline with
  | some payload => .ok payload
  | none => readStorage storage (payloadKey topic id)

def leasedMessage (topic id : Text) (record : Record) (payload : Payload) :
    ClaimedMessage :=
  ⟨id, topic, payload, record.attempts, [], record.signedContext, record.inline.isSome⟩

def delivery (storage : Storage) (topic : Text) :
    ClaimAction → Except MessagingError (List ClaimedMessage)
  | .lease id record =>
      (leasedPayload storage topic id record).map fun payload =>
        [leasedMessage topic id record payload]
  | .deadLetter _ _ => .ok []

def actionOps (topic : Text) : ClaimAction → List (KvWrite Bytes)
  | .lease id record => [.put (metaKey topic id) (Codec.recordToVec record)]
  | .deadLetter id record =>
      [.put (deadKey topic id) (Codec.recordToVec record), .delete (metaKey topic id)]

/-- Collect the writes of a claim and the messages it delivers.  A missing
payload fails the whole claim before anything is written. -/
def carryOut (storage : Storage) (topic : Text) :
    List ClaimAction → Except MessagingError (List (KvWrite Bytes) × List ClaimedMessage)
  | [] => .ok ([], [])
  | action :: rest => do
      let delivered ← delivery storage topic action
      let later ← carryOut storage topic rest
      return (actionOps topic action ++ later.1, delivered ++ later.2)

namespace LogMessaging

def isPaused (node : LogMessaging Bytes) (topic : Text) : Bool :=
  node.kv.contains (pauseKey topic)

omit [Codec Bytes] in
/-- Drop the ready marker of a topic with no groups and no record left. -/
def pruneReady (node : LogMessaging Bytes) (topic : Text) : LogMessaging Bytes :=
  let grouped := node.topicHasGroups topic
  if grouped.2 then grouped.1
  else if (directChildren grouped.1.kv (metaPrefix topic)).isEmpty then
    grouped.1.commit [.delete (readyKey topic)]
  else grouped.1

def claim (node : LogMessaging Bytes) (nowMs : UInt64) (topic : Text) (lease : Duration)
    (maxBatch : Nat) (maxAttempts : UInt32) :
    Answer Bytes (List ClaimedMessage) :=
  if node.isPaused topic then (node, .ok [])
  else
    match loadRecords node.kv topic with
    | .error error => (node, .error error)
    | .ok records =>
        let claimableBefore :=
          (records.filter fun entry => claimableNow nowMs maxAttempts entry.2).length
        let actions := planClaim records nowMs (Duration.asMillis lease) maxBatch maxAttempts
        match carryOut node.storage topic actions with
        | .error error => (node, .error error)
        | .ok (ops, claimed) =>
            let node := node.commit ops
            -- Only a drained work queue is worth looking at again.
            let residual := claimableBefore - (actions.filter ClaimAction.isLease).length
            (if residual = 0 then node.pruneReady topic else node, .ok claimed)

end LogMessaging

def getGroupState (kv : Store Bytes) (topic group : Text) :
    Except MessagingError (Option GroupState) :=
  match kv.get? (gstateKey topic group) with
  | none => .ok none
  | some raw => ((Codec.groupFromSlice raw).mapError .decode).map some

def readLogmax (kv : Store Bytes) (topic : Text) : Text := readText kv (logmaxKey topic)

omit [Codec Bytes] in
def startAt (logmax : Text) : StartPosition → Text
  | .latest => logmax
  | .earliest => []

variable (kv : Store Bytes)

omit [Codec Bytes] in
/-- Up to `limit` log ids strictly after a given one.  The code pages through
the log; the pages line up to this list. -/
def logIdsAfter (topic after : Text) (limit : Nat) : List Text :=
  let keys := (listPrefix kv (glogPrefix topic)).filter fun key =>
    decide (glogPrefix topic ++ after < key) && isDirectChild key (glogPrefix topic)
  (keys.map fun key => key.drop (glogPrefix topic).length).take limit

def readCtx (topic id : Text) : Option Text :=
  (readRecord kv (metaKey topic id)).bind Record.signedContext

/-- A message dead-lettered under a group; its payload stays retained. -/
def groupDeadRecord (attempts : UInt32) (signedContext lastError : Option Text) : Record where
  version := SCHEMA_VERSION
  attempts := attempts
  leaseUntilMs := 0
  signedContext := signedContext
  inline := none
  lastError := lastError
  expiresAtMs := 0
  priority := 0

def putGroupDead (topic group : Text) (kv : Store Bytes) (entry : Text × UInt32) : Store Bytes :=
  kv.insert (gdeadKey topic group entry.1)
    (Codec.recordToVec (groupDeadRecord entry.2 (readCtx kv topic entry.1) none))

def deliverGrouped (storage : Storage) (topic group : Text)
    (leased : List (Text × UInt32)) : List ClaimedMessage :=
  leased.filterMap fun entry =>
    (readStorage storage (gpayloadKey topic entry.1)).toOption.map fun payload =>
      ⟨entry.1, topic, payload, entry.2, group, readCtx kv topic entry.1, false⟩

namespace LogMessaging

variable (node : LogMessaging Bytes) (key : Text)

omit [Codec Bytes] in
def putKey (value : Bytes) : LogMessaging Bytes :=
  { node with kv := node.kv.insert key value }

def putGroupState (topic group : Text) (state : GroupState) :
    LogMessaging Bytes :=
  node.putKey (gstateKey topic group) (Codec.groupToVec state)

def claimGrouped (nowMs : UInt64) (topic group : Text)
    (start : StartPosition) (lease : Duration) (maxBatch : Nat) (maxAttempts : UInt32) :
    Answer Bytes (List ClaimedMessage) :=
  if group = [] then node.claim nowMs topic lease maxBatch maxAttempts
  else if node.isPaused topic then (node, .ok [])
  else
    match getGroupState node.kv topic group with
    | .error error => (node, .error error)
    | .ok found =>
        let node := if found.isNone then node.markGrouped topic else node
        let logmax := readLogmax node.kv topic
        let state := found.getD (.new (startAt logmax start))
        let newIds :=
          if state.hwm < logmax then logIdsAfter node.kv topic state.hwm maxBatch else []
        let plan :=
          planClaimGrouped state nowMs (Duration.asMillis lease) maxBatch maxAttempts newIds
        let node := { node with kv := plan.2.dead.foldl (putGroupDead topic group) node.kv }
        let claimed := deliverGrouped node.kv node.storage topic group plan.2.leased
        let changed := found.isNone || !plan.2.leased.isEmpty || !plan.2.dead.isEmpty
        (if changed then node.putGroupState topic group plan.1 else node, .ok claimed)

/-- Give the bytes of an inlined payload back to the budget. -/
def releaseInline (bytes : Nat) : LogMessaging Bytes :=
  { node with inlineInflightBytes := node.inlineInflightBytes - bytes }

def deleteKey : LogMessaging Bytes :=
  { node with kv := node.kv.erase key }

def deleteObject : LogMessaging Bytes :=
  { node with storage := node.storage.erase key }

/-- Change the state of a registered group; nothing happens when it is gone. -/
def withGroupState (topic group : Text)
    (change : GroupState → LogMessaging Bytes) :
    Answer Bytes Unit :=
  match getGroupState node.kv topic group with
  | .error error => (node, .error error)
  | .ok none => (node, .ok ())
  | .ok (some state) => (change state, .ok ())

def dropInFlight (topic group id : Text) (state : GroupState) :
    LogMessaging Bytes :=
  if (state.acked id).inFlight.length ≠ state.inFlight.length then
    node.putGroupState topic group (state.acked id)
  else node

def ack (node : LogMessaging Bytes) (message : ClaimedMessage) :
    Answer Bytes Unit :=
  if message.group ≠ [] then
    node.withGroupState message.topic message.group
      (node.dropInFlight message.topic message.group message.id)
  else
    let node := node.deleteKey (metaKey message.topic message.id)
    if message.inline then (node.releaseInline message.payload.length, .ok ())
    else (node.deleteObject (payloadKey message.topic message.id), .ok ())

/-- Read a record, change it and write it back with further writes; nothing
happens when it is gone. -/
def withRecord (topic id : Text)
    (writes : Record → List (KvWrite Bytes)) : Answer Bytes Unit :=
  match node.kv.get? (metaKey topic id) with
  | none => (node, .ok ())
  | some raw =>
      match decodeRecord raw with
      | .error error => (node, .error error)
      | .ok record => (node.commit (writes record), .ok ())

end LogMessaging

/-- A nacked record is claimable again at the given time; its topic has work. -/
def nackWrites (topic id : Text) (untilMs : UInt64) (record : Record) : List (KvWrite Bytes) :=
  [.put (metaKey topic id) (Codec.recordToVec { record with leaseUntilMs := untilMs }),
    .put (readyKey topic) Codec.empty]

def lastErrorWrites (topic id reason : Text) (record : Record) : List (KvWrite Bytes) :=
  [.put (metaKey topic id)
    (Codec.recordToVec { record with lastError := some (sanitizeReason reason) })]

def deadLetterWrites (topic id reason : Text) (record : Record) : List (KvWrite Bytes) :=
  [.put (deadKey topic id) (Codec.recordToVec
      { record with lastError := some (sanitizeReason reason), leaseUntilMs := 0 }),
    .delete (metaKey topic id)]

namespace LogMessaging

variable (node : LogMessaging Bytes)

def nackAfter (nowMs : UInt64) (message : ClaimedMessage)
    (delayMs : UInt64) : Answer Bytes Unit :=
  let untilMs := nackUntil nowMs delayMs
  if message.group ≠ [] then
    node.withGroupState message.topic message.group (fun state =>
      match releaseFirst message.id untilMs state.inFlight with
      | none => node
      | some inFlight =>
          node.commit
            [.put (gstateKey message.topic message.group)
                (Codec.groupToVec { state with inFlight := inFlight }),
              .put (readyKey message.topic) Codec.empty])
  else
    node.withRecord message.topic message.id (nackWrites message.topic message.id untilMs)

def setLastError (message : ClaimedMessage) (reason : Text) :
    Answer Bytes Unit :=
  if message.group ≠ [] then (node, .ok ())
  else node.withRecord message.topic message.id (lastErrorWrites message.topic message.id reason)

def deadLetter (message : ClaimedMessage) (reason : Text) :
    Answer Bytes Unit :=
  if message.group ≠ [] then
    let dead := groupDeadRecord message.attempts (readCtx node.kv message.topic message.id)
      (some (sanitizeReason reason))
    let node := node.putKey (gdeadKey message.topic message.group message.id)
      (Codec.recordToVec dead)
    node.withGroupState message.topic message.group
      (node.dropInFlight message.topic message.group message.id)
  else node.withRecord message.topic message.id (deadLetterWrites message.topic message.id reason)

end LogMessaging

variable (kv : Store Bytes) (topic : Text)

def deadIds : List Text :=
  (directChildren kv (deadPrefix topic)).map Prod.fst

def groupedDead : List (Text × Text) :=
  (listPrefix kv (gdeadTopicPrefix topic)).filterMap fun key =>
    splitGroupId (key.drop (gdeadTopicPrefix topic).length)

def workDeadLetters :
    Except MessagingError (List DeadLetter) :=
  (directChildren kv (deadPrefix topic)).mapM fun entry =>
    (decodeRecord entry.2).map (DeadLetter.of [] entry.1)

def groupDeadLetters :
    Except MessagingError (List DeadLetter) :=
  ((kv.scan (gdeadTopicPrefix topic)).filterMap fun entry =>
    (splitGroupId (entry.1.drop (gdeadTopicPrefix topic).length)).map fun name =>
      (name, entry.2)).mapM fun entry =>
        (decodeRecord entry.2).map (DeadLetter.of entry.1.1 entry.1.2)

def collectDeadLetters :
    Except MessagingError (List DeadLetter) := do
  let work ← workDeadLetters kv topic
  let grouped ← groupDeadLetters kv topic
  return (work ++ grouped).insertionSort fun first second => first.id ≤ second.id

def redriveWork (kv : Store Bytes) (id : Text) : Store Bytes :=
  let record := (readRecord kv (deadKey topic id)).getD (.fresh none)
  (kv.insert (metaKey topic id) (Codec.recordToVec record.rearmed)).erase (deadKey topic id)

namespace LogMessaging

/-- Put a group's dead letter back in flight, registering the group at the log
head if it is gone. -/
def redriveGrouped (topic : Text) (node : LogMessaging Bytes) (name : Text × Text) :
    Answer Bytes Bool :=
  match getGroupState node.kv topic name.1 with
  | .error error => (node, .error error)
  | .ok found =>
      let node := if found.isNone then node.markGrouped topic else node
      let state := found.getD (.new (readLogmax node.kv topic))
      ((node.putGroupState topic name.1 (state.rearm name.2)).deleteKey
        (gdeadKey topic name.1 name.2), .ok true)

def forEach {Item : Type}
    (step : LogMessaging Bytes → Item → Answer Bytes Bool) :
    List Item → LogMessaging Bytes → Answer Bytes Nat
  | [], node => (node, .ok 0)
  | item :: rest, node =>
      match step node item with
      | (node, .error error) => (node, .error error)
      | (node, .ok acted) =>
          let out := forEach step rest node
          (out.1, out.2.map (acted.toNat + ·))

def redriveDeadLetters (node : LogMessaging Bytes) (topic : Text) :
    Answer Bytes Nat :=
  let ids := deadIds node.kv topic
  let node := { node with kv := ids.foldl (redriveWork topic) node.kv }
  let out := forEach (redriveGrouped topic) (groupedDead node.kv topic) node
  (out.1, out.2.map (ids.length + ·))

def redriveSelected (topic : Text) (node : LogMessaging Bytes) (id : Text) :
    Answer Bytes Bool :=
  match node.kv.get? (deadKey topic id) with
  | none => (node, .ok false)
  | some raw =>
      match decodeRecord raw with
      | .error error => (node, .error error)
      | .ok _ => ({ node with kv := redriveWork topic node.kv id }, .ok true)

def redriveSelectedGrouped (topic : Text) (node : LogMessaging Bytes) (name : Text × Text) :
    Answer Bytes Bool :=
  if node.kv.contains (gdeadKey topic name.1 name.2) then redriveGrouped topic node name
  else (node, .ok false)

end LogMessaging

def workIds (letters : List DeadLetter) : List Text :=
  (letters.filter fun letter => letter.group = []).map DeadLetter.id

def groupNames (letters : List DeadLetter) : List (Text × Text) :=
  (letters.filter fun letter => letter.group ≠ []).map fun letter => (letter.group, letter.id)

namespace LogMessaging

variable (node : LogMessaging Bytes)

def redriveDeadLettersFiltered (nowMs : UInt64) (topic : Text)
    (filter : DeadLetterFilter) : Answer Bytes Nat :=
  match collectDeadLetters node.kv topic with
  | .error error => (node, .error error)
  | .ok letters =>
      let matched := filter.select letters nowMs
      match forEach (redriveSelected topic) (workIds matched) node with
      | (node, .error error) => (node, .error error)
      | (node, .ok redriven) =>
          let out := forEach (redriveSelectedGrouped topic) (groupNames matched) node
          (out.1, out.2.map (redriven + ·))

def discardWork (topic : Text) (node : LogMessaging Bytes) (id : Text) : LogMessaging Bytes :=
  let inline := (readRecord node.kv (deadKey topic id)).bind Record.inline
  let node := match inline with
    | some payload => node.releaseInline payload.length
    | none => node.deleteObject (payloadKey topic id)
  node.deleteKey (deadKey topic id)

def purgeDeadLetters (topic : Text) : LogMessaging Bytes × Nat :=
  let ids := deadIds node.kv topic
  let node := ids.foldl (discardWork topic) node
  let grouped := groupedDead node.kv topic
  (grouped.foldl (fun node name => node.deleteKey (gdeadKey topic name.1 name.2)) node,
    ids.length + grouped.length)

def discardOne (topic : Text) (node : LogMessaging Bytes) (letter : DeadLetter) :
    LogMessaging Bytes :=
  if letter.group = [] then discardWork topic node letter.id
  else node.deleteKey (gdeadKey topic letter.group letter.id)

def discardDeadLetters (nowMs : UInt64) (topic : Text)
    (filter : DeadLetterFilter) : Answer Bytes Nat :=
  match collectDeadLetters node.kv topic with
  | .error error => (node, .error error)
  | .ok letters =>
      let matched := filter.select letters nowMs
      (matched.foldl (discardOne topic) node, .ok matched.length)

end LogMessaging

def noSuchGroup (topic group : Text) : MessagingError :=
  .backend ("no such consumer group ".toList ++ debugText group ++ " on topic ".toList ++
    debugText topic)

def loadGroupStates (kv : Store Bytes) (topic : Text) :
    Except MessagingError (List GroupState) :=
  (directChildren kv (gstatePrefix topic)).mapM fun entry =>
    (Codec.groupFromSlice entry.2).mapError .decode

def sweepable (kv : Store Bytes) (states : List GroupState) (topic : Text)
    (retentionMs nowMs : UInt64) (id : Text) : Bool :=
  !((groupedDead kv topic).map Prod.snd).contains id &&
    (!groupedMessageNeeded states id || decide (idMillis id + retentionMs < nowMs))

def groupOfKey (key : Text) : Option (Text × Text) :=
  let rest := key.drop Family.gstate.tag.length
  (beforeLastSlash rest).map fun topic => (topic, rest.drop (topic.length + 1))

/-- The topics with work: those with a live record, then those with a group that
holds a message in flight or lags behind the log. -/
def groupedWork (kv : Store Bytes) : List Text → List Text → Except MessagingError (List Text)
  | [], work => .ok work
  | key :: rest, work =>
      match groupOfKey key with
      | none => groupedWork kv rest work
      | some (topic, group) =>
          if topic = [] ∨ group = [] ∨ topic ∈ work then groupedWork kv rest work
          else
            match getGroupState kv topic group with
            | .error error => .error error
            | .ok none => groupedWork kv rest work
            | .ok (some state) =>
                if !state.inFlight.isEmpty || decide (state.hwm < readLogmax kv topic) then
                  groupedWork kv rest (topic :: work)
                else groupedWork kv rest work

def topicsWithWork (kv : Store Bytes) : Except MessagingError (List Text) :=
  groupedWork kv (listPrefix kv Family.gstate.tag)
    ((listPrefix kv Family.mq.tag).filterMap fun key =>
      beforeLastSlash (key.drop Family.mq.tag.length)).dedup

omit [Codec Bytes] in
def topicOfReadyKey (key : Text) : Option Text :=
  if Family.ready.tag <+: key ∧ Family.ready.tag.length < key.length then
    some (key.drop Family.ready.tag.length)
  else none

omit [Codec Bytes] in
def readyTopics (kv : Store Bytes) : List Text :=
  (listPrefix kv Family.ready.tag).filterMap topicOfReadyKey

namespace LogMessaging

variable (node : LogMessaging Bytes)

def resetGroup (topic group : Text) (start : StartPosition) :
    Answer Bytes Unit :=
  match getGroupState node.kv topic group with
  | .error error => (node, .error error)
  | .ok none => (node, .error (noSuchGroup topic group))
  | .ok (some _) =>
      (node.putGroupState topic group (.new (startAt (readLogmax node.kv topic) start)), .ok ())

def deleteGroup (topic group : Text) : LogMessaging Bytes :=
  ((listPrefix node.kv (gdeadKey topic group [])).foldl deleteKey node).deleteKey
    (gstateKey topic group)

def setPaused (topic : Text) (paused : Bool) : LogMessaging Bytes :=
  if paused then node.putKey (pauseKey topic) Codec.empty else node.deleteKey (pauseKey topic)

/-- Reclaim what no group needs any more. -/
def gcGrouped (nowMs : UInt64) (topic : Text) (retentionMs : UInt64) :
    Answer Bytes Nat :=
  match loadGroupStates node.kv topic with
  | .error error => (node, .error error)
  | .ok states =>
      let ids := ((directChildren node.kv (glogPrefix topic)).map Prod.fst).filter
        (sweepable node.kv states topic retentionMs nowMs)
      (ids.foldl (fun node id =>
        (node.deleteObject (gpayloadKey topic id)).deleteKey (glogKey topic id)) node,
        .ok ids.length)

/-- Put back the ready markers that are missing; none is removed here. -/
def rebuildReadySet : Answer Bytes Nat :=
  match topicsWithWork node.kv with
  | .error error => (node, .error error)
  | .ok topics =>
      ((topics.filter fun topic => topic ∉ readyTopics node.kv).foldl
        (fun node topic => node.putKey (readyKey topic) Codec.empty) node, .ok topics.length)

end LogMessaging

/-- The operations of the queue that can change it, and process restarts. -/
inductive Operation where
  | publish (nowMs : UInt64) (publication : Publication)
  | publishBatch (messages : List (UInt64 × Text × Payload)) (signedContext : Option Text)
  | claim (nowMs : UInt64) (topic : Text) (lease : Duration) (maxBatch : Nat)
      (maxAttempts : UInt32)
  | claimGrouped (nowMs : UInt64) (topic group : Text) (start : StartPosition)
      (lease : Duration) (maxBatch : Nat) (maxAttempts : UInt32)
  | ack (message : ClaimedMessage)
  | nackAfter (nowMs : UInt64) (message : ClaimedMessage) (delayMs : UInt64)
  | setLastError (message : ClaimedMessage) (reason : Text)
  | deadLetter (message : ClaimedMessage) (reason : Text)
  | redriveDeadLetters (topic : Text)
  | redriveDeadLettersFiltered (nowMs : UInt64) (topic : Text) (filter : DeadLetterFilter)
  | purgeDeadLetters (topic : Text)
  | discardDeadLetters (nowMs : UInt64) (topic : Text) (filter : DeadLetterFilter)
  | resetGroup (topic group : Text) (start : StartPosition)
  | deleteGroup (topic group : Text)
  | setPaused (topic : Text) (paused : Bool)
  | gcGrouped (nowMs : UInt64) (topic : Text) (retentionMs : UInt64)
  | rebuildReadySet
  | restart

inductive Reply where
  | done
  | claimed (messages : List ClaimedMessage)
  | count (number : Nat)
  deriving DecidableEq

def answered {Result : Type} (reply : Result → Reply)
    (out : Answer Bytes Result) :
    Answer Bytes Reply :=
  (out.1, out.2.map reply)

def LogMessaging.run (node : LogMessaging Bytes) :
    Operation → Answer Bytes Reply
  | .publish nowMs publication => (node.publish nowMs publication, .ok .done)
  | .publishBatch messages signedContext =>
      (node.publishBatchCtx messages signedContext, .ok .done)
  | .claim nowMs topic lease maxBatch maxAttempts =>
      answered .claimed (node.claim nowMs topic lease maxBatch maxAttempts)
  | .claimGrouped nowMs topic group start lease maxBatch maxAttempts =>
      answered .claimed (node.claimGrouped nowMs topic group start lease maxBatch maxAttempts)
  | .ack message => answered (fun _ => .done) (node.ack message)
  | .nackAfter nowMs message delayMs =>
      answered (fun _ => .done) (node.nackAfter nowMs message delayMs)
  | .setLastError message reason => answered (fun _ => .done) (node.setLastError message reason)
  | .deadLetter message reason => answered (fun _ => .done) (node.deadLetter message reason)
  | .redriveDeadLetters topic => answered .count (node.redriveDeadLetters topic)
  | .redriveDeadLettersFiltered nowMs topic filter =>
      answered .count (node.redriveDeadLettersFiltered nowMs topic filter)
  | .purgeDeadLetters topic =>
      let out := node.purgeDeadLetters topic
      (out.1, .ok (.count out.2))
  | .discardDeadLetters nowMs topic filter =>
      answered .count (node.discardDeadLetters nowMs topic filter)
  | .resetGroup topic group start => answered (fun _ => .done) (node.resetGroup topic group start)
  | .deleteGroup topic group => (node.deleteGroup topic group, .ok .done)
  | .setPaused topic paused => (node.setPaused topic paused, .ok .done)
  | .gcGrouped nowMs topic retentionMs =>
      answered .count (node.gcGrouped nowMs topic retentionMs)
  | .rebuildReadySet => answered .count node.rebuildReadySet
  | .restart => (node.restart, .ok .done)

def queue : Machine (LogMessaging Bytes) Operation (Except MessagingError Reply) where
  step := LogMessaging.run

end Node

end BoatRamp.Node

import BoatRamp.Cluster.Frame
import BoatRamp.Cluster.Messaging
import BoatRamp.Node.Effects

/-!
# The two queues agree

The single node and the cluster implement the queue separately and share only
the claim decision.  `Agree` relates their states: the same keys outside the
ready markers, the same objects, and the consistency both rely on.  Every
operation keeps it and answers alike, as long as it meets `Faithful`.
-/

namespace BoatRamp.Cluster

open Library Messaging Node SortedMap Codec RaftMessaging Family ApplyTarget Option
open List hiding contains contains_insert
open LogMessaging (discardWork redriveSelected forEach loadGroupedTopics)

section SameButReady

variable {Bytes : Type} {first second third : Store Bytes}

def SameButReady (first second : Store Bytes) : Prop :=
  ∀ key, ¬Family.ready.tag <+: key → first.get? key = second.get? key

theorem ready_isPrefix_key_iff {f : Family} {rest : Text} :
    ready.tag <+: f.key rest ↔ f = .ready := by
  have hs : ready.tag = ready.key [] := by simp [key]
  rw [hs, isPrefix_key_iff]
  simp [eq_comm]

namespace SameButReady

theorem refl (s : Store Bytes) : SameButReady s s := fun _ _ => rfl

variable {fam : Family} (same : SameButReady first second)

include same

theorem get?_key (ho : fam ≠ .ready) (rest : Text) :
    first.get? (fam.key rest) = second.get? (fam.key rest) :=
  same _ fun he => ho (ready_isPrefix_key_iff.mp he)

theorem contains_key (ho : fam ≠ .ready) (rest : Text) :
    first.contains (fam.key rest) = second.contains (fam.key rest) := by
  simp only [contains, same.get?_key ho]

theorem insert (key : Text) (val : Bytes) :
    SameButReady (first.insert key val) (second.insert key val) := by
  intro o ho
  rw [get?_insert, get?_insert, same o ho]

theorem erase (key : Text) : SameButReady (first.erase key) (second.erase key) := by
  intro o ho
  rw [get?_erase, get?_erase, same o ho]

theorem writeBatch (ops : List (KvWrite Bytes)) :
    SameButReady (BoatRamp.writeBatch first ops) (BoatRamp.writeBatch second ops) := by
  induction ops generalizing first second with
  | nil => exact same
  | cons op rest ih =>
    apply ih
    cases op with
    | put key val => exact same.insert key val
    | delete key => exact same.erase key

theorem of_ready {b : Store Bytes} (t : Text)
    (hon : ∀ key, key ≠ readyKey t → first.get? key = b.get? key) : SameButReady b second := by
  intro key ho
  rw [← same key ho, hon key]
  rintro rfl
  exact ho (ready_isPrefix_key_iff.mpr rfl)

theorem symm : SameButReady second first :=
  fun key ho => (same key ho).symm

theorem trans (hl : SameButReady second third) : SameButReady first third :=
  fun key ho => (same key ho).trans (hl key ho)

theorem insert_ready (t : Text) (val : Bytes) :
    SameButReady (first.insert (readyKey t) val) second :=
  same.of_ready t fun _ ho => (first.get?_insert_of_ne val ho).symm

theorem erase_ready (t : Text) : SameButReady (first.erase (readyKey t)) second :=
  same.of_ready t fun _ ho => (first.get?_erase_of_ne ho).symm

theorem directChildren_eq (ho : fam ≠ .ready) (s : Text) :
    directChildren first (fam.key s) = directChildren second (fam.key s) := by
  apply directChildren_congr
  rintro _ ⟨rest, rfl⟩
  rw [key, append_assoc]
  exact same.get?_key ho (s ++ rest)

end SameButReady

end SameButReady

section Consistent

variable {Bytes : Type} [Codec Bytes] {kv : Store Bytes} {storage : Storage} {path : Text}

def Backed (storage : Storage) (path : Text) (raw : Bytes) : Prop :=
  ∃ record, Codec.recordFromSlice raw = .ok record ∧ record.version = SCHEMA_VERSION ∧
    (record.inline = none → storage.contains (Family.payload.key path) = true)

theorem Backed.mono {o : Storage} {raw : Bytes} (hb : Backed storage path raw)
    (hk : storage.contains (payload.key path) = true → o.contains (payload.key path) = true) :
    Backed o path raw := by
  obtain ⟨r, hd, hv, hh⟩ := hb
  exact ⟨r, hd, hv, fun ha => hk (hh ha)⟩

theorem Backed.rewritten {raw : Bytes} (hb : Backed storage path raw) {r next : Record}
    (hd : recordFromSlice raw = .ok r) (hv : next.version = r.version)
    (hi : next.inline = r.inline) : Backed storage path (recordToVec next : Bytes) := by
  obtain ⟨sd, hr, hc, hh⟩ := hb
  obtain rfl : sd = r := by simpa [hd] using hr.symm
  exact ⟨next, record_round next, hv.trans hc, fun ha =>
    hh (hi ▸ ha)⟩

theorem Backed.held {r : Record} (hb : Backed storage path (recordToVec r : Bytes))
    (ha : r.inline = none) : storage.contains (payload.key path) = true := by
  obtain ⟨sd, hd, _, hh⟩ := hb
  obtain rfl : r = sd := by simpa using hd
  exact hh ha

/-- The records are backed, none is both live and dead, and no topic has groups. -/
structure Consistent (kv : Store Bytes) (storage : Storage) : Prop where
  live : ∀ path raw, kv.get? (Family.mq.key path) = some raw → Backed storage path raw
  dead : ∀ path raw, kv.get? (Family.dead.key path) = some raw → Backed storage path raw
  exclusive : ∀ path, kv.contains (Family.mq.key path) = true →
    kv.contains (Family.dead.key path) = false
  ungrouped : ∀ path, kv.contains (Family.gstate.key path) = false ∧
    kv.contains (Family.gdead.key path) = false

namespace Consistent

theorem empty (storage : Storage) : Consistent (.empty : Store Bytes) storage where
  live _ _ hf := nomatch hf
  dead _ _ hf := nomatch hf
  exclusive _ hp := nomatch hp
  ungrouped _ := ⟨rfl, rfl⟩

variable {v : Bytes} (hcn : Consistent kv storage)

include hcn

theorem putLive (hb : Backed storage path v) (hu : kv.contains (Family.dead.key path) = false) :
    Consistent (kv.insert (Family.mq.key path) v) storage where
  live o raw hf := by
    rw [get?_insert] at hf
    split_ifs at hf with same
    · obtain rfl : o = path := by simpa using same
      cases hf
      exact hb
    · exact hcn.live o raw hf
  dead o raw hf := by
    rw [get?_insert_of_ne _ _ (by simp)] at hf
    exact hcn.dead o raw hf
  exclusive o hp := by
    rw [contains_insert] at hp ⊢
    by_cases same : o = path
    · simpa [same] using hu
    · have he := hcn.exclusive o (by simpa [same] using hp)
      simpa using he
  ungrouped o := by simpa using hcn.ungrouped o

theorem putDead (hb : Backed storage path v) (hu : kv.contains (Family.mq.key path) = false) :
    Consistent (kv.insert (Family.dead.key path) v) storage where
  live o raw hf := by
    rw [get?_insert_of_ne _ _ (by simp)] at hf
    exact hcn.live o raw hf
  dead o raw hf := by
    rw [get?_insert] at hf
    split_ifs at hf with same
    · obtain rfl : o = path := by simpa using same
      cases hf
      exact hb
    · exact hcn.dead o raw hf
  exclusive o hp := by
    have he : kv.contains (Family.mq.key o) = true := by simpa using hp
    have hd : o ≠ path := by
      rintro rfl
      simp [hu] at he
    simpa [hd] using hcn.exclusive o he
  ungrouped o := by simpa using hcn.ungrouped o

theorem shrink {s : Store Bytes} (hd : ∀ key raw, s.get? key = some raw → kv.get? key = some raw) :
    Consistent s storage := by
  have hp : ∀ key, s.contains key = true → kv.contains key = true := by
    intro key hs
    obtain ⟨raw, hf⟩ := isSome_iff_exists.mp hs
    simp [contains, hd key raw hf]
  have ha : ∀ key, kv.contains key = false → s.contains key = false := by
    intro key hm
    by_contra hs
    simp [hp key (by simpa using hs)] at hm
  exact ⟨fun o raw hf => hcn.live o raw (hd _ _ hf), fun o raw hf => hcn.dead o raw (hd _ _ hf),
    fun o hs => ha _ (hcn.exclusive o (hp _ hs)),
    fun o => ⟨ha _ (hcn.ungrouped o).1, ha _ (hcn.ungrouped o).2⟩⟩

theorem erase (key : Text) : Consistent (kv.erase key) storage := by
  refine hcn.shrink fun o raw hf => ?_
  rw [get?_erase] at hf
  split_ifs at hf
  exact hf

theorem bury (hb : Backed storage path v) :
    Consistent ((kv.insert (Family.dead.key path) v).erase (Family.mq.key path)) storage := by
  rw [erase_insert_of_ne _ _ (by simp)]
  exact (hcn.erase _).putDead hb (by simp)

theorem revive (hb : Backed storage path v) :
    Consistent ((kv.insert (Family.mq.key path) v).erase (Family.dead.key path)) storage := by
  rw [erase_insert_of_ne _ _ (by simp)]
  exact (hcn.erase _).putLive hb (by simp)

theorem of_same {o : Store Bytes} (same : SameButReady kv o) : Consistent o storage where
  live path raw hf := hcn.live path raw (by rwa [same.get?_key (by decide)])
  dead path raw hf := hcn.dead path raw (by rwa [same.get?_key (by decide)])
  exclusive path hp := by
    rw [← same.contains_key (by decide)] at hp ⊢
    exact hcn.exclusive path hp
  ungrouped path := by
    rw [← same.contains_key (by decide), ← same.contains_key (by decide)]
    exact hcn.ungrouped path

theorem stored (key : Text) (pl : Payload) : Consistent kv (storage.insert key pl) := by
  have hg : ∀ {path : Text} {raw : Bytes}, Backed storage path raw →
      Backed (storage.insert key pl) path raw :=
    fun hb => hb.mono fun hh => by simp [hh]
  exact ⟨fun path raw hf => hg (hcn.live path raw hf), fun path raw hf => hg (hcn.dead path raw hf),
    hcn.exclusive, hcn.ungrouped⟩

theorem freed (hu : kv.contains (Family.mq.key path) = false)
    (hun : ∀ r, readRecord kv (Family.dead.key path) = some r → r.inline ≠ none) :
    Consistent kv (storage.erase (Family.payload.key path)) := by
  have hk : ∀ {o : Text} {raw : Bytes}, o ≠ path → Backed storage o raw →
      Backed (storage.erase (Family.payload.key path)) o raw :=
    fun hdi hb => hb.mono fun hh => by simp [hh, hdi]
  refine ⟨fun o raw hf => ?_, fun o raw hf => ?_, hcn.exclusive, hcn.ungrouped⟩
  · refine hk ?_ (hcn.live o raw hf)
    rintro rfl
    simp [contains, hf] at hu
  by_cases same : o = path
  · subst same
    obtain ⟨r, hd, hv, _⟩ := hcn.dead o raw hf
    refine ⟨r, hd, hv, fun ha => absurd ha ?_⟩
    exact hun r (by simp [readRecord, hf, hd, Except.toOption])
  · exact hk same (hcn.dead o raw hf)

end Consistent

end Consistent

/-- The operations both queues are given.  A publish comes with the id minted
for it and the decision whether its payload rides in the record. -/
inductive QueueOp where
  | publish (publication : Publication) (id : Text) (inline : Bool)
  | claim (nowMs : UInt64) (topic : Text) (lease : Duration) (maxBatch : Nat)
      (maxAttempts : UInt32)
  | ack (message : ClaimedMessage)
  | nackAfter (nowMs : UInt64) (message : ClaimedMessage) (delayMs : UInt64)
  | setLastError (message : ClaimedMessage) (reason : Text)
  | redriveDeadLetters (topic : Text)
  | redriveDeadLettersFiltered (nowMs : UInt64) (topic : Text) (filter : DeadLetterFilter)
  | purgeDeadLetters (topic : Text)
  | discardDeadLetters (nowMs : UInt64) (topic : Text) (filter : DeadLetterFilter)

section Machines

variable {Bytes : Type} [Codec Bytes]

def singleNode : Machine (LogMessaging Bytes) QueueOp (Except MessagingError Reply) where
  step node
    | .publish publication id inline =>
        let grouped := node.topicHasGroups publication.topic
        (grouped.1.publishAs publication ⟨id, grouped.2, inline⟩, .ok .done)
    | .claim nowMs topic lease maxBatch maxAttempts =>
        answered .claimed (node.claim nowMs topic lease maxBatch maxAttempts)
    | .ack message => answered (fun _ => .done) (node.ack message)
    | .nackAfter nowMs message delayMs =>
        answered (fun _ => .done) (node.nackAfter nowMs message delayMs)
    | .setLastError message reason =>
        answered (fun _ => .done) (node.setLastError message reason)
    | .redriveDeadLetters topic => answered .count (node.redriveDeadLetters topic)
    | .redriveDeadLettersFiltered nowMs topic filter =>
        answered .count (node.redriveDeadLettersFiltered nowMs topic filter)
    | .purgeDeadLetters topic =>
        let out := node.purgeDeadLetters topic
        (out.1, .ok (.count out.2))
    | .discardDeadLetters nowMs topic filter =>
        answered .count (node.discardDeadLetters nowMs topic filter)

variable [DecidableEq Bytes]

def counted (out : RaftMessaging Bytes × Nat) :
    RaftMessaging Bytes × Except MessagingError Reply :=
  (out.1, .ok (.count out.2))

def replicated : Machine (RaftMessaging Bytes) QueueOp (Except MessagingError Reply) where
  step cluster
    | .publish publication id inline =>
        (cluster.publishAs publication
          ⟨id, topicHasGroupsApplied cluster.state publication.topic, inline⟩, .ok .done)
    | .claim nowMs topic lease maxBatch maxAttempts =>
        let out := cluster.claim nowMs topic lease maxBatch maxAttempts
        (out.1, out.2.map .claimed)
    | .ack message => (cluster.ack message, .ok .done)
    | .nackAfter nowMs message delayMs => (cluster.nackAfter nowMs message delayMs, .ok .done)
    | .setLastError message reason => (cluster.setLastError message reason, .ok .done)
    | .redriveDeadLetters topic => counted (cluster.redriveDeadLetters topic)
    | .redriveDeadLettersFiltered nowMs topic filter =>
        counted (cluster.redriveDeadLettersFiltered nowMs topic filter)
    | .purgeDeadLetters topic => counted (cluster.purgeDeadLetters topic)
    | .discardDeadLetters nowMs topic filter =>
        counted (cluster.discardDeadLetters nowMs topic filter)

end Machines

section Agreement

variable {Bytes : Type} [Codec Bytes]

def normalPriority (kv : Store Bytes) (topic id : Text) : Bool :=
  (readRecord kv (deadKey topic id)).all fun record => decide (record.priority = 0)

/-- What keeps the two queues alike: a publish uses a fresh id, a batch size
fits 32 bits, no object is deleted under a dead letter that needs it, and only
dead letters of normal priority are put back. -/
def Faithful (node : LogMessaging Bytes) : QueueOp → Prop
  | .publish publication id _ =>
      node.kv.contains (metaKey publication.topic id) = false ∧
        node.kv.contains (deadKey publication.topic id) = false
  | .claim _ _ _ maxBatch _ => maxBatch < UInt32.size
  | .ack message =>
      message.group ≠ [] ∨ message.inline = true ∨
        (readRecord node.kv (deadKey message.topic message.id)).all
          (fun record => record.inline.isSome) = true
  | .redriveDeadLetters topic =>
      ∀ id ∈ deadIds node.kv topic, normalPriority node.kv topic id = true
  | .redriveDeadLettersFiltered nowMs topic filter =>
      ∀ id ∈ workIds (selected node.kv nowMs topic filter), normalPriority node.kv topic id = true
  | _ => True

instance (node : LogMessaging Bytes) : (op : QueueOp) → Decidable (Faithful node op)
  | .publish _ _ _ => inferInstanceAs (Decidable (_ ∧ _))
  | .claim _ _ _ maxBatch _ => inferInstanceAs (Decidable (maxBatch < UInt32.size))
  | .ack _ => inferInstanceAs (Decidable (_ ∨ _ ∨ _))
  | .nackAfter _ _ _ => .isTrue trivial
  | .setLastError _ _ => .isTrue trivial
  | .redriveDeadLetters topic => inferInstanceAs (Decidable (∀ id ∈ deadIds node.kv topic, _))
  | .redriveDeadLettersFiltered nowMs topic filter =>
    inferInstanceAs (Decidable (∀ id ∈ workIds (selected node.kv nowMs topic filter), _))
  | .purgeDeadLetters _ => .isTrue trivial
  | .discardDeadLetters _ _ _ => .isTrue trivial

structure Agree (node : LogMessaging Bytes) (cluster : RaftMessaging Bytes) : Prop where
  same : SameButReady node.kv cluster.state
  storage : node.storage = cluster.storage
  consistent : Consistent node.kv node.storage
  unnoted : ∀ topics, node.groupedTopics = some topics → topics = []

/-- The queues come out of an operation alike. -/
@[mk_iff]
structure Alike {Result : Type} (left : LogMessaging Bytes × Result)
    (right : RaftMessaging Bytes × Result) : Prop where
  agree : Agree left.1 right.1
  same : left.2 = right.2

theorem Alike.answered {Result : Type} {l : Answer Bytes Result}
    {r : RaftMessaging Bytes × Except MessagingError Result} (ha : Alike l r)
    (rp : Result → Reply) : Alike (Node.answered rp l) (r.1, r.2.map rp) :=
  ⟨ha.agree, by rw [Node.answered, ha.same]⟩

variable {node : LogMessaging Bytes} {cluster : RaftMessaging Bytes}

theorem Agree.topicHasGroups (hag : Agree node cluster) (t : Text) :
    node.topicHasGroups t = ({ node with groupedTopics := some [] }, false) := by
  unfold LogMessaging.topicHasGroups
  split
  · rename_i tp hl
    obtain rfl := hag.unnoted tp hl
    simp [← hl]
  have hn : loadGroupedTopics node.kv = [] := by
    have he : listPrefix node.kv gstate.tag = [] := by
      apply eq_nil_iff_forall_not_mem.mpr
      intro key hli
      obtain ⟨hs, rest, rfl⟩ := (mem_listPrefix_iff node.kv _ key).mp hli
      have ha := (hag.consistent.ungrouped rest).1
      rw [contains, key, hs] at ha
      cases ha
    simp [loadGroupedTopics, he]
  simp [hn]

theorem Agree.topicHasGroupsApplied (hag : Agree node cluster) (t : Text) :
    topicHasGroupsApplied cluster.state t = false := by
  have he : directChildren cluster.state (gstatePrefix t) = [] := by
    apply eq_nil_iff_forall_not_mem.mpr
    rintro ⟨g, raw⟩ hc
    have hf := ((mem_directChildren_iff cluster.state .gstate t g raw).mp hc).2
    have ha := (hag.consistent.ungrouped (joined t g)).1
    rw [hag.same.contains_key (by decide), contains, hf] at ha
    cases ha
  simp [Cluster.topicHasGroupsApplied, he]

variable (tg : ApplyTarget Bytes) {kv s : Store Bytes} {storage : Storage} {rc : Record}
  {letters : List DeadLetter}

theorem publishedRecord_eq (pub : Publication) (i : Bool) : publishedRecord pub.signedContext
      (if i then some pub.payload else none) pub.notBeforeMs
      pub.expiresAtMs pub.priority = pub.record i := rfl

theorem Consistent.published (hc : Consistent kv storage) (pub : Publication)
    (id : Text) (i : Bool) (hu : kv.contains (deadKey pub.topic id) = false) :
    Consistent (kv.insert (metaKey pub.topic id) (recordToVec (pub.record i)))
      (storePayload storage pub ⟨id, false, i⟩) := by
  cases i with
  | true =>
    exact hc.putLive ⟨_, record_round _, rfl, fun ha => nomatch ha⟩ hu
  | false =>
    refine (hc.stored _ _).putLive ⟨_, record_round _, rfl, fun _ => ?_⟩ hu
    simp [payloadKey]

open SameButReady

theorem publish_agree [DecidableEq Bytes] (hag : Agree node cluster) {pub : Publication}
    {id : Text} {i : Bool} (hfa : Faithful node (.publish pub id i)) :
    Alike (singleNode.step node (.publish pub id i))
      (replicated.step cluster (.publish pub id i)) := by
  obtain ⟨hu, hun⟩ := hfa
  have hf : cluster.state.contains (metaKey pub.topic id) = false := by
    rw [← hu]
    exact (hag.same.contains_key (by decide) _).symm
  have ha : (stateMachine.step cluster.state (.batch [publishOp pub ⟨id, false, i⟩])).1 =
      (cluster.state.insert (metaKey pub.topic id) (recordToVec (pub.record i))).insert
          (readyKey pub.topic) empty := by
    simp [stateMachine, applyOp, applyBatch, publishOp, applyMqPublish,
      putNew, hf, publishedRecord_eq]
  have hw : BoatRamp.writeBatch node.kv (indexOps node.kv pub ⟨id, false, i⟩) =
      (node.kv.insert (metaKey pub.topic id) (recordToVec (pub.record i))).insert
          (readyKey pub.topic) empty := by
    simp [indexOps, publishWrites, KvWrite.apply]
  simp only [singleNode, replicated, hag.topicHasGroups, hag.topicHasGroupsApplied]
  refine ⟨⟨?_, ?_, ?_, ?_⟩, rfl⟩
  · simp only [LogMessaging.publishAs, LogMessaging.commit, publishAs, propose, hw, ha]
    exact (hag.same.insert _ _).insert _ _
  · simp [LogMessaging.publishAs, LogMessaging.commit, publishAs, propose, hag.storage]
  · simp only [LogMessaging.publishAs, LogMessaging.commit, hw]
    refine (hag.consistent.published pub id i hun).of_same ?_
    exact ((refl _).insert_ready _ _).symm
  intro t hl
  cases hl
  rfl

theorem toOption_decodeRecord_map {Result : Type} (raw : Bytes) (next : Record → Result) :
    ((decodeRecord raw).map next).toOption = (recordFromSlice raw).toOption.map next := by
  cases hr : recordFromSlice raw <;>
    simp [decodeRecord, hr, Except.mapError, Except.map, Except.toOption]

/-- Where every record decodes, both sides plan over the same list. -/
theorem Consistent.loadRecords (hco : Consistent kv storage) (t : Text) :
    Node.loadRecords kv t = .ok (topicRecords kv t) := by
  have he : ∀ e ∈ directChildren kv (metaPrefix t), ∃ res,
      (decodeRecord e.2).map (fun rc => (e.1, rc)) = .ok res := by
    rintro ⟨id, raw⟩ hc
    have hf := ((mem_directChildren_iff kv .mq t id raw).mp hc).2
    obtain ⟨rc, hd, _⟩ := hco.live _ raw hf
    exact ⟨(id, rc), by simp [decodeRecord, hd, Except.mapError, Except.map]⟩
  rw [Node.loadRecords, mapM_ok_of_forall he]
  congr 1
  apply filterMap_congr
  exact fun e _ => toOption_decodeRecord_map e.2 _

theorem leasedPayload_ok {t id : Text}
    (hh : rc.inline = none → storage.contains (payloadKey t id) = true) :
    ∃ pl, leasedPayload storage t id rc = .ok pl := by
  unfold leasedPayload
  cases hi : rc.inline with
  | some pl => exact ⟨pl, rfl⟩
  | none =>
    obtain ⟨pl, hf⟩ := isSome_iff_exists.mp (hh hi)
    exact ⟨pl, by simp [readStorage, hf]⟩

theorem deliverRecord_eq (storage : Storage) (t id : Text) (rc : Record) :
    deliverRecord storage t ⟨id, rc.attempts, rc.signedContext, rc.inline⟩ =
      (leasedPayload storage t id rc).map (leasedMessage t id rc) := by
  unfold deliverRecord leasedPayload leasedMessage
  cases rc.inline <;> rfl

/-- Carrying out a plan, both sides make the same writes and deliver the same
messages, when the payloads are there. -/
theorem carryOut_agree {t : Text} {acts : List ClaimAction}
    (hh : ∀ id rc, .lease id rc ∈ acts → rc.inline = none →
      storage.contains (payloadKey t id) = true) (tg : ApplyTarget Bytes) :
    ∃ msgs, carryOut storage t acts =
        .ok ((acts.flatMap (actionOps t) : List (KvWrite Bytes)), msgs) ∧
      (applyClaimActions t acts tg).2.mapM (deliverRecord storage t) = .ok msgs ∧
      (applyClaimActions t acts tg).1.data =
        BoatRamp.writeBatch tg.data (acts.flatMap (actionOps t)) := by
  induction acts generalizing tg with
  | nil => exact ⟨[], rfl, rfl, rfl⟩
  | cons act rest ih =>
    have l := fun tg => ih (fun id rc hi => hh id rc (by simp [hi])) tg
    cases act with
    | lease id rc =>
      obtain ⟨pl, hr⟩ := leasedPayload_ok (hh id rc (by simp))
      obtain ⟨msgs, hc, d, hw⟩ := l (tg.put (metaKey t id) (recordToVec rc))
      refine ⟨leasedMessage t id rc pl :: msgs, ?_, ?_, ?_⟩
      · simp [carryOut, delivery, hr, hc, bind, Except.bind, pure, Except.pure, Except.map]
      · rw [applyClaimActions, mapM_cons, deliverRecord_eq, hr, d]
        rfl
      · rw [applyClaimActions, hw]
        simp [actionOps, KvWrite.apply]
    | deadLetter id rc =>
      obtain ⟨msgs, hc, d, hw⟩ := l ((tg.put (deadKey t id) (recordToVec rc)).remove (metaKey t id))
      refine ⟨msgs, ?_, d, ?_⟩
      · simp [carryOut, delivery, hc, bind, Except.bind, pure, Except.pure]
      · rw [applyClaimActions, hw]
        simp [actionOps, KvWrite.apply]

theorem Consistent.acted {t : Text} {acts : List ClaimAction} (hc : Consistent kv storage)
    (hb : ∀ act ∈ acts, Backed storage (joined t act.id) (recordToVec act.record : Bytes))
    (hu : ∀ act ∈ acts, kv.contains (deadKey t act.id) = false)
    (hd : (acts.map ClaimAction.id).Nodup) :
    Consistent (BoatRamp.writeBatch kv (acts.flatMap (actionOps t))) storage := by
  induction acts generalizing kv with
  | nil => exact hc
  | cons act rest ih =>
    rw [map_cons, nodup_cons] at hd
    rw [flatMap_cons, writeBatch_append]
    have hh := hb act (by simp)
    have ho : ∀ l ∈ rest, l.id ≠ act.id := fun l hi same =>
      hd.1 (same ▸ mem_map_of_mem hi)
    refine ih ?_ (fun l hi => hb l (by simp [hi])) ?_ hd.2
    · cases act with
      | lease id rc => exact hc.putLive hh (hu (.lease id rc) (by simp))
      | deadLetter id rc => exact hc.bury hh
    intro l hi
    have ha := hu l (by simp [hi])
    have hdi := ho l hi
    cases act with
    | lease id rc =>
      simpa [actionOps, KvWrite.apply, deadKey, metaKey] using ha
    | deadLetter id rc =>
      have hap : l.id ≠ id := hdi
      simpa [actionOps, KvWrite.apply, deadKey, metaKey, hap] using ha

theorem Consistent.planned {t : Text} {nm lm : UInt64} {mb : Nat} {ma : UInt32} {act : ClaimAction}
    (hc : Consistent kv storage) (hp : act ∈ planClaim (topicRecords kv t) nm lm mb ma) :
    Backed storage (joined t act.id) (recordToVec act.record : Bytes) ∧
      kv.contains (deadKey t act.id) = false := by
  obtain ⟨⟨id, rc⟩, hi, ha⟩ := planClaim_actsOn hp
  have hf := ((mem_topicRecords_iff kv t id rc).mp hi).2
  obtain ⟨raw, hs, hd⟩ := readRecord_eq_some_iff.mp hf
  have hb := hc.live _ raw hs
  have hu : kv.contains (deadKey t id) = false :=
    hc.exclusive (joined t id) (isSome_iff_exists.mpr ⟨raw, hs⟩)
  cases ha with
  | lease hh | expire hh | exhaust hh => exact ⟨hb.rewritten hd rfl rfl, hu⟩

theorem Agree.pruned (hag : Agree node cluster) (t : Text) : Agree (node.pruneReady t) cluster := by
  unfold LogMessaging.pruneReady
  rw [hag.topicHasGroups]
  have ha : Agree { node with groupedTopics := some [] } cluster :=
    ⟨hag.same, hag.storage, hag.consistent, fun tp hl => by cases hl; rfl⟩
  simp only [Bool.false_eq_true, ↓reduceIte]
  split
  · exact ⟨hag.same.erase_ready t, hag.storage,
      hag.consistent.of_same ((refl _).erase_ready t).symm, ha.unnoted⟩
  · exact ha

omit [Codec Bytes] in
theorem pruneReady_same (t : Text) : SameButReady tg.data (pruneReady tg t).data := by
  unfold pruneReady
  split
  · exact ((refl _).erase_ready t).symm
  · exact .refl _

section Agree

variable (hag : Agree node cluster)

include hag

theorem claim_agree [DecidableEq Bytes] (nm : UInt64) (t : Text) (l : Duration)
    {mb : Nat} (ma : UInt32) (hf : mb < UInt32.size) : Alike (node.claim nm t l mb ma)
      (cluster.claim nm t l mb ma) := by
  have hpa : node.isPaused t = cluster.isPaused t :=
    hag.same.contains_key (by decide) t
  have hr : topicRecords node.kv t = topicRecords cluster.state t := by
    unfold topicRecords metaPrefix
    rw [hag.same.directChildren_eq (by decide)]
  have hb : (UInt32.ofNat mb).toNat = mb := UInt32.toNat_ofNat_of_lt' hf
  unfold LogMessaging.claim claim
  rw [hpa]
  split_ifs with hpd
  · exact ⟨hag, rfl⟩
  rw [hag.consistent.loadRecords t]
  dsimp only
  set acts := planClaim (topicRecords node.kv t) nm (Duration.asMillis l) mb ma with actions_eq
  have hh : ∀ id rc, .lease id rc ∈ acts → rc.inline = none →
      node.storage.contains (payloadKey t id) = true :=
    fun id rc hp ha => (hag.consistent.planned hp).1.held ha
  obtain ⟨msgs, hca, hd, hw⟩ := carryOut_agree hh (.new cluster.state)
  have hap : stateMachine.step cluster.state (.mqClaim t nm (Duration.asMillis l)
      (UInt32.ofNat mb) ma) =
      ((pruneReady (applyClaimActions t acts (.new cluster.state)).1 t).data,
        .claimed (applyClaimActions t acts (.new cluster.state)).2) := by
    simp only [stateMachine, applyOp, applyMqClaim, hb, new_data, ← hr, ← actions_eq]
  rw [hca]
  dsimp only [propose]
  rw [hap]
  dsimp only
  rw [hag.storage] at hd
  rw [hd]
  refine ⟨?_, rfl⟩
  have hc : Agree (node.commit (acts.flatMap (actionOps t))) { cluster with
        state := (pruneReady (applyClaimActions t acts (.new cluster.state)).1 t).data } := by
    refine ⟨?_, hag.storage, ?_, hag.unnoted⟩
    · intro key ho
      rw [← pruneReady_same _ t key ho, hw]
      exact hag.same.writeBatch _ key ho
    exact hag.consistent.acted (fun act hp => (hag.consistent.planned hp).1)
      (fun act hp => (hag.consistent.planned hp).2)
      (planClaim_ids_nodup (topicRecords_ids_nodup node.kv t))
  split
  · exact hc.pruned t
  · exact hc

variable (t g : Text)

theorem Agree.getGroupState : Node.getGroupState node.kv t g = .ok none := by
  have ha := (hag.consistent.ungrouped (joined t g)).1
  have hm : node.kv.get? (gstateKey t g) = none := by
    simpa [contains, gstateKey] using ha
  simp [Node.getGroupState, hm]

theorem Agree.loadGroupState : Messaging.loadGroupState cluster.state t g = none := by
  have ha := (hag.consistent.ungrouped (joined t g)).1
  rw [hag.same.contains_key (by decide)] at ha
  have hm : cluster.state.get? (gstateKey t g) = none := by
    simpa [contains, gstateKey] using ha
  simp [Messaging.loadGroupState, hm]

theorem Agree.withGroupState (c : GroupState → LogMessaging Bytes) :
    node.withGroupState t g c = (node, .ok ()) := by
  simp [LogMessaging.withGroupState, hag.getGroupState]

theorem ack_agree [DecidableEq Bytes] {msg : ClaimedMessage} (hf : Faithful node (.ack msg)) :
    Alike (node.ack msg) (cluster.ack msg, .ok ()) := by
  unfold LogMessaging.ack RaftMessaging.ack
  by_cases hg : msg.group ≠ []
  · rw [if_pos hg, if_pos hg, hag.withGroupState]
    have hu : (stateMachine.step cluster.state
        (.mqAckGrouped msg.topic msg.group msg.id)).1 = cluster.state := by
      simp [stateMachine, applyOp, applyMqAckGrouped, hag.loadGroupState]
    refine ⟨?_, rfl⟩
    rw [propose, hu]
    exact hag
  rw [if_neg hg, if_neg hg]
  have hr : (stateMachine.step cluster.state (.mqAck msg.topic msg.id)).1 =
      cluster.state.erase (metaKey msg.topic msg.id) := by
    simp [stateMachine, applyOp]
  dsimp only [propose]
  rw [hr]
  cases hi : msg.inline with
  | true =>
    exact ⟨⟨hag.same.erase _, hag.storage, hag.consistent.erase _, hag.unnoted⟩, rfl⟩
  | false =>
    refine ⟨⟨hag.same.erase _, ?_, ?_, hag.unnoted⟩, rfl⟩
    · simp [LogMessaging.deleteObject, LogMessaging.deleteKey, deleteObject, hag.storage]
    refine (hag.consistent.erase _).freed (by simp [metaKey]) ?_
    intro rc hfo
    have hn := (hf.resolve_left hg).resolve_left (by simp [hi])
    have hs : readRecord node.kv (deadKey msg.topic msg.id) = some rc := by
      rw [← hfo]
      exact readRecord_congr (get?_erase_of_ne _ (by simp [metaKey, deadKey])).symm
    rw [hs] at hn
    exact isSome_iff_ne_none.mp hn

theorem withRecord_agree {t id : Text} {w : Record → List (KvWrite Bytes)} (next : Record → Record)
    (hk : ∀ rc, (next rc).version = rc.version ∧ (next rc).inline = rc.inline)
    (hw : ∀ rc, SameButReady (node.kv.insert (metaKey t id) (recordToVec (next rc)))
      (BoatRamp.writeBatch node.kv (w rc)))
    (hm : readRecord cluster.state (metaKey t id) = none → s = cluster.state)
    (ha : ∀ rc, readRecord cluster.state (metaKey t id) = some rc →
      SameButReady (cluster.state.insert (metaKey t id) (recordToVec (next rc))) s) :
    Alike (node.withRecord t id w) ({ cluster with state := s }, .ok ()) := by
  have hl : node.kv.get? (metaKey t id) = cluster.state.get? (metaKey t id) :=
    hag.same.get?_key (by decide) _
  unfold LogMessaging.withRecord
  cases hf : node.kv.get? (metaKey t id) with
  | none =>
    rw [hm (by simp [readRecord, ← hl, hf])]
    exact ⟨hag, rfl⟩
  | some raw =>
    have hb := hag.consistent.live _ raw hf
    obtain ⟨rc, hd, _⟩ := hag.consistent.live _ raw hf
    have hs := ha rc (readRecord_eq_some_iff.mpr ⟨raw, hl ▸ hf, hd⟩)
    dsimp only
    rw [decodeRecord_eq_ok_iff.mpr hd]
    refine ⟨⟨?_, hag.storage, ?_, hag.unnoted⟩, rfl⟩
    · exact ((hw rc).symm.trans (hag.same.insert _ _)).trans hs
    refine Consistent.of_same (hag.consistent.putLive
      (hb.rewritten hd (hk rc).1 (hk rc).2) ?_) (hw rc)
    exact hag.consistent.exclusive _ (isSome_iff_exists.mpr ⟨raw, hf⟩)

theorem nackAfter_agree [DecidableEq Bytes] (nm : UInt64) (msg : ClaimedMessage) (dm : UInt64) :
    Alike (node.nackAfter nm msg dm) (cluster.nackAfter nm msg dm, .ok ()) := by
  unfold LogMessaging.nackAfter nackAfter
  dsimp only
  by_cases hg : msg.group ≠ []
  · rw [if_pos hg, if_pos hg, hag.withGroupState]
    have hu : (stateMachine.step cluster.state (.mqNackGrouped msg.topic msg.group
        msg.id (nackUntil nm dm))).1 = cluster.state := by
      simp [stateMachine, applyOp, applyMqNackGrouped, hag.loadGroupState]
    refine ⟨?_, rfl⟩
    rw [propose, hu]
    exact hag
  rw [if_neg hg, if_neg hg]
  refine withRecord_agree hag (fun rc =>
    { rc with leaseUntilMs := nackUntil nm dm }) (fun _ => ⟨rfl, rfl⟩) ?_ ?_ ?_
  · exact fun rc => ((refl _).insert_ready _ _).symm
  · intro hm
    simp [stateMachine, applyOp, applyMqNack, hm]
  intro rc hf
  simp only [stateMachine, applyOp, applyMqNack, new_data, hf]
  exact ((refl _).insert_ready _ _).symm

theorem setLastError_agree [DecidableEq Bytes] (msg : ClaimedMessage) (rsn : Text) :
    Alike (node.setLastError msg rsn) (cluster.setLastError msg rsn, .ok ()) := by
  unfold LogMessaging.setLastError setLastError
  by_cases hg : msg.group ≠ []
  · rw [if_pos hg, if_pos hg]
    exact ⟨hag, rfl⟩
  rw [if_neg hg, if_neg hg]
  refine withRecord_agree hag (fun rc =>
    { rc with lastError := some (sanitizeReason rsn) }) (fun _ => ⟨rfl, rfl⟩) ?_ ?_ ?_
  · exact fun rc => .refl _
  · intro hm
    simp [stateMachine, applyOp, applyMqSetLastError, hm]
  intro rc hf
  simp only [stateMachine, applyOp, applyMqSetLastError, new_data, hf]
  exact .refl _

theorem Agree.deadIds_eq (t : Text) : deadIds node.kv t = deadIds cluster.state t := by
  unfold deadIds deadPrefix
  rw [hag.same.directChildren_eq (by decide)]

theorem Agree.readRecord_dead (t id : Text) :
    readRecord node.kv (deadKey t id) = readRecord cluster.state (deadKey t id) :=
  readRecord_congr (hag.same.get?_key (by decide) _)

end Agree

theorem Consistent.scan_gdead (hc : Consistent kv storage) (t : Text) :
    kv.scan (gdeadTopicPrefix t) = [] := by
  apply eq_nil_iff_forall_not_mem.mpr
  rintro ⟨key, raw⟩ hs
  obtain ⟨hf, rest, rfl⟩ := (kv.mem_scan_iff _ _ raw).mp hs
  have ha := (hc.ungrouped (joined t [] ++ rest)).2
  rw [gdeadTopicPrefix, key, append_assoc] at hf
  rw [contains, key, hf] at ha
  cases ha

theorem Consistent.groupedDead (hc : Consistent kv storage) (t : Text) :
    Node.groupedDead kv t = [] := by
  simp [Node.groupedDead, listPrefix, hc.scan_gdead]

omit [Codec Bytes] in
theorem deadIds_nodup (kv : Store Bytes) (t : Text) : (deadIds kv t).Nodup := by
  have ho : (deadIds kv t).Pairwise (· < ·) :=
    pairwise_map.mpr (directChildren_sorted kv .dead t)
  exact ho.imp fun hb => ne_of_lt hb

theorem Consistent.buried (hco : Consistent kv storage) {t id : Text} (hl : id ∈ deadIds kv t) :
    ∃ rc, readRecord kv (deadKey t id) = some rc ∧ rc.version = SCHEMA_VERSION := by
  obtain ⟨⟨_, raw⟩, hc, rfl⟩ := mem_map.mp hl
  have hf := ((mem_directChildren_iff kv .dead t _ raw).mp hc).2
  obtain ⟨rc, hd, hv, _⟩ := hco.dead _ raw hf
  exact ⟨rc, readRecord_eq_some_iff.mpr ⟨raw, hf, hd⟩, hv⟩

omit [Codec Bytes] in
theorem contains_of_listed {t id : Text} (hl : id ∈ deadIds kv t) :
    kv.contains (deadKey t id) = true := by
  obtain ⟨⟨_, raw⟩, hc, rfl⟩ := mem_map.mp hl
  have hf := ((mem_directChildren_iff kv .dead t _ raw).mp hc).2
  simp [contains, deadKey, hf]

theorem Consistent.unlive (hc : Consistent kv storage) {t id : Text}
    (hd : kv.contains (deadKey t id) = true) : kv.contains (metaKey t id) = false := by
  by_contra hl
  have hu := hc.exclusive (joined t id) (by simpa [metaKey] using hl)
  rw [deadKey, hu] at hd
  cases hd

theorem applyBatch_append [DecidableEq Bytes] (first second : List (WriteOp Bytes)) :
    applyBatch tg (first ++ second) = applyBatch (applyBatch tg first) second := by
  induction first generalizing tg with
  | nil => simp [applyBatch]
  | cons op rest ih => simp [applyBatch, ih]

/-- A record re-armed by the cluster is the one the single node re-arms, at
normal priority. -/
theorem publishedRecord_eq_rearmed (hv : rc.version = SCHEMA_VERSION) (hp : rc.priority = 0) :
    publishedRecord rc.signedContext rc.inline 0 0 0 = rc.rearmed := by
  simp [publishedRecord, Record.rearmed, Record.fresh, hv, hp]

theorem readRecord_redriveWork_of_ne {t id l : Text} (hd : l ≠ id) :
    readRecord (redriveWork t kv id) (deadKey t l) = readRecord kv (deadKey t l) :=
  readRecord_congr (get?_redriveWork_of_ne kv (by simp [metaKey, deadKey])
    (by simpa [deadKey] using hd))

/-- One letter: the single node's step and the cluster's batch re-arm alike. -/
theorem redriveWork_agree [DecidableEq Bytes] {tg : ApplyTarget Bytes} {t id : Text}
    (same : SameButReady kv tg.data) (hc : Consistent kv storage)
    (hde : readRecord kv (deadKey t id) = some rc) (hr : readRecord s (deadKey t id) = some rc)
    (hv : rc.version = SCHEMA_VERSION) (hp : rc.priority = 0) : SameButReady (redriveWork t kv id)
        (applyBatch tg (rearmOps s t id)).data ∧ Consistent (redriveWork t kv id) storage := by
  obtain ⟨raw, hf, hd⟩ := readRecord_eq_some_iff.mp hde
  have hu := hc.unlive (isSome_iff_exists.mpr ⟨raw, hf⟩)
  have hfr : tg.data.contains (metaKey t id) = false := by
    rw [← hu]
    exact (same.contains_key (by decide) _).symm
  have ha : (applyBatch tg (rearmOps s t id)).data =
      ((tg.data.insert (metaKey t id) (recordToVec rc.rearmed)).insert
        (readyKey t) empty).erase (deadKey t id) := by
    simp [rearmOps, hr, applyBatch, applyOp, applyMqPublish,
      putNew, hfr, publishedRecord_eq_rearmed hv hp]
  rw [ha, redriveWork, hde]
  constructor
  · exact ((same.insert _ _).trans ((refl _).insert_ready _ _).symm).erase _
  · exact hc.revive ((hc.dead _ raw hf).rewritten hd rfl rfl)

/-- The loop of the single node and the batch of the cluster re-arm alike. -/
theorem redriveWork_foldl_agree [DecidableEq Bytes] {t : Text} {ids : List Text}
    {tg : ApplyTarget Bytes} (same : SameButReady kv tg.data)
    (hc : Consistent kv storage) (hd : ids.Nodup)
    (he : ∀ id ∈ ids, ∃ rc, readRecord kv (deadKey t id) = some rc ∧
      readRecord s (deadKey t id) = some rc ∧ rc.version = SCHEMA_VERSION ∧ rc.priority = 0) :
    SameButReady (ids.foldl (redriveWork t) kv) (applyBatch tg (ids.flatMap (rearmOps s t))).data ∧
      Consistent (ids.foldl (redriveWork t) kv) storage := by
  induction ids generalizing kv tg with
  | nil => exact ⟨by simpa [applyBatch] using same, hc⟩
  | cons id rest ih =>
    obtain ⟨rc, hde, hr, hv, hp⟩ := he id (by simp)
    obtain ⟨hs, hn⟩ := redriveWork_agree same hc hde hr hv hp
    rw [flatMap_cons, applyBatch_append, foldl_cons]
    rw [nodup_cons] at hd
    refine ih hs hn hd.2 fun l hi => ?_
    rw [readRecord_redriveWork_of_ne (ne_of_mem_of_not_mem hi hd.1)]
    exact he l (by simp [hi])

theorem priority_of_normalPriority {t id : Text} (hn : normalPriority kv t id = true)
    (hr : readRecord kv (deadKey t id) = some rc) : rc.priority = 0 := by
  simpa [normalPriority, hr] using hn

theorem redriven_agree [DecidableEq Bytes] (ha : Agree node cluster) {t : Text} {ids : List Text}
    (hd : ids.Nodup) (hl : ∀ id ∈ ids, id ∈ deadIds node.kv t)
    (hn : ∀ id ∈ ids, normalPriority node.kv t id = true) :
    Agree { node with kv := ids.foldl (redriveWork t) node.kv }
      (cluster.propose (.batch (ids.flatMap (rearmOps cluster.state t)))).1 := by
  have he : ∀ id ∈ ids, ∃ rc, readRecord node.kv (deadKey t id) = some rc ∧
      readRecord cluster.state (deadKey t id) = some rc ∧
      rc.version = SCHEMA_VERSION ∧ rc.priority = 0 := by
    intro id hi
    obtain ⟨rc, hre, hv⟩ := ha.consistent.buried (hl id hi)
    exact ⟨rc, hre, ha.readRecord_dead t id ▸ hre, hv, priority_of_normalPriority (hn id hi) hre⟩
  have same : SameButReady node.kv (new cluster.state).data := ha.same
  obtain ⟨hr, hne⟩ := redriveWork_foldl_agree same ha.consistent hd he
  refine ⟨?_, ha.storage, hne, ha.unnoted⟩
  simpa [propose, stateMachine, applyOp] using hr

theorem redriveDeadLetters_agree [DecidableEq Bytes] (ha : Agree node cluster) {t : Text}
    (hf : Faithful node (.redriveDeadLetters t)) :
    Alike (node.redriveDeadLetters t) ((cluster.redriveDeadLetters t).map id .ok) := by
  have hr := redriven_agree ha (deadIds_nodup node.kv t) (fun _ => id) hf
  have hu : groupedDead cluster.state t = [] :=
    (ha.consistent.of_same ha.same).groupedDead t
  have hs := hr.consistent.groupedDead t
  unfold LogMessaging.redriveDeadLetters redriveDeadLetters
  dsimp only at hs ⊢
  rw [hs, hu, ← ha.deadIds_eq]
  dsimp only [forEach]
  by_cases hn : deadIds node.kv t = []
  · rw [if_pos ⟨hn, rfl⟩, hn]
    exact ⟨ha, rfl⟩
  · rw [if_neg fun hb => hn hb.1]
    exact ⟨by simpa using hr, rfl⟩

theorem Agree.collectDeadLetters (ha : Agree node cluster) (t : Text) :
    Node.collectDeadLetters node.kv t = .ok (RaftMessaging.collectDeadLetters cluster.state t) := by
  have w : workDeadLetters node.kv t = .ok ((directChildren cluster.state
      (deadPrefix t)).filterMap fun e =>
        (recordFromSlice e.2).toOption.map (DeadLetter.of [] e.1)) := by
    have he : ∀ e ∈ directChildren node.kv (deadPrefix t), ∃ res,
        (decodeRecord e.2).map (DeadLetter.of [] e.1) = .ok res := by
      rintro ⟨id, raw⟩ hc
      have hf := ((mem_directChildren_iff node.kv .dead t id raw).mp hc).2
      obtain ⟨rc, hd, _⟩ := ha.consistent.dead _ raw hf
      exact ⟨_, by rw [decodeRecord_eq_ok_iff.mpr hd]; rfl⟩
    rw [workDeadLetters, mapM_ok_of_forall he, deadPrefix, ha.same.directChildren_eq (by decide)]
    congr 1
    apply filterMap_congr
    exact fun e _ => toOption_decodeRecord_map e.2 _
  have g : groupDeadLetters node.kv t = .ok [] := by
    simp [groupDeadLetters, ha.consistent.scan_gdead, pure, Except.pure]
  have hn := (ha.consistent.of_same ha.same).scan_gdead t
  simp [Node.collectDeadLetters, RaftMessaging.collectDeadLetters, w, g, hn, bind,
    Except.bind, pure, Except.pure]

theorem Consistent.mem_collectDeadLetters (hco : Consistent kv storage) {t : Text} {c : DeadLetter}
    (hl : c ∈ RaftMessaging.collectDeadLetters kv t) : c.group = [] ∧ c.id ∈ deadIds kv t := by
  simp only [RaftMessaging.collectDeadLetters, hco.scan_gdead, filterMap_nil,
    append_nil, mem_insertionSort] at hl
  obtain ⟨⟨id, raw⟩, hc, hr⟩ := mem_filterMap.mp hl
  obtain ⟨rc, _, rfl⟩ := map_eq_some_iff.mp hr
  exact ⟨rfl, mem_map_of_mem (f := Prod.fst) hc⟩

theorem Consistent.collectDeadLetters_ids_nodup (hc : Consistent kv storage) (t : Text) :
    ((RaftMessaging.collectDeadLetters kv t).map DeadLetter.id).Nodup := by
  simp only [RaftMessaging.collectDeadLetters, hc.scan_gdead, filterMap_nil, append_nil]
  refine (((perm_insertionSort _ _).map DeadLetter.id).nodup_iff).mpr ?_
  have ho : (((directChildren kv (deadPrefix t)).filterMap fun e =>
      (recordFromSlice e.2).toOption.map (DeadLetter.of [] e.1)).map
        DeadLetter.id).Pairwise (· < ·) := by
    rw [pairwise_map]
    refine List.Pairwise.filterMap _ ?_ (directChildren_sorted kv .dead t)
    rintro ⟨first, fr⟩ ⟨second, sr⟩ hb
    simp only [map_eq_some_iff]
    rintro _ ⟨_, _, rfl⟩ _ ⟨_, _, rfl⟩
    exact hb
  exact ho.imp fun hb => ne_of_lt hb

theorem workIds_eq (hw : ∀ c ∈ letters, c.group = []) :
    workIds letters = letters.map DeadLetter.id ∧ groupNames letters = [] := by
  constructor
  · rw [workIds, filter_eq_self.mpr]
    exact fun c hi => by simp [hw c hi]
  · rw [groupNames, filter_eq_nil_iff.mpr, map_nil]
    exact fun c hi => by simp [hw c hi]

theorem redriveOps_eq (hw : ∀ c ∈ letters, c.group = []) (s : Store Bytes) (t : Text) :
    letters.flatMap (redriveOps s t) = (letters.map DeadLetter.id).flatMap (rearmOps s t) := by
  rw [flatMap_map]
  apply flatMap_congr
  intro c hi
  simp [redriveOps, hw c hi]

theorem forEach_redriveSelected {t : Text} {ids : List Text} (node : LogMessaging Bytes)
    (hd : ids.Nodup) (he : ∀ id ∈ ids, ∃ rc, readRecord node.kv (deadKey t id) = some rc) :
    forEach (redriveSelected t) ids node =
      ({ node with kv := ids.foldl (redriveWork t) node.kv }, .ok ids.length) := by
  induction ids generalizing node with
  | nil => rfl
  | cons id rest ih =>
    rw [nodup_cons] at hd
    obtain ⟨rc, hr⟩ := he id (by simp)
    obtain ⟨raw, hf, hde⟩ := readRecord_eq_some_iff.mp hr
    have hs : redriveSelected t node id =
        ({ node with kv := redriveWork t node.kv id }, .ok true) := by
      simp [redriveSelected, hf, decodeRecord_eq_ok_iff.mpr hde]
    have hl : ∀ o ∈ rest, ∃ rc, readRecord (redriveWork t node.kv id) (deadKey t o) = some rc := by
      intro o hi
      rw [readRecord_redriveWork_of_ne (ne_of_mem_of_not_mem hi hd.1)]
      exact he o (by simp [hi])
    rw [forEach, hs]
    dsimp only
    rw [ih _ hd.2 hl]
    simp [Except.map, Nat.add_comm]

structure Selection (node : LogMessaging Bytes) (topic : Text) (letters : List DeadLetter) :
    Prop where
  work : ∀ letter ∈ letters, letter.group = []
  distinct : (letters.map DeadLetter.id).Nodup
  listed : ∀ id ∈ letters.map DeadLetter.id, id ∈ deadIds node.kv topic

theorem Agree.selection (ha : Agree node cluster) (nm : UInt64) (t : Text) (f : DeadLetterFilter) :
    Selection node t (f.select (RaftMessaging.collectDeadLetters cluster.state t) nm) := by
  have ht := ha.consistent.of_same ha.same
  have hc := f.select_sublist (RaftMessaging.collectDeadLetters cluster.state t) nm
  refine ⟨fun c hi => (ht.mem_collectDeadLetters (hc.subset hi)).1,
    (hc.map DeadLetter.id).nodup (ht.collectDeadLetters_ids_nodup t), ?_⟩
  intro id hi
  obtain ⟨c, hp, rfl⟩ := mem_map.mp hi
  rw [ha.deadIds_eq]
  exact (ht.mem_collectDeadLetters (hc.subset hp)).2

theorem redriveDeadLettersFiltered_agree [DecidableEq Bytes] (ha : Agree node cluster) {nm : UInt64}
    {t : Text} {f : DeadLetterFilter} (hf : Faithful node (.redriveDeadLettersFiltered nm t f)) :
    Alike (node.redriveDeadLettersFiltered nm t f)
      ((cluster.redriveDeadLettersFiltered nm t f).map id .ok) := by
  have hc := ha.collectDeadLetters t
  have hs := ha.selection nm t f
  simp only [Faithful, selected, hc] at hf
  unfold LogMessaging.redriveDeadLettersFiltered redriveDeadLettersFiltered
  rw [hc]
  dsimp only
  set letters := f.select (collectDeadLetters cluster.state t) nm
  obtain ⟨ids, hn⟩ := workIds_eq hs.work
  rw [ids] at hf ⊢
  rw [hn, redriveOps_eq hs.work]
  have r := redriven_agree ha hs.distinct hs.listed hf
  have he : ∀ id ∈ letters.map DeadLetter.id, ∃ rc,
      readRecord node.kv (deadKey t id) = some rc := by
    intro id hi
    obtain ⟨rc, hr, _⟩ := ha.consistent.buried (hs.listed id hi)
    exact ⟨rc, hr⟩
  rw [forEach_redriveSelected node hs.distinct he]
  dsimp only [forEach]
  split_ifs with hno
  · exact ⟨by simpa [hno] using ha, by simp [hno, Except.map]⟩
  · exact ⟨r, by simp [Except.map]⟩

theorem applyBatch_deletes [DecidableEq Bytes] (k : List Text) :
    (applyBatch tg (k.map .delete)).data = BoatRamp.writeBatch tg.data (k.map .delete) := by
  induction k generalizing tg with
  | nil => simp [applyBatch]
  | cons key rest ih =>
    simp [applyBatch, applyOp, ih, KvWrite.apply]

variable (t : Text)

theorem discardWork_kv (node : LogMessaging Bytes) (id : Text) :
    (discardWork t node id).kv = node.kv.erase (deadKey t id) := by
  unfold discardWork
  dsimp only
  split <;> rfl

theorem discardWork_groupedTopics (node : LogMessaging Bytes) (id : Text) :
    (discardWork t node id).groupedTopics = node.groupedTopics := by
  unfold discardWork
  dsimp only
  split <;> rfl

theorem discardWork_storage (node : LogMessaging Bytes) (id : Text) :
    (discardWork t node id).storage = (objectIds node.kv t [id]).foldl
        (fun storage id => storage.erase (payloadKey t id)) node.storage := by
  rw [objectIds, filter_singleton, inlineLength]
  cases hi : (readRecord node.kv (deadKey t id)).bind Record.inline with
  | some pl =>
    simp [discardWork, hi, LogMessaging.releaseInline, LogMessaging.deleteKey]
  | none =>
    simp [discardWork, hi, LogMessaging.deleteObject, LogMessaging.deleteKey]

/-- Removing dead letters one by one, the single node frees the objects the
cluster picks up front. -/
theorem discardWork_foldl {ids : List Text} (node : LogMessaging Bytes)
    (hd : ids.Nodup) : (ids.foldl (discardWork t) node).kv =
        BoatRamp.writeBatch node.kv ((ids.map (deadKey t)).map .delete) ∧
      (ids.foldl (discardWork t) node).storage = (objectIds node.kv t ids).foldl
          (fun storage id => storage.erase (payloadKey t id)) node.storage ∧
      (ids.foldl (discardWork t) node).groupedTopics = node.groupedTopics := by
  induction ids generalizing node with
  | nil => exact ⟨rfl, rfl, rfl⟩
  | cons id rest ih =>
    rw [nodup_cons] at hd
    obtain ⟨kv, storage, hg⟩ := ih (discardWork t node id) hd.2
    have ho : objectIds (node.kv.erase (deadKey t id)) t rest = objectIds node.kv t rest := by
      apply filter_congr
      intro o hi
      have hdi := ne_of_mem_of_not_mem hi hd.1
      rw [inlineLength, inlineLength, readRecord_congr
        (get?_erase_of_ne _ (by simpa [deadKey] using hdi))]
    have first : objectIds node.kv t (id :: rest) =
        objectIds node.kv t [id] ++ objectIds node.kv t rest :=
      filter_append [id] rest
    rw [foldl_cons, kv, storage, hg, discardWork_kv, discardWork_storage, ho, first,
      foldl_append]
    exact ⟨rfl, rfl, discardWork_groupedTopics t node id⟩

theorem Consistent.discarded {node : LogMessaging Bytes} {t id : Text}
    (hc : Consistent node.kv node.storage) (hd : node.kv.contains (deadKey t id) = true) :
    Consistent (discardWork t node id).kv
      (discardWork t node id).storage := by
  have hu := hc.unlive hd
  unfold discardWork
  dsimp only
  split
  · exact hc.erase _
  refine (hc.erase _).freed ?_ ?_
  · simpa [deadKey, metaKey] using hu
  · intro rc hf
    simp [readRecord, deadKey] at hf

theorem Consistent.discarded_foldl {t : Text} {ids : List Text} {node : LogMessaging Bytes}
    (hc : Consistent node.kv node.storage) (hd : ids.Nodup)
    (hde : ∀ id ∈ ids, node.kv.contains (deadKey t id) = true) :
    Consistent (ids.foldl (discardWork t) node).kv
      (ids.foldl (discardWork t) node).storage := by
  induction ids generalizing node with
  | nil => exact hc
  | cons id rest ih =>
    rw [nodup_cons] at hd
    refine ih (hc.discarded (hde id (by simp))) hd.2 fun l hi => ?_
    have hdi := ne_of_mem_of_not_mem hi hd.1
    simpa [discardWork_kv, deadKey, hdi] using hde l (by simp [hi])

omit [Codec Bytes] in
theorem deleteObject_foldl (t : Text) (ids : List Text) (cluster : RaftMessaging Bytes) :
    ids.foldl (fun cluster id => cluster.deleteObject (payloadKey t id)) cluster = { cluster with
        storage := ids.foldl (fun storage id => storage.erase (payloadKey t id))
          cluster.storage } := by
  induction ids generalizing cluster with
  | nil => rfl
  | cons id rest ih => exact ih _

theorem removed_agree [DecidableEq Bytes] (hag : Agree node cluster) {t : Text} {ids : List Text}
    (hd : ids.Nodup) (hl : ∀ id ∈ ids, id ∈ deadIds node.kv t) :
    Agree (ids.foldl (discardWork t) node)
      (cluster.removeDead t ids ((ids.map (deadKey t)).map .delete)) := by
  obtain ⟨kv, storage, hg⟩ := discardWork_foldl t node hd
  have hde := fun id hi => contains_of_listed (hl id hi)
  have ho : objectIds node.kv t ids = objectIds cluster.state t ids := by
    apply filter_congr
    intro id _
    rw [inlineLength, inlineLength, hag.readRecord_dead]
  refine ⟨?_, ?_, hag.consistent.discarded_foldl hd hde, ?_⟩
  · rw [kv]
    have ha := applyBatch_deletes (.new cluster.state) (ids.map (deadKey t))
    simp only [removeDead, deleteObject_foldl, releaseInline, propose, stateMachine, applyOp, ha]
    exact hag.same.writeBatch _
  · rw [storage, ho, hag.storage]
    simp [removeDead, deleteObject_foldl, releaseInline, propose]
  · rw [hg]
    exact hag.unnoted

theorem purgeDeadLetters_agree [DecidableEq Bytes] (ha : Agree node cluster) (t : Text) :
    Alike (node.purgeDeadLetters t) (cluster.purgeDeadLetters t) := by
  have hr := removed_agree ha (deadIds_nodup node.kv t) fun _ => id
  have hu : groupedDead cluster.state t = [] :=
    (ha.consistent.of_same ha.same).groupedDead t
  have hs := hr.consistent.groupedDead t
  unfold LogMessaging.purgeDeadLetters purgeDeadLetters
  dsimp only
  rw [hs, hu, ← ha.deadIds_eq]
  by_cases hn : deadIds node.kv t = []
  · rw [if_pos ⟨hn, rfl⟩, hn]
    exact ⟨ha, rfl⟩
  rw [if_neg fun hb => hn hb.1]
  rw [List.map_map] at hr
  exact ⟨by simpa [Function.comp_def] using hr, rfl⟩

theorem discardOne_foldl (hw : ∀ c ∈ letters, c.group = []) (t : Text) (node : LogMessaging Bytes) :
    letters.foldl (LogMessaging.discardOne t) node =
      (letters.map DeadLetter.id).foldl (discardWork t) node := by
  rw [foldl_map]
  apply foldl_ext
  intro cr c hi
  simp [LogMessaging.discardOne, hw c hi]

theorem discardDeadLetters_agree [DecidableEq Bytes] (ha : Agree node cluster) (nm : UInt64)
    (t : Text) (f : DeadLetterFilter) : Alike (node.discardDeadLetters nm t f)
      ((cluster.discardDeadLetters nm t f).map id .ok) := by
  have hs := ha.selection nm t f
  unfold LogMessaging.discardDeadLetters RaftMessaging.discardDeadLetters
  rw [ha.collectDeadLetters t]
  dsimp only
  set letters := f.select (RaftMessaging.collectDeadLetters cluster.state t) nm
  have hr := removed_agree ha hs.distinct hs.listed
  have hd : letters.map (fun c =>
      if c.group = [] then WriteOp.delete (deadKey t c.id)
      else .delete (gdeadKey t c.group c.id)) =
      ((letters.map DeadLetter.id).map (deadKey t)).map
        (fun key => (.delete key : WriteOp Bytes)) := by
    simp only [List.map_map]
    apply List.map_congr_left
    intro c hi
    simp [hs.work c hi]
  rw [discardOne_foldl hs.work, (workIds_eq hs.work).1, hd]
  split_ifs with hn
  · exact ⟨by simpa [hn] using ha, by simp [hn]⟩
  · exact ⟨hr, rfl⟩

theorem step_agree [DecidableEq Bytes] (op : QueueOp) (ha : Agree node cluster)
    (hf : Faithful node op) : Alike (singleNode.step node op) (replicated.step cluster op) := by
  cases op with
  | publish => exact publish_agree ha hf
  | claim nm t l _ ma =>
    exact (claim_agree ha nm t l ma hf).answered _
  | ack => exact (ack_agree ha hf).answered _
  | nackAfter => exact (nackAfter_agree ha ..).answered _
  | setLastError => exact (setLastError_agree ha ..).answered _
  | redriveDeadLetters => exact (redriveDeadLetters_agree ha hf).answered _
  | redriveDeadLettersFiltered => exact (redriveDeadLettersFiltered_agree ha hf).answered _
  | purgeDeadLetters t =>
    obtain ⟨hn, same⟩ := purgeDeadLetters_agree ha t
    exact ⟨hn, congrArg (Except.ok ∘ Reply.count) same⟩
  | discardDeadLetters => exact (discardDeadLetters_agree ha ..).answered _

/-- From equal consistent states, the two queues answer every faithful sequence
of operations alike, claims with the same messages in the same order. -/
theorem queues_agree_of_faithful [DecidableEq Bytes] (storage : Storage) (kv : Store Bytes)
    (consistent : Consistent kv storage) (bytes : Nat) (nodeId : UInt64) (ops : List QueueOp)
    (faithful : singleNode.Meets Faithful
      ((LogMessaging.new storage kv).withInlineBudget bytes) ops) :
    singleNode.history ((LogMessaging.new storage kv).withInlineBudget bytes) ops =
      replicated.history (RaftMessaging.new storage kv nodeId) ops := by
  have hs : Agree ((LogMessaging.new storage kv).withInlineBudget bytes)
      (RaftMessaging.new storage kv nodeId) :=
    ⟨.refl kv, rfl, consistent, fun t hl => nomatch hl⟩
  exact (Machine.history_eq_of_simulation
    (fun node cluster op ha faithful => (alike_iff ..).mp (step_agree op ha faithful)) hs
    faithful).2

end Agreement

namespace Prioritised

def topic : Text := "jobs".toList

def node : LogMessaging Stored :=
  (LogMessaging.new .empty .empty).withInlineBudget INLINE_INFLIGHT_MAX_BYTES

def cluster : RaftMessaging Stored := RaftMessaging.new .empty .empty 1

def early : Text := nextId 1000 1 0

def late : Text := nextId 1001 1 1

def publishes (priority : UInt8) : List QueueOp :=
  [.publish ⟨topic, [1], none, 0, 0, 0⟩ early true,
    .publish ⟨topic, [2], none, 0, 0, priority⟩ late false]

def claim (nowMs : UInt64) (maxBatch : Nat) (maxAttempts : UInt32) : QueueOp :=
  .claim nowMs topic 1000000 maxBatch maxAttempts

/-- Attempts are exhausted at the second claim, and what died is put back. -/
def redriven (priority : UInt8) : List QueueOp :=
  publishes priority ++ [claim 1002 1 1, claim 2000 1 1, .redriveDeadLetters topic]

def ids : Except MessagingError Reply → List Text
  | .ok (.claimed messages) => messages.map ClaimedMessage.id
  | _ => []

/-- At normal priority both queues go through the same history. -/
theorem normal_redriven_alike : singleNode.Meets Faithful node (redriven 0 ++ [claim 3000 8 3]) ∧
      ids (singleNode.step (singleNode.final node (redriven 0)) (claim 3000 8 3)).2 =
        [early, late] ∧ singleNode.history node (redriven 0 ++ [claim 3000 8 3]) =
        replicated.history cluster (redriven 0 ++ [claim 3000 8 3]) := by
  refine ⟨by decide +kernel, by decide +kernel, ?_⟩
  exact queues_agree_of_faithful .empty .empty (Consistent.empty _) _ 1 _ (by decide +kernel)

/-- A redrive keeps the priority on the single node and drops it on the cluster,
so the next claim delivers in another order. -/
theorem urgent_redriven_reordered :
    ids (singleNode.step (singleNode.final node (redriven 5)) (claim 3000 8 3)).2 = [late, early] ∧
      ids (replicated.step (replicated.final cluster (redriven 5)) (claim 3000 8 3)).2 =
        [early, late] := by
  refine ⟨by decide +kernel, by decide +kernel⟩

end Prioritised

end BoatRamp.Cluster

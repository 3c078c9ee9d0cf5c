import BoatRamp.Library.Fallible
import BoatRamp.Node.Log
import Mathlib.Logic.Relation

/-!
# What an operation does to the queue

`Effect` lists the elementary changes the operations of the single-node queue
are made of, each with what the code knows when it makes it.  `run_effects`
says that every operation is a sequence of them, so an invariant of the queue
only has to be checked against this list.
-/

namespace BoatRamp.Node

open Library Messaging Relation LogMessaging SortedMap Family
open List hiding contains

/-- The keyspaces no invariant of the queue speaks about. -/
def plain : Family → Bool
  | .mq => false
  | .ready => false
  | .gstate => false
  | _ => true

section Effects

variable {Bytes : Type} [Codec Bytes]

def selected (kv : Store Bytes) (nowMs : UInt64) (topic : Text) (filter : DeadLetterFilter) :
    List DeadLetter :=
  match collectDeadLetters kv topic with
  | .ok letters => filter.select letters nowMs
  | .error _ => []

def rearms (node : LogMessaging Bytes) : Operation → Option Text
  | .redriveDeadLetters topic => if deadIds node.kv topic = [] then none else some topic
  | .redriveDeadLettersFiltered nowMs topic filter =>
      if workIds (selected node.kv nowMs topic filter) = [] then none else some topic
  | _ => none

/-- The topics and groups of dead letters whose group is not registered. -/
def unregistered (kv : Store Bytes) (topic : Text) (names : List (Text × Text)) :
    List (Text × Text) :=
  (names.filter fun name => !kv.contains (gstateKey topic name.1)).map
    (fun name => (topic, name.1))

def registers (node : LogMessaging Bytes) : Operation → List (Text × Text)
  | .claimGrouped _ topic group _ _ _ _ =>
      if group = [] ∨ node.isPaused topic ∨ node.kv.contains (gstateKey topic group) then []
      else [(topic, group)]
  | .redriveDeadLetters topic => unregistered node.kv topic (groupedDead node.kv topic)
  | .redriveDeadLettersFiltered nowMs topic filter =>
      unregistered node.kv topic (groupNames (selected node.kv nowMs topic filter))
  | _ => []

/-- An elementary change.  A record is written without its topic's marker only
over a stored one, or by an operation that re-arms the topic; a group is
registered only on a topic already noted as grouped. -/
inductive Effect (rearmed : Text → Prop) (noted : Text → Text → Prop) :
    LogMessaging Bytes → LogMessaging Bytes → Prop where
  | memory {before after} : after.kv = before.kv →
      after.groupedTopics = before.groupedTopics → Effect rearmed noted before after
  | arrive {id} (node topic value) : IsSegment id → Effect rearmed noted node
      ((node.putKey (metaKey topic id) value).putKey (readyKey topic) Codec.empty)
  | overwrite {node key} (value) : node.kv.contains key = true →
      Effect rearmed noted node (node.putKey key value)
  | rearm {topic id} (node value) : rearmed topic → IsSegment id →
      Effect rearmed noted node (node.putKey (metaKey topic id) value)
  | arm (node topic) : Effect rearmed noted node (node.putKey (readyKey topic) Codec.empty)
  | register {node topics topic group} (value) : noted topic group →
      node.groupedTopics = some topics → topic ∈ topics →
      Effect rearmed noted node (node.putKey (gstateKey topic group) value)
  | put {family : Family} (node rest value) : plain family = true →
      Effect rearmed noted node (node.putKey (family.key rest) value)
  | drop {family : Family} (node rest) : family ≠ .ready →
      Effect rearmed noted node (node.deleteKey (family.key rest))
  | prune {node} (topic) : directChildren node.kv (metaPrefix topic) = [] → ¬rearmed topic →
      Effect rearmed noted node (node.deleteKey (readyKey topic))
  | load {node} : node.groupedTopics = none → Effect rearmed noted node
      { node with groupedTopics := some (LogMessaging.loadGroupedTopics node.kv) }
  | note {topic group} (node) : noted topic group →
      Effect rearmed noted node (node.markGrouped topic)
  | restart (node) : (∀ topic group, ¬noted topic group) → Effect rearmed noted node node.restart

/-- A sequence of elementary changes. -/
abbrev Effects (rearmed : Text → Prop) (noted : Text → Text → Prop) :
    LogMessaging Bytes → LogMessaging Bytes → Prop :=
  ReflTransGen (Effect rearmed noted)

variable {rr : Text → Prop} {nt : Text → Text → Prop}
  (node : LogMessaging Bytes) (nm : UInt64) (msg : ClaimedMessage) {kv : Store Bytes}
  {t : Text} {name : Text × Text} {cs : List DeadLetter} {letter : DeadLetter}

theorem topicHasGroups_effects (t : Text) : Effects rr nt node (node.topicHasGroups t).1 := by
  unfold topicHasGroups
  split
  · exact .refl
  · rename_i unloaded
    exact .single (.load unloaded)

theorem mint_effects (t : Text) (pl : Payload) : Effects rr nt node (node.mint nm t pl).1 := by
  have hc : Effects rr nt node { node with seq := node.seq + 1 } :=
    .single (.memory rfl rfl)
  have hl := hc.trans (topicHasGroups_effects _ t)
  unfold mint
  dsimp only
  split
  · exact hl.tail (.memory rfl rfl)
  · exact hl

theorem commit_indexOps_effects (kv : Store Bytes) (pub : Publication) {m : Minted}
    (hs : IsSegment m.id) : Effects rr nt node (node.commit (indexOps kv pub m)) := by
  have ha : Effects rr nt node _ := .single (.arrive node pub.topic
    (Codec.recordToVec (pub.record m.inline)) hs)
  unfold indexOps publishWrites
  split_ifs
  · exact (ha.tail (.put _ _ _ rfl)).tail (.put _ _ _ rfl)
  · exact ha.tail (.put _ _ _ rfl)
  · exact ha

omit [Codec Bytes] in
theorem mint_isSegment (t : Text) (pl : Payload) : IsSegment (node.mint nm t pl).2.id :=
  singleNodeId_isSegment nm node.seq

theorem buildPublishOps_effects (pub : Publication) :
    Effects rr nt node (node.buildPublishOps nm pub).1 :=
  (mint_effects node nm pub.topic pub.payload).tail (.memory rfl rfl)

theorem publish_effects (pub : Publication) : Effects rr nt node (node.publish nm pub) :=
  (buildPublishOps_effects node nm pub).trans
    (commit_indexOps_effects _ _ _ (mint_isSegment node nm _ _))

omit [Codec Bytes] in
theorem commit_append (x y : List (KvWrite Bytes)) :
    node.commit (x ++ y) = (node.commit x).commit y := by
  simp [commit, writeBatch_append]

theorem buildBatch_effects (sc : Option Text)
    (msgs : List (UInt64 × Text × Payload)) (node : LogMessaging Bytes) :
    Effects rr nt node (buildBatch sc msgs node).1 ∧ ∀ o : LogMessaging Bytes, Effects rr nt o
        (o.commit (buildBatch sc msgs node).2) := by
  induction msgs generalizing node with
  | nil => exact ⟨.refl, fun o => .refl⟩
  | cons msg rest ih =>
    obtain ⟨nm, t, pl⟩ := msg
    unfold buildBatch
    obtain ⟨hb, hc⟩ := ih (node.buildPublishOps nm ⟨t, pl, sc, 0, 0, 0⟩).1
    refine ⟨(buildPublishOps_effects node nm _).trans hb, fun o => ?_⟩
    rw [commit_append]
    exact (commit_indexOps_effects o _ _ (mint_isSegment node nm _ _)).trans (hc _)

theorem mem_of_loadRecords {rs : List (Text × Record)} (hl : loadRecords kv t = .ok rs) (id : Text)
    (r : Record) : (id, r) ∈ rs ↔ IsSegment id ∧ readRecord kv (metaKey t id) = some r := by
  rw [eq_filterMap_of_mapM_ok hl]
  simp only [mem_filterMap, Prod.exists, readRecord_eq_some_iff, toOption_eq_some_iff,
    map_eq_ok_iff, decodeRecord_eq_ok_iff]
  constructor
  · rintro ⟨_, raw, hc, _, hd, ⟨⟩⟩
    obtain ⟨hs, hf⟩ := (mem_directChildren_iff kv .mq t id raw).mp hc
    exact ⟨hs, raw, hf, hd⟩
  rintro ⟨hs, raw, hf, hd⟩
  have hc := (mem_directChildren_iff kv .mq t id raw).mpr ⟨hs, hf⟩
  exact ⟨id, raw, hc, r, hd, rfl⟩

theorem loadRecords_ids_nodup {rs : List (Text × Record)}
    (hl : loadRecords kv t = .ok rs) : (rs.map Prod.fst).Nodup := by
  have ho : (rs.map Prod.fst).Pairwise (· < ·) := by
    rw [eq_filterMap_of_mapM_ok hl, pairwise_map]
    refine List.Pairwise.filterMap _ ?_ (directChildren_sorted kv .mq t)
    rintro ⟨x, fr⟩ ⟨y, sr⟩ hb
    simp only [toOption_eq_some_iff, map_eq_ok_iff]
    rintro _ ⟨_, _, rfl⟩ _ ⟨_, _, rfl⟩
    exact hb
  exact ho.imp fun hb => ne_of_lt hb

theorem carryOut_ops {sto : Storage} {acts : List ClaimAction} {ops : List (KvWrite Bytes)}
    {c : List ClaimedMessage} (hd : carryOut sto t acts = .ok (ops, c)) :
    ops = acts.flatMap (actionOps t) := by
  induction acts generalizing ops c with
  | nil =>
    cases hd
    rfl
  | cons act rest ih =>
    simp only [carryOut, bind_eq_ok_iff] at hd
    obtain ⟨_, _, _, l, he⟩ := hd
    cases he
    rw [flatMap_cons, ih l]

theorem commit_actions_effects {acts : List ClaimAction}
    (hs : ∀ act ∈ acts, node.kv.contains (metaKey t act.id) = true)
    (hd : (acts.map ClaimAction.id).Nodup) :
    Effects rr nt node (node.commit (acts.flatMap (actionOps t))) := by
  induction acts generalizing node with
  | nil => exact .refl
  | cons act rest ih =>
    rw [map_cons, nodup_cons] at hd
    have ho : ∀ l ∈ rest, l.id ≠ act.id := fun l hi hsa =>
      hd.1 (hsa ▸ mem_map_of_mem hi)
    rw [flatMap_cons, commit_append]
    refine ReflTransGen.trans ?_ (ih _ ?_ hd.2)
    · have hp := hs act (by simp)
      cases act with
      | lease id r => exact .single (.overwrite _ hp)
      | deadLetter id r =>
        exact (ReflTransGen.single (.put node _ _ rfl)).tail (.drop _ _ (by decide))
    intro l hi
    have hp := hs l (by simp [hi])
    have hdi := ho l hi
    cases act with
    | lease id r =>
      simp [commit, actionOps, KvWrite.apply, hp]
    | deadLetter id r =>
      have hk : metaKey t l.id ≠ metaKey t id := by
        simpa [metaKey, ClaimAction.id] using hdi
      simp [commit, actionOps, KvWrite.apply, hp, hk]

theorem pruneReady_effects (hi : ¬rr t) : Effects rr nt node (node.pruneReady t) := by
  have hl : Effects rr nt node (node.topicHasGroups t).1 :=
    topicHasGroups_effects node t
  unfold pruneReady
  dsimp only
  split_ifs with g hd
  · exact hl
  · exact hl.tail (.prune t (isEmpty_iff.mp hd) hi)
  · exact hl

theorem claim_effects (t : Text) (l : Duration) (mb : Nat) (ma : UInt32) (hid : ¬rr t) :
    Effects rr nt node (node.claim nm t l mb ma).1 := by
  unfold claim
  split
  · exact .refl
  split
  · exact .refl
  rename_i rs loaded
  dsimp only
  split
  · exact .refl
  rename_i ops c done
  have hc : Effects rr nt node (node.commit ops) := by
    rw [carryOut_ops done]
    refine commit_actions_effects node ?_ (planClaim_ids_nodup (loadRecords_ids_nodup loaded))
    intro act hpl
    obtain ⟨⟨id, r⟩, hi, ha⟩ := planClaim_actsOn hpl
    have hf := ((mem_of_loadRecords loaded id r).mp hi).2
    have hp : node.kv.contains (metaKey t id) = true := by
      obtain ⟨raw, hs, _⟩ := readRecord_eq_some_iff.mp hf
      simp [contains, hs]
    cases ha <;> exact hp
  split
  · exact hc.trans (pruneReady_effects _ hid)
  · exact hc

variable {id g : Text}

theorem contains_of_getGroupState {f : Option GroupState}
    (hr : getGroupState kv t g = .ok f) : kv.contains (gstateKey t g) = f.isSome := by
  unfold getGroupState at hr
  unfold contains
  cases hs : kv.get? (gstateKey t g) with
  | none =>
    rw [hs] at hr
    cases hr
    rfl
  | some raw =>
    rw [hs] at hr
    dsimp only at hr
    cases hd : Codec.groupFromSlice raw with
    | error text =>
      rw [hd] at hr
      cases hr
    | ok s =>
      rw [hd] at hr
      cases hr
      rfl

theorem putGroupDead_foldl_effects (t g : Text) (d : List (Text × UInt32))
    (node : LogMessaging Bytes) : Effects rr nt node
      { node with kv := d.foldl (putGroupDead t g) node.kv } := by
  induction d generalizing node with
  | nil => exact .refl
  | cons e rest ih =>
    have hb : Effect rr nt node { node with kv := putGroupDead t g node.kv e } := .put node _ _ rfl
    exact (ih _).head hb

theorem contains_putGroupDead_foldl {key : Text} (d : List (Text × UInt32))
    (hp : kv.contains key = true) : (d.foldl (putGroupDead t g) kv).contains key = true := by
  induction d generalizing kv with
  | nil => exact hp
  | cons e rest ih =>
    exact ih (by simp [putGroupDead, hp])

theorem claimGrouped_effects (t g : Text) (s : StartPosition) (l : Duration) (mb : Nat)
    (ma : UInt32) (hi : ¬rr t)
    (hn : ∀ pair ∈ registers node (.claimGrouped nm t g s l mb ma), nt pair.1 pair.2) :
    Effects rr nt node (node.claimGrouped nm t g s l mb ma).1 := by
  unfold claimGrouped
  split_ifs with hw hp
  · exact claim_effects node nm t l mb ma hi
  · exact .refl
  split
  · exact .refl
  rename_i f hre
  have hr := contains_of_getGroupState hre
  dsimp only
  generalize planClaimGrouped _ _ _ _ _ _ = p
  cases f with
  | some sta =>
    split
    · exact (putGroupDead_foldl_effects t g _ node).tail
        (.overwrite _ (contains_putGroupDead_foldl _ hr))
    · exact putGroupDead_foldl_effects t g _ node
  | none =>
    have hm : nt t g :=
      hn (t, g) (by simp [registers, hw, hp, hr])
    refine ReflTransGen.head (.note node hm) ?_
    exact (putGroupDead_foldl_effects t g _ _).tail (.register _ hm rfl mem_cons_self)

theorem withGroupState_effects {node : LogMessaging Bytes} {c : GroupState → LogMessaging Bytes}
    (hc : ∀ s, node.kv.contains (gstateKey t g) = true → Effects rr nt node (c s)) :
    Effects rr nt node (node.withGroupState t g c).1 := by
  unfold withGroupState
  split
  · exact .refl
  · exact .refl
  · rename_i s read
    exact hc s (contains_of_getGroupState read)

theorem dropInFlight_effects {node : LogMessaging Bytes} (id : Text)
    (s : GroupState) (hr : node.kv.contains (gstateKey t g) = true) :
    Effects rr nt node (node.dropInFlight t g id s) := by
  unfold dropInFlight
  split
  · exact .single (.overwrite _ hr)
  · exact .refl

theorem withRecord_effects {node : LogMessaging Bytes} {w : Record → List (KvWrite Bytes)}
    (hc : ∀ r, node.kv.contains (metaKey t id) = true → Effects rr nt node (node.commit (w r))) :
    Effects rr nt node (node.withRecord t id w).1 := by
  unfold withRecord
  split
  · exact .refl
  rename_i raw found
  split
  · exact .refl
  · exact hc _ (by simp [contains, found])

theorem ack_effects : Effects rr nt node (node.ack msg).1 := by
  have hr : Effects rr nt node
      (node.deleteKey (metaKey msg.topic msg.id)) := .single (.drop node _ (by decide))
  unfold LogMessaging.ack
  split
  · exact withGroupState_effects fun s hre =>
      dropInFlight_effects msg.id s hre
  dsimp only
  split <;> exact hr.tail (.memory rfl rfl)

theorem nackAfter_effects (dm : UInt64) : Effects rr nt node (node.nackAfter nm msg dm).1 := by
  unfold nackAfter
  split
  · apply withGroupState_effects
    intro s hr
    split
    · exact .refl
    · exact (ReflTransGen.single (.overwrite _ hr)).tail (.arm _ _)
  · exact withRecord_effects fun r hp =>
      (ReflTransGen.single (.overwrite _ hp)).tail (.arm _ _)

theorem setLastError_effects (rsn : Text) : Effects rr nt node (node.setLastError msg rsn).1 := by
  unfold setLastError
  split
  · exact .refl
  · exact withRecord_effects fun r hp => .single (.overwrite _ hp)

theorem deadLetter_effects (rsn : Text) : Effects rr nt node (node.deadLetter msg rsn).1 := by
  unfold deadLetter
  split
  · refine ReflTransGen.head (.put node _ _ rfl) (withGroupState_effects ?_)
    exact fun s hr => dropInFlight_effects msg.id s hr
  · exact withRecord_effects fun r _ =>
      (ReflTransGen.single (.put node _ _ rfl)).tail (.drop _ _ (by decide))

theorem foldl_effects {Item : Type} {s : LogMessaging Bytes → Item → LogMessaging Bytes}
    {xs : List Item} (he : ∀ node, ∀ x ∈ xs, Effects rr nt node (s node x))
    (node : LogMessaging Bytes) : Effects rr nt node (xs.foldl s node) := by
  induction xs generalizing node with
  | nil => exact .refl
  | cons x rest ih =>
    exact (he node x (by simp)).trans (ih (fun node l hi => he node l (by simp [hi])) _)

omit [Codec Bytes] in
/-- What every step of a loop keeps, the loop keeps, also when it stops early. -/
theorem forEach_keeps {Item : Type}
    {s : LogMessaging Bytes → Item → Answer Bytes Bool}
    {xs : List Item} (Kept : LogMessaging Bytes → Prop)
    (he : ∀ node, ∀ x ∈ xs, Kept node → Kept (s node x).1) {node : LogMessaging Bytes}
    (hk : Kept node) : Kept (forEach s xs node).1 := by
  induction xs generalizing node with
  | nil => exact hk
  | cons x rest ih =>
    have hn := he node x (by simp) hk
    have hl : ∀ node, ∀ o ∈ rest, Kept node → Kept (s node o).1 :=
      fun node o hi => he node o (by simp [hi])
    unfold forEach
    split
    · rename_i stopped err failed
      rw [failed] at hn
      exact hn
    rename_i passed ac done
    rw [done] at hn
    exact ih hl hn

theorem redriveWork_effects (hr : rr t) (hs : IsSegment id)
    (node : LogMessaging Bytes) : Effects rr nt node { node with kv := redriveWork t node.kv id } :=
  (ReflTransGen.single (.rearm node _ hr hs)).tail (.drop _ _ (by decide))

theorem get?_redriveWork_of_ne {key : Text} (kv : Store Bytes) (hl : key ≠ metaKey t id)
    (hd : key ≠ deadKey t id) : (redriveWork t kv id).get? key = kv.get? key := by
  unfold redriveWork
  rw [get?_erase_of_ne _ hd, get?_insert_of_ne _ _ hl]

theorem get?_redriveWork {fam : Family} (rest t id : Text) (kv : Store Bytes) (hl : fam ≠ .mq)
    (hd : fam ≠ .dead) : (redriveWork t kv id).get? (fam.key rest) = kv.get? (fam.key rest) :=
  get?_redriveWork_of_ne kv (by simp [metaKey, hl]) (by simp [deadKey, hd])

theorem redriveWork_foldl_effects {ids : List Text} (hr : ids ≠ [] → rr t)
    (hs : ∀ id ∈ ids, IsSegment id) (node : LogMessaging Bytes) :
    Effects rr nt node { node with kv := ids.foldl (redriveWork t) node.kv } := by
  induction ids generalizing node with
  | nil => exact .refl
  | cons id rest ih =>
    have hk := hr (by simp)
    exact (redriveWork_effects hk (hs id (by simp)) node).trans (ih (fun _ => hk)
        (fun l hi => hs l (by simp [hi])) _)

theorem get?_redriveWork_foldl (fam : Family) (rest t : Text) (ids : List Text)
    (kv : Store Bytes) (hl : fam ≠ .mq) (hd : fam ≠ .dead) :
    (ids.foldl (redriveWork t) kv).get? (fam.key rest) = kv.get? (fam.key rest) := by
  induction ids generalizing kv with
  | nil => rfl
  | cons id l ih =>
    rw [foldl_cons, ih, get?_redriveWork rest t id kv hl hd]

theorem redriveGrouped_effects (hn : nt t name.1 ∨ node.kv.contains (gstateKey t name.1) = true) :
    Effects rr nt node (redriveGrouped t node name).1 := by
  unfold redriveGrouped
  split
  · exact .refl
  rename_i f hre
  have hr := contains_of_getGroupState hre
  cases f with
  | some s =>
    exact (ReflTransGen.single (.overwrite _ hr)).tail (.drop _ _ (by decide))
  | none =>
    have hm : nt t name.1 := hn.resolve_right (by simp [hr])
    exact ((ReflTransGen.single (.note node hm)).tail
      (.register _ hm rfl mem_cons_self)).tail (.drop _ _ (by decide))

theorem contains_redriveGrouped (hr : node.kv.contains (gstateKey t g) = true) :
    (redriveGrouped t node name).1.kv.contains (gstateKey t g) = true := by
  unfold redriveGrouped
  split
  · exact hr
  dsimp only [deleteKey, putGroupState, putKey]
  have hk : gstateKey t g ≠ gdeadKey t name.1 name.2 := by
    simp [gstateKey, gdeadKey]
  split <;> simp [markGrouped, hr, hk]

theorem forEach_redriveGrouped_effects {n : List (Text × Text)}
    {s : LogMessaging Bytes → Text × Text → Answer Bytes Bool}
    (hs : ∀ node name, s node name = redriveGrouped t node name ∨ (s node name).1 = node)
    (node : LogMessaging Bytes)
    (hn : ∀ name ∈ n, nt t name.1 ∨ node.kv.contains (gstateKey t name.1) = true) :
    Effects rr nt node (forEach s n node).1 := by
  refine (forEach_keeps (fun c => Effects rr nt node c ∧ ∀ name ∈ n, nt t name.1 ∨
      c.kv.contains (gstateKey t name.1) = true) ?_ ⟨.refl, hn⟩).1
  rintro c name hi ⟨hr, hk⟩
  rcases hs c name with hsa | hid
  · rw [hsa]
    refine ⟨hr.trans (redriveGrouped_effects c (hk name hi)), ?_⟩
    intro o hl
    exact (hk o hl).imp_right (contains_redriveGrouped c)
  · rw [hid]
    exact ⟨hr, hk⟩

omit [Codec Bytes] in
theorem mem_unregistered_or_contains (kv : Store Bytes) (t : Text) {n : List (Text × Text)}
    (hl : name ∈ n) : (t, name.1) ∈ unregistered kv t n ∨
      kv.contains (gstateKey t name.1) = true := by
  cases hp : kv.contains (gstateKey t name.1) with
  | true => exact .inr rfl
  | false =>
    left
    exact mem_map.mpr ⟨name, mem_filter.mpr ⟨hl, by simp [hp]⟩, rfl⟩

omit [Codec Bytes] in
theorem deadIds_isSegment (hl : id ∈ deadIds kv t) : IsSegment id := by
  obtain ⟨⟨_, raw⟩, hc, rfl⟩ := mem_map.mp hl
  exact ((mem_directChildren_iff kv .dead t _ raw).mp hc).1

theorem redriveDeadLetters_effects (t : Text)
    (hr : rearms node (.redriveDeadLetters t) = some t → rr t)
    (hn : ∀ pair ∈ registers node (.redriveDeadLetters t), nt pair.1 pair.2) :
    Effects rr nt node (node.redriveDeadLetters t).1 := by
  set l : LogMessaging Bytes :=
    { node with kv := (deadIds node.kv t).foldl (redriveWork t) node.kv } with later_eq
  have hw : Effects rr nt node l :=
    redriveWork_foldl_effects (fun some => hr (by simp [rearms, some]))
      (fun id => deadIds_isSegment) node
  -- The loop over the groups sees the dead letters and groups of the start.
  have hna : groupedDead l.kv t = groupedDead node.kv t := by
    unfold groupedDead listPrefix
    rw [scan_congr]
    rintro _ ⟨rest, rfl⟩
    have hs : gdeadTopicPrefix t ++ rest = gdead.key (joined t [] ++ rest) := by
      simp [gdeadTopicPrefix, key]
    rw [hs]
    exact get?_redriveWork_foldl _ _ t _ node.kv (by decide) (by decide)
  refine hw.trans ?_
  unfold redriveDeadLetters
  dsimp only
  rw [← later_eq, hna]
  refine forEach_redriveGrouped_effects (fun _ _ => .inl rfl) l ?_
  intro name hl
  have hk : l.kv.contains (gstateKey t name.1) = node.kv.contains (gstateKey t name.1) := by
    unfold contains
    rw [gstateKey, get?_redriveWork_foldl .gstate _ t _ node.kv (by decide) (by decide)]
  rw [hk]
  exact (mem_unregistered_or_contains node.kv t hl).imp_left (hn _)

theorem redriveSelected_effects (hr : rr t) (hs : IsSegment id)
    (node : LogMessaging Bytes) : Effects rr nt node (redriveSelected t node id).1 := by
  unfold redriveSelected
  split
  · exact .refl
  split
  · exact .refl
  · exact redriveWork_effects hr hs node

theorem get?_redriveSelected (t : Text) (node : LogMessaging Bytes) (id rest : Text) :
    (redriveSelected t node id).1.kv.get? (gstate.key rest) = node.kv.get? (gstate.key rest) := by
  unfold redriveSelected
  split
  · rfl
  split
  · rfl
  · exact get?_redriveWork rest t id node.kv (by decide) (by decide)

theorem redriveSelectedGrouped_steps (t : Text) (node : LogMessaging Bytes) (name : Text × Text) :
    redriveSelectedGrouped t node name = redriveGrouped t node name ∨
      (redriveSelectedGrouped t node name).1 = node := by
  unfold redriveSelectedGrouped
  split
  · exact .inl rfl
  · exact .inr rfl

theorem mem_workDeadLetters (hco : workDeadLetters kv t = .ok cs)
    (hl : letter ∈ cs) : IsSegment letter.id := by
  rw [eq_filterMap_of_mapM_ok hco] at hl
  obtain ⟨⟨id, raw⟩, hc, hr⟩ := mem_filterMap.mp hl
  obtain ⟨_, _, rfl⟩ := map_eq_ok_iff.mp (toOption_eq_some_iff.mp hr)
  exact ((mem_directChildren_iff kv .dead t id raw).mp hc).1

theorem mem_groupDeadLetters (hc : groupDeadLetters kv t = .ok cs)
    (hl : letter ∈ cs) : letter.group ≠ [] := by
  rw [eq_filterMap_of_mapM_ok hc] at hl
  obtain ⟨⟨name, raw⟩, hs, hr⟩ := mem_filterMap.mp hl
  obtain ⟨⟨key, sd⟩, _, hp⟩ := mem_filterMap.mp hs
  obtain ⟨p, hf, hsa⟩ := Option.map_eq_some_iff.mp hp
  obtain rfl : p = name := congrArg Prod.fst hsa
  obtain ⟨_, _, rfl⟩ := map_eq_ok_iff.mp (toOption_eq_some_iff.mp hr)
  exact splitGroupId_ne_nil hf

theorem collectDeadLetters_isSegment (hc : collectDeadLetters kv t = .ok cs)
    (hl : letter ∈ cs) (w : letter.group = []) : IsSegment letter.id := by
  simp only [collectDeadLetters, bind_eq_ok_iff] at hc
  obtain ⟨q, hq, g, hg, he⟩ := hc
  cases he
  rw [mem_insertionSort] at hl
  rcases mem_append.mp hl with hi | hin
  · exact mem_workDeadLetters hq hi
  · exact absurd w (mem_groupDeadLetters hg hin)

theorem workIds_isSegment (hco : collectDeadLetters kv t = .ok cs)
    {f : DeadLetterFilter} (nm : UInt64) (hc : id ∈ workIds (f.select cs nm)) : IsSegment id := by
  obtain ⟨letter, hi, rfl⟩ := mem_map.mp hc
  obtain ⟨hp, hw⟩ := mem_filter.mp hi
  exact collectDeadLetters_isSegment hco ((f.select_sublist cs nm).subset hp) (by simpa using hw)

theorem redriveDeadLettersFiltered_effects (t : Text) (filter : DeadLetterFilter)
    (hre : rearms node (.redriveDeadLettersFiltered nm t filter) = some t → rr t)
    (hn : ∀ pair ∈ registers node (.redriveDeadLettersFiltered nm t filter), nt pair.1 pair.2) :
    Effects rr nt node (node.redriveDeadLettersFiltered nm t filter).1 := by
  unfold redriveDeadLettersFiltered
  cases hco : collectDeadLetters node.kv t with
  | error error => exact .refl
  | ok cs =>
    have hc : selected node.kv nm t filter = filter.select cs nm := by
      simp [selected, hco]
    dsimp only
    have hw : Effects rr nt node (forEach
          (redriveSelected t) (workIds (filter.select cs nm)) node).1 ∧
        ∀ rest, (forEach (redriveSelected t)
            (workIds (filter.select cs nm)) node).1.kv.get? (gstate.key rest) =
          node.kv.get? (gstate.key rest) := by
      refine forEach_keeps (fun current => Effects rr nt node current ∧
        ∀ rest, current.kv.get? (gstate.key rest) =
          node.kv.get? (gstate.key rest)) ?_ ⟨.refl, fun _ => rfl⟩
      rintro current id hi ⟨hr, hs⟩
      have hk : rr t := hre (by
        simp [rearms, hc, ne_nil_of_mem hi])
      exact ⟨hr.trans (redriveSelected_effects hk (workIds_isSegment hco nm hi) current),
        fun rest => (get?_redriveSelected t current id rest).trans (hs rest)⟩
    split
    · rename_i stopped error failed
      rw [failed] at hw
      exact hw.1
    rename_i later redriven done
    rw [done] at hw
    refine hw.1.trans (forEach_redriveGrouped_effects (redriveSelectedGrouped_steps t) later ?_)
    intro name hl
    have hke : later.kv.contains (gstateKey t name.1) = node.kv.contains (gstateKey t name.1) := by
      unfold contains
      rw [gstateKey, hw.2]
    rw [hke]
    refine (mem_unregistered_or_contains node.kv t hl).imp_left fun hm =>
      hn (t, name.1) ?_
    rw [registers, hc]
    exact hm

theorem discardWork_effects (t : Text) (node : LogMessaging Bytes) (id : Text) :
    Effects rr nt node (discardWork t node id) := by
  unfold discardWork
  dsimp only
  split <;> exact (ReflTransGen.single (.memory rfl rfl)).tail (.drop _ _ (by decide))

theorem purgeDeadLetters_effects (t : Text) : Effects rr nt node (node.purgeDeadLetters t).1 :=
  (foldl_effects (fun node id _ => discardWork_effects t node id) node).trans
    (foldl_effects (fun node _ _ => .single (.drop node _ (by decide))) _)

theorem discardOne_effects (t : Text) (node : LogMessaging Bytes) (letter : DeadLetter) :
    Effects rr nt node (discardOne t node letter) := by
  unfold discardOne
  split
  · exact discardWork_effects t node letter.id
  · exact .single (.drop node _ (by decide))

theorem discardDeadLetters_effects (t : Text) (f : DeadLetterFilter) :
    Effects rr nt node (node.discardDeadLetters nm t f).1 := by
  unfold discardDeadLetters
  split
  · exact .refl
  · exact foldl_effects (fun node letter _ => discardOne_effects t node letter) node

theorem resetGroup_effects (t g : Text) (s : StartPosition) :
    Effects rr nt node (node.resetGroup t g s).1 := by
  unfold resetGroup
  split
  · exact .refl
  · exact .refl
  · rename_i state read
    exact .single (.overwrite _ (contains_of_getGroupState read))

theorem deleteGroup_effects (t g : Text) : Effects rr nt node (node.deleteGroup t g) := by
  refine ReflTransGen.tail (foldl_effects ?_ node) (.drop _ _ (by decide))
  intro c key hl
  obtain ⟨rest, rfl⟩ := ((mem_listPrefix_iff node.kv _ key).mp hl).2
  have hs : gdeadKey t g [] ++ rest = gdead.key (joined t (joined g []) ++ rest) := by
    simp [gdeadKey, key]
  rw [hs]
  exact .single (.drop c _ (by decide))

theorem setPaused_effects (t : Text) (p : Bool) : Effects rr nt node (node.setPaused t p) := by
  unfold setPaused
  split
  · exact .single (.put node _ _ rfl)
  · exact .single (.drop node _ (by decide))

theorem gcGrouped_effects (t : Text) (rm : UInt64) :
    Effects rr nt node (node.gcGrouped nm t rm).1 := by
  unfold gcGrouped
  split
  · exact .refl
  · exact foldl_effects (fun node id _ =>
      (ReflTransGen.single (.memory rfl rfl)).tail (.drop _ _ (by decide))) node

theorem rebuildReadySet_effects : Effects rr nt node node.rebuildReadySet.1 := by
  unfold rebuildReadySet
  split
  · exact .refl
  · exact foldl_effects (fun node t _ => .single (.arm node t)) node

/-- Every operation is a sequence of elementary changes; it re-arms and notes
only the topics it says. -/
theorem run_effects (op : Operation) : Effects (fun t => rearms node op = some t)
      (fun t g => (t, g) ∈ registers node op) node (node.run op).1 := by
  cases op with
  | publish nm pub => exact publish_effects node nm pub
  | publishBatch msgs sc =>
    exact (buildBatch_effects sc msgs node).1.trans ((buildBatch_effects sc msgs node).2 _)
  | claim nm t l mb ma =>
    exact claim_effects node nm t l mb ma (by simp [rearms])
  | claimGrouped nm t g s l mb ma =>
    exact claimGrouped_effects node nm t g s l mb ma (by simp [rearms]) fun _ => id
  | ack msg => exact ack_effects node msg
  | nackAfter nm msg dm => exact nackAfter_effects node nm msg dm
  | setLastError msg rsn => exact setLastError_effects node msg rsn
  | deadLetter msg rsn => exact deadLetter_effects node msg rsn
  | redriveDeadLetters t => exact redriveDeadLetters_effects node t id fun _ => id
  | redriveDeadLettersFiltered nm t f =>
    exact redriveDeadLettersFiltered_effects node nm t f id fun _ => id
  | purgeDeadLetters t => exact purgeDeadLetters_effects node t
  | discardDeadLetters nm t f =>
    exact discardDeadLetters_effects node nm t f
  | resetGroup t g s => exact resetGroup_effects node t g s
  | deleteGroup t g => exact deleteGroup_effects node t g
  | setPaused t p => exact setPaused_effects node t p
  | gcGrouped nm t rm => exact gcGrouped_effects node nm t rm
  | rebuildReadySet => exact rebuildReadySet_effects node
  | restart => exact .single (.restart node (by simp [registers]))

theorem Effects.keeps {Kept : LogMessaging Bytes → Prop}
    (hea : ∀ b a, Effect rr nt b a → Kept b → Kept a)
    {b a : LogMessaging Bytes} (hef : Effects rr nt b a) (hk : Kept b) : Kept a := by
  induction hef with
  | refl => exact hk
  | tail _ he ih => exact hea _ _ he ih

end Effects

end BoatRamp.Node

import BoatRamp.Cluster.Groups

/-!
# Topics do not touch each other's keys

Keys are built by joining topic, group and id with slashes, and a topic may
contain slashes itself.  With group names and ids free of slashes, every key
still belongs to one topic, and an operation naming a topic writes only keys of
that topic, with one exception: deleting a group removes everything below the
group's dead-letter scope, where the keys of a subtopic may lie.
-/

namespace BoatRamp.Cluster

open Library Messaging GroupState

section Belonging

inductive BelongsTo (topic : Text) : Text → Prop where
  | record {id} : '/' ∉ id → BelongsTo topic (metaKey topic id)
  | dead {id} : '/' ∉ id → BelongsTo topic (deadKey topic id)
  | glog {id} : '/' ∉ id → BelongsTo topic (glogKey topic id)
  | gstate {group} : '/' ∉ group → BelongsTo topic (gstateKey topic group)
  | gdead {group id} : '/' ∉ group → '/' ∉ id → BelongsTo topic (gdeadKey topic group id)
  | logmax : BelongsTo topic (logmaxKey topic)
  | ready : BelongsTo topic (readyKey topic)
  | pause : BelongsTo topic (pauseKey topic)

theorem joined_assoc (x y t : Text) : joined x (joined y t) = joined (joined x y) t := by
  simp [joined]

theorem gdeadKey_inj {t o g m id l : Text} (hg : '/' ∉ g) (hm : '/' ∉ m) (hi : '/' ∉ id)
    (hl : '/' ∉ l) (hs : gdeadKey t g id = gdeadKey o m l) : t = o := by
  simp only [gdeadKey, Family.key_inj, true_and, joined_assoc] at hs
  have hp := ((joined_inj hi hl).mp hs).1
  exact ((joined_inj hg hm).mp hp).1

theorem BelongsTo.topic_eq {t o key : Text} (hf : BelongsTo t key)
    (hs : BelongsTo o key) : t = o := by
  generalize hsa : key = s at hs
  cases hf <;> cases hs <;>
    simp only [metaKey, deadKey, glogKey, gstateKey, logmaxKey, readyKey, pauseKey, gdeadKey,
      Family.key_inj, reduceCtorEq, false_and, true_and] at hsa
  case record.record id free o otherFree => exact ((joined_inj free otherFree).mp hsa).1
  case dead.dead id free o otherFree => exact ((joined_inj free otherFree).mp hsa).1
  case glog.glog id free o otherFree => exact ((joined_inj free otherFree).mp hsa).1
  case gstate.gstate id free o otherFree => exact ((joined_inj free otherFree).mp hsa).1
  case gdead.gdead group id groupFree idFree member last memberFree lastFree =>
    exact gdeadKey_inj groupFree memberFree idFree lastFree (by simp [gdeadKey, hsa])
  all_goals exact hsa

end Belonging

section Naming

variable {Bytes : Type}

def NamesFree : WriteOp Bytes → Prop
  | .put key _ => ¬Family.gstate.tag <+: key
  | .delete key => ¬Family.gstate.tag <+: key
  | .compareAndSwap key _ _ => ¬Family.gstate.tag <+: key
  | .batch _ => False
  | .mqPublish _ id _ _ _ _ _ _ => '/' ∉ id
  | .mqAck _ id => '/' ∉ id
  | .mqNack _ id _ => '/' ∉ id
  | .mqSetLastError _ id _ => '/' ∉ id
  | .mqClaimGrouped _ group _ _ _ _ _ => '/' ∉ group
  | .mqAckGrouped _ group id => '/' ∉ group ∧ '/' ∉ id
  | .mqNackGrouped _ group id _ => '/' ∉ group ∧ '/' ∉ id
  | .mqRedriveGroupedDead _ group id => '/' ∉ group ∧ '/' ∉ id
  | .mqResetGroup _ group _ => '/' ∉ group
  | .mqDeleteGroup _ group => '/' ∉ group
  | .mqClaim .. | .mqSetPaused .. | .mqSweepGrouped .. | .meshAdmit .. => True

instance (op : WriteOp Bytes) : Decidable (NamesFree op) :=
  match op with
  | .put key _ | .delete key | .compareAndSwap key _ _ =>
    inferInstanceAs (Decidable (¬Family.gstate.tag <+: key))
  | .batch _ => .isFalse id
  | .mqPublish _ id _ _ _ _ _ _ | .mqAck _ id | .mqNack _ id _ | .mqSetLastError _ id _ =>
    inferInstanceAs (Decidable ('/' ∉ id))
  | .mqAckGrouped _ group id | .mqNackGrouped _ group id _ | .mqRedriveGroupedDead _ group id =>
    inferInstanceAs (Decidable ('/' ∉ group ∧ '/' ∉ id))
  | .mqClaimGrouped _ group _ _ _ _ _ | .mqResetGroup _ group _ | .mqDeleteGroup _ group =>
    inferInstanceAs (Decidable ('/' ∉ group))
  | .mqClaim .. | .mqSetPaused .. | .mqSweepGrouped .. | .meshAdmit .. => .isTrue trivial

/-- The operations the cluster is given, batches included. -/
inductive WellNamed : WriteOp Bytes → Prop where
  | single {op} : NamesFree op → WellNamed op
  | batch {ops} : (∀ op ∈ ops, WellNamed op) → WellNamed (.batch ops)

def namedTopic : WriteOp Bytes → Option Text
  | .mqPublish topic _ _ _ _ _ _ _ => some topic
  | .mqClaim topic _ _ _ _ => some topic
  | .mqAck topic _ => some topic
  | .mqNack topic _ _ => some topic
  | .mqSetLastError topic _ _ => some topic
  | .mqClaimGrouped topic _ _ _ _ _ _ => some topic
  | .mqAckGrouped topic _ _ => some topic
  | .mqNackGrouped topic _ _ _ => some topic
  | .mqRedriveGroupedDead topic _ _ => some topic
  | .mqResetGroup topic _ _ => some topic
  | .mqDeleteGroup topic _ => some topic
  | .mqSetPaused topic _ => some topic
  | .mqSweepGrouped topic _ => some topic
  | .put .. | .delete .. | .batch .. | .compareAndSwap .. | .meshAdmit .. => none

def HoldsFree (state : GroupState) : Prop := ∀ id ∈ state.ids, '/' ∉ id

variable [Codec Bytes]

theorem holdsFree_rule : GroupRule Bytes HoldsFree where
  new hwm := by simp [HoldsFree, new, ids]
  acked id hf o hh := hf o (mem_acked_ids.mp hh).1
  nacked id um hf o hh := hf o (by simpa using hh)
  claimed he hf id hh := by
    have hg : id ∈ _ → '/' ∉ id := fun hd => by
      rcases he.mem_of_delivered hd with hb | new
      · exact hf id hb
      · exact ((mem_glogIds_iff _ _ id).mp (mem_glogIds_of_mem_newLogIds new)).1.2
    rcases he.held_or_delivered hh with hb | hd
    · exact hf id hb
    · exact hg hd

variable [DecidableEq Bytes]

theorem storedGroups_holdsFree_op {tg : ApplyTarget Bytes} {op : WriteOp Bytes} (hn : WellNamed op)
    (hs : StoredGroups HoldsFree tg.data) : StoredGroups HoldsFree (applyOp tg op).1.data := by
  induction hn generalizing tg with
  | @single op hf =>
    refine holdsFree_rule.step hs ?_
    have raw : ∀ {key : Text}, ¬Family.gstate.tag <+: key → ∀ t g, gstateKey t g ≠ key := by
      rintro _ ho t g rfl
      exact ho (List.prefix_append _ _)
    cases op with
    | put | delete | compareAndSwap => exact raw hf
    | batch => exact hf.elim
    | mqRedriveGroupedDead t g id =>
      intro o hh
      rcases mem_rearm_ids hh with hb | rfl
      · exact holdsFree_rule.groupOrNew hs t g .latest o hb
      · exact hf.2
    | _ => trivial
  | @batch ops hn ih =>
    show StoredGroups HoldsFree (applyBatch tg ops).data
    induction ops generalizing tg with
    | nil => exact hs
    | cons op rest hr =>
      exact hr (fun o hi => hn o (List.mem_cons_of_mem _ hi))
        (fun o hi => ih o (List.mem_cons_of_mem _ hi)) (ih op List.mem_cons_self hs)

theorem storedGroups_holdsFree_run {ops : List (WriteOp Bytes)} (hn : ∀ op ∈ ops, WellNamed op) :
    StoredGroups HoldsFree (stateMachine.final (.empty : Store Bytes) ops) := by
  have hi : StoredGroups HoldsFree (.empty : Store Bytes) := by
    intro t g s hl
    simp [loadGroupState] at hl
  refine Machine.invariant (fun _ _ hs ha => ?_) hi (stateMachine.meets_of_forall .empty hn)
  exact storedGroups_holdsFree_op ha hs

omit [DecidableEq Bytes] in
theorem belongsTo_of_mayWrite {d : Store Bytes} (hst : StoredGroups HoldsFree d)
    {op : WriteOp Bytes} (hf : NamesFree op) {t : Text}
    (hn : namedTopic op = some t) (hno : ∀ g, op ≠ .mqDeleteGroup t g)
    {key : Text} (hw : MayWrite d op key) : BelongsTo t key := by
  cases op with
  | put | delete | batch | compareAndSwap | meshAdmit => cases hn
  | mqPublish o id r =>
    cases hn
    rcases hw with rfl | rfl | ⟨_, rfl | rfl⟩
    · exact .record hf
    · exact .ready
    · exact .glog hf
    · exact .logmax
  | mqClaim =>
    cases hn
    rcases hw with rfl | ⟨id, hs, rfl | rfl⟩
    · exact .ready
    · exact .record hs.2
    · exact .dead hs.2
  | mqAck | mqSetLastError =>
    cases hn
    exact hw ▸ .record hf
  | mqNack =>
    cases hn
    rcases hw with rfl | rfl
    · exact .record hf
    · exact .ready
  | mqClaimGrouped =>
    cases hn
    rcases hw with rfl | ⟨s, hl, id, hh, rfl⟩
    · exact .gstate hf
    · exact .gdead hf (hst _ _ s hl id hh)
  | mqAckGrouped =>
    cases hn
    exact hw ▸ .gstate hf.1
  | mqNackGrouped =>
    cases hn
    rcases hw with rfl | rfl
    · exact .gstate hf.1
    · exact .ready
  | mqRedriveGroupedDead =>
    cases hn
    rcases hw with rfl | rfl | rfl
    · exact .gstate hf.1
    · exact .gdead hf.1 hf.2
    · exact .ready
  | mqResetGroup =>
    cases hn
    exact hw ▸ .gstate hf
  | mqDeleteGroup o g =>
    cases hn
    exact absurd rfl (hno g)
  | mqSetPaused =>
    cases hn
    exact hw ▸ .pause
  | mqSweepGrouped =>
    cases hn
    rcases hw with ⟨id, hs, rfl⟩
    exact .glog hs.2

theorem get?_deleteGroup (d : Store Bytes) (t g key : Text) :
    (stateMachine.step d (.mqDeleteGroup t g)).1.get? key =
      if key = gstateKey t g ∨ gdeadKey t g [] <+: key then none
      else d.get? key := by
  show ((ApplyTarget.new d).removeAll _ |>.remove _).data.get? key = _
  rw [ApplyTarget.remove_data, SortedMap.get?_erase, ApplyTarget.get?_removeAll]
  by_cases own : key = gstateKey t g
  · simp [own]
  by_cases hb : gdeadKey t g [] <+: key
  · simp only [own, hb, false_or, if_true, if_false]
    split_ifs with hs
    · rfl
    -- Nothing was stored there, or the scan would have met it.
    refine Option.eq_none_iff_forall_not_mem.mpr fun v hf => hs ?_
    exact List.mem_map.mpr ⟨(key, v), (d.mem_scan_iff _ _ _).mpr ⟨hf, hb⟩, rfl⟩
  have hu : key ∉ (d.scan (gdeadKey t g [])).map Prod.fst := by
    intro hi
    rcases List.mem_map.mp hi with ⟨⟨_, v⟩, hs, rfl⟩
    exact hb ((d.mem_scan_iff _ _ v).mp hs).2
  simp [own, hb, hu]

/-- In every reachable state, an operation naming a topic leaves the keys of
another topic alone exactly when it does not delete a group below whose
dead-letter scope the other topic has dead letters. -/
theorem topic_isolation_iff (ops : List (WriteOp Bytes)) (named : ∀ op ∈ ops, WellNamed op)
    (op : WriteOp Bytes) (free : NamesFree op) (topic other : Text)
    (names : namedTopic op = some topic) (distinct : topic ≠ other) : (∀ key, BelongsTo other key →
      (stateMachine.step (stateMachine.final .empty ops) op).1.get? key =
        (stateMachine.final .empty ops).get? key) ↔ ∀ group, op = .mqDeleteGroup topic group →
      ∀ member id, '/' ∉ member → '/' ∉ id → gdeadKey topic group [] <+: gdeadKey other member id →
        (stateMachine.final .empty ops).get? (gdeadKey other member id) = none := by
  have hs := storedGroups_holdsFree_run named
  constructor
  · rintro hu group rfl member id hm hi below
    rw [← hu _ (.gdead hm hi), get?_deleteGroup, if_pos (.inr below)]
  intro hsp key hb
  by_cases hd : ∃ group, op = .mqDeleteGroup topic group
  · rcases hd with ⟨group, rfl⟩
    rw [get?_deleteGroup]
    split_ifs with hr
    · rcases hr with rfl | below
      · exact absurd ((BelongsTo.gstate free).topic_eq hb) distinct
      cases hb with
      | gdead hm hi => exact (hsp group rfl _ _ hm hi below).symm
      | _ => simp [gdeadKey, metaKey, deadKey, glogKey, gstateKey, logmaxKey, readyKey,
          pauseKey, Family.isPrefix_key_iff] at below
    · rfl
  refine step_get?_of_not_mayWrite fun hw => distinct ?_
  exact (belongsTo_of_mayWrite hs free names (fun group hsa => hd ⟨group, hsa⟩) hw).topic_eq hb

end Naming

namespace Subtopic

def parent : Text := "orders".toList

def child : Text := "orders/eu".toList

def group : Text := "billing".toList

def id : Text := nextId 1000 1 0

def publish : WriteOp Stored := .mqPublish child id true none none 0 0 0

def claim (nowMs : UInt64) : WriteOp Stored :=
  .mqClaimGrouped child group .earliest nowMs 30 8 1

def buried : List (WriteOp Stored) := [publish, claim 1001, claim 2000]

def deleteGroup (member : String) : WriteOp Stored := .mqDeleteGroup parent member.toList

theorem other_group_deleted :
    (stateMachine.step (stateMachine.final .empty buried) (deleteGroup "us")).1.get?
        (gdeadKey child group id) =
      (stateMachine.final .empty buried).get? (gdeadKey child group id) := by
  refine (topic_isolation_iff buried (fun op hi => .single ?_) (deleteGroup "us")
    (by decide) parent child rfl (by decide)).mpr ?_ _ (.gdead (by decide) (by decide))
  · have all : ∀ op ∈ buried, NamesFree op := by decide
    exact all op hi
  rintro _ ⟨⟩ m last _ _ ⟨rest, hs⟩
  have letter := congrArg (fun key : Text => key[12]?) hs
  cases letter

theorem child_dead_letter_removed : (∀ op ∈ buried, NamesFree op) ∧ NamesFree (deleteGroup "eu") ∧
    BelongsTo child (gdeadKey child group id) ∧
    (stateMachine.final .empty buried).contains (gdeadKey child group id) = true ∧
    (stateMachine.step (stateMachine.final .empty buried) (deleteGroup "eu")).1.get?
      (gdeadKey child group id) = none := by
  refine ⟨by decide, by decide, .gdead (by decide) (by decide), by decide +kernel,
    by decide +kernel⟩

end Subtopic

end BoatRamp.Cluster

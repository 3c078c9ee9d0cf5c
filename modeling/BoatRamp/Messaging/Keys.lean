import BoatRamp.Kv.Store
import BoatRamp.Library.Keyspace
import Mathlib.Data.Fintype.Basic

/-!
# Messaging keys

Every messaging key is a fixed tag followed by the topic and, for most of
them, a group or message id after a slash.  Topics may contain slashes
themselves, so a scan over the keys below one topic also meets those of its
subtopics; `isDirectChild` and `splitGroupId` are the filters the code uses to
tell them apart.
-/

namespace BoatRamp.Messaging

open Library List

/-- The keyspaces of the message queue. -/
inductive Family where
  | mq | payload | dead | pause | policy | ready
  | glog | gpayload | gstate | logmax | gdead
  deriving DecidableEq

instance : Fintype Family where
  elems := {.mq, .payload, .dead, .pause, .policy, .ready, .glog, .gpayload, .gstate,
    .logmax, .gdead}
  complete := by rintro (_ | _) <;> decide

def Family.tag : Family → Text
  | .mq => "mq/".toList
  | .payload => "mqp/".toList
  | .dead => "mqdead/".toList
  | .pause => "mqpause/".toList
  | .policy => "mqpolicy/".toList
  | .ready => "mqready/".toList
  | .glog => "mqglog/".toList
  | .gpayload => "mqgp/".toList
  | .gstate => "mqgstate/".toList
  | .logmax => "mqlogmax/".toList
  | .gdead => "mqgd/".toList

def Family.key (family : Family) (rest : Text) : Text := family.tag ++ rest

def joined (first last : Text) : Text := first ++ '/' :: last

variable (topic : Text)

def metaKey (topic id : Text) : Text := Family.mq.key (joined topic id)
def metaPrefix : Text := Family.mq.key (joined topic [])
def payloadKey (topic id : Text) : Text := Family.payload.key (joined topic id)
def deadKey (topic id : Text) : Text := Family.dead.key (joined topic id)
def deadPrefix : Text := Family.dead.key (joined topic [])
def pauseKey : Text := Family.pause.key topic
def readyKey : Text := Family.ready.key topic
def glogKey (topic id : Text) : Text := Family.glog.key (joined topic id)
def glogPrefix : Text := Family.glog.key (joined topic [])
def gpayloadKey (topic id : Text) : Text := Family.gpayload.key (joined topic id)
def gstateKey (topic group : Text) : Text := Family.gstate.key (joined topic group)
def gstatePrefix : Text := Family.gstate.key (joined topic [])
def logmaxKey : Text := Family.logmax.key topic
def gdeadKey (topic group id : Text) : Text :=
  Family.gdead.key (joined topic (joined group id))
def gdeadTopicPrefix : Text := Family.gdead.key (joined topic [])

/-- A nonempty name without a slash: what a minted message id is. -/
def IsSegment (name : Text) : Prop := name ≠ [] ∧ '/' ∉ name

instance (name : Text) : Decidable (IsSegment name) :=
  inferInstanceAs (Decidable (name ≠ [] ∧ '/' ∉ name))

def isDirectChild (key scope : Text) : Bool :=
  decide (scope.length < key.length) && !(key.drop scope.length).contains '/'

/-- Split the rest of a grouped dead-letter key into group and id; exactly two
nonempty segments are accepted. -/
def splitGroupId (suffix : Text) : Option (Text × Text) :=
  match splitOnceAt '/' suffix with
  | none => none
  | some (group, id) =>
      if group = [] ∨ id = [] ∨ id.contains '/' then none else some (group, id)

theorem splitGroupId_ne_nil {s : Text} {name : Text × Text}
    (split : splitGroupId s = some name) : name.1 ≠ [] := by
  unfold splitGroupId at split
  split at split
  · cases split
  split_ifs at split with bad
  cases split
  exact fun empty => bad (.inl empty)

/-- No tag starts another one, so the tag of a key can be read off. -/
theorem Family.tag_isPrefix : ∀ {x y : Family}, x.tag <+: y.tag → x = y := by
  decide

def Family.space : Keyspace Family Char := ⟨Family.tag, fun _ _ => Family.tag_isPrefix⟩

theorem Family.isPrefix_key_iff {x y : Family} {rest o : Text} :
    x.key rest <+: y.key o ↔ x = y ∧ rest <+: o :=
  @Keyspace.isPrefix_key_iff _ _ space _ _ _ _

@[simp]
theorem Family.key_inj {x y : Family} {rest o : Text} : x.key rest = y.key o ↔ x = y ∧ rest = o :=
  @Keyspace.key_inj _ _ space _ _ _ _

theorem joined_inj {x y l o : Text} (hl : '/' ∉ l) (ho : '/' ∉ o) :
    joined x l = joined y o ↔ x = y ∧ l = o := by
  constructor
  · exact joined_injective hl ho
  · rintro ⟨rfl, rfl⟩
    rfl

@[simp]
theorem joined_last_inj {x l o : Text} : joined x l = joined x o ↔ l = o := by
  simp [joined]

theorem metaKey_inj_id {t id o : Text} : metaKey t id = metaKey t o ↔ id = o := by
  simp [metaKey]

theorem metaKey_inj {t o id m : Text} (hs : IsSegment id) (hm : IsSegment m) :
    metaKey t id = metaKey o m ↔ t = o ∧ id = m := by
  simp [metaKey, joined_inj hs.2 hm.2]

theorem joined_nil_append (x rest : Text) : joined x [] ++ rest = joined x rest := by
  simp [joined]

section Children

variable {Bytes : Type}

def directChildren (store : Store Bytes) (scope : Text) : List (Text × Bytes) :=
  ((store.scan scope).filter fun entry => isDirectChild entry.1 scope).map
    (fun entry => (entry.1.drop scope.length, entry.2))

theorem isDirectChild_iff (fam : Family) (t key : Text) : (fam.key (joined t []) <+: key ∧
        isDirectChild key (fam.key (joined t [])) = true) ↔
      ∃ id, IsSegment id ∧ key = fam.key (joined t id) := by
  constructor
  · rintro ⟨⟨rest, rfl⟩, hd⟩
    refine ⟨rest, ?_, by simp [Family.key, joined]⟩
    rw [isDirectChild, drop_left, Bool.and_eq_true] at hd
    have hl : 0 < rest.length := by simpa using hd.1
    exact ⟨ne_nil_of_length_pos hl, by simpa using hd.2⟩
  rintro ⟨id, hs, rfl⟩
  have hsp : fam.key (joined t id) = fam.key (joined t []) ++ id := by
    simp [Family.key, joined]
  rw [hsp, isDirectChild, drop_left]
  refine ⟨prefix_append _ _, ?_⟩
  have hl : 0 < id.length := length_pos_of_ne_nil hs.1
  simpa using ⟨hl, hs.2⟩

theorem drop_scope (fam : Family) (t id : Text) :
    (fam.key (joined t id)).drop (fam.key (joined t [])).length = id := by
  have hs : fam.key (joined t id) = fam.key (joined t []) ++ id := by
    simp [Family.key, joined]
  rw [hs, drop_left]

theorem mem_directChildren_iff (s : Store Bytes) (fam : Family) (t id : Text) (v : Bytes) :
    (id, v) ∈ directChildren s (fam.key (joined t [])) ↔
      IsSegment id ∧ s.get? (fam.key (joined t id)) = some v := by
  simp only [directChildren, mem_map, mem_filter, Prod.exists, Prod.mk.injEq]
  constructor
  · rintro ⟨key, sd, ⟨hsc, hd⟩, rfl, rfl⟩
    rw [SortedMap.mem_scan_iff] at hsc
    rcases (isDirectChild_iff fam t key).mp ⟨hsc.2, hd⟩ with
      ⟨id, hs, rfl⟩
    rw [drop_scope]
    exact ⟨hs, hsc.1⟩
  rintro ⟨hs, hf⟩
  have hc := (isDirectChild_iff fam t _).mpr ⟨id, hs, rfl⟩
  refine ⟨_, v, ⟨?_, hc.2⟩, drop_scope fam t id, rfl⟩
  exact (s.mem_scan_iff _ _ _).mpr ⟨hf, hc.1⟩

theorem append_lt_append_left_iff (head x y : Text) : head ++ x < head ++ y ↔ x < y := by
  induction head with
  | nil => rfl
  | cons c head ih =>
    simp [ih]

theorem directChildren_sorted (s : Store Bytes) (fam : Family) (t : Text) :
    (directChildren s (fam.key (joined t []))).Pairwise (fun x y => x.1 < y.1) := by
  unfold directChildren
  rw [pairwise_map]
  have ho := (s.scan_sorted (fam.key (joined t []))).sublist (filter_sublist
      (p := fun e => isDirectChild e.1 (fam.key (joined t []))))
  refine List.Pairwise.imp_of_mem ?_ ho
  rintro ⟨x, fv⟩ ⟨y, sv⟩ hf hs hb
  have he : ∀ {key : Text} {v : Bytes}, (key, v) ∈ (s.scan (fam.key (joined t []))).filter
          (fun e => isDirectChild e.1 (fam.key (joined t []))) → fam.key (joined t []) <+: key := by
    intro key v hi
    exact ((s.mem_scan_iff _ _ _).mp (mem_filter.mp hi).1).2
  rcases he hf with ⟨fr, rfl⟩
  rcases he hs with ⟨sr, rfl⟩
  simpa [append_lt_append_left_iff] using hb

theorem directChildren_congr {x y : Store Bytes} {s : Text}
    (hl : ∀ key, s <+: key → x.get? key = y.get? key) :
    directChildren x s = directChildren y s := by
  unfold directChildren
  rw [SortedMap.scan_congr hl]

end Children

end BoatRamp.Messaging

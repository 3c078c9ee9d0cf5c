import BoatRamp.Node.Effects

/-!
# The retention decision

A publish keeps a fan-out copy when its topic has a consumer group.  The node
answers that from a set it loads on first use, but registering a group also
starts the set when it was not loaded.  `FirstNoted` says that a registration
does so only where the set it starts is complete.
-/

namespace BoatRamp.Node

open Library Messaging LogMessaging List

section Loading

variable {Bytes : Type}

theorem beforeLastSlash_joined {t g : Text} (hf : '/' ∉ g) :
    beforeLastSlash (joined t g) = some t := by
  have hs : (joined t g).reverse.dropWhile (fun c => c ≠ '/') = '/' :: t.reverse := by
    rw [joined, reverse_append, reverse_cons, append_assoc, dropWhile_append_of_pos]
    · rfl
    intro c hi
    have ho : c ≠ '/' := fun hsa => hf (by simpa [hsa] using hi)
    simpa using ho
  rw [beforeLastSlash, if_pos (by simp [joined]), hs]
  simp

theorem mem_loadGroupedTopics {kv : Store Bytes} {t g : Text} (hf : '/' ∉ g)
    (hs : kv.contains (gstateKey t g) = true) : t ∈ loadGroupedTopics kv := by
  refine mem_filterMap.mpr ⟨gstateKey t g, ?_, ?_⟩
  · exact (mem_listPrefix_iff kv _ _).mpr ⟨hs, prefix_append _ _⟩
  · rw [gstateKey, Family.key, drop_left, beforeLastSlash_joined hf]

/-- The topics whose groups the node would not see: while the set is loaded,
those it misses must have none; before that, they are the pending ones. -/
def Known (pending : Text → Prop) (node : LogMessaging Bytes) : Prop :=
  ∀ topic group, '/' ∉ group → node.kv.contains (gstateKey topic group) = true →
    match node.groupedTopics with
    | some topics => topic ∈ topics
    | none => pending topic

variable {p : Text → Prop} {node : LogMessaging Bytes}

theorem Known.mono {w : Text → Prop} (hk : Known p node) (hw : ∀ t, p t → w t) : Known w node := by
  intro t g hfr hs
  have hf := hk t g hfr hs
  cases hl : node.groupedTopics with
  | none =>
    rw [hl] at hf
    exact hw t hf
  | some tp =>
    rw [hl] at hf
    exact hf

theorem Known.of_groups {b a : LogMessaging Bytes} (hk : Known p b)
    (hg : ∀ t g, a.kv.contains (gstateKey t g) = true → b.kv.contains (gstateKey t g) = true)
    (hsa : a.groupedTopics = b.groupedTopics) : Known p a := by
  intro t g hf hs
  rw [hsa]
  exact hk t g hf (hg t g hs)

variable (k : Known p node)

include k

theorem Known.put {fam : Family} (ho : fam ≠ .gstate) (rest : Text) (v : Bytes) :
    Known p (node.putKey (fam.key rest) v) := by
  refine k.of_groups (fun t g hs => ?_) rfl
  have hd : gstateKey t g ≠ fam.key rest := by simp [gstateKey, ho.symm]
  simpa [putKey, hd] using hs

theorem Known.overwrite {key : Text} (hp : node.kv.contains key = true) (v : Bytes) :
    Known p (node.putKey key v) := by
  refine k.of_groups (fun t g hs => ?_) rfl
  by_cases hsa : gstateKey t g = key
  · rwa [hsa]
  · simpa [putKey, hsa] using hs

theorem Known.drop (key : Text) : Known p (node.deleteKey key) := by
  refine k.of_groups (fun t g hs => ?_) rfl
  rw [deleteKey, SortedMap.contains_erase, Bool.and_eq_true] at hs
  exact hs.2

theorem Known.register {tp : List Text} {t g : Text} (hl : node.groupedTopics = some tp)
    (hi : t ∈ tp) (hf : '/' ∉ g) (v : Bytes) : Known p (node.putKey (gstateKey t g) v) := by
  intro o name hn hs
  have hu : (node.putKey (gstateKey t g) v).groupedTopics = some tp := hl
  rw [hu]
  by_cases hsa : gstateKey o name = gstateKey t g
  · have hp : o = t ∧ name = g := by
      simpa [gstateKey, joined_inj hn hf] using hsa
    exact hp.1 ▸ hi
  have he := k o name hn (by
    simpa [putKey, hsa] using hs)
  rwa [hl] at he

/-- Noting a topic starts a set that covers the pending topics if it is the
only one of them. -/
theorem Known.note {t : Text} (hso : ∀ o, p o → o = t) : Known p (node.markGrouped t) := by
  intro o g hf hs
  have he := k o g hf hs
  cases hl : node.groupedTopics with
  | none =>
    rw [hl] at he
    simp [markGrouped, hl, hso o he]
  | some tp =>
    rw [hl] at he
    simp [markGrouped, hl, he]

theorem Known.topicHasGroups {t g : Text} (hfr : '/' ∉ g)
    (hs : node.kv.contains (gstateKey t g) = true) : (node.topicHasGroups t).2 = true := by
  have hf := k t g hfr hs
  unfold LogMessaging.topicHasGroups
  split
  · rename_i tp loaded
    rw [loaded] at hf
    exact decide_eq_true hf
  · exact decide_eq_true (mem_loadGroupedTopics hfr hs)

end Loading

section Retention

variable {Bytes : Type} [Codec Bytes]

def Sole (noted : Text → Text → Prop) (topic : Text) : Prop :=
  ∀ other group, noted other group → topic = other

theorem Effect.known {r : Text → Prop} {n : Text → Text → Prop}
    {b a : LogMessaging Bytes} (he : Effect r n b a) (names : ∀ t g, n t g → '/' ∉ g)
    (known : Known (Sole n) b) : Known (Sole n) a := by
  cases he with
  | memory same unchanged =>
    exact known.of_groups (fun t g stored => same ▸ stored) unchanged
  | arrive _ t v segment => exact (known.put (by decide) _ _).put (by decide) _ _
  | overwrite v stored => exact known.overwrite stored v
  | rearm _ v rearm segment | arm _ t => exact known.put (by decide) _ _
  | register v hn hl inside =>
    exact known.register hl inside (names _ _ hn) v
  | put _ rest v o =>
    refine known.put ?_ rest v
    rintro rfl
    cases o
  | drop _ rest o | prune t hd idle => exact known.drop _
  | load hun => exact fun t g hf stored => mem_loadGroupedTopics hf stored
  | note _ hn => exact known.note fun o hso => hso _ _ hn
  | restart _ quiet => exact fun t g _ _ o name hn => absurd hn (quiet o name)

/-- An operation registers only groups named without a slash and, while the set
of grouped topics is not loaded, only on the sole topic with stored groups. -/
def FirstNoted (node : LogMessaging Bytes) (operation : Operation) : Prop :=
  ∀ pair ∈ registers node operation, '/' ∉ pair.2 ∧
    (node.groupedTopics = none →
      ∀ topic ∈ LogMessaging.loadGroupedTopics node.kv, topic = pair.1)

instance (node : LogMessaging Bytes) (operation : Operation) :
    Decidable (FirstNoted node operation) :=
  inferInstanceAs (Decidable (∀ pair ∈ registers node operation, _ ∧ _))

/-- Every stored group's topic is in the set, once that is loaded. -/
abbrev AllKnown (node : LogMessaging Bytes) : Prop := Known (fun _ => True) node

variable {node : LogMessaging Bytes}

theorem run_known {op : Operation} (hk : AllKnown node)
    (hf : FirstNoted node op) : AllKnown (node.run op).1 := by
  -- While the operation runs, an unloaded set only leaves out its own topic.
  have hp : Known (Sole fun t g => (t, g) ∈ registers node op)
      node := by
    intro t g hfr hs
    have hfo := hk t g hfr hs
    cases hl : node.groupedTopics with
    | none =>
      intro o name hn
      exact (hf (o, name) hn).2 hl t (mem_loadGroupedTopics hfr hs)
    | some tp => rwa [hl] at hfo
  refine ((run_effects node op).keeps (fun b a he hk =>
    he.known (fun t g hn => (hf (t, g) hn).1) hk) hp).mono ?_
  exact fun _ _ => trivial

theorem buildBatch_known (sc : Option Text) (msgs : List (UInt64 × Text × Payload))
    (hk : AllKnown node) : AllKnown (buildBatch sc msgs node).1 := by
  have hef : Effects (fun _ => False) (fun _ _ => False) node _ :=
    (buildBatch_effects sc msgs node).1
  refine (hef.keeps (fun b a he => he.known
    (fun _ _ hn => hn.elim)) (hk.mono ?_)).mono fun _ _ => trivial
  exact fun t _ o g hn => hn.elim

structure Retained (node : LogMessaging Bytes) (nowMs : UInt64) (publication : Publication) :
    Prop where
  grouped : (node.topicHasGroups publication.topic).2 = true
  payload : (node.buildPublishOps nowMs publication).1.storage.get?
    (gpayloadKey publication.topic (singleNodeId nowMs node.seq)) = some publication.payload
  logged : .put (glogKey publication.topic (singleNodeId nowMs node.seq)) Codec.empty ∈
    (node.buildPublishOps nowMs publication).2
  advanced : readLogmax node.kv publication.topic < singleNodeId nowMs node.seq →
    .put (logmaxKey publication.topic) (Codec.intoBytes (singleNodeId nowMs node.seq)) ∈
      (node.buildPublishOps nowMs publication).2

omit [Codec Bytes] in
theorem topicHasGroups_congr {x y : LogMessaging Bytes} (t : Text) (hs : x.kv = y.kv)
    (hc : x.groupedTopics = y.groupedTopics) : (x.topicHasGroups t).2 = (y.topicHasGroups t).2 := by
  unfold topicHasGroups
  rw [hs, hc]
  cases y.groupedTopics <;> rfl

omit [Codec Bytes] in
theorem mint_retain {t : Text} (hg : (node.topicHasGroups t).2 = true) (nm : UInt64)
    (pl : Payload) : (node.mint nm t pl).2.retain = true := by
  rw [← hg]
  exact topicHasGroups_congr t rfl rfl

theorem retained_of_grouped {pub : Publication} (nm : UInt64)
    (hg : (node.topicHasGroups pub.topic).2 = true) : Retained node nm pub := by
  have hr := mint_retain hg nm pub.payload
  have id : (node.mint nm pub.topic pub.payload).2.id = singleNodeId nm node.seq := rfl
  have kv := node.mint_kv nm pub.topic pub.payload
  refine ⟨hg, ?_, ?_, ?_⟩
  · simp [buildPublishOps, storePayload, hr, id]
  · simp [buildPublishOps, indexOps, publishWrites, hr, id]
  intro hb
  simp only [buildPublishOps, indexOps, publishWrites, hr, id, kv, ↓reduceIte]
  rw [readLogmax] at hb
  simp [hb]

/-- Whatever the order of first use, registration and restart, each time a
publish is built on a topic with a registered group, alone or within a batch,
it retains its message. -/
theorem publish_retained_of_firstNoted (storage : Storage) (kv : Store Bytes) (bytes : Nat)
    (operations : List Operation)
    (first : queue.Meets FirstNoted ((LogMessaging.new storage kv).withInlineBudget bytes)
      operations) (signedContext : Option Text) (earlier : List (UInt64 × Text × Payload))
    (nowMs : UInt64) (publication : Publication) (group : Text) (free : '/' ∉ group)
    (registered : (LogMessaging.buildBatch signedContext earlier (queue.final
      ((LogMessaging.new storage kv).withInlineBudget bytes) operations)).1.kv.contains
        (gstateKey publication.topic group) = true) :
    Retained (LogMessaging.buildBatch signedContext earlier (queue.final
      ((LogMessaging.new storage kv).withInlineBudget bytes) operations)).1 nowMs
      publication := by
  have hs : AllKnown ((LogMessaging.new storage kv).withInlineBudget bytes) :=
    fun _ _ _ _ => trivial
  have hk := buildBatch_known signedContext earlier
    (Machine.invariant (fun node op => run_known) hs first)
  exact retained_of_grouped nowMs (hk.topicHasGroups free registered)

end Retention

namespace Forgotten

def orders : Text := "orders".toList

def mail : Text := "mail".toList

def group : Text := "audit".toList

def start : LogMessaging Stored :=
  (LogMessaging.new .empty .empty).withInlineBudget INLINE_INFLIGHT_MAX_BYTES

def register (topic : Text) : Operation :=
  .claimGrouped 1000 topic group .latest 1000000 8 3

def order : Publication := ⟨orders, [7], none, 0, 0, 0⟩

def loaded : List Operation :=
  [register orders, .restart, .publish 2000 order, register mail]

/-- The restarted process registers a group before anything loaded the set. -/
def unloaded : List Operation := [register orders, .restart, register mail]

theorem loaded_retained : queue.Meets FirstNoted start loaded ∧
      Retained (LogMessaging.buildBatch none [] (queue.final start loaded)).1 3000 order := by
  refine ⟨by decide +kernel, publish_retained_of_firstNoted _ _ _ loaded ?_ none [] 3000 order
    group (by decide) ?_⟩
  · decide +kernel
  · decide +kernel

theorem unloaded_not_retained :
    (queue.final start unloaded).kv.contains (gstateKey orders group) = true ∧
      ((queue.final start unloaded).topicHasGroups orders).2 = false ∧
      (queue.final start (unloaded ++ [.publish 3000 order])).kv.contains
        (glogKey orders (singleNodeId 3000 0)) = false := by
  refine ⟨by decide +kernel, by decide +kernel, by decide +kernel⟩

end Forgotten

end BoatRamp.Node

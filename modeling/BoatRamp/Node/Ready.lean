import BoatRamp.Node.Effects

/-!
# The ready set

A drainer looks only at topics with a ready marker.  Every operation that
creates a record arms the marker of its topic, except the two that put dead
letters back; `Armed` says that those find it set.
-/

namespace BoatRamp.Node

open Library Messaging LogMessaging

section Marking

variable {Bytes : Type} {before after : LogMessaging Bytes}

/-- Every topic with a live record has its marker. -/
def Ready (node : LogMessaging Bytes) : Prop :=
  ∀ topic id, IsSegment id → node.kv.contains (metaKey topic id) = true →
    node.kv.contains (readyKey topic) = true

structure Marking (before after : LogMessaging Bytes) : Prop where
  markers : ∀ topic, before.kv.contains (readyKey topic) = true →
    after.kv.contains (readyKey topic) = true
  records : ∀ topic id, IsSegment id → after.kv.contains (metaKey topic id) = true →
    before.kv.contains (metaKey topic id) = true ∨ after.kv.contains (readyKey topic) = true

theorem Marking.ready (hm : Marking before after) (hr : Ready before) : Ready after := by
  intro t id hs hl
  rcases hm.records t id hs hl with he | hma
  · exact hm.markers t (hr t id hs he)
  · exact hma

theorem Marking.of_kv (hsa : after.kv = before.kv) : Marking before after where
  markers t hm := by rwa [hsa]
  records t id hs hl := .inl (by rwa [← hsa])

variable {node : LogMessaging Bytes}

theorem Marking.put {fam : Family} (node : LogMessaging Bytes) (rest : Text) (v : Bytes)
    (ho : fam ≠ .mq) : Marking node (node.putKey (fam.key rest) v) where
  markers t hm := by simp [putKey, hm]
  records t id hs hl := by
    have hd : metaKey t id ≠ fam.key rest := by simp [metaKey, ho.symm]
    exact .inl (by simpa [putKey, hd] using hl)

theorem Marking.overwrite {key : Text} (v : Bytes) (hs : node.kv.contains key = true) :
    Marking node (node.putKey key v) where
  markers t hm := by simp [putKey, hm]
  records t id hse hl := by
    left
    by_cases hsa : metaKey t id = key
    · rwa [hsa]
    · simpa [putKey, hsa] using hl

theorem Marking.record {t id : Text} (v : Bytes) (hs : IsSegment id)
    (hm : node.kv.contains (readyKey t) = true) : Marking node (node.putKey (metaKey t id) v) where
  markers o hf := by simp [putKey, hf]
  records o m hme hl := by
    by_cases hsa : metaKey o m = metaKey t id
    · obtain ⟨rfl, rfl⟩ := (metaKey_inj hme hs).mp hsa
      exact .inr (by simp [putKey, hm])
    · exact .inl (by simpa [putKey, hsa] using hl)

theorem Marking.arrive {t id : Text} (node : LogMessaging Bytes) (v mr : Bytes)
    (hs : IsSegment id) : Marking node ((node.putKey (metaKey t id) v).putKey (readyKey t) mr) where
  markers o hf := by simp [putKey, hf]
  records o m hm hl := by
    by_cases hsa : metaKey o m = metaKey t id
    · obtain ⟨rfl, rfl⟩ := (metaKey_inj hm hs).mp hsa
      exact .inr (by simp [putKey])
    · have ha : metaKey o m ≠ readyKey t := by simp [metaKey, readyKey]
      exact .inl (by simpa [putKey, hsa, ha] using hl)

theorem Marking.drop {fam : Family} (node : LogMessaging Bytes) (rest : Text)
    (ho : fam ≠ .ready) : Marking node (node.deleteKey (fam.key rest)) where
  markers t hm := by
    have hd : readyKey t ≠ fam.key rest := by simp [readyKey, ho.symm]
    simp [deleteKey, hm, hd]
  records t id hs hl := by
    rw [deleteKey, SortedMap.contains_erase, Bool.and_eq_true] at hl
    exact .inl hl.2

theorem Ready.prune (hr : Ready node) {t : Text} (hd : directChildren node.kv (metaPrefix t) = []) :
    Ready (node.deleteKey (readyKey t)) := by
  intro o id hse hl
  have hs : node.kv.contains (metaKey o id) = true := by
    simpa [deleteKey, metaKey, readyKey] using hl
  have he : o ≠ t := by
    rintro rfl
    obtain ⟨raw, hf⟩ := Option.isSome_iff_exists.mp hs
    have hc := (mem_directChildren_iff node.kv .mq o id raw).mpr ⟨hse, hf⟩
    rw [metaPrefix] at hd
    simp [hd] at hc
  have hm := hr o id hse hs
  simpa [deleteKey, readyKey, he] using hm

end Marking

section Ready

variable {Bytes : Type} [Codec Bytes]

/-- An operation that puts dead letters back on a topic finds its marker set. -/
def Armed (node : LogMessaging Bytes) (operation : Operation) : Prop :=
  (rearms node operation).all (fun topic => node.kv.contains (readyKey topic)) = true

instance (node : LogMessaging Bytes) (operation : Operation) : Decidable (Armed node operation) :=
  inferInstanceAs (Decidable (_ = true))

/-- Elementary changes keep the ready set sound while the topics being re-armed
are marked. -/
theorem Effect.ready {r : Text → Prop} {n : Text → Text → Prop}
    {before after : LogMessaging Bytes} (he : Effect r n before after)
    (hkt : Ready before ∧ ∀ t, r t → before.kv.contains (readyKey t) = true) :
    Ready after ∧ ∀ t, r t → after.kv.contains (readyKey t) = true := by
  have hke : ∀ {node}, Marking before node →
      Ready node ∧ ∀ t, r t → node.kv.contains (readyKey t) = true :=
    fun hm => ⟨hm.ready hkt.1, fun t hk => hm.markers t (hkt.2 t hk)⟩
  cases he with
  | memory hsa _ => exact hke (.of_kv hsa)
  | arrive _ t v hs => exact hke (.arrive before v _ hs)
  | overwrite v hst => exact hke (.overwrite v hst)
  | rearm _ v hk hs => exact hke (.record v hs (hkt.2 _ hk))
  | arm _ t | register v hk hl hi => exact hke (.put before _ _ (by decide))
  | put _ rest v ho =>
    refine hke (.put before rest v ?_)
    rintro rfl
    cases ho
  | drop _ rest ho => exact hke (.drop before rest ho)
  | prune p hd hid =>
    refine ⟨hkt.1.prune hd, fun t hk => ?_⟩
    have ho : t ≠ p := fun hsa => hid (hsa ▸ hk)
    have hma := hkt.2 t hk
    simpa [deleteKey, readyKey, ho] using hma
  | load hu | note _ hk | restart _ _ => exact hke (.of_kv rfl)

theorem run_ready {node : LogMessaging Bytes} {op : Operation} (hr : Ready node)
    (ha : Armed node op) : Ready (node.run op).1 := by
  have hm : ∀ t, rearms node op = some t → node.kv.contains (readyKey t) = true := by
    intro t hk
    simpa [Armed, hk] using ha
  exact ((run_effects node op).keeps (fun before after he => he.ready) ⟨hr, hm⟩).1

/-- From an empty store on, while re-armed topics are marked, every topic with a
live record stays in the ready set. -/
theorem ready_set_sound_of_armed (storage : Storage) (bytes : Nat) (operations : List Operation)
    (armed : queue.Meets Armed ((LogMessaging.new storage (.empty : Store Bytes)).withInlineBudget
      bytes) operations) :
    Ready (queue.final ((LogMessaging.new storage (.empty : Store Bytes)).withInlineBudget bytes)
      operations) := by
  refine Machine.invariant (fun node op => run_ready) ?_ armed
  intro topic id hs live
  cases live

end Ready

namespace Stranded

def topic : Text := "jobs".toList

def start : LogMessaging Stored :=
  (LogMessaging.new .empty .empty).withInlineBudget INLINE_INFLIGHT_MAX_BYTES

def publish (nowMs : UInt64) : Operation := .publish nowMs ⟨topic, [7], none, 0, 0, 0⟩

def claim (nowMs : UInt64) : Operation := .claim nowMs topic 1000000 8 1

/-- The second claim finds the lease over and the attempt spent. -/
def buried : List Operation := [publish 1000, claim 1001, claim 2000]

def id : Text := singleNodeId 1000 0

/-- With another message waiting, the marker is there when the redrive comes. -/
theorem redriven_ready :
    queue.Meets Armed start (buried ++ [publish 3000, .redriveDeadLetters topic]) ∧
      Ready (queue.final start (buried ++ [publish 3000, .redriveDeadLetters topic])) := by
  refine ⟨by decide +kernel, ready_set_sound_of_armed _ _ _ ?_⟩
  decide +kernel

/-- The claim that buries the last message drops the marker, and the redrive
puts the message back without it. -/
theorem redriven_unmarked : ¬Ready (queue.final start (buried ++ [.redriveDeadLetters topic])) := by
  intro hr
  have hm := hr topic id (by decide) (by decide +kernel)
  revert hm
  decide +kernel

end Stranded

end BoatRamp.Node

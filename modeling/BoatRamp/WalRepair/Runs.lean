import BoatRamp.WalRepair.Plan

/-!
# What a run of the repair leaves

Outside the quarantine a run that may stop anywhere takes away the objects with
an initial segment of the planned ids.  It takes away nothing unless every
planned object has been copied.
-/

namespace BoatRamp.WalRepair

open Library Messaging List SortedMap

def Beside (root : Text) (first second : Store Octets) : Prop :=
  ∀ location, ¬quarantineScope root <+: location → first.get? location = second.get? location

namespace Beside

variable {root : Text} {x y third : Store Octets}

theorem refl (obs : Store Octets) : Beside root obs obs := fun _ _ => rfl

theorem trans (hl : Beside root x y) (hr : Beside root y third) : Beside root x third :=
  fun loc ho => (hl loc ho).trans (hr loc ho)

theorem wal (hb : Beside root x y) {loc : Text}
    (hi : walScope root <+: loc) : x.get? loc = y.get? loc :=
  hb loc (not_quarantine_of_wal hi)

theorem insert (hb : Beside root x y) {tg : Text} (c : Octets) (hq : quarantineScope root <+: tg) :
    Beside root (x.insert tg c) y := by
  intro loc ho
  rw [x.get?_insert_of_ne c]
  · exact hb loc ho
  · rintro rfl
    exact ho hq

end Beside

/-- The objects without those in the places of some ids. -/
def erased (root : Text) (ids : List Nat) (objects : Store Octets) : Store Octets :=
  (ids.map (walObjectPath root)).foldl SortedMap.erase objects

theorem get?_erased (root : Text) (ids : List Nat) (obs : Store Octets) (loc : Text) :
    (erased root ids obs).get? loc =
      if loc ∈ ids.map (walObjectPath root) then none else obs.get? loc := by
  rw [erased, get?_foldl_erase]
  congr

theorem beside_erased {root : Text} {f s : Store Octets} (hb : Beside root f s)
    (ids : List Nat) : Beside root (erased root ids f) (erased root ids s) := by
  intro loc ho
  rw [get?_erased, get?_erased, hb loc ho]

variable (root stamp : Text)

theorem quarantineScope_prefix_objectPath (id : Nat) :
    quarantineScope root <+: quarantineObjectPath root stamp id := by
  simp only [quarantineObjectPath, append_assoc]
  exact prefix_append _ _

theorem quarantineScope_prefix_manifestPath :
    quarantineScope root <+: quarantineManifestPath root stamp := by
  simp only [quarantineManifestPath, append_assoc]
  exact prefix_append _ _

theorem quarantineObjectPath_injective {root stamp : Text} {id o : Nat}
    (hs : quarantineObjectPath root stamp id = quarantineObjectPath root stamp o) : id = o := by
  simp only [quarantineObjectPath, append_assoc, cons_append, append_cancel_left_eq,
    cons.injEq, true_and, append_cancel_right_eq] at hs
  exact idText_injective hs

theorem objectPath_ne_manifestPath (id : Nat) :
    quarantineObjectPath root stamp id ≠ quarantineManifestPath root stamp := by
  intro hsa
  have hl := congrArg length hsa
  have hlo : 20 ≤ (idText id).length := by
    rw [idText, padded, leftpad, length_append, length_replicate]
    omega
  have hs : "/MANIFEST.json".toList.length = 14 := by decide
  simp only [quarantineObjectPath, quarantineManifestPath, length_append, length_cons, hs] at hl
  omega

variable {reportsMissing : Bool} {root stamp : Text} {fr : Nat}

theorem runAll_append (first second : List StoreOp) (objects : Store Octets) :
    runAll reportsMissing (first ++ second) objects =
      match runAll reportsMissing first objects with
      | (after, .ok ()) => runAll reportsMissing second after
      | (after, .error error) => (after, .error error) := by
  induction first generalizing objects with
  | nil => rfl
  | cons op rest ih =>
    rw [cons_append, runAll, runAll]
    cases op.run reportsMissing objects with
    | error error => rfl
    | ok next => exact ih next

/-- What copying objects did: all of them are in the quarantine if all are in their places. -/
structure Copied (root stamp : Text) (ids : List Nat) (objects : Store Octets)
    (run : Store Octets × Except WalRepairError Unit) : Prop where
  beside : Beside root run.1 objects
  ok_iff : run.2 = .ok () ↔ ∀ id ∈ ids, (objects.get? (walObjectPath root id)).isSome
  copied : run.2 = .ok () → ∀ id, (id ∈ ids ∨ objects.get? (quarantineObjectPath root stamp id) =
    objects.get? (walObjectPath root id)) →
      run.1.get? (quarantineObjectPath root stamp id) = objects.get? (walObjectPath root id)

variable {ids : List Nat}

theorem copied_all (hb : ∀ id ∈ ids, fr < id) (obs : Store Octets) : Copied root stamp ids obs
      (runAll reportsMissing (ids.map (copyOp root fr stamp)) obs) := by
  induction ids generalizing obs with
  | nil => exact ⟨Beside.refl _, by simp [runAll], fun _ id hc => hc.resolve_left (by simp)⟩
  | cons f rest ih =>
    rw [map_cons, runAll, copyOp, if_neg (not_le.mpr (hb f (by simp))), StoreOp.run]
    cases hf : obs.get? (walObjectPath root f) with
    | none => exact ⟨Beside.refl _, by simp [hf], fun hd => by cases hd⟩
    | some c =>
      have hi : Beside root (obs.insert (quarantineObjectPath root stamp f) c) obs :=
        (Beside.refl _).insert c (quarantineScope_prefix_objectPath root stamp f)
      have hu := fun id => hi.wal (walScope_prefix_walObjectPath root id)
      obtain ⟨hh, ho, hc⟩ := ih (fun id hla => hb id (mem_cons_of_mem f hla))
        (obs.insert (quarantineObjectPath root stamp f) c)
      simp only [hu] at ho hc
      refine ⟨hh.trans hi, by simp [ho, hf], fun hd id hbe => ?_⟩
      refine hc hd id ?_
      by_cases hs : id = f
      · subst hs
        exact .inr (by rw [hf, get?_insert_self])
      refine hbe.imp (fun hl => (mem_cons.mp hl).resolve_left hs) ?_
      intro he
      rw [get?_insert_of_ne, he]
      exact fun heq => hs (quarantineObjectPath_injective heq)

theorem deleted_full {obs : Store Octets} {b : List Nat}
    (hm : ∀ id ∈ ids, obs.get? (walObjectPath root id) = none ↔ id ∈ b)
    (hn : reportsMissing = true → b.Nodup) : ∃ f, FullSegment reportsMissing (b ++ ids) (b ++ f) ∧
      (runAll reportsMissing (ids.map (deleteOp root)) obs).1 = erased root f obs := by
  induction ids generalizing obs b with
  | nil => exact ⟨[], ⟨⟨prefix_rfl, by simpa using hn⟩, .inl rfl⟩, rfl⟩
  | cons id rest ih =>
    rw [map_cons, runAll, deleteOp, StoreOp.run]
    split_ifs with hs
    · rw [Bool.and_eq_true, Option.isNone_iff_eq_none] at hs
      have ha : id ∈ b := (hm id (by simp)).mp hs.2
      refine ⟨[], ?_, rfl⟩
      rw [append_nil]
      exact ⟨⟨prefix_append _ _, hn⟩, .inr ⟨hs.1, id, ha, rest, by simp⟩⟩
    have hg : ∀ o ∈ rest, (obs.erase (walObjectPath root id)).get?
        (walObjectPath root o) = none ↔ o ∈ b ++ [id] := by
      intro o hl
      rw [get?_erase, mem_append, mem_singleton]
      by_cases hsa : o = id
      · simp [hsa]
      have hd : walObjectPath root o ≠ walObjectPath root id :=
        fun he => hsa (walObjectPath_injective he)
      simp [hsa, hd, hm o (mem_cons_of_mem id hl)]
    have hf : reportsMissing = true → (b ++ [id]).Nodup := by
      intro hr
      rw [nodup_append]
      refine ⟨hn hr, nodup_singleton id, ?_⟩
      rintro o hi _ hla rfl
      rw [mem_singleton.mp hla] at hi
      exact hs (by simp [hr, (hm id (by simp)).mpr hi])
    obtain ⟨f, hfu, ran⟩ := ih hg hf
    rw [append_assoc, append_assoc] at hfu
    exact ⟨id :: f, hfu, ran⟩

structure Took (reportsMissing : Bool) (root : Text) (objects after : Store Octets)
    (ids finished : List Nat) : Prop where
  segment : Segment reportsMissing ids finished
  beside : Beside root after (erased root finished objects)
  copied : finished ≠ [] → ∀ id ∈ ids, ∃ contents place,
    objects.get? (walObjectPath root id) = some contents ∧ quarantineScope root <+: place ∧
      after.get? place = some contents

theorem took_nothing {obs a : Store Octets} (hb : Beside root a obs)
    (ids : List Nat) : Took reportsMissing root obs a ids [] where
  segment := ⟨ nil_prefix, fun _ => nodup_nil⟩
  beside := hb
  copied := fun hs => absurd rfl hs

theorem took_of_deletes {t : List Nat} (hb : ∀ id ∈ ids, fr < id)
    (hi : t <+: ids) (obs : Store Octets) (m : Octets) : ∃ f, Took reportsMissing root obs
        (runAll reportsMissing (ids.map (copyOp root fr stamp) ++
          .put (quarantineManifestPath root stamp) m :: t.map (deleteOp root)) obs).1 ids f ∧
      ((∀ id ∈ ids, (obs.get? (walObjectPath root id)).isSome) →
        FullSegment reportsMissing t f) := by
  have hc := @copied_all reportsMissing root stamp fr ids hb obs
  rcases run : runAll reportsMissing (ids.map (copyOp root fr stamp)) obs with
    ⟨cp, err | ⟨⟩⟩
  · rw [run] at hc
    rw [runAll_append, run]
    exact ⟨[], took_nothing hc.beside ids, fun hp => by cases hc.ok_iff.mpr hp⟩
  rw [run] at hc
  have hp := hc.ok_iff.mp rfl
  have hs := hc.beside.insert m (quarantineScope_prefix_manifestPath root stamp)
  obtain ⟨f, hfu, hd⟩ := @deleted_full reportsMissing root t
    (cp.insert (quarantineManifestPath root stamp) m) [] (by
      intro id hl
      rw [hs.wal (walScope_prefix_walObjectPath root id)]
      have hf := hp id (hi.subset hl)
      rw [Option.isSome_iff_ne_none] at hf
      simp [hf])
    (fun _ => nodup_nil)
  rw [runAll_append, run]
  dsimp only
  rw [runAll, StoreOp.run]
  dsimp only
  rw [hd]
  refine ⟨f, ⟨⟨hfu.initial.trans hi, hfu.nodup⟩, beside_erased hs _, ?_⟩, fun _ => hfu⟩
  intro _ id hl
  obtain ⟨c, hf⟩ := Option.isSome_iff_exists.mp (hp id hl)
  refine ⟨c, _, hf, quarantineScope_prefix_objectPath root stamp id, ?_⟩
  have hk : quarantineObjectPath root stamp id ∉ f.map (walObjectPath root) := by
    intro hg
    obtain ⟨o, _, hsa⟩ := mem_map.mp hg
    exact not_quarantine_of_wal (hsa ▸ walScope_prefix_walObjectPath root o)
      (quarantineScope_prefix_objectPath root stamp id)
  rw [get?_erased, if_neg hk, get?_insert_of_ne _ _ (objectPath_ne_manifestPath root stamp id),
    hc.copied rfl id (.inl hl), hf]

theorem took_of_crash (hb : ∀ id ∈ ids, fr < id) (obs : Store Octets)
    (cn : List WalCandidate) (c : Nat) : ∃ f, Took reportsMissing root obs (runAll reportsMissing
      ((applyQuarantine root fr cn ids stamp).take c) obs).1 ids f := by
  rw [applyQuarantine, take_append, length_map, ← map_take]
  rcases Nat.lt_or_ge ids.length c with hm | hls
  · obtain ⟨d, hr⟩ := Nat.exists_eq_add_of_lt hm
    have hle : c - ids.length = d + 1 := by omega
    rw [hle, take_succ_cons, take_of_length_le hm.le, ← map_take]
    obtain ⟨f, ht, _⟩ := @took_of_deletes reportsMissing root stamp fr ids
      (ids.take d) hb ⟨_, take_append_drop d ids⟩ obs _
    exact ⟨f, ht⟩
  rw [Nat.sub_eq_zero_of_le hls, take_zero, append_nil]
  exact ⟨[], took_nothing (copied_all (fun id hl =>
    hb id (mem_of_mem_take hl)) obs).beside ids⟩

end BoatRamp.WalRepair

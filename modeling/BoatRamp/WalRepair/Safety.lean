import BoatRamp.WalRepair.Runs

/-!
# What the repair removes

Objects are classified where they are listed and are removed where an object with
their id belongs.  The repair is right exactly if these are the same place for
every id it gets to, up to the last one.
-/

namespace BoatRamp.WalRepair

open Library Messaging List

section Repairs

variable (reportsMissing : Bool) (root : Text) (frontier : Nat)

structure RepairSafe (objects : Store Octets) : Prop where
  kept : ∀ {order}, Lists order → ∀ {now count location contents},
    ¬quarantineScope root <+: location → objects.get? location = some contents →
    (∀ id, ¬IsWal objects root frontier .torn location id) →
      (crashedRepair root frontier order .apply now objects reportsMissing count).get? location =
        some contents
  removed : ∀ {order}, Lists order → ∀ {now count location contents},
    ¬quarantineScope root <+: location → objects.get? location = some contents →
    (crashedRepair root frontier order .apply now objects reportsMissing count).get? location ≠
      some contents →
      ∃ id, IsWal objects root frontier .torn location id ∧
        (∀ other higher, IsWal objects root frontier .readable other higher → higher ≤ id) ∧
        ∃ place, quarantineScope root <+: place ∧
          (crashedRepair root frontier order .apply now objects reportsMissing count).get? place =
            some contents
  again : ∀ {order second}, Lists order → Lists second → ∀ {now later count location},
    walScope root <+: location →
      (repairWalTailAtFrontier root frontier second .apply later
        (crashedRepair root frontier order .apply now objects reportsMissing count)
        reportsMissing).1.get? location =
        (repairWalTailAtFrontier root frontier order .apply now objects reportsMissing).1.get?
          location
  dryRun : ∀ {order now},
    (repairWalTailAtFrontier root frontier order .dryRun now objects reportsMissing).1 = objects

variable (objects : Store Octets)

def Alone (id : Nat) : Prop :=
  ∀ {first second}, IsWal objects root frontier .torn first id →
    IsWal objects root frontier .torn second id → first = second

/-- No delete above the id fails. -/
def Reached (id : Nat) : Prop :=
  reportsMissing = true → ∀ other, id < other → Alone root frontier objects other

def AllPlaced : Prop :=
  ∀ id, TornId objects root frontier id → (objects.get? (walObjectPath root id)).isSome

/-- If a repair can remove anything, no id is that of a torn and of a readable object, what is in
the place of a torn id is torn, and a torn id occurs again only if it is the last one. -/
def InPlace : Prop :=
  Trailing objects root frontier → AllPlaced root frontier objects →
    ¬Shared objects root frontier ∧
      ∀ id, TornId objects root frontier id → Reached reportsMissing root frontier objects id →
        IsWal objects root frontier .torn (walObjectPath root id) id ∧
          (Alone root frontier objects id ∨ reportsMissing = true ∨
            ∀ other, TornId objects root frontier other → id ≤ other)

end Repairs

section Runs

variable {reportsMissing : Bool} {root : Text} {frontier now cn : Nat}
  {order : List Text → List Text} {objects : Store Octets} {ids : List Nat}

theorem crashedRepair_refused {mode : RepairMode}
    (hr : ∀ ids, plan root frontier order objects ≠ .ok ids) :
    crashedRepair root frontier order mode now objects reportsMissing cn = objects := by
  unfold crashedRepair
  cases hpd : plan root frontier order objects with
  | error error => rfl
  | ok ids => exact absurd hpd (hr ids)

theorem repair_eq (objects : Store Octets) (mode : RepairMode) :
    ∃ cn, ((∀ ids, plan root frontier order objects = .ok ids →
        cn = (operations root frontier order mode now objects ids).length) ∧
      (repairWalTailAtFrontier root frontier order mode now objects reportsMissing).1 =
        crashedRepair root frontier order mode now objects reportsMissing cn) := by
  unfold repairWalTailAtFrontier crashedRepair
  cases plan root frontier order objects with
  | error error => exact ⟨0, (fun ids hpd => by cases hpd), rfl⟩
  | ok ids =>
    refine ⟨(operations root frontier order mode now objects ids).length, ?_, ?_⟩
    · intro others hpd
      cases hpd
      rfl
    · simp only [take_length]

section Planned

variable (l : Lists order) (hpd : plan root frontier order objects = .ok ids)

include l hpd

theorem planned_of_plan : Planned objects root frontier ids := by
  obtain ⟨rfl, _⟩ := plan_eq_ok_iff.mp hpd
  exact planned_tornCandidates l

theorem beyond_of_plan : ∀ id ∈ ids, frontier < id := by
  intro id hl
  obtain ⟨_, hi⟩ := (planned_of_plan l hpd).mem_iff.mp hl
  exact hi.beyond

theorem crashed_took : ∃ fn, Took reportsMissing root objects
      (crashedRepair root frontier order .apply now objects reportsMissing cn) ids fn := by
  unfold crashedRepair operations
  rw [hpd]
  dsimp only
  split_ifs with he
  · exact ⟨[], took_nothing (by rw [take_nil]; exact Beside.refl _) ids⟩
  · exact took_of_crash (beyond_of_plan l hpd) objects _ cn

theorem crashed_reaches (hp : AllPlaced root frontier objects) (d : Nat) :
    ∃ fn, FullSegment reportsMissing (ids.take d) fn ∧
      Took reportsMissing root objects (crashedRepair root frontier order .apply now objects
        reportsMissing (ids.length + (1 + d))) ids fn := by
  unfold crashedRepair operations
  rw [hpd]
  dsimp only
  split_ifs with he
  · subst he
    rw [take_nil, take_nil]
    exact ⟨[], ⟨⟨prefix_rfl, fun _ => nodup_nil⟩, .inl rfl⟩, took_nothing (Beside.refl _) []⟩
  obtain ⟨fn, ht, hf⟩ := @took_of_deletes reportsMissing root (idText now) frontier ids
    (ids.take d) (beyond_of_plan l hpd) ⟨_, take_append_drop d ids⟩ objects _
  refine ⟨fn, hf ?_, ?_⟩
  · intro id hl
    exact hp id ((planned_of_plan l hpd).mem_iff.mp hl)
  have hle : (ids.map (copyOp root frontier (idText now))).length = ids.length :=
    length_map _
  rw [applyQuarantine, ← hle, take_length_add_append, Nat.add_comm, take_succ_cons, ← map_take]
  exact ht

theorem repaired_full (hp : AllPlaced root frontier objects) :
    ∃ fl, FullSegment reportsMissing ids fl ∧ Took reportsMissing root objects
      (repairWalTailAtFrontier root frontier order .apply now objects reportsMissing).1 ids fl := by
  obtain ⟨cn, all, hs⟩ := @repair_eq reportsMissing root frontier now order objects .apply
  have hw := @crashed_reaches reportsMissing root frontier now order objects ids l hpd hp ids.length
  rw [take_length] at hw
  rw [hs, all ids hpd]
  by_cases he : ids = []
  · subst he
    obtain ⟨fn, ht⟩ := @crashed_took reportsMissing root frontier now
      (operations root frontier order .apply now objects []).length order objects [] l hpd
    have none : fn = [] := prefix_nil.mp ht.segment.initial
    subst none
    exact ⟨[], ⟨ht.segment, .inl rfl⟩, ht⟩
  have hl : (operations root frontier order .apply now objects ids).length =
      ids.length + (1 + ids.length) := by
    simp only [operations, if_neg he, applyQuarantine, length_append, length_map, length_cons]
    omega
  rw [hl]
  exact hw

end Planned

/-- No repair removes anything. -/
def Quiet (root : Text) (frontier : Nat) (objects : Store Octets) : Prop :=
  Trailing objects root frontier → ¬AllPlaced root frontier objects

section Agree

variable {first y : Store Octets}
  (a : ∀ location, walScope root <+: location → first.get? location = y.get? location)

include a

theorem isWal_iff_of_agree {wc : WalClass} {location : Text} {id : Nat} :
    IsWal first root frontier wc location id ↔ IsWal y root frontier wc location id := by
  constructor
  · rintro ⟨hi, hn, hb, hc⟩
    exact ⟨hi, hn, hb, a location hi ▸ hc⟩
  · rintro ⟨hi, hn, hb, hc⟩
    exact ⟨hi, hn, hb, (a location hi).symm ▸ hc⟩

theorem tornId_iff_of_agree {id : Nat} :
    TornId first root frontier id ↔ TornId y root frontier id :=
  exists_congr fun _ => isWal_iff_of_agree a

theorem trailing_of_agree (ht : Trailing first root frontier) : Trailing y root frontier where
  noneAbove torn hr :=
    ht.noneAbove ((tornId_iff_of_agree a).mpr torn) ((isWal_iff_of_agree a).mpr hr)
  noHole hr ha id hb low := by
    obtain ⟨hc, wc, o, hf⟩ := ht.noHole ((isWal_iff_of_agree a).mpr hr)
      (fun torn => ha ((tornId_iff_of_agree a).mp torn)) id hb low
    exact ⟨fun torn => hc ((tornId_iff_of_agree a).mpr torn), wc, o, (isWal_iff_of_agree a).mp hf⟩

theorem allPlaced_of_agree (hp : AllPlaced root frontier first) : AllPlaced root frontier y := by
  intro id torn
  rw [← a _ (walScope_prefix_walObjectPath root id)]
  exact hp id ((tornId_iff_of_agree a).mpr torn)

end Agree

theorem Quiet.of_beside {o : Store Octets} (hq : Quiet root frontier objects)
    (hb : Beside root o objects) : Quiet root frontier o := by
  intro ht hp
  have ha : ∀ location, walScope root <+: location →
      o.get? location = objects.get? location := fun _ hi => hb.wal hi
  exact hq (trailing_of_agree ha ht) (allPlaced_of_agree ha hp)

theorem Quiet.crashed_beside (hq : Quiet root frontier objects) (hl : Lists order) :
    Beside root (crashedRepair root frontier order .apply now objects reportsMissing cn)
      objects := by
  by_cases hpd : ∃ ids, plan root frontier order objects = .ok ids
  · obtain ⟨ids, hpd⟩ := hpd
    obtain ⟨fn, ht⟩ :=
      @crashed_took reportsMissing root frontier now cn order objects ids hl hpd
    have hn : fn = [] := by
      by_contra hso
      apply hq (trailing_of_plan hl hpd)
      intro id torn
      obtain ⟨c, _, hs, _⟩ := ht.copied hso id ((planned_of_plan hl hpd).mem_iff.mpr torn)
      simp [hs]
    have hb := ht.beside
    rw [hn] at hb
    exact hb
  · rw [crashedRepair_refused fun ids hsa => hpd ⟨ids, hsa⟩]
    exact Beside.refl _

theorem Quiet.repaired_beside (hq : Quiet root frontier objects) (hl : Lists order) :
    Beside root (repairWalTailAtFrontier root frontier order .apply now objects reportsMissing).1
      objects := by
  obtain ⟨cn, _, hs⟩ := @repair_eq reportsMissing root frontier now order objects .apply
  rw [hs]
  exact hq.crashed_beside hl

theorem repair_dryRun :
    (repairWalTailAtFrontier root frontier order .dryRun now objects reportsMissing).1 =
      objects := by
  unfold repairWalTailAtFrontier
  split <;> rfl

theorem Quiet.safe (hq : Quiet root frontier objects) :
    RepairSafe reportsMissing root frontier objects where
  kept hl _ _ _ _ ho hs _ := by
    rw [hq.crashed_beside hl _ ho, hs]
  removed hl _ _ _ _ ho hs gone := by
    rw [hq.crashed_beside hl _ ho] at gone
    exact absurd hs gone
  again hl hot _ _ _ _ hi := by
    rw [((hq.of_beside (hq.crashed_beside hl)).repaired_beside hot).wal hi,
      (hq.crashed_beside hl).wal hi, (hq.repaired_beside hl).wal hi]
  dryRun := repair_dryRun

section Remaining

variable {a : Store Octets} {f rest : List Nat}
  (gone : ∀ location, walScope root <+: location → a.get? location =
    if location ∈ f.map (walObjectPath root) then none else objects.get? location)
  (torn : ∀ id ∈ f, IsWal objects root frontier .torn (walObjectPath root id) id)
  (al : ∀ id ∈ f, Alone root frontier objects id)

include torn in
theorem finished_of_gone {wc : WalClass} {location : Text} {id : Nat}
    (hi : IsWal objects root frontier wc location id)
    (hd : location ∈ f.map (walObjectPath root)) : id ∈ f := by
  obtain ⟨o, hdo, rfl⟩ := mem_map.mp hd
  have hs := hi.named.symm.trans (torn o hdo).named
  rwa [Option.some.inj hs]

include gone

theorem isWal_remaining_iff {wc : WalClass} {location : Text} {id : Nat} :
    IsWal a root frontier wc location id ↔ IsWal objects root frontier wc location id ∧
        location ∉ f.map (walObjectPath root) := by
  constructor
  · rintro ⟨hi, hn, hb, hc⟩
    rw [gone location hi] at hc
    split_ifs at hc with hd
    · cases hc
    · exact ⟨⟨hi, hn, hb, hc⟩, hd⟩
  rintro ⟨⟨hi, hn, hb, hc⟩, hk⟩
  refine ⟨hi, hn, hb, ?_⟩
  rw [gone location hi, if_neg hk, hc]

include torn al

theorem tornId_remaining_iff {id : Nat} :
    TornId a root frontier id ↔ TornId objects root frontier id ∧ id ∉ f := by
  constructor
  · rintro ⟨location, hi⟩
    obtain ⟨hb, hk⟩ := (isWal_remaining_iff gone).mp hi
    refine ⟨⟨location, hb⟩, fun hdo => hk ?_⟩
    rw [al id hdo hb (torn id hdo)]
    exact mem_map_of_mem hdo
  rintro ⟨⟨location, hb⟩, hp⟩
  exact ⟨location, (isWal_remaining_iff gone).mpr ⟨hb, fun hd => hp (finished_of_gone torn hb hd)⟩⟩

theorem trailing_remaining (htr : Trailing objects root frontier)
    (ha : ¬Shared objects root frontier) : Trailing a root frontier where
  noneAbove ht hr :=
    htr.noneAbove ((tornId_remaining_iff gone torn al).mp ht).1 ((isWal_remaining_iff gone).mp hr).1
  noHole hr _ id hbe low := by
    have hb := ((isWal_remaining_iff gone).mp hr).1
    obtain ⟨hc, wc, o, hf⟩ := htr.noHole hb (fun ht => ha ⟨_, _, ht, hb⟩) id hbe low
    refine ⟨fun ht => hc ((tornId_remaining_iff gone torn al).mp ht).1, wc,
      o, (isWal_remaining_iff gone).mpr ⟨hf, fun hd => hc ?_⟩⟩
    exact ⟨_, torn id (finished_of_gone torn hf hd)⟩

theorem not_shared_remaining (ha : ¬Shared objects root frontier) : ¬Shared a root frontier := by
  rintro ⟨id, location, ht, hr⟩
  exact ha ⟨id, location, ((tornId_remaining_iff gone torn al).mp ht).1,
    ((isWal_remaining_iff gone).mp hr).1⟩

theorem allPlaced_remaining (hp : AllPlaced root frontier objects) : AllPlaced root frontier a := by
  intro id ht
  obtain ⟨hb, hpe⟩ := (tornId_remaining_iff gone torn al).mp ht
  have hk : walObjectPath root id ∉ f.map (walObjectPath root) := by
    rwa [mem_map_of_injective fun _ _ => walObjectPath_injective]
  rw [gone _ (walScope_prefix_walObjectPath root id), if_neg hk]
  exact hp id hb

theorem tornIds_remaining : tornIds a root frontier =
      (tornIds objects root frontier).filter fun id => id ∉ f := by
  have hl : listPrefix a (walScope root) =
      (listPrefix objects (walScope root)).filter fun location =>
        location ∉ f.map (walObjectPath root) :=
    listPrefix_of_gone gone
  rw [tornIds, tornIds, hl, filterMap_filter, filter_filterMap]
  apply filterMap_congr
  intro location hit
  have hin := ((mem_listPrefix_iff _ _ _).mp hit).2
  apply Option.ext
  intro id
  have hr := @tornIdAt_eq_some_iff a root frontier location id hin
  have hb := @tornIdAt_eq_some_iff objects root frontier location id hin
  by_cases hd : location ∈ f.map (walObjectPath root)
  · simp only [hd, not_true_eq_false, decide_false, Bool.false_eq_true, if_false,
      Option.filter_eq_some_iff, hb, decide_eq_true_eq, reduceCtorEq, false_iff, not_and, not_not]
    exact fun hi => finished_of_gone torn hi hd
  simp only [hd, not_false_eq_true, decide_true, if_true, Option.filter_eq_some_iff, hb,
    hr, decide_eq_true_eq, isWal_remaining_iff gone, and_true]
  constructor
  · intro hi
    refine ⟨hi, fun hdo => hd ?_⟩
    rw [al id hdo hi (torn id hdo)]
    exact mem_map_of_mem hdo
  · exact And.left

theorem planned_remaining (hpd : Planned objects root frontier (f ++ rest)) :
    Planned a root frontier rest ∧ ∀ id ∈ f, id ∉ rest := by
  have ha : ∀ id ∈ f, id ∉ rest := by
    intro id hd hl
    have ho := hpd.count_le_one_iff.mpr (al id hd)
    have first := count_pos_iff.mpr hd
    have second := count_pos_iff.mpr hl
    rw [count_append] at ho
    omega
  refine ⟨⟨?_, (pairwise_append.mp hpd.descending).2.1⟩, ha⟩
  rw [tornIds_remaining gone torn al]
  have hle : (f ++ rest).filter (fun id => id ∉ f) = rest := by
    have none : f.filter (fun id => id ∉ f) = [] := by simp
    have all : rest.filter (fun id => id ∉ f) = rest := by
      apply filter_eq_self.mpr
      intro id hl
      simpa using fun hd => ha id hd hl
    rw [filter_append, none, all, nil_append]
  have hp := hpd.perm.filter fun id => id ∉ f
  rwa [hle] at hp

end Remaining

variable {fn : List Nat} {af : Store Octets}

theorem Took.get? (ht : Took reportsMissing root objects af ids fn) {location : Text}
    (ho : ¬quarantineScope root <+: location) : af.get? location =
      if location ∈ fn.map (walObjectPath root) then none else objects.get? location := by
  rw [ht.beside location ho, get?_erased]

theorem Took.gone (ht : Took reportsMissing root objects af ids fn) (location : Text)
    (hi : walScope root <+: location) : af.get? location =
      if location ∈ fn.map (walObjectPath root) then none else objects.get? location :=
  ht.get? (not_quarantine_of_wal hi)

variable {id : Nat}

theorem Planned.reached (hpd : Planned objects root frontier ids)
    (hs : Segment reportsMissing ids fn) (hd : id ∈ fn) :
    Reached reportsMissing root frontier objects id := by
  intro hr o hh
  exact hpd.count_le_one_iff.mp (hs.count_le_one hr hpd.descending hd hh)

theorem plan_of_not_shared (hl : Lists order) (ht : Trailing objects root frontier)
    (ha : ¬Shared objects root frontier) (hpd : Planned objects root frontier ids) :
    plan root frontier order objects = .ok ids := by
  rw [plan_of_trailing hl ht (ordered_of_not_shared hl ht ha),
    (planned_tornCandidates hl).unique hpd]

theorem again_of_alone {s : List Text → List Text} {l : Nat} {first : Store Octets} {fl : List Nat}
    (ho : Lists s) (ht : Trailing objects root frontier) (hpl : AllPlaced root frontier objects)
    (ha : ¬Shared objects root frontier) (hpd : Planned objects root frontier ids)
    (torn : ∀ id ∈ fn, IsWal objects root frontier .torn (walObjectPath root id) id)
    (hal : ∀ id ∈ fn, Alone root frontier objects id)
    (hto : Took reportsMissing root objects first ids fn) (he : FullSegment reportsMissing ids fl)
    (hw : Took reportsMissing root objects af ids fl) {location : Text}
    (hi : walScope root <+: location) :
    (repairWalTailAtFrontier root frontier s .apply l first reportsMissing).1.get?
      location = af.get? location := by
  obtain ⟨rest, rfl⟩ := hto.segment.initial
  obtain ⟨hp, hd⟩ := planned_remaining hto.gone torn hal hpd
  have hr := plan_of_not_shared ho (trailing_remaining hto.gone torn hal ht ha)
    (not_shared_remaining hto.gone torn hal ha) hp
  obtain ⟨f, hfu, hf⟩ := @repaired_full reportsMissing root frontier l
    s first rest ho hr (allPlaced_remaining hto.gone torn hal hpl)
  have hbo : fn ++ f = fl :=
    (FullSegment.append hto.segment hfu hd).unique he
  rw [hf.gone location hi, hto.gone location hi, hw.gone location hi, ← hbo, map_append]
  by_cases hb : location ∈ fn.map (walObjectPath root)
  · simp [hb]
  by_cases now : location ∈ f.map (walObjectPath root)
  · simp [now]
  · simp [hb, now]

theorem quiet_of_alias
    (gone : ∀ location, walScope root <+: location → af.get? location =
      if location ∈ fn.map (walObjectPath root) then none else objects.get? location)
    (torn : ∀ id ∈ fn, IsWal objects root frontier .torn (walObjectPath root id) id) (hdo : id ∈ fn)
    (hm : ¬Alone root frontier objects id) : Quiet root frontier af := by
  intro _ hp
  obtain ⟨c, hi, he⟩ :
      ∃ c, IsWal objects root frontier .torn c id ∧ c ≠ walObjectPath root id := by
    by_contra hn
    push Not at hn
    exact hm fun first second => (hn _ first).trans (hn _ second).symm
  have hr : IsWal af root frontier .torn c id := by
    refine (isWal_remaining_iff gone).mpr ⟨hi, ?_⟩
    intro hd
    obtain ⟨o, ho, rfl⟩ := mem_map.mp hd
    have hs := hi.named.symm.trans (torn o ho).named
    exact he (by rw [Option.some.inj hs])
  have hf := hp id ⟨c, hr⟩
  rw [gone _ (walScope_prefix_walObjectPath root id),
    if_pos (mem_map_of_mem hdo)] at hf
  cases hf

theorem full_iff_of_repeated {fl : List Nat}
    (hpd : Planned objects root frontier ids) (hs : Segment reportsMissing ids fn)
    (he : FullSegment reportsMissing ids fl) (hd : id ∈ fn) (hm : ¬Alone root frontier objects id)
    (hla : reportsMissing = true ∨ ∀ o, TornId objects root frontier o → id ≤ o)
    (o : Nat) : o ∈ fn ↔ o ∈ fl := by
  by_cases hr : reportsMissing = true
  · have ht : 2 ≤ ids.count id := by
      by_contra ho
      exact hm (hpd.count_le_one_iff.mp (by omega))
    rw [(hs.full_of_repeated hr hpd.descending hd ht).unique he]
  have hw : fl = ids := he.ended.resolve_right fun hst => hr hst.1
  subst hw
  refine ⟨fun hi => hs.initial.subset hi, fun hi => ?_⟩
  have hl := hla.resolve_left hr o (hpd.mem_iff.mp hi)
  rcases lt_or_eq_of_le hl with hh | rfl
  · exact hs.mem_of_lt hpd.descending hd hh hi
  · exact hd

theorem safe_of_inPlace (hie : InPlace reportsMissing root frontier objects) :
    RepairSafe reportsMissing root frontier objects := by
  by_cases hq : Quiet root frontier objects
  · exact hq.safe
  unfold Quiet at hq
  push Not at hq
  obtain ⟨ht, hp⟩ := hq
  obtain ⟨ha, each⟩ := hie ht hp
  obtain ⟨ids, hpd⟩ : ∃ ids, Planned objects root frontier ids :=
    ⟨_, @planned_tornCandidates _ _ _ (fun l => l) List.Perm.refl⟩
  have torn : ∀ {fn}, Segment reportsMissing ids fn → ∀ id ∈ fn,
      IsWal objects root frontier .torn (walObjectPath root id) id ∧
        (Alone root frontier objects id ∨ reportsMissing = true ∨
          ∀ o, TornId objects root frontier o → id ≤ o) :=
    fun hse id done => each id (hpd.mem_iff.mp (hse.initial.subset done)) (hpd.reached hse done)
  constructor
  case kept =>
    intro order lists now cn location c ho hs hsd
    obtain ⟨fn, took⟩ := @crashed_took reportsMissing root frontier now cn order objects
      ids lists (plan_of_not_shared lists ht ha hpd)
    rw [took.get? ho, if_neg, hs]
    intro hd
    obtain ⟨id, done, rfl⟩ := mem_map.mp hd
    exact hsd id (torn took.segment id done).1
  case removed =>
    intro order lists now cn location c ho hs hm
    obtain ⟨fn, took⟩ := @crashed_took reportsMissing root frontier now cn order objects
      ids lists (plan_of_not_shared lists ht ha hpd)
    have hd : location ∈ fn.map (walObjectPath root) := by
      by_contra kept
      rw [took.get? ho, if_neg kept] at hm
      exact hm hs
    obtain ⟨id, done, rfl⟩ := mem_map.mp hd
    have his := (torn took.segment id done).1
    obtain ⟨cp, p, hso, hqu, hf⟩ := took.copied (ne_nil_of_mem done) id
      (took.segment.initial.subset done)
    rw [hs] at hso
    cases hso
    exact ⟨id, his, fun o h hr => ht.noneAbove ⟨_, his⟩ hr, p, hqu, hf⟩
  case again =>
    intro order s lists hot now la cn location hi
    have hpl := plan_of_not_shared lists ht ha hpd
    obtain ⟨fn, took⟩ :=
      @crashed_took reportsMissing root frontier now cn order objects ids lists hpl
    obtain ⟨fl, he, hw⟩ :=
      @repaired_full reportsMissing root frontier now order objects ids lists hpl hp
    have hin := fun id done => (torn took.segment id done).1
    by_cases alone : ∀ id ∈ fn, Alone root frontier objects id
    · exact again_of_alone hot ht hp ha hpd hin alone took he hw hi
    push Not at alone
    obtain ⟨id, done, many⟩ := alone
    have hst := quiet_of_alias took.gone hin done many
    have same := full_iff_of_repeated hpd took.segment he done many
      ((torn took.segment id done).2.resolve_left many)
    rw [(hst.repaired_beside hot).wal hi, took.gone location hi, hw.gone location hi]
    have hpa : location ∈ fn.map (walObjectPath root) ↔ location ∈ fl.map (walObjectPath root) := by
      simp only [mem_map]
      exact exists_congr fun o => and_congr_left fun _ => same o
    simp only [hpa]
  case dryRun => exact repair_dryRun

theorem plan_tornFirst (ht : Trailing objects root frontier) :
    ∃ ids, plan root frontier (classFirst objects frontier .torn) objects = .ok ids ∧
      Planned objects root frontier ids :=
  ⟨_, plan_of_trailing (classFirst_lists .torn) ht (ordered_tornFirst ht),
    planned_tornCandidates (classFirst_lists .torn)⟩

section Safe

variable (safe : RepairSafe reportsMissing root frontier objects)

include safe

theorem not_shared_of_safe (ht : Trailing objects root frontier)
    (hpl : AllPlaced root frontier objects) : ¬Shared objects root frontier := by
  intro hs
  obtain ⟨ids, hp, hpd⟩ := plan_tornFirst ht
  obtain ⟨fl, he, hw⟩ := @repaired_full reportsMissing root frontier 0 _ objects ids
    (classFirst_lists .torn) hp hpl
  obtain ⟨first, hd⟩ : ∃ first, first ∈ fl := by
    obtain ⟨id, _, hto, _⟩ := hs
    rcases he.ended with rfl | ⟨_, next, hd, _⟩
    · exact ⟨id, hpd.mem_iff.mpr hto⟩
    · exact ⟨next, hd⟩
  have hi := walScope_prefix_walObjectPath root first
  have hsa := @safe.again _ _ (@classFirst_lists objects frontier .torn)
    (@classFirst_lists objects frontier .readable) 0 0 0 _ hi
  have hu : crashedRepair root frontier (classFirst objects frontier .torn) .apply 0 objects
      reportsMissing 0 = objects := by
    unfold crashedRepair
    rw [hp]
    rfl
  obtain ⟨_, _, hst⟩ := @repair_eq reportsMissing root frontier 0
    (classFirst objects frontier .readable) objects .apply
  rw [hu, hst, crashedRepair_refused fun _ => refused_readableFirst hs,
    hw.gone _ hi, if_pos (mem_map_of_mem hd)] at hsa
  have hf := hpl first (hpd.mem_iff.mp (he.initial.subset hd))
  rw [hsa] at hf
  cases hf

theorem torn_of_safe (htr : Trailing objects root frontier) (hp : AllPlaced root frontier objects)
    (ht : TornId objects root frontier id) (hr : Reached reportsMissing root frontier objects id) :
    IsWal objects root frontier .torn (walObjectPath root id) id := by
  obtain ⟨ids, hpl, hpd⟩ := plan_tornFirst htr
  obtain ⟨fl, he, hw⟩ := @crashed_reaches reportsMissing root frontier 0 _ objects ids
    (classFirst_lists .torn) hpl hp ids.length
  rw [take_length] at he
  have hin := walScope_prefix_walObjectPath root id
  have hd : id ∈ fl := by
    refine he.mem_of_reached hpd.descending (hpd.mem_iff.mpr ht) ?_
    intro hre o h
    exact hpd.count_le_one_iff.mpr (hr hre o h)
  obtain ⟨c, hs⟩ := Option.isSome_iff_exists.mp (hp id ht)
  obtain ⟨o, hi, _⟩ := safe.removed (classFirst_lists .torn) (not_quarantine_of_wal hin) hs (by
      rw [hw.gone _ hin, if_pos (mem_map_of_mem hd)]
      exact fun him => by cases him)
  obtain ⟨_, torn⟩ := ht
  have hn := parseWalId_walObjectPath root (lt_of_parseWalId torn.named)
  rwa [Option.some.inj (hi.named.symm.trans hn)] at hi

/-- A repair that stops behind a repeated id cannot be finished. -/
theorem last_of_safe (ht : Trailing objects root frontier) (hp : AllPlaced root frontier objects)
    (htd : TornId objects root frontier id) (hm : ¬Alone root frontier objects id)
    (hsi : reportsMissing = false) {o : Nat} (hto : TornId objects root frontier o) : id ≤ o := by
  by_contra hb
  obtain ⟨ids, hpl, hpd⟩ := plan_tornFirst ht
  have hli : Lists (classFirst objects frontier .torn) := classFirst_lists .torn
  obtain ⟨b, bh, hsp⟩ := append_of_mem (hpd.mem_iff.mpr htd)
  obtain ⟨fn, hen, p⟩ := @crashed_reaches reportsMissing root frontier 0 _ objects ids
    hli hpl hp (b.length + 1)
  obtain ⟨fl, hfu, hw⟩ :=
    @repaired_full reportsMissing root frontier 0 _ objects ids hli hpl hp
  have all : ∀ {ls p : List Nat}, FullSegment reportsMissing ls p → p = ls := by
    intro ls p hse
    refine hse.ended.resolve_right fun hs => ?_
    rw [hsi] at hs
    cases hs.1
  have hta : ids.take (b.length + 1) = b ++ [id] := by
    have hre : ids = (b ++ [id]) ++ bh := by
      rw [hsp, append_assoc]
      rfl
    rw [hre]
    exact take_left' (by simp)
  rw [all hen, hta] at p
  rw [all hfu] at hw
  have hn : o ∉ b ++ [id] := by
    intro hi
    have hd := hpd.descending
    rw [hsp] at hd
    rcases mem_append.mp hi with he | hl
    · exact hb (le_of_mem_append hd he (by simp))
    · exact hb (le_of_eq (mem_singleton.mp hl).symm)
  have hq : Quiet root frontier _ := quiet_of_alias p.gone (fun d hi => torn_of_safe safe ht hp
      (hpd.mem_iff.mp (p.segment.initial.subset hi)) (fun hr => by
        rw [hsi] at hr
        cases hr)) (by simp) hm
  have hi := walScope_prefix_walObjectPath root o
  have hk : walObjectPath root o ∉ (b ++ [id]).map (walObjectPath root) := by
    rwa [mem_map_of_injective fun _ _ => walObjectPath_injective]
  have hsa := @safe.again _ _ hli hli 0 0 (ids.length + (1 + (b.length + 1))) _ hi
  rw [(hq.repaired_beside hli).wal hi, p.gone _ hi, if_neg hk,
    hw.gone _ hi, if_pos (mem_map_of_mem (hpd.mem_iff.mpr hto))] at hsa
  have hf := hp o hto
  rw [hsa] at hf
  cases hf

end Safe

theorem repair_safe_iff (reportsMissing : Bool) (root : Text) (frontier : Nat)
    (objects : Store Octets) : RepairSafe reportsMissing root frontier objects ↔
      InPlace reportsMissing root frontier objects := by
  refine ⟨fun safe ht hp => ⟨not_shared_of_safe safe ht hp, ?_⟩, safe_of_inPlace⟩
  intro id hto hr
  refine ⟨torn_of_safe safe ht hp hto hr, ?_⟩
  by_cases ha : Alone root frontier objects id
  · exact .inl ha
  right
  cases hs : reportsMissing with
  | true => exact .inl rfl
  | false => exact .inr fun o => last_of_safe safe ht hp hto ha hs

end Runs

namespace Shadowed

def root : Text := "kv".toList

/-- Two bytes of data, the offset of the metadata and a supported version. -/
def contents : Octets := [7, 7, 0, 0, 0, 0, 0, 0, 0, 0, 0, 1]

/-- The object of id 7, and a torn copy of it in a directory of its own. -/
def objects : Store Octets :=
  (SortedMap.empty.insert (walObjectPath root 7) contents).insert
    "kv/wal/.bak/00000000000000000007.sst".toList (List.replicate 12 0)

theorem readable_removed : (objects.get? (walObjectPath root 7)).map classify = some .readable ∧
      (repairWalTailAtFrontier root 6 (fun locations => locations) .apply 0 objects false).1.get?
        (walObjectPath root 7) = none ∧ ¬RepairSafe false root 6 objects := by
  have readable : (objects.get? (walObjectPath root 7)).map classify = some .readable := by
    decide +kernel
  have gone : (crashedRepair root 6 (fun locations => locations) .apply 0 objects false 3).get?
      (walObjectPath root 7) = none := by
    decide +kernel
  refine ⟨readable, by decide +kernel, fun safe => ?_⟩
  obtain ⟨sd, hf, _⟩ := Option.map_eq_some_iff.mp readable
  have hk := @safe.kept (fun locations => locations) List.Perm.refl 0 3 _ _
    (not_quarantine_of_wal (walScope_prefix_walObjectPath root 7)) hf (by
      intro id torn
      have hc := torn.classed.symm.trans readable
      cases hc)
  rw [gone] at hk
  cases hk

end Shadowed

end BoatRamp.WalRepair

import BoatRamp.Library.Segments
import BoatRamp.WalRepair.Repair
import Mathlib.Data.List.Pairwise

/-!
# What the repair plans

An object store lists objects in any order, and the scan sorts them by id alone.
The plan is described by the log objects themselves: it is made only where no
readable object stands above a torn one and no id is missing below a readable
one that stays, and it is then the list of the ids of all torn objects.
-/

namespace BoatRamp.WalRepair

open Library Messaging List

theorem decimalValue_concat (dg : Text) {d : Nat} (hb : d < 10) :
    decimalValue (dg ++ [d.digitChar]) = decimalValue dg * 10 + d := by
  have v : d.digitChar.toNat - '0'.toNat = d := by
    revert d
    decide
  rw [decimalValue, foldl_append, foldl_cons, foldl_nil, v]
  rfl

theorem decimalValue_toDigits (number : Nat) : decimalValue (Nat.toDigits 10 number) = number := by
  induction number using Nat.base_induction 10 (by decide) with
  | single digit hb =>
    rw [Nat.toDigits_of_lt_base hb]
    have value := decimalValue_concat [] hb
    simpa [decimalValue] using value
  | digit high digit hb hp ih =>
    rw [← Nat.toDigits_append_toDigits (by decide) hp hb,
      Nat.toDigits_of_lt_base hb, decimalValue_concat _ hb, ih]
    omega

theorem decimalValue_idText (id : Nat) : decimalValue (idText id) = id := by
  have hz : ∀ c : Nat, decimalValue (replicate c '0') = 0 := by
    intro c
    induction c with
    | zero => rfl
    | succ c ih => exact ih
  have hd := decimalValue_toDigits id
  unfold decimalValue at hz hd ⊢
  rw [idText, padded, leftpad, foldl_append, hz, hd]

variable {id : Nat} {candidates : List WalCandidate}

theorem idText_injective {o : Nat} (hs : idText id = idText o) : id = o := by
  rw [← decimalValue_idText id, ← decimalValue_idText o, hs]

theorem isDigit_of_mem_idText {c : Char} (hi : c ∈ idText id) : c.isDigit = true := by
  rw [idText, padded, leftpad, mem_append] at hi
  rcases hi with hp | hd
  · rw [eq_of_mem_replicate hp]
    rfl
  · exact Nat.isDigit_of_mem_toDigits (by decide) (by decide) hd

theorem parseU64_idText (hb : id < UInt64.size) :
    parseU64 (idText id) = some (UInt64.ofNat id) := by
  have d : (idText id).all Char.isDigit = true :=
    all_eq_true.mpr fun c hi => isDigit_of_mem_idText hi
  have v := decimalValue_idText id
  have hl : 20 ≤ (idText id).length := by
    rw [idText, padded, leftpad, length_append, length_replicate]
    omega
  generalize idText id = text at d v hl
  cases text with
  | nil => simp at hl
  | cons c rest =>
    have unsigned : c ≠ '+' := by
      rintro rfl
      simp at d
    unfold parseU64 parseUnsigned
    split
    · next same => exact absurd (cons.inj same).1 unsigned
    · simp only [ne_eq, reduceCtorEq, not_false_eq_true, d, v, hb, true_and, if_true,
        Option.map_some]

variable (root : Text)

theorem filename_walObjectPath (id : Nat) :
    filename (walObjectPath root id) = idText id ++ SST := by
  have hc : '/' ∉ idText id ++ SST := by
    rw [mem_append, not_or]
    exact ⟨slash_notMem_padded 20 10 id, by decide⟩
  have hs : walObjectPath root id = (root ++ "/wal".toList) ++ '/' :: (idText id ++ SST) := by
    simp [walObjectPath, walScope]
  rw [filename, hs, rsplitOnceAt_append hc]
  rfl

theorem parseWalId_walObjectPath (hb : id < UInt64.size) :
    parseWalId (walObjectPath root id) = some id := by
  have hs : stripTail SST (idText id ++ SST) = some (idText id) := by
    simp [stripTail]
  rw [parseWalId, filename_walObjectPath, hs, Option.bind_some, parseU64_idText hb]
  simp [Nat.mod_eq_of_lt hb]

theorem lt_of_parseWalId {loc : Text} (hn : parseWalId loc = some id) : id < UInt64.size := by
  obtain ⟨n, _, rfl⟩ := Option.map_eq_some_iff.mp hn
  exact n.toNat_lt

theorem walScope_prefix_walObjectPath (id : Nat) : walScope root <+: walObjectPath root id := by
  rw [walObjectPath, append_assoc]
  exact prefix_append _ _

theorem walObjectPath_injective {root : Text} {o : Nat}
    (hs : walObjectPath root id = walObjectPath root o) : id = o := by
  simp only [walObjectPath, append_assoc, append_cancel_left_eq, append_cancel_right_eq] at hs
  exact idText_injective hs

theorem not_quarantine_of_wal {root loc : Text} (hi : walScope root <+: loc) :
    ¬quarantineScope root <+: loc := by
  intro hq
  rcases prefix_or_prefix_of_prefix hi hq with hs | hl
  · rw [walScope, quarantineScope, prefix_append_right_inj] at hs
    exact absurd hs (by decide)
  · rw [walScope, quarantineScope, prefix_append_right_inj] at hl
    exact absurd hl (by decide)

def Lists (order : List Text → List Text) : Prop := ∀ locations, (order locations).Perm locations

section Objects

variable (objects : Store Octets) (root : Text) (frontier : Nat)

structure IsWal (walClass : WalClass) (location : Text) (id : Nat) : Prop where
  inside : walScope root <+: location
  named : parseWalId location = some id
  beyond : frontier < id
  classed : (objects.get? location).map classify = some walClass

def TornId (id : Nat) : Prop := ∃ location, IsWal objects root frontier .torn location id

/-- The torn objects are a tail that may be taken away. -/
structure Trailing : Prop where
  noneAbove : ∀ {id location readable}, TornId objects root frontier id →
    IsWal objects root frontier .readable location readable → readable ≤ id
  noHole : ∀ {location readable}, IsWal objects root frontier .readable location readable →
    ¬TornId objects root frontier readable → ∀ id, frontier < id → id ≤ readable →
      ¬TornId objects root frontier id ∧
        ∃ walClass other, IsWal objects root frontier walClass other id

def Shared : Prop :=
  ∃ id location, TornId objects root frontier id ∧
    IsWal objects root frontier .readable location id

end Objects

section Candidates

variable {obs : Store Octets} {root : Text} {fr : Nat} {order : List Text → List Text}

theorem candidateAt_eq_some_iff {loc : Text} {cn : WalCandidate} :
    candidateAt obs fr loc = some cn ↔ ∃ c, obs.get? loc = some c ∧
        parseWalId loc = some cn.id ∧ fr < cn.id ∧
        cn.size = c.length ∧ cn.walClass = classify c := by
  rcases cn with ⟨id, s, wc⟩
  simp only [candidateAt, Option.bind_eq_bind, Option.bind_eq_some_iff]
  constructor
  · rintro ⟨f, hn, c, hs, hr⟩
    split_ifs at hr with low
    cases hr
    exact ⟨c, hs, hn, not_le.mp low, rfl, rfl⟩
  · rintro ⟨c, hs, hn, hb, rfl, rfl⟩
    exact ⟨id, hn, c, hs, if_neg (not_le.mpr hb)⟩

theorem mem_scanCandidates_iff (hl : Lists order) {id : Nat} {wc : WalClass} :
    (∃ cn ∈ scanCandidates order obs root fr, cn.id = id ∧ cn.walClass = wc) ↔
      ∃ loc, IsWal obs root fr wc loc id := by
  simp only [scanCandidates, mem_insertionSort, mem_filterMap, list,
    (hl _).mem_iff, mem_listPrefix_iff]
  constructor
  · rintro ⟨cn, ⟨loc, ⟨_, hi⟩, hf⟩, rfl, rfl⟩
    obtain ⟨c, hs, hn, hb, _, hsa⟩ := candidateAt_eq_some_iff.mp hf
    exact ⟨loc, hi, hn, hb, by rw [hs, hsa]; rfl⟩
  rintro ⟨loc, hi, hn, hb, hc⟩
  obtain ⟨c, hs, hsa⟩ := Option.map_eq_some_iff.mp hc
  exact ⟨⟨id, c.length, wc⟩, ⟨loc, ⟨by simp [hs], hi⟩,
    candidateAt_eq_some_iff.mpr ⟨c, hs, hn, hb, rfl, hsa.symm⟩⟩, rfl, rfl⟩

instance : Std.Total fun first second : WalCandidate => second.id ≤ first.id :=
  ⟨fun first second => Nat.le_total second.id first.id⟩

instance : IsTrans WalCandidate fun first second => second.id ≤ first.id :=
  ⟨fun _ _ _ lower upper => Nat.le_trans upper lower⟩

theorem scanCandidates_descending : (scanCandidates order obs root fr).Pairwise
      fun x y => y.id ≤ x.id :=
  pairwise_insertionSort _ _

end Candidates

def tornCandidates (candidates : List WalCandidate) : List Nat :=
  (candidates.filter fun candidate => candidate.walClass = .torn).map WalCandidate.id

theorem mem_tornCandidates : id ∈ tornCandidates candidates ↔
      ∃ c ∈ candidates, c.id = id ∧ c.walClass = .torn := by
  simp only [tornCandidates, mem_map, mem_filter, decide_eq_true_eq]
  constructor
  · rintro ⟨c, ⟨hi, ht⟩, hs⟩
    exact ⟨c, hi, hs, ht⟩
  · rintro ⟨c, hi, hs, ht⟩
    exact ⟨c, ⟨hi, ht⟩, hs⟩

theorem tornCandidates_eq_nil_iff :
    tornCandidates candidates = [] ↔ ∀ c ∈ candidates, c.walClass ≠ .torn := by
  simp [tornCandidates, filter_eq_nil_iff]

/-- The walk succeeds if nothing torn follows something readable. -/
def Ordered (candidates : List WalCandidate) : Prop :=
  candidates.Pairwise fun first second => first.walClass = .readable → second.walClass ≠ .torn

theorem planFrom_eq_ok_iff {root : Text} {readableAbove : Option Nat} {ids : List Nat} :
    planFrom root readableAbove candidates = .ok ids ↔
      ids = tornCandidates candidates ∧ (readableAbove.isSome = true → ids = []) ∧
        Ordered candidates := by
  induction candidates generalizing readableAbove ids with
  | nil =>
    constructor
    · intro hp
      cases hp
      exact ⟨rfl, fun _ => rfl, List.Pairwise.nil⟩
    · rintro ⟨rfl, _⟩
      rfl
  | cons candidate rest ih =>
    rcases candidate with ⟨id, size, walClass⟩
    have hot : walClass ≠ .torn →
        tornCandidates (⟨id, size, walClass⟩ :: rest) = tornCandidates rest := by
      intro hs
      simp [tornCandidates, hs]
    cases walClass with
    | readable =>
      have ha : (readableAbove.or (some id)).isSome = true := by
        cases readableAbove <;> rfl
      have hw : planFrom root readableAbove (⟨id, size, .readable⟩ :: rest) =
          planFrom root (readableAbove.or (some id)) rest := rfl
      rw [hw, ih, hot (by decide), Ordered, Ordered, pairwise_cons]
      simp only [ha, forall_const]
      constructor
      · rintro ⟨hl, none, ho⟩
        refine ⟨hl, fun _ => none, ?_, ho⟩
        rwa [hl, tornCandidates_eq_nil_iff] at none
      · rintro ⟨hl, _, first, ho⟩
        exact ⟨hl, hl.trans (tornCandidates_eq_nil_iff.mpr first), ho⟩
    | fence =>
      have hw : planFrom root readableAbove (⟨id, size, .fence⟩ :: rest) =
          planFrom root readableAbove rest := rfl
      rw [hw, ih, hot (by decide), Ordered, Ordered, pairwise_cons]
      have first : ∀ other ∈ rest, WalClass.fence = .readable → other.walClass ≠ .torn :=
        fun _ _ hsa => by cases hsa
      simp only [and_iff_right first]
    | torn =>
      have hl : tornCandidates (⟨id, size, .torn⟩ :: rest) = id :: tornCandidates rest := by
        simp [tornCandidates]
      have first : ∀ other ∈ rest, WalClass.torn = .readable → other.walClass ≠ .torn :=
        fun _ _ hsa => by cases hsa
      rw [hl, Ordered, pairwise_cons, and_iff_right first]
      cases readableAbove with
      | some readable =>
        simp only [planFrom, Option.isSome_some, forall_const, reduceCtorEq, false_iff]
        rintro ⟨rfl, he, _⟩
        cases he
      | none =>
        have tail := @ih none (tornCandidates rest)
        simp only [Option.isSome_none, Bool.false_eq_true, false_implies, true_and] at tail ⊢
        simp only [planFrom]
        constructor
        · intro hp
          cases hw : planFrom root none rest with
          | error error =>
            rw [hw] at hp
            cases hp
          | ok found =>
            rw [hw] at hp
            cases hp
            obtain ⟨rfl, _, ho⟩ := ih.mp hw
            exact ⟨rfl, ho⟩
        rintro ⟨rfl, ho⟩
        rw [tail.mpr ho]
        rfl

def Contiguous (candidates : List WalCandidate) (quarantined : List Nat) (frontier : Nat) : Prop :=
  ∀ candidate ∈ candidates, candidate.walClass = .readable → candidate.id ∉ quarantined →
    ∀ id, frontier < id → id ≤ candidate.id →
      id ∉ quarantined ∧ ∃ other ∈ candidates, other.id = id

theorem checkSurvivorContiguity_eq_ok_iff {q : List Nat} {frontier : Nat} {root : Text} :
    checkSurvivorContiguity candidates q frontier root = .ok () ↔
      Contiguous candidates q frontier := by
  have hs : ∀ c, c ∈ survivors candidates q ↔
      c ∈ candidates ∧ c.walClass = .readable ∧ c.id ∉ q := by
    simp [survivors]
  unfold checkSurvivorContiguity
  cases hh : ((survivors candidates q).map WalCandidate.id).max? with
  | none =>
    rw [max?_eq_none_iff, map_eq_nil_iff] at hh
    simp only [true_iff]
    intro c hm hr hk
    have hi := (hs c).mpr ⟨hm, hr, hk⟩
    rw [hh] at hi
    cases hi
  | some mr =>
    obtain ⟨hre, hb⟩ := max?_eq_some_iff.mp hh
    obtain ⟨top, his, rfl⟩ := mem_map.mp hre
    have p : ∀ id, id ∈ (candidates.map WalCandidate.id).filter (fun id => !q.contains id) ↔
          id ∉ q ∧ ∃ o ∈ candidates, o.id = id := by
      simp [and_comm]
    dsimp only
    split
    · next m found =>
        have ha := find?_some found
        have hra := mem_of_find?_eq_some found
        simp only [reduceCtorEq, false_iff]
        intro hc
        obtain ⟨hm, hr, hk⟩ := (hs top).mp his
        rw [mem_range'_1] at hra
        have hi := (p m).mpr (hc top hm hr hk m (by omega) (by omega))
        rw [Bool.not_eq_true', ← Bool.not_eq_true, contains_iff_mem] at ha
        exact ha hi
    next found =>
    simp only [true_iff]
    intro c hm hr hk id hbe low
    have hl := hb c.id (mem_map_of_mem ((hs c).mpr ⟨hm, hr, hk⟩))
    have hi := find?_eq_none.mp found id (mem_range'_1.mpr (by omega))
    exact (p id).mp (by simpa using hi)

section Planned

variable {objects : Store Octets} {root : Text} {frontier : Nat} {order : List Text → List Text}
  {ids : List Nat}

theorem plan_eq_ok_iff : plan root frontier order objects = .ok ids ↔
      ids = tornCandidates (scanCandidates order objects root frontier) ∧
        Ordered (scanCandidates order objects root frontier) ∧
        Contiguous (scanCandidates order objects root frontier) ids frontier := by
  rw [← @checkSurvivorContiguity_eq_ok_iff _ _ _ root]
  simp only [plan]
  cases hw : planTrailingTail (scanCandidates order objects root frontier) root with
  | error error =>
    simp only [Except.bind, reduceCtorEq, false_iff]
    rintro ⟨rfl, ho, _⟩
    have hp : planFrom root none (scanCandidates order objects root frontier) =
        .ok (tornCandidates (scanCandidates order objects root frontier)) :=
      planFrom_eq_ok_iff.mpr ⟨rfl, (fun hi => by cases hi), ho⟩
    rw [planTrailingTail, hp] at hw
    cases hw
  | ok found =>
    obtain ⟨rfl, _, ho⟩ := planFrom_eq_ok_iff.mp hw
    constructor
    · intro hp
      cases hc : checkSurvivorContiguity (scanCandidates order objects root frontier)
          (tornCandidates (scanCandidates order objects root frontier)) frontier root with
      | error error =>
        simp only [Except.bind, hc] at hp
        cases hp
      | ok done =>
        simp only [Except.bind, hc] at hp
        cases hp
        exact ⟨rfl, ho, hc⟩
    rintro ⟨rfl, _, hc⟩
    simp only [Except.bind, hc]
    rfl

def tornIdAt (objects : Store Octets) (frontier : Nat) (location : Text) : Option Nat :=
  ((candidateAt objects frontier location).filter fun candidate =>
    candidate.walClass = .torn).map WalCandidate.id

theorem tornIdAt_eq_some_iff {loc : Text} {id : Nat} (hi : walScope root <+: loc) :
    tornIdAt objects frontier loc = some id ↔ IsWal objects root frontier .torn loc id := by
  simp only [tornIdAt, Option.map_eq_some_iff, Option.filter_eq_some_iff, decide_eq_true_eq,
    candidateAt_eq_some_iff]
  constructor
  · rintro ⟨cn, ⟨⟨c, hs, hn, hb, _, hsa⟩, ht⟩, rfl⟩
    exact ⟨hi, hn, hb, by rw [hs, Option.map_some, ← hsa, ht]⟩
  rintro ⟨_, hn, hb, hc⟩
  obtain ⟨c, hs, hsa⟩ := Option.map_eq_some_iff.mp hc
  exact ⟨⟨id, c.length, .torn⟩, ⟨⟨c, hs, hn, hb, rfl, hsa.symm⟩, rfl⟩, rfl⟩

def tornIds (objects : Store Octets) (root : Text) (frontier : Nat) : List Nat :=
  (listPrefix objects (walScope root)).filterMap (tornIdAt objects frontier)

structure Planned (objects : Store Octets) (root : Text) (frontier : Nat) (ids : List Nat) :
    Prop where
  perm : ids.Perm (tornIds objects root frontier)
  descending : ids.Pairwise (· ≥ ·)

theorem planned_tornCandidates (hl : Lists order) : Planned objects root frontier
      (tornCandidates (scanCandidates order objects root frontier)) where
  perm := by
    have hs : (scanCandidates order objects root frontier).Perm
        ((listPrefix objects (walScope root)).filterMap (candidateAt objects frontier)) :=
      (perm_insertionSort _ _).trans ((hl _).filterMap _)
    refine ((hs.filter _).map _).trans (List.Perm.of_eq ?_)
    rw [filter_filterMap, map_filterMap]
    rfl
  descending := pairwise_map.mpr (scanCandidates_descending.filter _)

theorem Planned.mem_iff (hp : Planned objects root frontier ids) {id : Nat} :
    id ∈ ids ↔ TornId objects root frontier id := by
  rw [hp.perm.mem_iff, tornIds, mem_filterMap]
  constructor
  · rintro ⟨loc, hl, ht⟩
    exact ⟨loc, (tornIdAt_eq_some_iff ((mem_listPrefix_iff _ _ _).mp hl).2).mp ht⟩
  rintro ⟨loc, ht⟩
  obtain ⟨c, hs, _⟩ := Option.map_eq_some_iff.mp ht.classed
  exact ⟨loc, (mem_listPrefix_iff _ _ _).mpr ⟨by simp [hs], ht.inside⟩,
    (tornIdAt_eq_some_iff ht.inside).mpr ht⟩

theorem Planned.unique {o : List Nat} (hp : Planned objects root frontier ids)
    (ha : Planned objects root frontier o) : ids = o :=
  (hp.perm.trans ha.perm.symm).eq_of_pairwise
    (fun _ _ _ _ hab hb => le_antisymm hb hab) hp.descending ha.descending

theorem listPrefix_nodup (objects : Store Octets) (s : Text) : (listPrefix objects s).Nodup :=
  pairwise_map.mpr ((objects.scan_sorted s).imp fun hb => ne_of_lt hb)

theorem Planned.count_le_one_iff (hpl : Planned objects root frontier ids) {id : Nat} :
    ids.count id ≤ 1 ↔ ∀ {x y}, IsWal objects root frontier .torn x id →
      IsWal objects root frontier .torn y id → x = y := by
  rw [hpl.perm.count_eq, tornIds, count_filterMap, countP_eq_length_filter]
  have hp : ∀ loc, loc ∈ (listPrefix objects (walScope root)).filter
      (fun loc => tornIdAt objects frontier loc == some id) ↔
        IsWal objects root frontier .torn loc id := by
    intro loc
    rw [mem_filter, mem_listPrefix_iff, beq_iff_eq]
    constructor
    · rintro ⟨⟨_, hi⟩, ht⟩
      exact (tornIdAt_eq_some_iff hi).mp ht
    intro ht
    obtain ⟨c, hs, _⟩ := Option.map_eq_some_iff.mp ht.classed
    exact ⟨⟨by simp [hs], ht.inside⟩, (tornIdAt_eq_some_iff ht.inside).mpr ht⟩
  have hd := (listPrefix_nodup objects (walScope root)).filter
    fun loc => tornIdAt objects frontier loc == some id
  simp only [← hp]
  generalize (listPrefix objects (walScope root)).filter
    (fun loc => tornIdAt objects frontier loc == some id) = found at hd
  match found with
  | [] => simp
  | [only] => simp +contextual
  | x :: y :: rest =>
    constructor
    · intro hsh
      simp at hsh
    intro ha
    have hsa := @ha x y (by simp) (by simp)
    simp [hsa] at hd

/-- Nothing torn lies below something readable. -/
def Stacked (first second : WalCandidate) : Prop :=
  (first.id < second.id → second.walClass = .readable → first.walClass ≠ .torn) ∧
    (second.id < first.id → first.walClass = .readable → second.walClass ≠ .torn)

instance : Std.Symm Stacked := ⟨fun _ _ both => ⟨both.2, both.1⟩⟩

theorem Ordered.stacked {candidates : List WalCandidate} (ho : Ordered candidates)
    (hd : candidates.Pairwise fun x y => y.id ≤ x.id) {x y : WalCandidate} (hf : x ∈ candidates)
    (hs : y ∈ candidates) : Stacked x y := by
  have hp : candidates.Pairwise Stacked :=
    (List.Pairwise.and ho hd).imp fun hb =>
      ⟨fun hh => absurd hh (not_lt.mpr hb.2), fun _ => hb.1⟩
  refine hp.forall_of_forall ?_ hf hs
  intro c _
  exact ⟨fun hh => absurd hh (lt_irrefl _), fun hh => absurd hh (lt_irrefl _)⟩

theorem trailing_of_plan (hl : Lists order)
    (hp : plan root frontier order objects = .ok ids) : Trailing objects root frontier := by
  obtain ⟨rfl, ho, hc⟩ := plan_eq_ok_iff.mp hp
  have hto : ∀ {id}, id ∈ tornCandidates (scanCandidates order objects root frontier) ↔
      TornId objects root frontier id := (planned_tornCandidates hl).mem_iff
  constructor
  · intro id loc r ht hi
    obtain ⟨low, hlo, rfl, hln⟩ := mem_tornCandidates.mp (hto.mpr ht)
    obtain ⟨h, hh, rfl, hhi⟩ :=
      (mem_scanCandidates_iff hl).mpr ⟨loc, hi⟩
    by_contra hab
    exact (ho.stacked scanCandidates_descending hlo hh).1 (not_le.mp hab) hhi hln
  intro loc r hi ha id hb low
  obtain ⟨h, hh, rfl, hhi⟩ :=
    (mem_scanCandidates_iff hl).mpr ⟨loc, hi⟩
  obtain ⟨hk, o, hot, hs⟩ := hc h hh hhi (fun hp => ha (hto.mp hp)) id hb low
  obtain ⟨p, hf⟩ := (mem_scanCandidates_iff hl).mp ⟨o, hot, hs, rfl⟩
  exact ⟨fun ht => hk (hto.mpr ht), o.walClass, p, hf⟩

theorem plan_of_trailing (hl : Lists order) (ht : Trailing objects root frontier)
    (ho : Ordered (scanCandidates order objects root frontier)) : plan root frontier order objects =
      .ok (tornCandidates (scanCandidates order objects root frontier)) := by
  have htn : ∀ {id}, id ∈ tornCandidates (scanCandidates order objects root frontier) ↔
      TornId objects root frontier id := (planned_tornCandidates hl).mem_iff
  refine plan_eq_ok_iff.mpr ⟨rfl, ho, ?_⟩
  intro c hin hr hk id hb low
  obtain ⟨loc, hi⟩ := (mem_scanCandidates_iff hl).mp ⟨c, hin, rfl, hr⟩
  obtain ⟨hc, wc, o, hf⟩ := ht.noHole hi (fun hto => hk (htn.mpr hto)) id hb low
  obtain ⟨p, hpr, hs, _⟩ := (mem_scanCandidates_iff hl).mpr ⟨o, hf⟩
  exact ⟨fun hp => hc (htn.mp hp), p, hpr, hs⟩

theorem ordered_of_not_shared (hl : Lists order)
    (ht : Trailing objects root frontier) (ha : ¬Shared objects root frontier) :
    Ordered (scanCandidates order objects root frontier) := by
  refine scanCandidates_descending.imp_of_mem ?_
  intro x y hf hs hab hr hto
  obtain ⟨h, hi⟩ := (mem_scanCandidates_iff hl).mp ⟨x, hf, rfl, hr⟩
  obtain ⟨low, his⟩ := (mem_scanCandidates_iff hl).mp ⟨y, hs, rfl, hto⟩
  have hsa : x.id = y.id := le_antisymm (ht.noneAbove ⟨low, his⟩ hi) hab
  exact ha ⟨y.id, h, ⟨low, his⟩, hsa ▸ hi⟩

def classFirst (objects : Store Octets) (frontier : Nat) (chosen : WalClass)
    (locations : List Text) : List Text :=
  let isChosen (location : Text) : Bool :=
    (candidateAt objects frontier location).any fun candidate => candidate.walClass = chosen
  locations.filter isChosen ++ locations.filter fun location => !isChosen location

theorem classFirst_lists (c : WalClass) : Lists (classFirst objects frontier c) :=
  fun _ => filter_append_perm _ _

theorem scanCandidates_classFirst (c : WalClass) :
    (scanCandidates (classFirst objects frontier c) objects root frontier).Pairwise
      fun x y => x.id = y.id → y.walClass = c → x.walClass = c := by
  refine @pairwise_insertionSort_of_stable _ _
    (fun x y => y.walClass = c → x.walClass = c) _ _ _ _ ?_ ?_ _ ?_
  · exact fun _ _ hb _ _ => hb
  · exact fun _ _ hs hsa => absurd (le_of_eq hsa) hs
  rw [list, classFirst, filterMap_append, pairwise_append]
  have hi : ∀ {loc cn}, candidateAt objects frontier loc = some cn →
      ((candidateAt objects frontier loc).any (fun cn => cn.walClass = c) =
        true ↔ cn.walClass = c) := by
    intro loc cn hf
    simp [hf]
  refine ⟨pairwise_of_forall_mem_list ?_, pairwise_of_forall_mem_list ?_, ?_⟩
  · intro x hfi y _ _
    obtain ⟨loc, hl, hf⟩ := mem_filterMap.mp hfi
    exact (hi hf).mp (mem_filter.mp hl).2
  · intro x _ y hse hsa
    obtain ⟨loc, hl, hf⟩ := mem_filterMap.mp hse
    have ho := (mem_filter.mp hl).2
    rw [Bool.not_eq_true', ← Bool.not_eq_true] at ho
    exact absurd ((hi hf).mpr hsa) ho
  intro x hfi y _ _
  obtain ⟨loc, hl, hf⟩ := mem_filterMap.mp hfi
  exact (hi hf).mp (mem_filter.mp hl).2

theorem ordered_tornFirst (ht : Trailing objects root frontier) :
    Ordered (scanCandidates (classFirst objects frontier .torn) objects root frontier) := by
  refine ((scanCandidates_classFirst .torn).and scanCandidates_descending).imp_of_mem ?_
  rintro x y hf hs ⟨hb, ha⟩ hr hto
  obtain ⟨h, hi⟩ :=
    (mem_scanCandidates_iff (classFirst_lists .torn)).mp ⟨x, hf, rfl, hr⟩
  obtain ⟨low, his⟩ :=
    (mem_scanCandidates_iff (classFirst_lists .torn)).mp ⟨y, hs, rfl, hto⟩
  have hsa : x.id = y.id := le_antisymm (ht.noneAbove ⟨low, his⟩ hi) ha
  have hw := hb hsa hto
  rw [hr] at hw
  cases hw

theorem refused_readableFirst (hs : Shared objects root frontier) :
    plan root frontier (classFirst objects frontier .readable) objects ≠ .ok ids := by
  intro hpl
  obtain ⟨_, ho, _⟩ := plan_eq_ok_iff.mp hpl
  obtain ⟨id, h, ⟨low, his⟩, hi⟩ := hs
  obtain ⟨t, hto, hsa, ht⟩ :=
    (mem_scanCandidates_iff (classFirst_lists .readable)).mpr ⟨low, his⟩
  obtain ⟨r, hre, rfl, hr⟩ :=
    (mem_scanCandidates_iff (classFirst_lists .readable)).mpr ⟨h, hi⟩
  have hp : (scanCandidates (classFirst objects frontier .readable) objects root
      frontier).Pairwise fun x y =>
        ¬(x = t ∧ y = r) ∧ ¬(x = r ∧ y = t) := by
    refine ((scanCandidates_classFirst .readable).and ho).imp ?_
    rintro x y ⟨hb, hf⟩
    constructor
    · rintro ⟨rfl, rfl⟩
      have hw := hb hsa hr
      rw [ht] at hw
      cases hw
    · rintro ⟨rfl, rfl⟩
      exact hf hr ht
  have : Std.Symm fun x y : WalCandidate =>
      ¬(x = t ∧ y = r) ∧ ¬(x = r ∧ y = t) :=
    ⟨fun x y hbo => ⟨fun hsa => hbo.2 ⟨hsa.2, hsa.1⟩, fun hsa => hbo.1 ⟨hsa.2, hsa.1⟩⟩⟩
  refine (hp.forall_of_forall ?_ hto hre).1 ⟨rfl, rfl⟩
  intro c _
  have hd : t ≠ r := by
    rintro rfl
    rw [ht] at hr
    cases hr
  exact ⟨fun hbo => hd (hbo.1.symm.trans hbo.2), fun hbo => hd (hbo.2.symm.trans hbo.1)⟩

end Planned

end BoatRamp.WalRepair

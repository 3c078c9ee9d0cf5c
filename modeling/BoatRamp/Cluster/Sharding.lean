import BoatRamp.Text
import Mathlib.Data.Prod.Lex
import Mathlib.Data.List.Perm.Basic

/-!
# Sharding of topics

Every node computes the owner of a topic from the applied voters by rendezvous
hashing: the voter with the highest score, the larger id among equal scores.
-/

namespace BoatRamp.Cluster

def OFFSET : UInt64 := 0xcbf29ce484222325

def PRIME : UInt64 := 0x100000001b3

def fnv1a (hash : UInt64) (bytes : Octets) : UInt64 :=
  bytes.foldl (fun hash byte => (hash ^^^ byte.toUInt64) * PRIME) hash

def toLeBytes (node : UInt64) : Octets :=
  (List.range 8).map fun index => (node >>> (8 * index).toUInt64).toUInt8

def hrwScore (topic : Text) (node : UInt64) : UInt64 :=
  fnv1a (fnv1a OFFSET (toLeBytes node)) (toUtf8 topic)

/-- The greatest item; the last one of several. -/
def maxBy {Item : Type} (compare : Item → Item → Ordering) : List Item → Option Item
  | [] => none
  | first :: rest =>
      some (rest.foldl (fun best item => if compare best item = .gt then best else item) first)

def hrwOwner (topic : Text) (voters : List UInt64) : Option UInt64 :=
  maxBy (fun a b => (compare (hrwScore topic a) (hrwScore topic b)).then (compare a b)) voters

def shardOwns (nodeId : UInt64) (voters : List UInt64) (topic : Text) : Bool :=
  match hrwOwner topic voters with
  | some owner => owner = nodeId
  | none => true

def shardOwned (nodeId : UInt64) (voters : List UInt64) (topics : List Text) : List Text :=
  if voters = [] then topics
  else topics.filter fun topic => hrwOwner topic voters = some nodeId

section Greatest

variable {Item Key : Type} [LinearOrder Key] {compare : Item → Item → Ordering} {key : Item → Key}
  (hc : ∀ a b, compare a b = .gt ↔ key b < key a)

include hc

theorem foldl_greatest (x : Item) (rest : List Item) :
    let bs := rest.foldl (fun bs it => if compare bs it = .gt then bs else it) x
    bs ∈ x :: rest ∧ ∀ it ∈ x :: rest, key it ≤ key bs := by
  induction rest generalizing x with
  | nil => simp
  | cons it rest ih =>
    obtain ⟨hm, hb⟩ := ih (if compare x it = .gt then x else it)
    have hg := hb _ List.mem_cons_self
    simp only [List.mem_cons, List.foldl_cons, forall_eq_or_imp] at hm hb ⊢
    by_cases hf : compare x it = .gt
    · rw [if_pos hf] at hm hb hg ⊢
      exact ⟨hm.imp_right .inr, hg, ((hc _ _).mp hf).le.trans hg, hb.2⟩
    · rw [if_neg hf] at hm hb hg ⊢
      exact ⟨.inr hm, (not_lt.mp fun hl => hf ((hc _ _).mpr hl)).trans hg, hg, hb.2⟩

theorem maxBy_eq_some_iff (hk : Function.Injective key) (xs : List Item) (bs : Item) :
    maxBy compare xs = some bs ↔ bs ∈ xs ∧ ∀ it ∈ xs, key it ≤ key bs := by
  cases xs with
  | nil => simp [maxBy]
  | cons x rest =>
    obtain ⟨hm, hb⟩ := foldl_greatest hc x rest
    rw [maxBy, Option.some_inj]
    constructor
    · rintro rfl
      exact ⟨hm, hb⟩
    · rintro ⟨hi, hle⟩
      exact hk (le_antisymm (hle _ hm) (hb _ hi))

end Greatest

def rank (topic : Text) (node : UInt64) : ℕ ×ₗ ℕ := toLex ((hrwScore topic node).toNat, node.toNat)

theorem hrwOwner_eq_some_iff {t : Text} {v : List UInt64} {o : UInt64} : hrwOwner t v = some o ↔
      o ∈ v ∧ ∀ vt ∈ v, rank t vt ≤ rank t o := by
  refine maxBy_eq_some_iff (fun a b => ?_) (fun a b hs => ?_) v o
  · rw [Ordering.then_eq_gt, Std.compare_eq_gt, Std.compare_eq_gt, Std.compare_eq_iff_eq, rank,
      rank, Prod.Lex.toLex_lt_toLex, eq_comm]
    simp only [UInt64.lt_iff_toNat_lt, UInt64.toNat_inj]
  · have hid := congrArg (fun p => (ofLex p).2) hs
    exact UInt64.toNat_inj.mp hid

theorem exists_hrwOwner (t : Text) {v : List UInt64} (hn : v ≠ []) :
    ∃ o, hrwOwner t v = some o := by
  cases v with
  | nil => exact absurd rfl hn
  | cons x rest => exact ⟨_, rfl⟩

/-- The owner is a voter and the same for every order of the voters; a voter that leaves or joins
moves only the topics it owns; and each topic is kept by the filter of exactly one voter. -/
theorem sharding_minimal_and_total (voters : List UInt64) (hn : voters ≠ []) :
    (∀ topic, ∃ owner ∈ voters, hrwOwner topic voters = some owner ∧
      (∀ node, shardOwns node voters topic = true ↔ node = owner) ∧
      (∀ others, others.Perm voters → hrwOwner topic others = some owner) ∧
      (∀ voter, voter ≠ owner → hrwOwner topic (voters.erase voter) = some owner) ∧
      ∀ voter more, more.Perm (voter :: voters) →
        hrwOwner topic more = some owner ∨ hrwOwner topic more = some voter) ∧
    ∀ topics topic, ∃ owner ∈ voters, ∀ node ∈ voters,
      (shardOwned node voters topics).count topic =
        if node = owner then topics.count topic else 0 := by
  constructor
  · intro topic
    obtain ⟨owner, ho⟩ := exists_hrwOwner topic hn
    obtain ⟨hm, hb⟩ := hrwOwner_eq_some_iff.mp ho
    refine ⟨owner, hm, ho, fun node => ?_, fun others hp => ?_, fun voter hv => ?_,
      fun voter more hp => ?_⟩
    · simp [shardOwns, ho, eq_comm]
    · exact hrwOwner_eq_some_iff.mpr ⟨hp.mem_iff.mpr hm,
        fun voter hi => hb voter (hp.mem_iff.mp hi)⟩
    · exact hrwOwner_eq_some_iff.mpr ⟨(List.mem_erase_of_ne hv.symm).mpr hm,
        fun o hi => hb o (List.mem_of_mem_erase hi)⟩
    have hin (o : UInt64) : o ∈ more ↔ o = voter ∨ o ∈ voters :=
      hp.mem_iff.trans List.mem_cons
    rcases le_total (rank topic voter) (rank topic owner) with hle | hge
    · refine .inl (hrwOwner_eq_some_iff.mpr ⟨(hin owner).mpr (.inr hm), fun o hi => ?_⟩)
      rcases (hin o).mp hi with rfl | hi
      · exact hle
      · exact hb o hi
    refine .inr (hrwOwner_eq_some_iff.mpr ⟨(hin voter).mpr (.inl rfl), fun o hi => ?_⟩)
    rcases (hin o).mp hi with rfl | hi
    · exact le_refl _
    · exact (hb o hi).trans hge
  intro topics topic
  obtain ⟨owner, ho⟩ := exists_hrwOwner topic hn
  refine ⟨owner, (hrwOwner_eq_some_iff.mp ho).1, fun node _ => ?_⟩
  rw [shardOwned, if_neg hn]
  split
  · next hs => rw [List.count_filter (by simp [ho, hs])]
  next hs =>
  refine List.count_eq_zero.mpr fun hi => hs ?_
  have hk := (List.mem_filter.mp hi).2
  rw [decide_eq_true_eq, ho, Option.some_inj] at hk
  exact hk.symm

theorem three_voters_share :
    let voters : List UInt64 := [1, 2, 3]
    voters ≠ [] ∧ ∃ o ∈ voters, ∀ n ∈ voters,
      (shardOwned n voters ["orders".toList]).count "orders".toList =
        if n = o then 1 else 0 :=
  ⟨by decide,
    (sharding_minimal_and_total [1, 2, 3] (by decide)).2 ["orders".toList] "orders".toList⟩

end BoatRamp.Cluster

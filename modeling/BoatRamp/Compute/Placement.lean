import BoatRamp.Library.Pool
import BoatRamp.Library.SortedMap
import BoatRamp.Text
import Mathlib.Data.List.MinMax

/-!
# Placement of replicas

Replicas are placed one by one on the node with the most that is free.  However
the choices fall, as many are placed as fit into the eligible nodes.
-/

namespace BoatRamp.Compute

open Library List

inductive IsolationClass where
  | vmKvm
  | namespace
  | container
  | platform
  deriving DecidableEq

inductive IsolationRequirement where
  | trusted
  | untrusted

def IsolationClass.isStrong (class' : IsolationClass) : Bool :=
  class' = .vmKvm || class' = .platform

def IsolationClass.satisfies (class' : IsolationClass) : IsolationRequirement → Bool
  | .trusted => true
  | .untrusted => class'.isStrong

structure ComputeSpec where
  vcpus : Nat
  memMib : Nat
  isolation : IsolationRequirement
  volumes : List Text
  scaleToZero : Bool
  preferBackend : Option Text

structure BackendPolicy where
  allow : Option (List Text)
  forbid : List Text
  force : Option Text
  requireStrongIsolation : Bool

def BackendPolicy.permits (policy : BackendPolicy) (id : Text) : Bool :=
  match policy.force with
  | some force => id = force
  | none =>
    if id ∈ policy.forbid then false
    else match policy.allow with
      | some allow => id ∈ allow
      | none => true

structure BackendKind where
  id : Text
  isolation : IsolationClass
  persistentVolumes : Bool
  scaleToZero : Bool

structure Node where
  id : Nat
  region : Option Text
  labels : SortedMap Text Text
  freeVcpus : Nat
  freeMemMib : Nat
  backends : List BackendKind

structure PlacementConstraints where
  regions : List Text
  labels : SortedMap Text Text

def PlacementConstraints.allows (placement : PlacementConstraints) (region : Option Text)
    (labels : SortedMap Text Text) : Bool :=
  (placement.regions = [] || region.any fun held => held ∈ placement.regions) &&
    placement.labels.entries.all fun (key, value) => labels.get? key = some value

def BackendKind.eligible (spec : ComputeSpec) (policy : BackendPolicy) (kind : BackendKind) :
    Bool :=
  policy.permits kind.id && kind.isolation.satisfies spec.isolation &&
    (!policy.requireStrongIsolation || kind.isolation.isStrong) &&
    (spec.volumes = [] || kind.persistentVolumes) && (!spec.scaleToZero || kind.scaleToZero)

def Node.pickBackend (spec : ComputeSpec) (policy : BackendPolicy) (node : Node) : Option Text :=
  let preferred := spec.preferBackend.bind fun pref =>
    node.backends.find? fun kind => kind.id = pref && kind.eligible spec policy
  (preferred.or (node.backends.find? (·.eligible spec policy))).map BackendKind.id

structure Placement where
  node : Nat
  backend : Text

/-- What is still free on a node. -/
structure Slot where
  node : Node
  cpu : Nat
  mem : Nat

def needCpu (spec : ComputeSpec) : Nat := max spec.vcpus 1

def needMem (spec : ComputeSpec) : Nat := max spec.memMib 1

variable (spec : ComputeSpec) (policy : BackendPolicy)

def Slot.candidate (slot : Slot) (index : Nat) : Option (Nat × Slot × Text) :=
  if needCpu spec ≤ slot.cpu ∧ needMem spec ≤ slot.mem then
    (slot.node.pickBackend spec policy).map (index, slot, ·)
  else none

/-- The last of the candidates with the most that is free. -/
def choice (free : List Slot) : Option (Nat × Slot × Text) :=
  (free.zipIdx.filterMap fun (slot, index) => slot.candidate spec policy index).reverse.argmax
    fun (_, slot, _) => toLex (slot.cpu, slot.mem)

def Slot.take (slot : Slot) : Slot :=
  { slot with cpu := slot.cpu - needCpu spec, mem := slot.mem - needMem spec }

def place : (count : Nat) → List Slot → List Placement
  | 0, _ => []
  | count + 1, free =>
    match choice spec policy free with
    | none => []
    | some (index, slot, backend) =>
      ⟨slot.node.id, backend⟩ :: place count (free.set index (slot.take spec))

def freeSlots (placement : PlacementConstraints) (nodes : List Node) : List Slot :=
  (nodes.filter fun node => placement.allows node.region node.labels).map fun node =>
    ⟨node, node.freeVcpus, node.freeMemMib⟩

def placeReplicas (count : Nat) (placement : PlacementConstraints) (nodes : List Node) :
    List Placement :=
  place spec policy count (freeSlots placement nodes)

variable {spec policy}

theorem needCpu_pos : 0 < needCpu spec := lt_of_lt_of_le Nat.one_pos (Nat.le_max_right _ _)

theorem needMem_pos : 0 < needMem spec := lt_of_lt_of_le Nat.one_pos (Nat.le_max_right _ _)

variable (spec policy) in
/-- How many replicas a slot has room for. -/
def Slot.room (slot : Slot) : Nat :=
  if (slot.node.pickBackend spec policy).isSome then
    min (slot.cpu / needCpu spec) (slot.mem / needMem spec)
  else 0

theorem Slot.candidate_eq_some {slot : Slot} {i : Nat} {x : Nat × Slot × Text}
    (hc : slot.candidate spec policy i = some x) : x.1 = i ∧ x.2.1 = slot ∧
      slot.node.pickBackend spec policy = some x.2.2 ∧ needCpu spec ≤ slot.cpu ∧
      needMem spec ≤ slot.mem := by
  unfold candidate at hc
  split at hc
  · next hf =>
    obtain ⟨b, hb, rfl⟩ := Option.map_eq_some_iff.mp hc
    exact ⟨rfl, rfl, hb, hf⟩
  · cases hc

theorem Slot.room_eq_zero {slot : Slot} {i : Nat} (hc : slot.candidate spec policy i = none) :
    slot.room spec policy = 0 := by
  unfold candidate at hc
  unfold room
  split at hc
  · simp [Option.map_eq_none_iff.mp hc]
  · next hf =>
    split
    · rw [Nat.min_eq_zero_iff, Nat.div_eq_zero_iff, Nat.div_eq_zero_iff]
      omega
    · rfl

/-- A replica takes the room of one. -/
theorem Slot.room_take {slot : Slot} {b : Text} (hb : slot.node.pickBackend spec policy = some b)
    (hc : needCpu spec ≤ slot.cpu) (hm : needMem spec ≤ slot.mem) :
    slot.room spec policy = (slot.take spec).room spec policy + 1 := by
  have hp : slot.cpu / needCpu spec = (slot.cpu - needCpu spec) / needCpu spec + 1 :=
    Nat.div_eq_sub_div needCpu_pos hc
  have hq : slot.mem / needMem spec = (slot.mem - needMem spec) / needMem spec + 1 :=
    Nat.div_eq_sub_div needMem_pos hm
  simp only [room, take, hb, Option.isSome_some, if_true, hp, hq, Nat.add_min_add_right]

/-- What a choice of the loop is. -/
theorem choice_eq_some {free : List Slot} {x : Nat × Slot × Text}
    (hm : choice spec policy free = some x) :
    free[x.1]? = some x.2.1 ∧ x.2.1.node.pickBackend spec policy = some x.2.2 ∧
      x.2.1.room spec policy = (x.2.1.take spec).room spec policy + 1 := by
  obtain ⟨⟨slot, i⟩, hi, hc⟩ := mem_filterMap.mp (mem_reverse.mp (argmax_mem hm))
  obtain ⟨h, hs, hb, hf, hg⟩ := Slot.candidate_eq_some hc
  subst hs
  exact ⟨h ▸ mem_zipIdx_iff_getElem?.mp hi, hb, Slot.room_take hb hf hg⟩

theorem room_of_no_choice {free : List Slot} (hm : choice spec policy free = none) :
    (free.map (Slot.room spec policy)).sum = 0 := by
  rw [sum_eq_zero_iff]
  intro n hn
  obtain ⟨slot, hs, rfl⟩ := mem_map.mp hn
  obtain ⟨i, hi⟩ := mem_iff_getElem?.mp hs
  have hn := filterMap_eq_nil_iff.mp (reverse_eq_nil_iff.mp (argmax_eq_none.mp hm)) (slot, i)
  exact Slot.room_eq_zero (hn (mem_zipIdx_iff_getElem?.mpr hi))

theorem length_place (count : Nat) (free : List Slot) :
    (place spec policy count free).length = min count (free.map (Slot.room spec policy)).sum := by
  induction count generalizing free with
  | zero => simp [place]
  | succ count ih =>
    unfold place
    split
    · next hm => simp [room_of_no_choice hm]
    · next i slot b hm =>
      obtain ⟨hi, -, hr⟩ := choice_eq_some hm
      obtain ⟨x, y, rfl, rfl⟩ := Concurrent.split_at_index hi
      rw [length_cons, ih]
      simp only [set_append_right, le_refl, Nat.sub_self, set_cons_zero, map_append, map_cons,
        sum_append, sum_cons, hr]
      omega

variable (spec policy) in
/-- The replica is on the node, with the backend that is picked there. -/
def OnNode (nodes : List Node) (i : Nat) (p : Placement) : Prop :=
  ∃ node, nodes[i]? = some node ∧ p.node = node.id ∧ node.pickBackend spec policy = some p.backend

/-- The slots that were chosen, each no more often than it has room. -/
theorem place_chosen (count : Nat) (free : List Slot) :
    ∃ chosen, Forall₂ (OnNode spec policy (free.map Slot.node)) chosen
        (place spec policy count free) ∧
      ∀ (i : Nat) (slot : Slot), free[i]? = some slot → chosen.count i ≤ slot.room spec policy := by
  induction count generalizing free with
  | zero => exact ⟨[], .nil, by simp⟩
  | succ count ih =>
    unfold place
    split
    · exact ⟨[], .nil, by simp⟩
    · next i slot b hm =>
      obtain ⟨hi, hb, hr⟩ := choice_eq_some hm
      obtain ⟨chosen, hc, hf⟩ := ih (free.set i (slot.take spec))
      have hn : (free.set i (slot.take spec)).map Slot.node = free.map Slot.node := by
        obtain ⟨x, y, rfl, rfl⟩ := Concurrent.split_at_index hi
        simp [Slot.take]
      refine ⟨i :: chosen, .cons ⟨slot.node, by simp [hi], rfl, hb⟩ (hn ▸ hc), ?_⟩
      intro j other hj
      by_cases hij : i = j
      · subst hij
        cases Option.some.inj (hi.symm.trans hj)
        have hs := hf i (slot.take spec) (by
          rw [getElem?_set_self (List.getElem?_eq_some_iff.mp hi).1])
        rw [count_cons_self, hr]
        exact Nat.succ_le_succ hs
      · rw [count_cons_of_ne hij]
        exact hf j other (by rw [getElem?_set_ne hij, hj])

theorem Slot.fits_of_le_room {slot : Slot} {n : Nat} (hn : n ≤ slot.room spec policy) :
    n * needCpu spec ≤ slot.cpu ∧ n * needMem spec ≤ slot.mem := by
  unfold room at hn
  split at hn
  · rw [Nat.le_min, Nat.le_div_iff_mul_le needCpu_pos, Nat.le_div_iff_mul_le needMem_pos] at hn
    exact hn
  · cases Nat.le_zero.mp hn
    simp

variable (spec policy) in
/-- The backend is an eligible one of the node, and the preferred one if that is eligible. -/
def Node.Offers (node : Node) (backend : Text) : Prop :=
  ∃ kind ∈ node.backends, kind.id = backend ∧ kind.eligible spec policy = true ∧
    ∀ pref, spec.preferBackend = some pref →
      (∃ other ∈ node.backends, other.id = pref ∧ other.eligible spec policy = true) →
      backend = pref

theorem Node.offers_of_pickBackend {node : Node} {b : Text}
    (hb : node.pickBackend spec policy = some b) : node.Offers spec policy b := by
  obtain ⟨kind, hk, rfl⟩ := Option.map_eq_some_iff.mp hb
  rcases Option.or_eq_some_iff.mp hk with hp | ⟨hp, hf⟩
  · obtain ⟨pref, hs, hf⟩ := Option.bind_eq_some_iff.mp hp
    have he := find?_some hf
    rw [Bool.and_eq_true, decide_eq_true_eq] at he
    refine ⟨kind, mem_of_find?_eq_some hf, rfl, he.2, fun other ho _ => ?_⟩
    cases hs.symm.trans ho
    exact he.1
  · refine ⟨kind, mem_of_find?_eq_some hf, rfl, find?_some hf, ?_⟩
    rintro pref hs ⟨other, hm, ho, he⟩
    rw [hs, Option.bind_some] at hp
    exact absurd (find?_eq_none.mp hp other hm) (by simp [ho, he])

variable (spec policy) in
def Node.eligible (placement : PlacementConstraints) (node : Node) : Bool :=
  placement.allows node.region node.labels && (node.pickBackend spec policy).isSome

variable (spec policy) in
/-- How many replicas fit into the eligible nodes. -/
def capacity (placement : PlacementConstraints) (nodes : List Node) : Nat :=
  ((nodes.filter (Node.eligible spec policy placement)).map fun node =>
    min (node.freeVcpus / needCpu spec) (node.freeMemMib / needMem spec)).sum

theorem sum_room (placement : PlacementConstraints) (nodes : List Node) :
    ((freeSlots placement nodes).map (Slot.room spec policy)).sum =
      capacity spec policy placement nodes := by
  unfold freeSlots capacity
  induction nodes with
  | nil => rfl
  | cons node rest ih =>
    cases ha : placement.allows node.region node.labels with
    | false => simpa [Node.eligible, ha] using ih
    | true =>
      cases hb : (node.pickBackend spec policy).isSome with
      | false | true => simpa [Node.eligible, ha, hb, Slot.room] using ih

/-- As many replicas are placed as fit, and on each node no more than fit there. -/
theorem placeReplicas_complete (count : Nat) (placement : PlacementConstraints)
    (nodes : List Node) :
    let placements := placeReplicas spec policy count placement nodes
    let allowed := nodes.filter fun node => placement.allows node.region node.labels
    placements.length = min count (capacity spec policy placement nodes) ∧
      ∃ chosen, Forall₂ (fun i p => ∃ node, allowed[i]? = some node ∧ p.node = node.id ∧
          node.Offers spec policy p.backend) chosen placements ∧
        ∀ (i : Nat) (node : Node), allowed[i]? = some node →
          chosen.count i * needCpu spec ≤ node.freeVcpus ∧
            chosen.count i * needMem spec ≤ node.freeMemMib := by
  refine ⟨(length_place ..).trans (by rw [sum_room]), ?_⟩
  obtain ⟨chosen, hc, hf⟩ := @place_chosen spec policy count (freeSlots placement nodes)
  refine ⟨chosen, hc.imp ?_, fun i node hn => ?_⟩
  · rintro i p ⟨node, hn, hp, hb⟩
    exact ⟨node, by simpa [freeSlots] using hn, hp, Node.offers_of_pickBackend hb⟩
  · exact Slot.fits_of_le_room (hf i ⟨node, node.freeVcpus, node.freeMemMib⟩ (by
      simp [freeSlots, hn]))

end BoatRamp.Compute

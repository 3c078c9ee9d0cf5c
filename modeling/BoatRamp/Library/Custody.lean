import BoatRamp.Library.Pool
import Mathlib.Data.Set.Lattice
import Mathlib.Order.CompletePartialOrder

/-!
# Custody of referenced objects

References point to objects kept elsewhere under the same name.  Concurrent
tasks publish references under fresh names, read references and write them
back, and remove a reference and then its object.  `Move` says what a step of
one task may do to the shared world and to what the task has in hand, and
`Custody` is the invariant that no reference dangles: every move keeps it.
-/

namespace Library

universe u

structure World (Name : Type u) where
  /-- Names with a reference. -/
  live : Set Name
  /-- Names with an object. -/
  objects : Set Name
  /-- Names given to clients, who may ask for their removal. -/
  handed : Set Name
  /-- Names for later publications. -/
  fresh : Set Name

/-- What one task has in hand between two of its steps. -/
structure Hand (Name : Type u) where
  /-- References read, and possibly written back. -/
  copies : Set Name := ∅
  /-- Objects about to be removed, their references gone. -/
  dropping : Set Name := ∅
  /-- Further names the task has met. -/
  noted : Set Name := ∅
  /-- New names to be published, their objects still to be stored. -/
  unstored : Set Name := ∅
  /-- New names to be published, their objects there. -/
  stored : Set Name := ∅

variable {Name : Type u}

namespace Hand

def known (hand : Hand Name) : Set Name := hand.copies ∪ hand.dropping ∪ hand.noted

def minted (hand : Hand Name) : Set Name := hand.unstored ∪ hand.stored

def empty : Hand Name := {}

end Hand

/-- A name that some reference, client or task already has. -/
def Used (world : World Name) (hands : List (Hand Name)) (name : Name) : Prop :=
  name ∈ world.live ∨ name ∈ world.handed ∨ ∃ hand ∈ hands, name ∈ hand.known

/-- No reference dangles, none that a task may still write would, and new names
are new. -/
@[mk_iff]
structure Custody (world : World Name) (hands : List (Hand Name)) : Prop where
  live : world.live ⊆ world.objects
  copies : ∀ hand ∈ hands, hand.copies ⊆ world.objects
  stored : ∀ hand ∈ hands, hand.stored ⊆ world.objects
  dropping : ∀ hand ∈ hands, ∀ name ∈ hand.dropping,
    name ∉ world.live ∧ ∀ other ∈ hands, name ∉ other.copies
  fresh : ∀ name ∈ world.fresh, ¬Used world hands name ∧ ∀ hand ∈ hands, name ∉ hand.minted
  minted : ∀ hand ∈ hands, ∀ name ∈ hand.minted, ¬Used world hands name
  distinct : hands.Pairwise fun first second => Disjoint first.minted second.minted

/-- What one step of a task may do, taking it from `hand` to `after`, next to
what the other tasks have in hand. -/
structure Move (others : List (Hand Name)) (world : World Name) (hand : Hand Name)
    (next : World Name) (after : Hand Name) : Prop where
  live : next.live ⊆ world.live ∪ hand.copies ∪ (hand.stored \ after.minted)
  objects : world.objects \ hand.dropping ⊆ next.objects
  handed : next.handed ⊆ world.handed ∪ hand.known
  fresh : next.fresh ⊆ world.fresh
  copies : after.copies ⊆ hand.copies ∪ world.live
  known : after.known ⊆ hand.known ∪ world.live ∪ world.handed
  dropping : ∀ name ∈ after.dropping, name ∈ hand.dropping ∨
    (name ∉ next.live ∧ name ∉ after.copies ∧ ∀ other ∈ others, name ∉ other.copies)
  minted : after.minted ⊆ hand.minted ∪ (world.fresh \ next.fresh)
  stored : after.stored ⊆ hand.stored ∪ next.objects

/-- What an ordinary step does to the world: it writes back copies and hands out
known names. -/
structure World.Worked (hand : Hand Name) (world next : World Name) : Prop where
  live : next.live ⊆ world.live ∪ hand.copies
  objects : world.objects ⊆ next.objects
  handed : next.handed ⊆ world.handed ∪ hand.known
  fresh : next.fresh ⊆ world.fresh

/-- What an ordinary step leaves in hand: what was there, and what it read. -/
structure Hand.Taken (world : World Name) (hand after : Hand Name) : Prop where
  copies : after.copies ⊆ hand.copies ∪ world.live
  known : after.known ⊆ hand.known ∪ world.live ∪ world.handed
  dropping : after.dropping ⊆ hand.dropping
  minted : after.minted ⊆ hand.minted
  stored : after.stored ⊆ hand.stored

section Moves

variable {w next : World Name} {hand after : Hand Name} {others : List (Hand Name)}

theorem World.Worked.refl (hand : Hand Name) (w : World Name) : w.Worked hand w where
  live := Set.subset_union_left
  objects := subset_rfl
  handed := Set.subset_union_left
  fresh := subset_rfl

theorem Hand.Taken.refl (w : World Name) (hand : Hand Name) : hand.Taken w hand where
  copies := Set.subset_union_left
  known := Set.subset_union_left.trans Set.subset_union_left
  dropping := subset_rfl
  minted := subset_rfl
  stored := subset_rfl

theorem Hand.Taken.empty (w : World Name) (hand : Hand Name) : Hand.Taken w hand .empty := by
  constructor <;> simp [Hand.empty, Hand.known, Hand.minted]

theorem Move.of_worked (hw : World.Worked hand w next)
    (ht : Hand.Taken w hand after) : Move others w hand next after where
  live := hw.live.trans Set.subset_union_left
  objects _ hk := hw.objects hk.1
  handed := hw.handed
  fresh := hw.fresh
  copies := ht.copies
  known := ht.known
  dropping _ hd := .inl (ht.dropping hd)
  minted := ht.minted.trans Set.subset_union_left
  stored := ht.stored.trans Set.subset_union_left

end Moves

namespace Custody

variable {w next : World Name} {hand a o : Hand Name} {name : Name}
  {h ot : List (Hand Name)}

theorem used_of_known (hi : hand ∈ h) (hk : name ∈ hand.known) : Used w h name :=
  .inr (.inr ⟨hand, hi, hk⟩)

theorem dropping_unstored (hc : Custody w h) (hi : hand ∈ h)
    (hd : name ∈ hand.dropping) (hr : o ∈ h) : name ∉ o.stored := by
  intro hs
  apply hc.minted o hr name (.inr hs)
  exact used_of_known hi (.inl (.inr hd))

theorem written_backed (hc : Custody w (hand :: ot)) (hm : Move ot w hand next a)
    (hhe : name ∈ w.live ∨ ∃ o ∈ hand :: ot, name ∈ o.copies ∨ name ∈ o.stored) :
    name ∈ next.objects := by
  have hh : hand ∈ hand :: ot := List.mem_cons_self
  apply hm.objects
  rcases hhe with hl | ⟨o, hr, hco | hs⟩
  · exact ⟨hc.live hl, fun hd => (hc.dropping hand hh name hd).1 hl⟩
  · refine ⟨hc.copies o hr hco, fun hd => ?_⟩
    exact (hc.dropping hand hh name hd).2 o hr hco
  · refine ⟨hc.stored o hr hs, fun hd => ?_⟩
    exact hc.dropping_unstored hh hd hr hs

theorem used_before (hm : Move ot w hand next a) (hu : Used next (a :: ot) name) :
    Used w (hand :: ot) name ∨ name ∈ hand.stored \ a.minted := by
  have hhe : hand ∈ hand :: ot := List.mem_cons_self
  rcases hu with hl | hh | ⟨o, hr, hk⟩
  · rcases hm.live hl with (old | hc) | hp
    · exact .inl (.inl old)
    · exact .inl (used_of_known hhe (.inl (.inl hc)))
    · exact .inr hp
  · rcases hm.handed hh with old | hk
    · exact .inl (.inr (.inl old))
    · exact .inl (used_of_known hhe hk)
  rcases List.mem_cons.mp hr with rfl | he
  · rcases hm.known hk with (old | hre) | hh
    · exact .inl (used_of_known hhe old)
    · exact .inl (.inl hre)
    · exact .inl (.inr (.inl hh))
  · exact .inl (used_of_known (List.mem_cons_of_mem _ he) hk)

theorem dropping_stays (hcu : Custody w (hand :: ot)) (hm : Move ot w hand next a)
    (hr : o ∈ hand :: ot) (hd : name ∈ o.dropping) : name ∉ next.live ∧ name ∉ a.copies := by
  have hh : hand ∈ hand :: ot := List.mem_cons_self
  obtain ⟨hde, hu⟩ := hcu.dropping o hr name hd
  constructor
  · intro hl
    rcases hm.live hl with (old | hc) | hp
    · exact hde old
    · exact hu hand hh hc
    · exact hcu.dropping_unstored hr hd hh hp.1
  intro hc
  rcases hm.copies hc with old | read
  · exact hu hand hh old
  · exact hde read

theorem move (hc : Custody w (hand :: ot))
    (move : Move ot w hand next a) : Custody next (a :: ot) := by
  have here : hand ∈ hand :: ot := List.mem_cons_self
  have ht : ∀ {o}, o ∈ ot → o ∈ hand :: ot := List.mem_cons_of_mem _
  obtain ⟨apart, distinct⟩ := List.pairwise_cons.mp hc.distinct
  constructor
  case live =>
    intro name live
    apply hc.written_backed move
    rcases move.live live with (old | copied) | hp
    · exact .inl old
    · exact .inr ⟨hand, here, .inl copied⟩
    · exact .inr ⟨hand, here, .inr hp.1⟩
  case copies =>
    intro o running name copied
    apply hc.written_backed move
    rcases List.mem_cons.mp running with rfl | elsewhere
    · rcases move.copies copied with old | read
      · exact .inr ⟨hand, here, .inl old⟩
      · exact .inl read
    · exact .inr ⟨o, ht elsewhere, .inl copied⟩
  case stored =>
    intro o running name stored
    rcases List.mem_cons.mp running with rfl | elsewhere
    · rcases move.stored stored with old | ho
      · exact hc.written_backed move (.inr ⟨hand, here, .inr old⟩)
      · exact ho
    · exact hc.written_backed move (.inr ⟨o, ht elsewhere, .inr stored⟩)
  case dropping =>
    intro o running name dropped
    rcases List.mem_cons.mp running with rfl | elsewhere
    · rcases move.dropping name dropped with old | ⟨dead, own, hunc⟩
      · obtain ⟨dead, own⟩ := hc.dropping_stays move here old
        refine ⟨dead, List.forall_mem_cons.mpr ⟨own, fun t running => ?_⟩⟩
        exact (hc.dropping hand here name old).2 t (ht running)
      · exact ⟨dead, List.forall_mem_cons.mpr ⟨own, hunc⟩⟩
    obtain ⟨dead, own⟩ := hc.dropping_stays move (ht elsewhere) dropped
    refine ⟨dead, List.forall_mem_cons.mpr ⟨own, fun t running => ?_⟩⟩
    exact (hc.dropping o (ht elsewhere) name dropped).2 t (ht running)
  case fresh =>
    intro name fresh
    obtain ⟨hud, unminted⟩ := hc.fresh name (move.fresh fresh)
    refine ⟨fun hu => ?_, List.forall_mem_cons.mpr ⟨fun minted => ?_, fun o running => ?_⟩⟩
    · rcases used_before move hu with old | hp
      · exact hud old
      · exact unminted hand here (.inr hp.1)
    · rcases move.minted minted with old | new
      · exact unminted hand here old
      · exact new.2 fresh
    · exact unminted o (ht running)
  case minted =>
    intro o running name minted hu
    rcases used_before move hu with old | hp
    · rcases List.mem_cons.mp running with rfl | elsewhere
      · rcases move.minted minted with hb | new
        · exact hc.minted hand here name hb old
        · exact (hc.fresh name new.1).1 old
      · exact hc.minted o (ht elsewhere) name minted old
    rcases List.mem_cons.mp running with rfl | elsewhere
    · exact hp.2 minted
    · exact Set.disjoint_left.mp (apart o elsewhere) (.inr hp.1) minted
  case distinct =>
    refine List.pairwise_cons.mpr ⟨fun o running => ?_, distinct⟩
    refine Set.disjoint_left.mpr fun name minted hta => ?_
    rcases move.minted minted with old | new
    · exact Set.disjoint_left.mp (apart o running) old hta
    · exact (hc.fresh name new.1).2 o (ht running) hta

theorem perm {r : List (Hand Name)} (hc : Custody w h) (same : h.Perm r) : Custody w r := by
  have hu : ∀ {name}, Used w r name → Used w h name := by
    intro name hu
    simpa only [Used, same.mem_iff] using hu
  constructor
  case live => exact hc.live
  case copies => exact fun hand running => hc.copies hand (same.mem_iff.mpr running)
  case stored => exact fun hand running => hc.stored hand (same.mem_iff.mpr running)
  case dropping =>
    intro hand running name dropped
    obtain ⟨dead, hud⟩ := hc.dropping hand (same.mem_iff.mpr running) name dropped
    exact ⟨dead, fun o elsewhere => hud o (same.mem_iff.mpr elsewhere)⟩
  case fresh =>
    intro name fresh
    obtain ⟨hun, unminted⟩ := hc.fresh name fresh
    exact ⟨fun ht => hun (hu ht), fun hand running => unminted hand (same.mem_iff.mpr running)⟩
  case minted =>
    intro hand running name minted ht
    exact hc.minted hand (same.mem_iff.mpr running) name minted (hu ht)
  case distinct => exact hc.distinct.perm same fun apart => apart.symm

theorem cons_empty_iff : Custody w (.empty :: h) ↔ Custody w h := by
  simp [custody_iff, Used, Hand.empty, Hand.known, Hand.minted]

end Custody

section Pools

variable {Shared Call Choice Task Output : Type u}
  {cm : Concurrent Shared Call Choice Task Output}

def InCustody (world : Shared → World Name) (hand : Task → Hand Name)
    (pool : Pool Shared Task) : Prop :=
  Custody (world pool.shared) (pool.running.map hand)

/-- What a task has in hand after a step; a call that returned has nothing. -/
def handAfter (hand : Task → Hand Name) : Task ⊕ Output → Hand Name :=
  Sum.elim hand fun _ => .empty

theorem custody_kept_of_moves (wr : Shared → World Name) (hand : Task → Hand Name)
    (a : Pool Shared Task → Schedule Call Choice → Prop) (hs : ∀ s r cl, a ⟨s, r⟩ (.invoke cl) →
      Move (r.map hand) (wr s) .empty (wr s) (hand (cm.start cl))) (hms : ∀ s b t after c,
      a ⟨s, b ++ t :: after⟩ (.run b.length c) → Move ((b ++ after).map hand) (wr s) (hand t)
        (wr (cm.step s t c).1) (handAfter hand (cm.step s t c).2))
    (p : Pool Shared Task) (act : Schedule Call Choice) (hc : InCustody wr hand p) (hm : a p act) :
    InCustody wr hand (cm.machine.step p act).1 := by
  have hst : ∀ s b t after c, InCustody wr hand ⟨s, b ++ t :: after⟩ →
      a ⟨s, b ++ t :: after⟩ (.run b.length c) → Custody (wr (cm.step s t c).1)
        (handAfter hand (cm.step s t c).2 :: (b ++ after).map hand) := by
    intro s b t after c hc hm
    have hf : Custody (wr s) (hand t :: (b ++ after).map hand) :=
      hc.perm (List.perm_middle.map hand)
    exact hf.move (hms s b t after c hm)
  refine Concurrent.kept_of_tasks a ?_ ?_ ?_ p act hc hm
  · intro s r cl hc hm
    have hj := (Custody.cons_empty_iff.mpr hc).move (hs s r cl hm)
    refine hj.perm ?_
    simpa using (List.perm_append_singleton (hand (cm.start cl)) _).symm
  · intro s b t after c next cn hc hm hmo
    have hk := hst s b t after c hc hm
    rw [hmo] at hk
    exact hk.perm (List.perm_middle.map hand).symm
  intro s b t after c next o hc hm hmo
  have hk := hst s b t after c hc hm
  rw [hmo] at hk
  exact Custody.cons_empty_iff.mp hk

end Pools

end Library

import Mathlib.Data.List.Basic

/-!
# Decoding in pieces

A decoder looks at the items that have arrived and says what it makes of them,
or that it needs more.  A reader looks again and again, and each look emits
items or stops.  Over a source that delivers its items in reads of any size,
both give what they give on all the items at once.
-/

namespace Library.Incremental

variable {Item Result State Final : Type}

structure Read (Item : Type) where
  items : List Item
  delivered : items ≠ []

/-- The items that have arrived and the reads that are to come before the end. -/
structure Source (Item : Type) where
  buffer : List Item
  reads : List (Read Item)

def Source.rest (source : Source Item) : List Item :=
  source.buffer ++ source.reads.flatMap Read.items

def Source.whole (items : List Item) : Source Item := ⟨items, []⟩

open Source

variable (items : List Item)

@[simp]
theorem Source.rest_whole : (whole items).rest = items := by
  simp [rest, whole]

def Source.itemwise : Source Item :=
  ⟨[], items.map fun item => ⟨[item], List.cons_ne_nil item []⟩⟩

@[simp]
theorem Source.rest_itemwise : (itemwise items).rest = items := by
  induction items with
  | nil => rfl
  | cons x items ih => exact congrArg (x :: ·) ih

/-- Read until the decoder has a result, and leave what it did not consume; `none` when the
source ends before. -/
def awaitFrom (decode : List Item → Option (Result × List Item)) (buffer : List Item) :
    List (Read Item) → Option (Result × Source Item)
  | [] => (decode buffer).map fun found => (found.1, ⟨found.2, []⟩)
  | read :: reads =>
      match decode buffer with
      | some (result, left) => some (result, ⟨left, read :: reads⟩)
      | none => awaitFrom decode (buffer ++ read.items) reads

def await (decode : List Item → Option (Result × List Item)) (source : Source Item) :
    Option (Result × Source Item) :=
  awaitFrom decode source.buffer source.reads

section Decoders

variable {decode : List Item → Option (Result × List Item)} {result : Result} {source : Source Item}

theorem awaitFrom_some {buf : List Item} {r : List (Read Item)} {a : Source Item}
    (f : awaitFrom decode buf r = some (result, a)) :
    ∃ s l lf, s ++ l = buf ++ r.flatMap Read.items ∧
      decode s = some (result, lf) ∧ a.rest = lf ++ l := by
  induction r generalizing buf with
  | nil =>
    obtain ⟨⟨_, lf⟩, hd, hs⟩ := Option.map_eq_some_iff.mp f
    cases hs
    exact ⟨buf, [], lf, by simp, hd, by simp [rest]⟩
  | cons rd r ih =>
    rw [awaitFrom] at f
    split at f
    next _ lf hd =>
      cases f
      exact ⟨buf, rd.items ++ r.flatMap Read.items, lf, by simp, hd, by simp [rest]⟩
    obtain ⟨s, l, lf, split, hd, rest⟩ := ih f
    exact ⟨s, l, lf, by simpa using split, hd, rest⟩

theorem await_some {a : Source Item} (hf : await decode source = some (result, a)) :
    ∃ s l lf, s ++ l = source.rest ∧ decode s = some (result, lf) ∧ a.rest = lf ++ l :=
  awaitFrom_some hf

theorem awaitFrom_none {buf : List Item} {r : List (Read Item)}
    (he : awaitFrom decode buf r = none) : decode (buf ++ r.flatMap Read.items) = none := by
  induction r generalizing buf with
  | nil => simpa [awaitFrom] using he
  | cons rd r ih =>
    rw [awaitFrom] at he
    split at he
    · contradiction
    · simpa using ih he

theorem await_none (he : await decode source = none) : decode source.rest = none :=
  awaitFrom_none he

/-- What the decoder has said stands whatever arrives later. -/
def Stable (decode : List Item → Option (Result × List Item)) : Prop :=
  ∀ {buffer result left}, decode buffer = some (result, left) →
    ∀ later, decode (buffer ++ later) = some (result, left ++ later)

/-- A stable decoder finds the same however its input is divided. -/
theorem Stable.await_eq (hs : Stable decode) (source : Source Item) :
    (await decode source).map (fun f => (f.1, f.2.rest)) = decode source.rest := by
  cases f : await decode source with
  | none => exact (await_none f).symm
  | some p =>
    obtain ⟨result, a⟩ := p
    obtain ⟨s, l, lf, hsp, hd, hr⟩ := await_some f
    rw [← hsp, hs hd l, ← hr]
    rfl

theorem Stable.await_of_decode (hs : Stable decode) {l : List Item}
    (hd : decode source.rest = some (result, l)) :
    ∃ a, await decode source = some (result, a) ∧ a.rest = l := by
  have hsa := hs.await_eq source
  rw [hd] at hsa
  obtain ⟨⟨_, a⟩, f, he⟩ := Option.map_eq_some_iff.mp hsa
  cases he
  exact ⟨a, f, rfl⟩

end Decoders

inductive Look (Item State Final : Type) where
  | emit (items : List Item) (next : State)
  | stop (final : Final)

abbrev Looker (Item State Final : Type) := State → List Item → Option (Look Item State Final × List Item)

def drain (look : Looker Item State Final) :
    (fuel : Nat) → State → List Item → List Item × Option (Final × List Item)
  | 0, _, _ => ([], none)
  | fuel + 1, state, items =>
      match look state items with
      | none => ([], none)
      | some (.stop final, left) => ([], some (final, left))
      | some (.emit emitted next, left) =>
          let later := drain look fuel next left
          (emitted ++ later.1, later.2)

/-- Every look that emits consumes something, so there is at most one for each item. -/
def readWhole (look : Looker Item State Final)
    (state : State) (items : List Item) : List Item × Option (Final × List Item) :=
  drain look (items.length + 1) state items

/-- Look at a source until the reader stops or the source ends. -/
def pump (look : Looker Item State Final) :
    (fuel : Nat) → State → Source Item → List Item × Option (Final × Source Item)
  | 0, _, _ => ([], none)
  | fuel + 1, state, source =>
      match await (look state) source with
      | none => ([], none)
      | some (.stop final, after) => ([], some (final, after))
      | some (.emit emitted next, after) =>
          let later := pump look fuel next after
          (emitted ++ later.1, later.2)

def readSource (look : Looker Item State Final)
    (state : State) (source : Source Item) : List Item × Option (Final × Source Item) :=
  pump look (source.rest.length + 1) state source

section Readers

variable {look : Looker Item State Final}

/-- A look leaves no more than it was given, and less when it emits. -/
structure Consumes (look : Looker Item State Final) : Prop where
  emit : ∀ {state items emitted next left}, look state items = some (.emit emitted next, left) →
    left.length < items.length
  stop : ∀ {state items final left}, look state items = some (.stop final, left) →
    left.length ≤ items.length

variable {state : State} {items : List Item}

theorem drain_of_enough (hc : Consumes look) {fuel : Nat} (he : items.length < fuel) :
    drain look fuel state items = readWhole look state items := by
  unfold readWhole
  generalize bound : items.length + 1 = o
  have hl : items.length < o := by omega
  clear bound
  induction fuel generalizing o state items with
  | zero => omega
  | succ fuel ih =>
    obtain ⟨o, rfl⟩ := Nat.exists_eq_succ_of_ne_zero (Nat.ne_of_gt (Nat.zero_lt_of_lt hl))
    rw [drain, drain]
    split
    · rfl
    · rfl
    next e next l looked =>
      have hle := hc.emit looked
      rw [ih (show l.length < fuel by omega) o (by omega)]

theorem readWhole_eq (hc : Consumes look) (state : State) (items : List Item) :
    readWhole look state items =
      match look state items with
      | none => ([], none)
      | some (.stop f, l) => ([], some (f, l))
      | some (.emit e next, l) =>
        (e ++ (readWhole look next l).1, (readWhole look next l).2) := by
  rw [readWhole, drain]
  split
  · rfl
  · rfl
  next e next l looked =>
    rw [drain_of_enough hc (hc.emit looked)]

theorem length_le_of_readWhole (hc : Consumes look) {l : List Item} {f : Final}
    (hs : (readWhole look state items).2 = some (f, l)) : l.length ≤ items.length := by
  generalize hb : items.length = fuel
  induction fuel using Nat.strongRecOn generalizing state items with
  | ind fuel ih =>
    rw [readWhole_eq hc] at hs
    split at hs
    · cases hs
    next hl =>
      cases hs
      rw [← hb]
      exact hc.stop hl
    next hl =>
      have hle := hc.emit hl
      have hsh := ih _ (by omega) hs rfl
      omega

/-- A look on part of the items says what the reader makes of all of them. -/
structure Coherent (look : Looker Item State Final) : Prop where
  consumes : Consumes look
  stopped : ∀ {state items final left}, look state items = some (.stop final, left) →
    ∀ later, readWhole look state (items ++ later) = ([], some (final, left ++ later))
  emitted : ∀ {state items emitted next left}, look state items = some (.emit emitted next, left) →
    ∀ later, readWhole look state (items ++ later) =
      (emitted ++ (readWhole look next (left ++ later)).1,
        (readWhole look next (left ++ later)).2)

theorem Coherent.pump_eq (hc : Coherent look) {fuel : Nat} {source : Source Item}
    (he : source.rest.length < fuel) :
    (pump look fuel state source).1 = (readWhole look state source.rest).1 ∧
      (pump look fuel state source).2.map (fun f => (f.1, f.2.rest)) =
        (readWhole look state source.rest).2 := by
  induction fuel generalizing state source with
  | zero => omega
  | succ fuel ih =>
    rw [pump]
    cases f : await (look state) source with
    | none =>
      rw [readWhole_eq hc.consumes, await_none f]
      exact ⟨rfl, rfl⟩
    | some p =>
      obtain ⟨result, a⟩ := p
      obtain ⟨s, l, lf, hs, hl, hr⟩ := await_some f
      cases result with
      | stop fn =>
        rw [← hs, hc.stopped hl l, ← hr]
        exact ⟨rfl, rfl⟩
      | emit items next =>
        have hle := hc.consumes.emit hl
        have hsh : a.rest.length < fuel := by
          rw [hr, List.length_append]
          rw [← hs, List.length_append] at he
          omega
        obtain ⟨hsa, fn⟩ := @ih next a hsh
        rw [← hs, hc.emitted hl l, ← hr]
        exact ⟨congrArg (items ++ ·) hsa, fn⟩

theorem Coherent.readSource_eq (hc : Coherent look) (state : State) (source : Source Item) :
    (readSource look state source).1 = (readWhole look state source.rest).1 ∧
      (readSource look state source).2.map (fun f => (f.1, f.2.rest)) =
        (readWhole look state source.rest).2 :=
  hc.pump_eq (Nat.lt_succ_self _)

variable (look) in
/-- A look that stands whatever arrives later is coherent where it is made. -/
theorem readWhole_of_stable (hc : Consumes look) (state : State)
    (hs : Stable (look state)) {f : Look Item State Final} {lf : List Item}
    (hl : look state items = some (f, lf)) (l : List Item) : readWhole look state (items ++ l) =
      match f with
      | .stop fn => ([], some (fn, lf ++ l))
      | .emit e next =>
        (e ++ (readWhole look next (lf ++ l)).1, (readWhole look next (lf ++ l)).2) := by
  rw [readWhole_eq hc, hs hl l]
  cases f with
  | stop fn => rfl
  | emit e next => rfl

end Readers

end Library.Incremental

import Mathlib.Data.List.Basic

/-!
# Permit policies over entities

The part of the Cedar policy language that consists of `permit` policies with a
principal group, an action scope, a resource type and at most one guard.
Entities carry attributes and parents; one entity is *in* another when its
parents lead there.  A guard that cannot be evaluated, because an attribute is
missing or has the wrong kind, is an error, and a policy whose guard errs is
skipped.  A request is allowed when some policy is satisfied.
-/

namespace Library.Cedar

universe u

structure Uid (Name : Type u) where
  type : Name
  id : Name
  deriving DecidableEq

inductive Value (Name : Type u) where
  | string (text : Name)
  | set (members : List Name)
  deriving DecidableEq

structure Entity (Name : Type u) where
  uid : Uid Name
  attrs : List (Name × Value Name)
  parents : List (Uid Name)
  deriving DecidableEq

structure Request (Name : Type u) where
  principal : Uid Name
  action : Uid Name
  resource : Uid Name

inductive Subject where
  | principal
  | resource
  deriving DecidableEq

structure Attribute (Name : Type u) where
  owner : Subject
  name : Name
  deriving DecidableEq

/-- Set membership, `collection.contains(element)`. -/
structure Guard (Name : Type u) where
  collection : Attribute Name
  element : Attribute Name
  deriving DecidableEq

inductive ActionScope (Name : Type u) where
  | eq (action : Uid Name)
  | within (actions : List (Uid Name))
  deriving DecidableEq

structure Permit (Name : Type u) where
  principalIn : Uid Name
  actionScope : ActionScope Name
  resourceIs : Name
  guard : Option (Guard Name)
  deriving DecidableEq

variable {Name : Type u} [DecidableEq Name] (entities : List (Entity Name))

def lookup (uid : Uid Name) : Option (Entity Name) :=
  entities.find? fun entity => decide (entity.uid = uid)

def parentsOf (uid : Uid Name) : List (Uid Name) :=
  ((lookup entities uid).map Entity.parents).getD []

/-- Whether the parents of one entity lead to another in at most the given number of steps. -/
def leadsTo (entities : List (Entity Name)) : Nat → Uid Name → Uid Name → Bool
  | 0, first, last => decide (first = last)
  | steps + 1, first, last =>
      decide (first = last) ||
        (parentsOf entities first).any fun parent => leadsTo entities steps parent last

/-- Hierarchy membership.  A path through the hierarchy meets an entity at most once. -/
def isIn (first last : Uid Name) : Bool :=
  leadsTo entities entities.length first last

variable (request : Request Name)

def Request.uidOf : Subject → Uid Name
  | .principal => request.principal
  | .resource => request.resource

def attributeOf (wanted : Attribute Name) : Option (Value Name) :=
  (lookup entities (request.uidOf wanted.owner)).bind fun entity =>
    (entity.attrs.find? fun entry => decide (entry.1 = wanted.name)).map Prod.snd

/-- The value of a guard, or nothing when its evaluation errs. -/
def Guard.eval (entities : List (Entity Name)) (request : Request Name) (guard : Guard Name) :
    Option Bool :=
  match attributeOf entities request guard.collection,
      attributeOf entities request guard.element with
  | some (.set members), some (.string text) => some (decide (text ∈ members))
  | _, _ => none

def ActionScope.covers (entities : List (Entity Name)) (action : Uid Name) :
    ActionScope Name → Bool
  | .eq wanted => decide (action = wanted)
  | .within wanted => wanted.any (isIn entities action)

def Permit.satisfied (permit : Permit Name) : Bool :=
  isIn entities request.principal permit.principalIn &&
    permit.actionScope.covers entities request.action &&
    decide (request.resource.type = permit.resourceIs) &&
    permit.guard.all fun guard => guard.eval entities request == some true

/-- The decision over a set of policies without `forbid`. -/
def isAuthorized (permits : List (Permit Name)) (request : Request Name)
    (entities : List (Entity Name)) : Bool :=
  permits.any (Permit.satisfied entities request)

variable {e : List (Entity Name)} {x last : Uid Name}

theorem leadsTo_of_root {s : Nat} (hr : parentsOf e x = []) :
    leadsTo e s x last = decide (x = last) := by
  cases s with
  | zero => rfl
  | succ s => simp [leadsTo, hr]

/-- Where the parents have no parents themselves, membership is being or having the ancestor. -/
theorem isIn_iff_of_roots (hi : e ≠ []) (hr : ∀ p ∈ parentsOf e x, parentsOf e p = []) :
    isIn e x last = true ↔ x = last ∨ last ∈ parentsOf e x := by
  obtain ⟨s, hc⟩ := Nat.exists_eq_succ_of_ne_zero (mt List.length_eq_zero_iff.mp hi)
  unfold isIn
  rw [hc, leadsTo, Bool.or_eq_true, decide_eq_true_iff, List.any_eq_true]
  apply or_congr_right
  constructor
  · intro hp
    obtain ⟨p, hl, ho⟩ := hp
    rw [leadsTo_of_root (hr p hl), decide_eq_true_iff] at ho
    exact ho ▸ hl
  · intro hl
    refine ⟨last, hl, ?_⟩
    rw [leadsTo_of_root (hr last hl), decide_eq_true_iff]

theorem isAuthorized_iff {pr : List (Permit Name)} {req : Request Name} :
    isAuthorized pr req e = true ↔ ∃ p ∈ pr, isIn e req.principal p.principalIn = true ∧
        p.actionScope.covers e req.action = true ∧ req.resource.type = p.resourceIs ∧
        ∀ g ∈ p.guard, g.eval e req = some true := by
  simp only [isAuthorized, List.any_eq_true, Permit.satisfied, Bool.and_eq_true,
    decide_eq_true_iff, Option.all_eq_true, beq_iff_eq, and_assoc, Option.mem_def]

theorem Guard.eval_eq_some_true_iff {req : Request Name} {g : Guard Name} {m : List Name}
    (hc : attributeOf e req g.collection = some (.set m)) : g.eval e req = some true ↔
      ∃ text ∈ m, attributeOf e req g.element = some (.string text) := by
  unfold Guard.eval
  rw [hc]
  cases attributeOf e req g.element with
  | none => simp
  | some v =>
    cases v with
    | set o => simp
    | string text => simp

end Library.Cedar

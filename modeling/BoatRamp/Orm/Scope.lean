import BoatRamp.Library.Fallible
import BoatRamp.Orm.Tree

/-!
# Scopes

The predicate that a scope puts on each table that a query reads, and the column
and value that it puts on a write.
-/

namespace BoatRamp.Orm

open Library Tenancy Option

/-- Put a condition in front of another; an empty conjunction is replaced. -/
def conjoinFront (filter : Predicate) : Option Predicate → Predicate
  | none => filter
  | some added =>
    match filter with
    | .and [] => added
    | existing => .and [added, existing]

namespace Scope

def resolveTable (scope : Scope) (table : Text) : Except OrmError ResolvedScope :=
  match scope.keys with
  | .uniform => .ok (.column scope.column)
  | .perTable keys => (keys.get? table).elim (.error (.tenancyUndeclared table)) .ok
  | .perTableTarget keys _ _ _ =>
    (keys.get? table).elim (.error (.tenancyUndeclared table)) .ok

def isTarget (scope : Scope) : Bool :=
  match scope.keys with
  | .perTableTarget .. => true
  | _ => false

def colExpr (column : Text) : Option Text → Expr
  | some qualifier => .column (qualifier ++ '.' :: column)
  | none => .column column

def publicTerm (qualifier : Option Text) : PublicTermSql → Except OrmError Predicate
  | .cmp column op value => do
    let _ ← ident column
    return .cmp (colExpr column qualifier) op (.value value)
  | .null column negated => do
    let _ ← ident column
    return .null (colExpr column qualifier) negated

variable {qualifier : Option Text} {pred : Predicate} {scope : Scope}

def conjunction : List Predicate → Option Predicate
  | [] => none
  | [pred] => some pred
  | preds => some (.and preds)

/-- The confinement to the public subset; only reads of another tenant's data have one, and not
those that a capability authorises. -/
def publicPred (scope : Scope) (table : Text) (qualifier : Option Text) :
    Except OrmError (Option Predicate) :=
  match scope.keys with
  | .perTableTarget _ subsets _ requirePublic =>
    if requirePublic then
      match subsets.get? table with
      | none => .error (.publicSubsetUndeclared table)
      | some terms => do
        let preds ← terms.mapM (publicTerm qualifier)
        return conjunction preds
    else .ok none
  | _ => .ok none

/-- The condition on a read without a principal: nothing matches, or the read is refused. -/
def noPrincipalReadPred (scope : Scope) : Except OrmError Predicate :=
  if scope.passUnresolved then .ok (.or []) else .error .tenancyNoPrincipal

def tenantPred (scope : Scope) (column : Text) (qualifier : Option Text) (baseInclusive : Bool) :
    Except OrmError (Option Predicate) :=
  let isNull : Predicate := .null (colExpr column qualifier) false
  let eq (value : SqlValue) : Predicate := .cmp (colExpr column qualifier) .eq (.value value)
  match scope.mode with
  | .all => .ok none
  | .nullOnly => .ok (some isNull)
  | .own =>
    match scope.value with
    | none => scope.noPrincipalReadPred.map some
    | some value => .ok (some (if baseInclusive then .or [eq value, isNull] else eq value))
  | .ownOrNull =>
    match scope.value with
    | none => scope.noPrincipalReadPred.map some
    | some value => .ok (some (.or [eq value, isNull]))

def disjunctPred (scope : Scope) (tenant session : Text) (qualifier : Option Text) :
    Except OrmError (Option Predicate) :=
  if scope.mode = .all then .ok none
  else
    let eq (column : Text) (value : SqlValue) : Predicate :=
      .cmp (colExpr column qualifier) .eq (.value value)
    let arms := (scope.value.map (eq tenant)).toList ++ (scope.session.map (eq session)).toList
    match arms with
    | [] => scope.noPrincipalReadPred.map some
    | [arm] => .ok (some arm)
    | arms => .ok (some (.or arms))

def tenancyPred (scope : Scope) (qualifier : Option Text) :
    ResolvedScope → Except OrmError (Option Predicate)
  | .column column => do
    let _ ← ident column
    scope.tenantPred column qualifier false
  | .unscoped => .ok none
  | .sharedWritable => .ok none
  | .tenantOrSession tenant session => do
    let _ ← ident tenant
    let _ ← ident session
    scope.disjunctPred tenant session qualifier
  | .tenantOrBase tenant => do
    let _ ← ident tenant
    scope.tenantPred tenant qualifier true

def joined (tenant subset : Option Predicate) : Option Predicate :=
  match conjoinFront (conjoinFront (.and []) tenant) subset with
  | .and [] => none
  | pred => some pred

def readPred (scope : Scope) (table : Text) (qualifier : Option Text) :
    Except OrmError (Option Predicate) := do
  let tenant ← scope.tenancyPred qualifier (← scope.resolveTable table)
  let subset ← scope.publicPred table qualifier
  return joined tenant subset

/-- The value that a write puts into the tenant column; cross-tenant writes put none. -/
def tenantStamp (scope : Scope) : Except OrmError (Option SqlValue) :=
  match scope.mode with
  | .all => .ok none
  | .nullOnly => .ok (some .null)
  | .own => scope.value.elim (.error .tenancyNoPrincipal) (.ok ∘ some)
  | .ownOrNull => scope.value.elim (.error .tenancyNoPrincipal) (.ok ∘ some)

def writeTarget (scope : Scope) (table : Text) : Except OrmError (Option (Text × SqlValue)) := do
  match ← scope.resolveTable table with
  | .column column => return (← scope.tenantStamp).map (column, ·)
  | .tenantOrBase tenant =>
    if scope.isTarget && scope.mode != .own && scope.mode != .ownOrNull then
      throw (.targetBaseWrite table)
    return (← scope.tenantStamp).map (tenant, ·)
  | .sharedWritable => if scope.isTarget then throw (.unscopedWrite table) else return none
  | .unscoped =>
    if !scope.isTarget && scope.unscopedWrites.contains table then return none
    else throw (.unscopedWrite table)
  | .tenantOrSession tenant session =>
    if scope.mode = .all then return none
    if scope.isTarget then throw (.targetWriteToSessionTable table)
    match scope.value, scope.session with
    | some value, _ => return some (tenant, value)
    | none, some value => return some (session, value)
    | none, none => throw .tenancyNoPrincipal

end Scope

end BoatRamp.Orm

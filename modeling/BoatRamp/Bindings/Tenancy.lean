import BoatRamp.Orm.Scope

/-!
# The tenancy of an invocation

What the host has resolved for the request that a component serves: the
principal's facts, and how far its reads and its writes reach.
-/

namespace BoatRamp.Bindings

open Tenancy

inductive Axis where
  | read
  | write
  deriving DecidableEq

inductive AccessMode where
  | none
  | null
  | own
  | ownOrNull
  | all
  deriving DecidableEq

inductive ScopeAxis where
  | tenant
  | session
  | targetTenant
  deriving DecidableEq

structure HostTenancy where
  column : Text
  facts : List (ScopeAxis × SqlValue)
  read : AccessMode
  write : AccessMode
  keys : Orm.TableKeys

namespace HostTenancy

variable (tenancy : HostTenancy)

def fact (axis : ScopeAxis) : Option SqlValue :=
  (tenancy.facts.find? fun fact => fact.1 = axis).map Prod.snd

def rlsTenantValue : Option SqlValue :=
  (tenancy.fact .tenant).or (tenancy.fact .targetTenant)

def writeIsAll : Bool := tenancy.write = .all

def readIsAll : Bool := tenancy.read = .all

def tenantColumnFor (table : Text) : Option Text :=
  let keyed (keys : Library.SortedMap Text ResolvedScope) : Option Text :=
    match keys.get? table with
    | some (.column column) => some column
    | some (.tenantOrSession tenant _) => some tenant
    | some (.tenantOrBase tenant) => some tenant
    | _ => none
  match tenancy.keys with
  | .uniform => some tenancy.column
  | .perTable keys => keyed keys
  | .perTableTarget keys _ _ _ => keyed keys

end HostTenancy

structure Insert where
  table : Text
  rows : List (List (Text × Orm.Expr))

structure Update where
  table : Text
  filter : Orm.Predicate

def uniform : List (Option SqlValue) → Option SqlValue
  | [] => none
  | [cell] => cell
  | cell :: rest => if uniform rest = cell then cell else none

def literalCell (column : Text) (row : List (Text × Orm.Expr)) : Option SqlValue :=
  match row.find? (fun cell => sameCol cell.1 column) with
  | some (_, .value value) => some value
  | _ => none

def Insert.uniformScopeValue (insert : Insert) (column : Text) : Option SqlValue :=
  uniform (insert.rows.map (literalCell column))

mutual

def pinned (column : Text) : Orm.Predicate → Option SqlValue
  | .cmp (.column name) .eq (.value value) => if sameCol name column then some value else none
  | .cmp (.value value) .eq (.column name) => if sameCol name column then some value else none
  | .and children => (pinnedAll column none children).join
  | _ => none

/-- The value that the conjuncts pin the column to, none of them so far or all of them to the same;
`none` when they contradict each other. -/
def pinnedAll (column : Text) (found : Option SqlValue) :
    List Orm.Predicate → Option (Option SqlValue)
  | [] => some found
  | child :: rest =>
    match pinned column child, found with
    | none, _ => pinnedAll column found rest
    | some value, none => pinnedAll column (some value) rest
    | some value, some earlier =>
      if earlier = value then pinnedAll column found rest else none

end

def Update.pinnedScopeValue (update : Update) (column : Text) : Option SqlValue :=
  pinned column update.filter

end BoatRamp.Bindings

import BoatRamp.RawSql.Tree

/-!
# Confiners

The condition that the rewriting of a raw statement puts on each table that it
reads: for the caller's own data, and for the public data of another tenant; and
the column and value by which a raw write is bound to its owner.
-/

namespace BoatRamp.RawSql

open Library Tenancy

/-- Why a raw statement is refused. -/
inductive TargetRewriteError where
  | parse (message : Text)
  | notReadOnly
  | writeInReadPosition
  | unsupportedTableSource (kind : Text)
  | qualifiedTableName (name : Text)
  | publicSubsetUndeclared (table : Text)
  | tenancyUndeclared (table : Text)
  | unsupportedLiteral
  | badColumn (column : Text)
  | emptyConfinement (table : Text)
  | missingTarget
  | unsupportedJoin (kind : Text)
  | cteNotAllowed
  | noPrincipal
  | unscopedWrite (table : Text)
  | unsupportedWrite (kind : Text)
  | badWriteTarget (table : Text)
  | unsupportedInsert (kind : Text)

inductive OwnKeys where
  | uniform (column : Text)
  | perTable (keys : SortedMap Text ResolvedScope)

def OwnKeys.resolve (keys : OwnKeys) (table : Text) : Except TargetRewriteError ResolvedScope :=
  match keys with
  | .uniform column => .ok (.column column)
  | .perTable keys => (keys.get? table).elim (.error (.tenancyUndeclared table)) .ok

/-- The facts of the caller that a statement is confined to. -/
structure OwnScope where
  own : Option SqlValue
  session : Option SqlValue
  mode : ScopeMode
  keys : OwnKeys
  passUnresolved : Bool

variable (qualifier : Ident) (column : Text)

def colExpr : Expr :=
  .compoundIdentifier [qualifier, .new column]

def and (left right : Expr) : Expr := .binaryOp left .and right

def or (left right : Expr) : Expr := .binaryOp left .or right

def cmpOperator : CmpOp → BinaryOperator
  | .eq => .eq
  | .ne => .notEq
  | .lt => .lt
  | .le => .ltEq
  | .gt => .gt
  | .ge => .gtEq

def literal : SqlValue → Option Value
  | .text text => some (.singleQuotedString text)
  | .integer value => some (.number (.integer value))
  | .boolean value => some (.boolean value)
  | .real bits => if isFinite bits then some (.number (.real bits)) else none
  | .null => none
  | .blob _ => none
  | .json _ => none

def valueExpr (value : SqlValue) : Except TargetRewriteError Expr :=
  (literal value).elim (.error .unsupportedLiteral) (.ok ∘ .value)

/-- The literal that a write puts into the tenant column; here NULL is allowed. -/
def checkIdent (name : Text) : Except TargetRewriteError Unit :=
  if isPlainName name then .ok () else .error (.badColumn name)

def neverExpr : Expr :=
  .binaryOp (.value (.number (.integer 1))) .eq (.value (.number (.integer 0)))

def eqExpr (bound : Expr) : Expr :=
  .binaryOp (colExpr qualifier column) .eq bound

namespace OwnScope

variable (scope : OwnScope)

def ownValueExpr : Except TargetRewriteError Expr :=
  scope.own.elim (.error .noPrincipal) valueExpr

def noPrincipalPred : Except TargetRewriteError (Option Expr) :=
  if scope.passUnresolved then .ok (some neverExpr) else .error .noPrincipal

def arm (qualifier : Ident) (column : Text) : Option SqlValue →
    Except TargetRewriteError (List Expr)
  | none => .ok []
  | some value => do return [eqExpr qualifier column (← valueExpr value)]

def held (build : Expr → Expr) : Except TargetRewriteError (Option Expr) :=
  if scope.own = none then scope.noPrincipalPred else scope.ownValueExpr.map (some ∘ build)

def stamp (scope : OwnScope) : Except TargetRewriteError SqlValue :=
  match scope.mode with
  | .nullOnly => .ok .null
  | .own => scope.own.elim (.error .noPrincipal) .ok
  | .ownOrNull => scope.own.elim (.error .noPrincipal) .ok
  | .all => .error .noPrincipal

def writeTarget (table : Text) :
    Except TargetRewriteError (Text × SqlValue) := do
  match ← scope.keys.resolve table with
  | .column column =>
    checkIdent column
    return (column, ← scope.stamp)
  | .tenantOrBase tenant =>
    checkIdent tenant
    return (tenant, ← scope.stamp)
  | .tenantOrSession tenant session =>
    checkIdent tenant
    checkIdent session
    match scope.own, scope.session with
    | some value, _ => return (tenant, value)
    | none, some value => return (session, value)
    | none, none => throw .noPrincipal
  | .unscoped => throw (.unscopedWrite table)
  | .sharedWritable => throw (.unscopedWrite table)

end OwnScope

/-- What a read of another tenant's data is confined to; the tenant is already a literal. -/
structure TargetConfiner where
  keys : SortedMap Text ResolvedScope
  subsets : SortedMap Text (List PublicTermSql)
  requirePublic : Bool
  bound : Expr
  nullBase : Bool

namespace TargetConfiner

variable (confiner : TargetConfiner)

def terms (table : Text) :
    Except TargetRewriteError (List PublicTermSql) :=
  if confiner.requirePublic then
    (confiner.subsets.get? table).elim (.error (.publicSubsetUndeclared table)) .ok
  else .ok []

end TargetConfiner

end BoatRamp.RawSql

import BoatRamp.Tenancy.Schema

/-!
# Typed queries

The expressions, predicates and scopes of the typed query language.
-/

namespace BoatRamp.Orm

open Library Tenancy

inductive Agg where
  | count
  | sum
  | avg
  | min
  | max
  | countDistinct

inductive BinOp where
  | add
  | sub
  | mul
  | div
  | mod

inductive Func where
  | lower
  | upper
  | length
  | trim
  | abs
  | round
  | coalesce
  | now

inductive Metric where
  | cosine
  | l2

/-- What a roll-up over a related table aggregates. -/
inductive RelArg where
  | star
  | column (name : Text)

mutual

inductive Expr where
  | column (name : Text)
  | value (value : SqlValue)
  | star
  | aggregate (agg : Agg) (inner : Expr)
  | binary (op : BinOp) (left right : Expr)
  | func (func : Func) (args : List Expr)
  | jsonExtract (inner : Expr) (path : List Text)
  | distance (left right : Expr) (metric : Metric)
  | vectorLiteral (text : Text)
  | relatedAggregate (agg : Agg) (arg : RelArg) (table : Text) (filter : Predicate)
  | case (branches : List (Predicate × Expr)) (otherwise : Option Expr)
  | jsonExtractDyn (base key : Expr)
  | jsonConcat (left right : Expr)
  | relatedScalar (column table : Text) (filter : Predicate)
  | isOwn

inductive Predicate where
  | and (children : List Predicate)
  | or (children : List Predicate)
  | not (inner : Predicate)
  | cmp (left : Expr) (op : CmpOp) (right : Expr)
  | between (expr low high : Expr) (negated : Bool)
  | isIn (expr : Expr) (values : List Expr) (negated : Bool)
  | like (expr : Expr) (pattern : Text) (insensitive negated : Bool)
  | null (expr : Expr) (negated : Bool)
  | inSubquery (expr : Expr) (column table : Text) (filter : Predicate) (negated : Bool)

end

inductive TableKeys where
  | uniform
  | perTable (keys : SortedMap Text ResolvedScope)
  | perTableTarget (keys : SortedMap Text ResolvedScope)
      (subsets : SortedMap Text (List PublicTermSql)) (write : List Text) (requirePublic : Bool)

/-- The scope that the host forces onto an operation. -/
structure Scope where
  column : Text
  value : Option SqlValue
  session : Option SqlValue
  mode : ScopeMode
  keys : TableKeys
  unscopedWrites : List Text
  passUnresolved : Bool

inductive OrmError where
  | invalidIdentifier (name : Text)
  | empty (what : Text)
  | badExpr (what : Text)
  | tenancyUndeclared (table : Text)
  | unscopedWrite (table : Text)
  | tenancyNoPrincipal
  | publicSubsetUndeclared (table : Text)
  | targetWriteNotGranted (table : Text)
  | targetWriteColumnDenied (column : Text)
  | targetDeleteRefused (table : Text)
  | publicSubsetNotForceable (table : Text)
  | targetWriteUnsupported (what : Text)
  | targetUpsertKeyMissingTenant (table : Text)
  | targetWriteToSessionTable (table : Text)
  | targetBaseWrite (table : Text)
  deriving DecidableEq

def ident (name : Text) : Except OrmError Text :=
  let valid := match splitOnceAt '.' name with
    | some (table, column) => isPlainName table && isPlainName column
    | none => isPlainName name
  if valid then .ok name else .error (.invalidIdentifier name)

end BoatRamp.Orm

import BoatRamp.Tenancy.Schema

/-!
# Parsed statements

The trees of the parser for raw statements, as far as the rewriting tells their
nodes apart.  Every other expression keeps its kind, its operands and the
queries in it.  A number is kept as the number that its digits denote.
-/

namespace BoatRamp.RawSql

open Tenancy

structure Ident where
  value : Text
  quoteStyle : Option Char
  deriving DecidableEq

def Ident.new (value : Text) : Ident := ⟨value, none⟩

abbrev ObjectName := List Ident

structure TableAlias where
  name : Ident
  columns : List Ident

inductive Number where
  | integer (value : Int)
  | real (bits : UInt64)

inductive Value where
  | singleQuotedString (text : Text)
  | number (number : Number)
  | boolean (value : Bool)
  | null
  | other (kind : Text)

inductive BinaryOperator where
  | and
  | or
  | eq
  | notEq
  | lt
  | ltEq
  | gt
  | gtEq
  | other (symbol : Text)

inductive JoinKind where
  | inner
  | cross
  | leftOuter
  | other (kind : Text)

mutual

inductive Expr where
  | identifier (ident : Ident)
  | compoundIdentifier (parts : List Ident)
  | value (value : Value)
  | binaryOp (left : Expr) (op : BinaryOperator) (right : Expr)
  | isNull (inner : Expr)
  | isNotNull (inner : Expr)
  | nested (inner : Expr)
  | other (kind : Text) (operands : List Expr) (queries : List Query)

inductive SelectItem where
  | unnamedExpr (expr : Expr)
  | exprWithAlias (expr : Expr) (name : Ident)
  | qualifiedWildcard (name : ObjectName)
  | wildcard

inductive Query where
  | mk (ctes : Bool) (body : SetExpr) (clauses : List Expr)

inductive SetExpr where
  | select (select : Select)
  | query (query : Query)
  | setOperation (op : Text) (left right : SetExpr)
  | values (rows : List (List Expr))
  | insert
  | update
  | table

/-- One SELECT; the further clauses are GROUP BY, HAVING and the like. -/
inductive Select where
  | mk (into : Bool) (projection : List SelectItem) (relations : List TableWithJoins)
      (selection : Option Expr) (clauses : List Expr)

inductive TableWithJoins where
  | mk (relation : TableFactor) (joins : List Join)

inductive Join where
  | mk (relation : TableFactor) (kind : JoinKind) (constraint : JoinConstraint)

inductive JoinConstraint where
  | on (condition : Expr)
  | using (columns : List Ident)
  | natural
  | none

inductive TableFactor where
  | table (name : ObjectName) (tableAlias : Option TableAlias) (args : Option (List Expr))
      (hints : List Expr)
  | derived (lateral : Bool) (subquery : Query) (tableAlias : Option TableAlias)
  | nestedJoin (inner : TableWithJoins) (tableAlias : Option TableAlias)
  | other (kind : Text) (operands : List Expr)

end

end BoatRamp.RawSql

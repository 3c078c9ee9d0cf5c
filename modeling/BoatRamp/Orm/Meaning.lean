import BoatRamp.Orm.Tree
import BoatRamp.Tenancy.Engine

/-!
# What a predicate means on a row

The connectives, comparisons and NULL tests have their usual meaning.  What any
other expression or condition means is left to the engine.
-/

namespace BoatRamp.Orm

open Library Tenancy

/-- What an expression can refer to: columns by the text that names them, and the meaning of
everything that is not spelled out here. -/
structure Frame (engine : Engine) where
  columns : Text → engine.Datum
  elsewhere : Expr → engine.Datum
  conditions : Predicate → Truth

def Frame.at {engine : Engine} (frame : Frame engine) (qualifier : Option Text)
    (row : Text → engine.Datum) : Frame engine :=
  { frame with
    columns := fun name =>
      match qualifier with
      | none => row name
      | some table => (stripHead (table ++ ['.']) name).elim (frame.columns name) row }

variable {engine : Engine} (frame : Frame engine)

def operand : Expr → engine.Datum
  | .column name => frame.columns name
  | .value value => engine.bound value
  | expr => frame.elsewhere expr

mutual

def truth : Predicate → Truth
  | .and children => Truth.all (truths children)
  | .or children => Truth.any (truths children)
  | .not inner => (truth inner).not
  | .cmp left op right => engine.compare op (operand frame left) (operand frame right)
  | .null expr negated => some (engine.isNull (operand frame expr) != negated)
  | condition => frame.conditions condition

def truths : List Predicate → List Truth
  | [] => []
  | first :: rest => truth first :: truths rest

end

theorem truths_eq_map (c : List Predicate) : truths frame c = c.map (truth frame) := by
  induction c with
  | nil => rfl
  | cons x rest ih => simp [truths, ih]

end BoatRamp.Orm

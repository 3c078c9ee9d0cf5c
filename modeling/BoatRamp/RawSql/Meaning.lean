import BoatRamp.RawSql.Confiners
import BoatRamp.Tenancy.Engine

/-!
# What a raw condition means on a row

The connectives, comparisons and NULL tests have their usual meaning.  What any
other expression means is left to the engine.
-/

namespace BoatRamp.RawSql

open Library Tenancy

/-- How the engine reads literals: those of the given values compare as the values do when they
are bound. -/
structure Reading (engine : Engine) (values : List SqlValue) where
  written : Value → engine.Datum
  compare_written : ∀ value ∈ values, ∀ text, literal value = some text → ∀ op datum,
    engine.compare op datum (written text) = engine.compare op datum (engine.bound value)
  one_ne_zero : engine.compare .eq (written (.number (.integer 1)))
    (written (.number (.integer 0))) = some false

structure Frame (engine : Engine) where
  columns : List Ident → engine.Datum
  elsewhere : Expr → engine.Datum

def Frame.at {engine : Engine} (frame : Frame engine) (qualifier : Ident)
    (row : Text → engine.Datum) : Frame engine :=
  { frame with
    columns := fun
      | [table, column] => if table = qualifier then row column.value
          else frame.columns [table, column]
      | parts => frame.columns parts }

def comparison : BinaryOperator → Option CmpOp
  | .eq => some .eq
  | .notEq => some .ne
  | .lt => some .lt
  | .ltEq => some .le
  | .gt => some .gt
  | .gtEq => some .ge
  | _ => none

section

variable {engine : Engine} {values : List SqlValue} (reading : Reading engine values)
  (frame : Frame engine)

def operand : Expr → engine.Datum
  | .identifier ident => frame.columns [ident]
  | .compoundIdentifier parts => frame.columns parts
  | .value value => reading.written value
  | .nested inner => operand inner
  | expr => frame.elsewhere expr

def truth : Expr → Truth
  | .binaryOp left .and right => (truth left).and (truth right)
  | .binaryOp left .or right => (truth left).or (truth right)
  | .binaryOp left op right =>
    match comparison op with
    | some op => engine.compare op (operand reading frame left) (operand reading frame right)
    | none => engine.holds (frame.elsewhere (.binaryOp left op right))
  | .isNull inner => some (engine.isNull (operand reading frame inner))
  | .isNotNull inner => some (!engine.isNull (operand reading frame inner))
  | .nested inner => truth inner
  | expr => engine.holds (operand reading frame expr)

end

section

variable {engine : Engine} {values : List SqlValue} {rd : Reading engine values}
  {f : Frame engine} (l r : Expr)

@[simp]
theorem truth_and : truth rd f (and l r) = (truth rd f l).and (truth rd f r) := rfl

@[simp]
theorem truth_or : truth rd f (or l r) = (truth rd f l).or (truth rd f r) := rfl

@[simp]
theorem truth_nested (i : Expr) : truth rd f (.nested i) = truth rd f i := rfl

theorem truth_comparison (op : CmpOp) : truth rd f (.binaryOp l (cmpOperator op) r) =
      engine.compare op (operand rd f l) (operand rd f r) := by
  cases op <;> rfl

@[simp]
theorem truth_neverExpr : truth rd f neverExpr = some false := rd.one_ne_zero

end

end BoatRamp.RawSql

import BoatRamp.Orm.Meaning
import BoatRamp.Orm.Scope
import BoatRamp.RawSql.Meaning

/-!
# Agreement of raw and typed conditions

When a condition of the rewriting and one of the typed queries say the same of a
row, and what may keep the raw side from answering at all.
-/

namespace BoatRamp.RawSql

open Library Tenancy

def SameRows (values : List SqlValue) (qualifier : Ident) (reference : Option Text) (expr : Expr)
    (predicate : Orm.Predicate) : Prop :=
  ∀ (engine : Engine) (reading : Reading engine values) (raw : Frame engine)
    (typed : Orm.Frame engine) (row : Text → engine.Datum),
    truth reading (raw.at qualifier row) expr = some true ↔
      Orm.truth (typed.at reference row) predicate = some true

inductive Agreement {First Second FirstError SecondError : Type} (same : First → Second → Prop) :
    Except FirstError (Option First) → Except SecondError (Option Second) → Prop where
  | refused (first : FirstError) (second : SecondError) :
      Agreement same (.error first) (.error second)
  | nothing : Agreement same (.ok none) (.ok none)
  | both {first : First} {second : Second} (related : same first second) :
      Agreement same (.ok (some first)) (.ok (some second))

/-- The two refusals that only the raw side makes: a name that cannot be written without quotes,
and a value without a literal. -/
inductive Unwritable (names : List Text) (values : List SqlValue) : TargetRewriteError → Prop where
  | name {column : Text} (member : column ∈ names) (quoted : ¬isPlainName column) :
      Unwritable names values (.badColumn column)
  | value {value : SqlValue} (member : value ∈ values) (unwritten : literal value = none) :
      Unwritable names values .unsupportedLiteral

namespace SameRows

variable {vs : List SqlValue} {q : Ident} {rf : Option Text}

theorem operand_colExpr {e : Engine} {r : Reading e vs} (f : Frame e)
    (row : Text → e.Datum) (c : Text) : operand r (f.at q row) (colExpr q c) = row c := by
  simp [operand, colExpr, Frame.at, Ident.new]

theorem typed_colExpr {e : Engine} (f : Orm.Frame e) (row : Text → e.Datum) (c : Text) :
    Orm.operand (f.at rf row) (Orm.Scope.colExpr c rf) = row c := by
  cases rf with
  | none => rfl
  | some t =>
    have hs : stripHead (t ++ ['.']) (t ++ '.' :: c) = some c := by
      simp [stripHead]
    simp [Orm.Scope.colExpr, Orm.operand, Orm.Frame.at, hs]

variable {v : SqlValue} {text : Value} (known : v ∈ vs)

include known in
theorem cmp (hw : literal v = some text) (op : CmpOp) (c : Text) : SameRows vs q rf
      (.binaryOp (colExpr q c) (cmpOperator op) (.value text))
      (.cmp (Orm.Scope.colExpr c rf) op (.value v)) := by
  intro e r raw t row
  rw [truth_comparison, operand_colExpr, Orm.truth, typed_colExpr]
  simp only [operand, Orm.operand]
  rw [r.compare_written v known text hw]

include known in
theorem eq (hw : literal v = some text) (c : Text) : SameRows vs q rf (eqExpr q c (.value text))
      (.cmp (Orm.Scope.colExpr c rf) .eq (.value v)) :=
  cmp known hw .eq c

theorem isNull (c : Text) : SameRows vs q rf (.isNull (colExpr q c))
      (.null (Orm.Scope.colExpr c rf) false) := by
  intro e r raw t row
  rw [truth, operand_colExpr, Orm.truth, typed_colExpr]
  simp

theorem isNotNull (c : Text) : SameRows vs q rf (.isNotNull (colExpr q c))
      (.null (Orm.Scope.colExpr c rf) true) := by
  intro e r raw t row
  rw [truth, operand_colExpr, Orm.truth, typed_colExpr]
  simp

theorem or {x y : Expr} {l rg : Orm.Predicate} (one : SameRows vs q rf x l)
    (ho : SameRows vs q rf y rg) : SameRows vs q rf (.nested (RawSql.or x y)) (.or [l, rg]) := by
  intro e r raw t row
  rw [truth_nested, truth_or, Orm.truth, Orm.truths_eq_map]
  simp [one e r raw t row, ho e r raw t row, eq_comm (a := some true)]

theorem never : SameRows vs q rf neverExpr (.or []) := by
  intro e r raw t row
  simp [Orm.truth, Orm.truths_eq_map]

end SameRows

end BoatRamp.RawSql

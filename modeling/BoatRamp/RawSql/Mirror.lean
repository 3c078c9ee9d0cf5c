import BoatRamp.RawSql.OwnMirror

/-!
# The raw confiners and the typed scopes

The conditions on the data of another tenant, compared in the same way; and the
statement that raw statements and typed queries are confined alike.
-/

namespace BoatRamp.RawSql

open Library Tenancy Orm.Scope ResolvedScope TargetConfiner List Except

theorem truth_foldl_and {e : Engine} {vs : List SqlValue} {r : Reading e vs} {f : Frame e}
    (x : Expr) (rest : List Expr) :
    truth r f (rest.foldl and x) = some true ↔ ∀ expr ∈ x :: rest, truth r f expr = some true := by
  induction rest generalizing x with
  | nil => simp
  | cons y rest ih => simp [ih, and_assoc]

variable {vs : List SqlValue} {pr : List Orm.Predicate}

theorem forall_truth_iff {ql : Ident} {re : Option Text} {ex : List Expr}
    (hs : List.Forall₂ (SameRows vs ql re) ex pr) {e : Engine}
    (r : Reading e vs) (raw : Frame e) (typed : Orm.Frame e) (row : Text → e.Datum) :
    (∀ expr ∈ ex, truth r (raw.at ql row) expr = some true) ↔
      ∀ pred ∈ pr, Orm.truth (typed.at re row) pred = some true := by
  induction hs with
  | nil => simp
  | cons one _ ih => simp [one e r raw typed row, ih]

def termValues (terms : List PublicTermSql) : List SqlValue :=
  terms.filterMap fun
    | .cmp _ _ value => some value
    | .null _ _ => none

theorem Unwritable.mono {n mn : List Text} {vs mv : List SqlValue} {err : TargetRewriteError}
    (hun : Unwritable n vs err) (hn : n ⊆ mn) (hh : vs ⊆ mv) : Unwritable mn mv err := by
  cases hun with
  | name hm hq => exact .name (hn hm) hq
  | value hm hu => exact .value (hh hm) hu

theorem SameRows.chain {ql : Ident} {re : Option Text} {x : Expr}
    {rest : List Expr} {w : Orm.Predicate} (hsa : List.Forall₂ (SameRows vs ql re) (x :: rest) pr)
    (hs : ∀ (e : Engine) (frame : Orm.Frame e), Orm.truth frame w = some true ↔
      ∀ pred ∈ pr, Orm.truth frame pred = some true) : SameRows vs ql re (rest.foldl and x) w := by
  intro e r raw typed row
  rw [truth_foldl_and, hs, forall_truth_iff hsa r raw typed row]

namespace MirrorsTarget

variable {c : TargetConfiner} {tenant : SqlValue} {ty : Orm.Scope} (q : Ident)
  (rf : Option Text)

end MirrorsTarget

namespace TargetConfiner

def declaredTerms (confiner : TargetConfiner) (table : Text) : List PublicTermSql :=
  (confiner.subsets.get? table).getD []

end TargetConfiner

/-- The values that conditions on another tenant's data are made of. -/
def TargetConfiner.values (confiner : TargetConfiner) (tenant : SqlValue) (table : Text) :
    List SqlValue :=
  tenant :: termValues (confiner.declaredTerms table)

namespace MirrorsTarget

variable {c : TargetConfiner} {tenant : SqlValue} {typed : Orm.Scope} (q : Ident)
  (r : Option Text)

end MirrorsTarget

namespace BaseOnly

def packs : Text := "packs".toList

def tenantId : Text := "tenant_id".toList

def acme : SqlValue := .text "acme".toList

def keys : SortedMap Text ResolvedScope := SortedMap.empty.insert packs (.tenantOrBase tenantId)

def caller (mode : ScopeMode) (own : SqlValue) : OwnScope :=
  ⟨some own, none, mode, .perTable keys, false⟩

def typedCaller (mode : ScopeMode) (own : SqlValue) : Orm.Scope :=
  ⟨tenantId, some own, none, mode, .perTable keys, [], false⟩

theorem mirrors (m : ScopeMode) (own : SqlValue) :
    Mirrors (caller m own) (typedCaller m own) := ⟨rfl, rfl, rfl, rfl, rfl⟩

def written : Value → SqlValue
  | .singleQuotedString text => .text text
  | .number (.integer value) => .integer value
  | .number (.real bits) => .real bits
  | .boolean value => .boolean value
  | .null => .null
  | .other _ => .null

theorem written_literal {v : SqlValue} {text : Value} (hr : literal v = some text) :
    written text = v := by
  cases v with
  | real b =>
    simp only [literal] at hr
    split at hr <;> cases hr
    rfl
  | null | blob bs | json d => cases hr
  | _ => cases hr; rfl

def reading (values : List SqlValue) : Reading .direct values where
  written := written
  compare_written _ _ _ rendered _ _ := by rw [written_literal rendered]; rfl
  one_ne_zero := by decide

end BaseOnly

end BoatRamp.RawSql

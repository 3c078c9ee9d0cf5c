import BoatRamp.RawSql.Agreement

/-!
# The caller's own data

The conditions that the rewriting of raw statements puts on a table of the
caller's own data, and what binds a raw write, compared with a typed scope that
has the same facts.
-/

namespace BoatRamp.RawSql

open Library Tenancy

/-- The values of the caller that conditions are made of. -/
def OwnScope.values (raw : OwnScope) : List SqlValue := raw.own.toList ++ raw.session.toList

structure Mirrors (raw : OwnScope) (typed : Orm.Scope) : Prop where
  value : typed.value = raw.own
  session : typed.session = raw.session
  mode : typed.mode = raw.mode
  passUnresolved : typed.passUnresolved = raw.passUnresolved
  keys : match raw.keys with
    | .uniform column => typed.keys = .uniform ∧ typed.column = column
    | .perTable keys => typed.keys = .perTable keys

open OwnScope Except List

namespace Mirrors

variable {raw : OwnScope} {ty : Orm.Scope}

section Mirrors

variable (hmi : Mirrors raw ty)

include hmi

theorem resolve (t : Text) : (∃ err, raw.keys.resolve t = .error err ∧
      ty.resolveTable t = .error (.tenancyUndeclared t)) ∨
    ∃ r, raw.keys.resolve t = .ok r ∧ ty.resolveTable t = .ok r := by
  have k := hmi.keys
  cases hf : raw.keys with
  | uniform c =>
    rw [hf] at k
    exact .inr ⟨.column c, rfl, by simp [Orm.Scope.resolveTable, k.1, k.2]⟩
  | perTable es =>
    rw [hf] at k
    cases hd : es.get? t with
    | none =>
      exact .inl ⟨.tenancyUndeclared t, by simp [OwnKeys.resolve, hd],
        by simp [Orm.Scope.resolveTable, k, hd]⟩
    | some r =>
      exact .inr ⟨r, by simp [OwnKeys.resolve, hd], by simp [Orm.Scope.resolveTable, k, hd]⟩

theorem publicPred (t : Text) (rf : Option Text) : ty.publicPred t rf = .ok none := by
  have k := hmi.keys
  cases hf : raw.keys with
  | uniform c =>
    rw [hf] at k
    simp [Orm.Scope.publicPred, k.1]
  | perTable es =>
    rw [hf] at k
    simp [Orm.Scope.publicPred, k]

theorem noPrincipal {vs : List SqlValue} {ql : Ident} {rf : Option Text} :
    Agreement (SameRows vs ql rf) raw.noPrincipalPred (ty.noPrincipalReadPred.map some) := by
  rw [noPrincipalPred, Orm.Scope.noPrincipalReadPred, hmi.passUnresolved]
  cases raw.passUnresolved with
  | true => exact .both .never
  | false => exact .refused _ _

end Mirrors

section

variable {ta : Text} (q : Ident) (r : Option Text)

end

end Mirrors

end BoatRamp.RawSql

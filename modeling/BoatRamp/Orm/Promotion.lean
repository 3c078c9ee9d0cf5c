import BoatRamp.Library.Machine
import BoatRamp.Orm.Meaning
import BoatRamp.Orm.Scope

/-!
# Tables of tenants and anonymous sessions

A row of such a table belongs to a tenant or to a session, and each has a column
of its own.  A reader with a session is confined by the column of the session
alone.  Promotion gives the rows of a session to a tenant and leaves that column
as it is.
-/

namespace BoatRamp.Orm

open Library Tenancy List Option Scope

def singleScopePred (scope : Scope) (table : Text) : Except OrmError (Option Predicate) := do
  match ← scope.writeTarget table with
  | none => return none
  | some (column, value) =>
    let _ ← ident column
    return some (if value = .null then .null (.column column) false
      else .cmp (.column column) .eq (.value value))

def compilePromote (scope : Scope) (table : Text) :
    Except OrmError (Text × SqlValue × Predicate) := do
  if scope.isTarget then throw (.targetWriteUnsupported "promote".toList)
  match ← scope.resolveTable table with
  | .tenantOrSession tenant session =>
    let _ ← ident tenant
    let _ ← ident session
    match scope.value, scope.session with
    | some value, some owner =>
      return (tenant, value,
        .and [.cmp (.column session) .eq (.value owner), .null (.column tenant) false])
    | _, _ => throw .tenancyNoPrincipal
  | _ => throw (.badExpr
      "promote requires a TenantOrSession table (an anonymous-first table)".toList)

/-- A table whose rows have one column for the tenant and another for the session. -/
structure AnonymousTable where
  name : Text
  tenant : Text
  session : Text
  distinct : tenant ≠ session

/-- What SQL says of NULL: it is what an unset column holds, and no comparison with it is true. -/
structure NullRules (engine : Engine) : Prop where
  unset : engine.isNull (engine.bound .null) = true
  compare : ∀ {datum : engine.Datum} (op : CmpOp) (other : engine.Datum),
    engine.isNull datum = true → engine.compare op datum other ≠ some true

abbrev Row (engine : Engine) := Text → engine.Datum

/-- The statements on the table.  A guest gives the other columns of an insert and of an update,
and chooses among the rows that its scope leaves. -/
inductive Statement (engine : Engine) where
  | insert (rows : List (Row engine))
  | update (filter : Row engine → Bool) (change : Row engine → Row engine)
  | delete (filter : Row engine → Bool)
  | promote

structure Action (engine : Engine) where
  scope : Scope
  statement : Statement engine

section Steps

variable {engine : Engine} (frame : Frame engine) (table : AnonymousTable)

def satisfies (pred : Option Predicate) (row : Row engine) : Bool :=
  pred.all fun pred => truth (frame.at none row) pred = some true

def inserted (target : Option (Text × SqlValue)) (row : Row engine) : Row engine :=
  let unowned := Function.update (Function.update row table.tenant (engine.bound .null))
    table.session (engine.bound .null)
  target.elim unowned fun stamp => Function.update unowned stamp.1 (engine.bound stamp.2)

/-- A change of a row that sets neither of the two columns. -/
def changed (row new : Row engine) : Row engine :=
  fun name => if name = table.tenant ∨ name = table.session then row name else new name

def afterStatement (rows : List (Row engine)) (action : Action engine) : List (Row engine) :=
  match action.statement with
  | .insert fresh =>
    match action.scope.writeTarget table.name with
    | .ok target => rows ++ fresh.map (inserted table target)
    | .error _ => rows
  | .update filter change =>
    match singleScopePred action.scope table.name with
    | .ok pred => rows.map fun row =>
        if satisfies frame pred row && filter row then changed table row (change row) else row
    | .error _ => rows
  | .delete filter =>
    match singleScopePred action.scope table.name with
    | .ok pred => rows.filter fun row => !(satisfies frame pred row && filter row)
    | .error _ => rows
  | .promote =>
    match compilePromote action.scope table.name with
    | .ok (column, value, pred) => rows.map fun row =>
        if satisfies frame (some pred) row then Function.update row column (engine.bound value)
        else row
    | .error _ => rows

def tableMachine : Machine (List (Row engine)) (Action engine) Unit :=
  ⟨fun rows action => (afterStatement frame table rows action, ())⟩

def scopedRead (scope : Scope) (rows : List (Row engine)) : List (Row engine) :=
  match scope.readPred table.name none with
  | .ok pred => rows.filter (satisfies frame pred)
  | .error _ => []

def IsFor (scope : Scope) : Prop :=
  scope.resolveTable table.name = .ok (.tenantOrSession table.tenant table.session)

def ClaimsNothing (rows : List (Row engine)) (action : Action engine) : Prop :=
  IsFor table action.scope ∧
    ∀ owner, action.statement = .promote → action.scope.session = some owner →
      ∀ row ∈ rows, engine.compare .eq (row table.session) (engine.bound owner) = some true →
        engine.isNull (row table.tenant) = false

def OneOwner (row : Row engine) : Prop :=
  engine.isNull (row table.tenant) = true ∨ engine.isNull (row table.session) = true

end Steps

section Runs

variable {engine : Engine} {table : AnonymousTable} {scope : Scope}

theorem writeTarget_columns (hf : IsFor table scope) {c : Text} {v : SqlValue}
    (ht : scope.writeTarget table.name = .ok (some (c, v))) :
    c = table.tenant ∨ c = table.session := by
  rw [IsFor] at hf
  simp only [writeTarget, hf, bind, Except.bind] at ht
  split at ht
  · cases ht
  split at ht
  · cases ht
  split at ht
  · cases ht
    exact .inl rfl
  · cases ht
    exact .inr rfl
  · cases ht

theorem inserted_oneOwner (hn : NullRules engine) (hf : IsFor table scope)
    {tg : Option (Text × SqlValue)} (ht : scope.writeTarget table.name = .ok tg)
    (row : Row engine) : OneOwner table (inserted table tg row) := by
  have hd := table.distinct
  cases tg with
  | none => exact .inr (by simp [inserted, hn.unset])
  | some s =>
    rcases writeTarget_columns hf ht with hc | hc
    · exact .inr (by simp [inserted, hc, hd.symm, hn.unset])
    · exact .inl (by simp [inserted, hc, hd, hn.unset])

theorem compilePromote_shape (hf : IsFor table scope) {c : Text} {v : SqlValue}
    {pred : Predicate} (hp : compilePromote scope table.name = .ok (c, v, pred)) :
    ∃ o, scope.session = some o ∧
      pred = .and [.cmp (.column table.session) .eq (.value o),
        .null (.column table.tenant) false] := by
  rw [IsFor] at hf
  simp only [compilePromote, hf, bind, Except.bind, pure, Except.pure] at hp
  repeat' split at hp
  all_goals first
    | cases hp
      done
    | cases hp
      exact ⟨_, by assumption, rfl⟩

variable {frame : Frame engine}

theorem not_promoted {r : List (Row engine)} {act : Action engine}
    (ha : ClaimsNothing table r act) (hs : act.statement = .promote) {c : Text}
    {v : SqlValue} {pred : Predicate}
    (hp : compilePromote act.scope table.name = .ok (c, v, pred)) {row : Row engine}
    (hi : row ∈ r) : satisfies frame (some pred) row = false := by
  obtain ⟨o, ho, rfl⟩ := compilePromote_shape ha.1 hp
  have hc := ha.2 o hs ho row hi
  by_contra hm
  simp only [satisfies, all_some, Bool.not_eq_false, decide_eq_true_eq, truth,
    truths_eq_map, Truth.all_eq_true_iff, map_cons, map_nil, mem_cons,
    forall_eq_or_imp, Frame.at, operand] at hm
  simp [hc hm.1] at hm

theorem afterStatement_oneOwner (hn : NullRules engine) {r : List (Row engine)}
    {act : Action engine} (hr : ∀ row ∈ r, OneOwner table row) (ha : ClaimsNothing table r act) :
    ∀ row ∈ afterStatement frame table r act, OneOwner table row := by
  intro row hi
  unfold afterStatement at hi
  cases hs : act.statement with
  | insert fr =>
    simp only [hs] at hi
    split at hi
    next tg ht =>
      rcases mem_append.mp hi with hi | hi
      · exact hr row hi
      · obtain ⟨new, -, rfl⟩ := mem_map.mp hi
        exact inserted_oneOwner hn ha.1 ht new
    next => exact hr row hi
  | update f ch =>
    simp only [hs] at hi
    split at hi
    next pred _ =>
      obtain ⟨old, ho, rfl⟩ := mem_map.mp hi
      split
      · simpa [OneOwner, changed] using hr old ho
      · exact hr old ho
    next => exact hr row hi
  | delete f =>
    simp only [hs] at hi
    split at hi
    next => exact hr row (mem_of_mem_filter hi)
    next => exact hr row hi
  | promote =>
    simp only [hs] at hi
    split at hi
    next c v pred hp =>
      obtain ⟨old, ho, rfl⟩ := mem_map.mp hi
      rw [not_promoted ha hs hp ho]
      exact hr old ho
    next => exact hr row hi

/-- A reader that holds only a session is confined by the column of the session. -/
theorem session_of_scopedRead (hf : IsFor table scope) (hm : scope.mode ≠ .all)
    (hv : scope.value = none) {o : SqlValue} (ho : scope.session = some o)
    {ro : List (Row engine)} {row : Row engine} (hi : row ∈ scopedRead frame table scope ro) :
    row ∈ ro ∧ engine.compare .eq (row table.session) (engine.bound o) = some true := by
  unfold scopedRead at hi
  split at hi
  next pred hp =>
    obtain ⟨hi, hs⟩ := mem_filter.mp hi
    refine ⟨hi, ?_⟩
    simp only [readPred, bind_eq_ok_iff] at hp
    obtain ⟨r, hr, t, ht, s, -, hj⟩ := hp
    rw [IsFor] at hf
    rw [hf] at hr
    cases hr
    obtain ⟨_, -, ht⟩ := bind_eq_ok_iff.mp ht
    obtain ⟨_, -, ht⟩ := bind_eq_ok_iff.mp ht
    simp only [disjunctPred, hm, if_false, hv, ho, map_none, map_some,
      toList_none, toList_some, nil_append, Except.ok.injEq] at ht
    cases hj
    subst ht
    cases s with
    | none =>
      simp only [satisfies, joined, conjoinFront, all_some, truth, operand, colExpr, Frame.at] at hs
      exact of_decide_eq_true hs
    | some ad =>
      simp only [satisfies, joined, conjoinFront, all_some, truth, truths_eq_map,
        operand, colExpr, Frame.at, decide_eq_true_eq, Truth.all_eq_true_iff,
        map_cons, map_nil, mem_cons, forall_eq_or_imp] at hs
      exact hs.2.1
  next => cases hi

/-- As long as promotions find no row to claim, a reader that holds only a session is returned no
row of a tenant. -/
theorem session_reads_no_tenant (rules : NullRules engine) (frame : Frame engine)
    {actions : List (Action engine)}
    (allowed : (tableMachine frame table).Meets (ClaimsNothing table) [] actions)
    (reader : IsFor table scope) (confined : scope.mode ≠ .all) (anonymous : scope.value = none)
    {owner : SqlValue} (held : scope.session = some owner) :
    ∀ row ∈ scopedRead frame table scope ((tableMachine frame table).final [] actions),
      engine.isNull (row table.tenant) = true := by
  intro row hi
  obtain ⟨hi, hs⟩ := session_of_scopedRead reader confined anonymous held hi
  have hk : ∀ r act, (∀ row ∈ r, OneOwner table row) → ClaimsNothing table r act →
      ∀ row ∈ ((tableMachine frame table).step r act).1, OneOwner table row :=
    fun r act hr ha => afterStatement_oneOwner rules hr ha
  have ho : ∀ row ∈ (tableMachine frame table).final [] actions, OneOwner table row :=
    Machine.invariant hk (fun _ hi => absurd hi List.not_mem_nil) allowed
  rcases ho row hi with ht | hn
  · exact ht
  · exact absurd hs (rules.compare .eq _ hn)

end Runs

namespace Carts

def carts : AnonymousTable :=
  ⟨"carts".toList, "tenant_id".toList, "session_id".toList, by decide⟩

def frame : Frame .direct := ⟨fun _ => .null, fun _ => .null, fun _ => none⟩

def actor (tenant session : Option SqlValue) : Scope :=
  ⟨carts.tenant, tenant, session, .own,
    .perTable (SortedMap.empty.insert carts.name (.tenantOrSession carts.tenant carts.session)),
    [], false⟩

def anonymous (session : String) : Scope := actor none (some (.text session.toList))

def visitor : Scope := anonymous "s1"

def customer : Scope := actor (some (.text "acme".toList)) (some (.text "s1".toList))

def cart (owner : Scope) : Action .direct := ⟨owner, .insert [fun _ => .integer 1]⟩

def promotion : Action .direct := ⟨customer, .promote⟩

def tenantsRead (actions : List (Action .direct)) : List SqlValue :=
  (scopedRead frame carts visitor ((tableMachine frame carts).final [] actions)).map
    (· carts.tenant)

theorem rules : NullRules .direct where
  unset := rfl
  compare op o hn := by
    simp only [Engine.direct, decide_eq_true_eq] at hn
    simp [Engine.direct, hn]

/-- The promotion finds the cart of another session, and leaves it. -/
theorem unclaimed_read :
    tenantsRead [cart (anonymous "s2"), promotion, cart visitor] = [.null] ∧
      ∀ row ∈ scopedRead frame carts visitor ((tableMachine frame carts).final []
          [cart (anonymous "s2"), promotion, cart visitor]),
        Engine.direct.isNull (row carts.tenant) = true := by
  refine ⟨by decide +kernel, ?_⟩
  refine session_reads_no_tenant rules frame ⟨⟨rfl, fun _ other => by cases other⟩, ⟨rfl, ?_⟩,
    ⟨rfl, fun _ other => by cases other⟩, trivial⟩ rfl (by decide) rfl rfl
  rintro owner - held row stored
  cases held
  have only : ∀ row ∈ (tableMachine frame carts).final [] [cart (anonymous "s2")],
      Engine.direct.compare .eq (row carts.session) (.text "s1".toList) ≠ some true := by
    decide +kernel
  exact fun same => absurd same (only row stored)

/-- The cart of the session now belongs to the tenant, and the session still reads it. -/
theorem claimed_row_read : tenantsRead [cart visitor, promotion] = [.text "acme".toList] := by
  decide +kernel

end Carts

end BoatRamp.Orm

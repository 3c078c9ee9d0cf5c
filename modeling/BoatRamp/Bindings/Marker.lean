import BoatRamp.Bindings.Session

/-!
# What writes run under

Between operations the tenant variable of the transaction that writes is safe,
or it is recorded that the marker is on it.  A write first takes the marker off,
so that it runs under a safe value; what counts as safe is a parameter.
-/

namespace BoatRamp.Bindings

open Tenancy Library Attempt Host HostTenancy

section Keeping

variable (host : Host) (Safe : Option Text → Prop) (Good : Execution → Prop)

/-- The variable of the transaction that writes is safe; unless the condition is strict, the marker
may be on it when this is recorded. -/
def Guarded (strict : Bool) (session : SqlSession) : Prop :=
  ∀ transaction, session.txns false = some transaction → transaction.aborted = false →
    Safe transaction.tenantGuc ∨ strict = false ∧ session.markerLive false = true

def Kept (strict : Bool) (session : SqlSession) : Prop :=
  Guarded Safe strict session ∧ ∀ execution ∈ session.executed, Good execution

abbrev Keeps (strict : Bool) (computation : Attempt SqlSession Unit) : Prop :=
  Triple (Kept Safe Good strict) computation (fun _ => Kept Safe Good strict)
    (Kept Safe Good strict)

variable {host Safe Good} {strict readOnly : Bool} {session : SqlSession}

theorem Kept.of_strict (hk : Kept Safe Good true session) (markerLive : Bool → Bool) :
    Kept Safe Good strict { session with markerLive } :=
  ⟨fun t ht ha => .inl ((hk.1 t ht ha).resolve_right (by simp)), hk.2⟩

theorem Kept.setTxn (hk : Kept Safe Good strict session) {tr : Transaction}
    (ht : readOnly = false → tr.aborted = false →
      Safe tr.tenantGuc ∨ strict = false ∧ session.markerLive false = true) :
    Kept Safe Good strict (setTxn readOnly tr session) := by
  refine ⟨fun t hs ha => ?_, hk.2⟩
  cases readOnly with
  | true => exact hk.1 t (by simpa [setTxn] using hs) ha
  | false =>
    obtain rfl : tr = t := by simpa [setTxn] using hs
    exact ht rfl ha

theorem call_keeps : Keeps Safe Good strict call := by
  intro session hk
  unfold call
  rcases session.outcomes with _ | ⟨_ | _, o⟩ <;> exact hk

theorem txn_keeps (ho : Safe host.opening) : Keeps Safe Good strict (host.txn readOnly) := by
  intro session hk
  unfold txn
  by_cases hs : (session.txns readOnly).isSome = true
  · rw [if_pos hs]
    exact hk
  rw [if_neg hs]
  refine Triple.bind call_keeps (fun _ => ?_) session hk
  exact fun session hk => hk.setTxn fun _ _ => .inl ho

/-- After a statement the variable is what the statement makes of a value that was guarded. -/
def Ran (Safe : Option Text → Prop) (Good : Execution → Prop) (strict readOnly : Bool)
    (change : Option Text → Option Text) (session : SqlSession) : Prop :=
  (readOnly = true → Guarded Safe strict session) ∧
    (∀ execution ∈ session.executed, Good execution) ∧
    (readOnly = false → ∃ guc, session.txns false = some ⟨change guc, false⟩ ∧
      (Safe guc ∨ strict = false ∧ session.markerLive false = true))

theorem run_ran {r : Option Text → List Execution} {c : Option Text → Option Text}
    (hr : ∀ guc, (readOnly = false → strict = true → Safe guc) → ∀ e ∈ r guc, Good e) :
    Triple (Kept Safe Good strict) (run readOnly r c)
      (fun _ => Ran Safe Good strict readOnly c) (Kept Safe Good strict) := by
  intro session hk
  unfold run
  cases ht : session.txns readOnly with
  | none => exact hk
  | some t =>
    cases ha : t.aborted with
    | true => simpa [ha] using hk
    | false =>
      have hs : readOnly = false → Safe t.tenantGuc ∨
          strict = false ∧ session.markerLive false = true :=
        fun h => hk.1 t (h ▸ ht) ha
      have hg := hr t.tenantGuc fun h hst => (hs h).resolve_right (by simp [hst])
      simp only [ha, Bool.false_eq_true, if_false]
      have hk' : Kept Safe Good strict
          { session with executed := session.executed ++ r t.tenantGuc } :=
        ⟨hk.1, fun e hi => (List.mem_append.mp hi).elim (hk.2 e) (hg e)⟩
      unfold call
      dsimp only
      rcases session.outcomes with _ | ⟨_ | _, o⟩
      · exact ⟨fun h => (hk'.setTxn fun hf => by simp [h] at hf).1, hk'.2,
          fun h => ⟨_, by simp [setTxn, h], hs h⟩⟩
      · exact ⟨fun h => (hk'.setTxn fun hf => by simp [h] at hf).1, hk'.2,
          fun h => ⟨_, by simp [setTxn, h], hs h⟩⟩
      · exact hk'.setTxn fun _ h => by cases h

theorem Ran.kept {c : Option Text → Option Text} (hr : Ran Safe Good strict readOnly c session)
    (hc : ∀ guc, Safe guc ∨ strict = false ∧ session.markerLive false = true →
      Safe (c guc) ∨ strict = false ∧ session.markerLive false = true) :
    Kept Safe Good strict session := by
  obtain ⟨hg, he, hw⟩ := hr
  refine ⟨?_, he⟩
  cases readOnly with
  | true => exact hg rfl
  | false =>
    obtain ⟨guc, ht, hs⟩ := hw rfl
    intro t hf _
    obtain rfl := Option.some.inj (ht.symm.trans hf)
    exact hc guc hs

theorem run_keeps {r : Option Text → List Execution}
    (hr : ∀ guc, (readOnly = false → strict = true → Safe guc) → ∀ e ∈ r guc, Good e) :
    Keeps Safe Good strict (run readOnly r id) :=
  (run_ran hr).imp (fun _ _ h => h.kept fun _ => id) fun _ => id

variable (hg : host.rlsGuc.isSome = true) (ho : Safe host.opening)

include hg ho

theorem setRlsTenantOn_ran (v : SqlValue) :
    Triple (Kept Safe Good strict) (host.setRlsTenantOn readOnly v)
      (fun _ => Ran Safe Good strict readOnly fun _ => some (host.gucText v))
      (Kept Safe Good strict) := by
  unfold setRlsTenantOn
  rw [if_pos hg]
  exact .bind (txn_keeps ho) fun _ => run_ran fun _ _ _ he => absurd he List.not_mem_nil

theorem setRlsTenantOn_safe {v : SqlValue} (hs : Safe (some (host.gucText v))) :
    Triple (Kept Safe Good strict) (host.setRlsTenantOn false v)
      (fun _ => Kept Safe Good true) (Kept Safe Good strict) := by
  refine (setRlsTenantOn_ran hg ho v).imp (fun _ session hr => ⟨?_, hr.2.1⟩) fun _ => id
  obtain ⟨_, ht, -⟩ := hr.2.2 rfl
  intro t hf _
  obtain rfl := Option.some.inj (ht.symm.trans hf)
  exact .inl hs

theorem setAllReadMarker_keeps (a : Axis) :
    Keeps Safe Good false (host.setAllReadMarker readOnly a) := by
  unfold setAllReadMarker
  split
  next m _ =>
    split
    next =>
      refine .bind (setRlsTenantOn_ran hg ho _) fun _ session hr => ?_
      refine ⟨fun t ht ha => ?_, hr.2.1⟩
      cases readOnly with
      | true => exact (hr.1 rfl t ht ha).imp_right fun h => by simpa using h
      | false => exact .inr (by simp)
    next => exact .pure ()
  next => exact .pure ()

theorem defendWriteMarker_keeps (hs : Safe (some (host.gucText host.restore))) :
    Triple (Kept Safe Good false) host.defendWriteMarker
      (fun _ => Kept Safe Good true) (Kept Safe Good false) := by
  intro session hk
  unfold defendWriteMarker
  cases hl : session.markerLive false with
  | true =>
    have hm : Triple (Kept Safe Good true) (Attempt.modify fun session =>
        { session with markerLive := Function.update session.markerLive false false })
        (fun _ => Kept Safe Good true) (Kept Safe Good false) :=
      fun session hk => hk.of_strict _
    have h := Triple.bind (setRlsTenantOn_safe hg ho hs) (fun _ => hm) session hk
    simpa [bind, Attempt.read, hl] using h
  | false =>
    have h : Kept Safe Good true session :=
      ⟨fun t ht ha => .inl ((hk.1 t ht ha).resolve_right (by simp [hl])), hk.2⟩
    simp only [bind, Attempt.read, hl, Bool.false_eq_true]
    exact h

omit hg in
theorem statement_keeps {a : Axis} {u : Bool}
    (hr : ∀ guc, (readOnly = false → strict = true → Safe guc) → Good ⟨readOnly, a, u, guc⟩) :
    Keeps Safe Good strict (do
      host.txn readOnly
      run readOnly (fun guc => [⟨readOnly, a, u, guc⟩]) id) := by
  refine .bind (txn_keeps ho) fun _ => run_keeps fun guc hh e he => ?_
  rw [List.mem_singleton.mp he]
  exact hr guc hh

omit hg ho in
theorem strict_relaxes {c : Attempt SqlSession Unit} (ht : Keeps Safe Good true c) :
    Triple (Kept Safe Good true) c (fun _ => Kept Safe Good false) (Kept Safe Good false) :=
  ht.imp (fun _ session hk => hk.of_strict session.markerLive)
    (fun session hk => hk.of_strict session.markerLive)

omit hg ho in
theorem strict_stops {c : Attempt SqlSession Unit} (ht : Keeps Safe Good true c) :
    Triple (Kept Safe Good true) c (fun _ => Kept Safe Good true) (Kept Safe Good false) :=
  ht.imp (fun _ _ => id) fun session hk => hk.of_strict session.markerLive

theorem setDeclared_keeps {val : Option SqlValue}
    (hv : ∀ v, val = some v → Safe (some (host.gucText v))) :
    Keeps Safe Good true (host.setDeclared val) := by
  cases val with
  | none => exact .pure ()
  | some v => exact setRlsTenantOn_safe hg ho (hv v rfl)

/-- The statement that the guest's raw statement becomes leaves the tenant variable alone. -/
def Operation.Quiet (host : Host) : Operation → Prop
  | .query _ statement => quiet statement
  | .execute _ statement => quiet statement
  | _ => True
where
  quiet (statement : Text) : Prop :=
    ∀ confined, host.applyScopeMarker (stmtAxis statement) statement = some confined →
      host.guest confined = id

variable (hs : Safe (some (host.gucText host.restore)))

include hs

theorem rawStatement_keeps {s : Text} (hq : Operation.Quiet.quiet host s)
    (hv : ∀ v, Operation.declared.raw host s = some v → Safe (some (host.gucText v)))
    (hr : ∀ c guc, host.applyScopeMarker (stmtAxis s) s = some c →
      (readOnly = false → stmtAxis s = .write → Safe guc) →
      Good ⟨readOnly, stmtAxis s, stmtAxis s = .write &&
        (host.extractRawWriteScopeValue c).isNone, guc⟩) :
    Keeps Safe Good false (host.rawStatement readOnly s) := by
  unfold rawStatement
  by_cases hf : (host.injectsSessionContext && host.reserved s) = true
  · rw [if_pos hf]
    exact .stop
  rw [if_neg hf]
  dsimp only
  cases hc : host.applyScopeMarker (stmtAxis s) s with
  | none => exact .stop
  | some c =>
    dsimp only
    rw [hq c hc]
    have hh := fun guc hhs => hr c guc hc hhs
    unfold Operation.declared.raw at hv
    cases ha : stmtAxis s with
    | read =>
      rw [ha] at hh
      refine .bind (.pure ()) fun _ => ?_
      refine .bind (setAllReadMarker_keeps hg ho .read) fun _ => ?_
      exact statement_keeps ho fun guc _ => hh guc fun _ h => by cases h
    | write =>
      rw [ha] at hh hc
      rw [ha, if_pos rfl, hc] at hv
      have hw : Triple (Kept Safe Good false) (host.applyAllWriteRls c .write)
          (fun _ => Kept Safe Good true) (Kept Safe Good false) := by
        unfold applyAllWriteRls
        rw [if_pos hg]
        exact .bind (defendWriteMarker_keeps hg ho hs)
          (fun _ => strict_stops (setDeclared_keeps hg ho hv))
      refine .bind hw fun _ => ?_
      refine .bind (.pure ()) fun _ => ?_
      apply strict_relaxes
      exact statement_keeps ho fun guc hhs => hh guc fun h _ => hhs h rfl

theorem ormWrite_keeps {val : Option SqlValue} {u a : Bool}
    (hv : ∀ v, val = some v → Safe (some (host.gucText v)))
    (hr : ∀ guc, Safe guc → Good ⟨false, .write, u, guc⟩) :
    Keeps Safe Good false (host.ormWrite val u a) := by
  refine .bind (defendWriteMarker_keeps hg ho hs) fun _ => ?_
  cases a with
  | false => exact strict_stops .stop
  | true =>
    refine .bind (strict_stops (setDeclared_keeps hg ho hv)) fun _ => ?_
    apply strict_relaxes
    exact statement_keeps ho fun guc hh => hr guc (hh rfl rfl)

omit hs in
theorem ormSelect_keeps {a : Bool} (hr : ∀ guc, Good ⟨false, .read, false, guc⟩) :
    Keeps Safe Good false (host.ormSelect a) := by
  cases a with
  | false => exact .stop
  | true =>
    refine .bind (setAllReadMarker_keeps hg ho .read) fun _ => ?_
    exact statement_keeps ho fun guc _ => hr guc

theorem perform_keeps {op : Operation} (hq : op.Quiet host)
    (hv : ∀ v, op.declared host = some v → Safe (some (host.gucText v))) (hr : ∀ e : Execution,
      (e.undeclared = true → e.axis = .write ∧ op.undeclared host = true) →
      (e.readOnly = false → e.axis = .write → Safe e.tenantGuc) → Good e) :
    Keeps Safe Good false (op.perform host) := by
  have hhr (readOnly : Bool) {s : Text} (hq : Operation.Quiet.quiet host s)
      (hv : ∀ v, Operation.declared.raw host s = some v → Safe (some (host.gucText v)))
      (hu : Operation.undeclared.raw host s = true → op.undeclared host = true) :
      Keeps Safe Good false (host.rawStatement readOnly s) := by
    refine rawStatement_keeps hg ho hs hq hv fun c guc hc hh => hr _ ?_ hh
    intro he
    simp only [Bool.and_eq_true, decide_eq_true_eq] at he
    rw [he.1] at hc
    exact ⟨he.1, hu (by simp [Operation.undeclared.raw, he.1, hc, he.2])⟩
  have hhp {a : Bool} : Keeps Safe Good false (host.ormWrite none false a) :=
    ormWrite_keeps hg ho hs (fun _ h => by cases h) fun guc hh =>
      hr _ (fun h => by cases h) fun _ _ => hh
  cases op with
  | select a =>
    exact ormSelect_keeps hg ho fun guc => hr _ (fun h => by cases h) fun _ h => by cases h
  | insert r a | update ch a =>
    exact ormWrite_keeps hg ho hs hv fun guc hh => hr _ (fun h => ⟨rfl, h⟩) fun _ _ => hh
  | delete a | deleteReturning a | promote a | attachReference a => exact hhp
  | query readOnly s | execute readOnly s => exact hhr readOnly hq hv id

end Keeping

section Runs

variable {host : Host} {Safe : Option Text → Prop}

theorem restore_safe (he : Safe (some []))
    (hp : ∀ v, host.tenancy.bind rlsTenantValue = some v → Safe (some (host.gucText v))) :
    Safe (some (host.gucText host.restore)) := by
  unfold restore
  cases hv : host.tenancy.bind rlsTenantValue with
  | none => exact he
  | some v => exact hp v hv

theorem opening_safe (hn : Safe none)
    (hp : ∀ v, host.tenancy.bind rlsTenantValue = some v → Safe (some (host.gucText v))) :
    Safe host.opening := by
  unfold opening
  split
  · cases hv : host.tenancy.bind rlsTenantValue with
    | none => exact hn
    | some v => exact hp v hv
  · exact hn

theorem step_kept {Good : Execution → Prop}
    (hg : host.rlsGuc.isSome = true) (ho : Safe host.opening)
    (hs : Safe (some (host.gucText host.restore))) {session : SqlSession}
    {act : Operation × List Bool} (hq : act.1.Quiet host)
    (hv : ∀ v, act.1.declared host = some v → Safe (some (host.gucText v))) (hr : ∀ e : Execution,
      (e.undeclared = true → e.axis = .write ∧ act.1.undeclared host = true) →
      (e.readOnly = false → e.axis = .write → Safe e.tenantGuc) → Good e)
    (hk : Kept Safe Good false session) :
    Kept Safe Good false ((machine host).step session act).1 :=
  (perform_keeps hg ho hs hq hv hr).ends hk

theorem initial_kept {Good : Execution → Prop} : Kept Safe Good false .initial :=
  ⟨fun _ h => absurd h (by simp [SqlSession.initial]), fun _ h => absurd h List.not_mem_nil⟩

/-- Unless a tenant is called like the marker, no write runs under the marker. -/
theorem no_write_under_marker {guc : RlsGuc} {marker : Text} (configured : host.rlsGuc = some guc)
    (marked : guc.allMarker = some marker)
    (principal : ∀ v, host.tenancy.bind HostTenancy.rlsTenantValue = some v →
      host.gucText v ≠ marker)
    {actions : List (Operation × List Bool)} (quiet : ∀ action ∈ actions, action.1.Quiet host)
    (named : ∀ action ∈ actions, ∀ v, action.1.declared host = some v → host.gucText v ≠ marker) :
    ∀ e ∈ ((machine host).final .initial actions).executed,
      e.readOnly = false → e.axis = .write → e.tenantGuc ≠ some marker := by
  have he : some [] ≠ some marker := fun h => guc.marked (marked.trans h.symm)
  have hp : ∀ v, host.tenancy.bind HostTenancy.rlsTenantValue = some v →
      some (host.gucText v) ≠ some marker := fun v hv h => principal v hv (Option.some.inj h)
  have hk : ∀ session (action : Operation × List Bool), Kept (· ≠ some marker)
        (fun e => e.readOnly = false → e.axis = .write → e.tenantGuc ≠ some marker) false session →
      (action.1.Quiet host ∧ ∀ v, action.1.declared host = some v → host.gucText v ≠ marker) →
      Kept (· ≠ some marker)
        (fun e => e.readOnly = false → e.axis = .write → e.tenantGuc ≠ some marker) false
        ((machine host).step session action).1 :=
    fun session action hk ha =>
      step_kept (by rw [configured]; rfl) (opening_safe (by simp) hp) (restore_safe he hp) ha.1
        (fun v hv h => ha.2 v hv (Option.some.inj h)) (fun _ _ => id) hk
  exact (Machine.invariant hk initial_kept ((machine host).meets_of_forall _
    (fun action hi => ⟨quiet action hi, named action hi⟩))).2

theorem not_undeclared_of_declared {op : Operation} {v : SqlValue}
    (hd : op.declared host = some v) : op.undeclared host = false := by
  have hh {s : Text} (hd : Operation.declared.raw host s = some v) :
      Operation.undeclared.raw host s = false := by
    unfold Operation.declared.raw at hd
    unfold Operation.undeclared.raw
    split at hd
    next =>
      obtain ⟨c, hc, hv⟩ := Option.bind_eq_some_iff.mp hd
      unfold declared at hv
      split at hv
      next =>
        obtain ⟨_, -, hv⟩ := Option.bind_eq_some_iff.mp hv
        simp [hc, hv]
      next => cases hv
    next => cases hd
  cases op with
  | insert r a | update ch a => exact congrArg Option.isNone hd
  | query readOnly s | execute readOnly s => exact hh hd
  | _ => cases hd

/-- The variable names no tenant, and row-level security denies the write. -/
def Denied (guc : Option Text) : Prop := guc = none ∨ guc = some []

def DeniedIfUndeclared (e : Execution) : Prop :=
  e.readOnly = false → e.undeclared = true → Denied e.tenantGuc

theorem final_denied (hg : host.rlsGuc.isSome = true)
    (hp : host.tenancy.bind rlsTenantValue = none) {session : SqlSession}
    {acts : List (Operation × List Bool)} (hq : ∀ act ∈ acts, act.1.Quiet host)
    (ho : acts.Pairwise fun er l =>
      (er.1.declared host).isSome = true → l.1.undeclared host = false)
    (hk : Kept Denied DeniedIfUndeclared false session) :
    ∀ e ∈ ((machine host).final session acts).executed, DeniedIfUndeclared e := by
  induction acts generalizing session with
  | nil => exact hk.2
  | cons act rest ih =>
    have hn : ∀ v, host.tenancy.bind rlsTenantValue = some v →
        Denied (some (host.gucText v)) := fun v hv => by simp [hp] at hv
    have hqa := hq act List.mem_cons_self
    obtain ⟨hhf, hhr⟩ := List.pairwise_cons.mp ho
    cases hd : act.1.declared host with
    | none =>
      refine ih (fun a hi => hq a (List.mem_cons_of_mem _ hi)) hhr ?_
      exact step_kept hg (opening_safe (.inl rfl) hn) (restore_safe (.inr rfl) hn) hqa
        (fun v hv => by simp [hd] at hv) (fun e hu hw hhd hh => hw hhd (hu hh).1) hk
    | some v =>
      -- from here on every write is declared, and nothing is recorded that the claim is about
      have hu : ∀ a ∈ act :: rest, a.1.Quiet host ∧ a.1.undeclared host = false := by
        intro a hi
        refine ⟨hq a hi, ?_⟩
        rcases List.mem_cons.mp hi with rfl | hi
        · exact not_undeclared_of_declared hd
        · exact hhf a hi (by simp [hd])
      have hhk : ∀ session (a : Operation × List Bool),
          Kept (fun _ => True) DeniedIfUndeclared false session →
          (a.1.Quiet host ∧ a.1.undeclared host = false) →
          Kept (fun _ => True) DeniedIfUndeclared false ((machine host).step session a).1 :=
        fun session a hk ha => step_kept hg trivial trivial ha.1 (fun _ _ => trivial)
          (fun e hu _ _ hh => by simp [ha.2] at hu; simp [hu] at hh) hk
      exact (Machine.invariant hhk ⟨fun _ _ _ => .inl trivial, hk.2⟩
        ((machine host).meets_of_forall _ hu)).2

/-- A write without a tenant of its own runs without a tenant, as long as the principal has none
and no write with a tenant has gone before. -/
theorem undeclared_writes_denied (configured : host.rlsGuc.isSome = true)
    (anonymous : host.tenancy.bind HostTenancy.rlsTenantValue = none)
    {actions : List (Operation × List Bool)} (quiet : ∀ action ∈ actions, action.1.Quiet host)
    (ordered : actions.Pairwise fun earlier later =>
      (earlier.1.declared host).isSome = true → later.1.undeclared host = false) :
    ∀ e ∈ ((machine host).final .initial actions).executed,
      e.readOnly = false → e.undeclared = true → Denied e.tenantGuc :=
  final_denied configured anonymous quiet ordered initial_kept

end Runs

namespace Leftover

def acme : Text := "acme".toList

def STAR : Text := "*".toList

def host (reads : AccessMode) : Host where
  rlsGuc := some ⟨some STAR, by decide⟩
  tenancy := some ⟨"tenant_id".toList, [], reads, .all, .uniform⟩
  injectsSessionContext := true
  reserved _ := false
  applyScopeMarker _ statement := some statement
  extractRawWriteScopeValue _ := none
  guest _ := id
  showReal _ := []

def insertion (tenant : Text) : Operation :=
  .insert ⟨"orders".toList, [[("tenant_id".toList, .value (.text tenant))]]⟩ true

def edit : Operation := .update ⟨"orders".toList, .null (.column "paid".toList) false⟩ true

def executed (reads : AccessMode) (operations : List Operation) : List Execution :=
  ((machine (host reads)).final .initial (operations.map (·, []))).executed

theorem quiet (r : AccessMode) (op : Operation) : op.Quiet (host r) := by
  cases op with
  | query readOnly s | execute readOnly s => exact fun _ _ => rfl
  | _ => trivial

theorem read_then_write : executed .all [.select true, insertion acme] =
        [⟨false, .read, false, some STAR⟩, ⟨false, .write, false, some acme⟩] ∧
      ∀ e ∈ executed .all [.select true, insertion acme],
        e.readOnly = false → e.axis = .write → e.tenantGuc ≠ some STAR := by
  refine ⟨by decide +kernel, ?_⟩
  refine no_write_under_marker rfl rfl (fun _ h => by cases h) (fun a _ => quiet .all a.1) ?_
  intro act hi v hv
  rcases List.mem_cons.mp hi with rfl | hi
  · cases hv
  obtain rfl := List.mem_singleton.mp hi
  have hd : (insertion acme).declared (host .all) = some (.text acme) := by decide +kernel
  obtain rfl := Option.some.inj (hd.symm.trans hv)
  exact fun h => absurd h (by decide)

/-- A row for a tenant called like the marker is written under the marker. -/
theorem marker_declared : executed .all [insertion STAR] = [⟨false, .write, false, some STAR⟩] := by
  decide +kernel

/-- An update of all orders behind a read under the marker and before an insert for a tenant. -/
theorem edit_denied : executed .all [.select true, edit, insertion acme] =
        [⟨false, .read, false, some STAR⟩, ⟨false, .write, true, some []⟩,
          ⟨false, .write, false, some acme⟩] ∧
      ∀ e ∈ executed .all [.select true, edit, insertion acme],
        e.readOnly = false → e.undeclared = true → Denied e.tenantGuc :=
  ⟨by decide +kernel, undeclared_writes_denied rfl rfl (fun a _ => quiet .all a.1)
    (by decide +kernel)⟩

/-- The update of all orders runs under the tenant of the insert before it. -/
theorem edit_under_other_tenant : executed .own [insertion acme, edit] =
      [⟨false, .write, false, some acme⟩, ⟨false, .write, true, some acme⟩] := by
  decide +kernel

end Leftover

end BoatRamp.Bindings

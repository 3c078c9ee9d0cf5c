import BoatRamp.Bindings.Tenancy
import BoatRamp.Library.Attempt
import BoatRamp.Library.Machine
import Mathlib.Logic.Function.Basic

/-!
# The database session of an invocation

A database with row-level security learns the tenant of a transaction from a
session variable.  The host sets it when the transaction is opened, before a
write of a component that may write for every tenant, and, to a marker, before a
read of one that may read across tenants.  The two bindings share the
transactions of a session, one to write and one that only reads.
-/

namespace BoatRamp.Bindings

open Tenancy Library

/-- Blanks and comments in front of the first keyword are skipped. -/
def skipComments : (fuel : Nat) → Text → Text
  | 0, text => text
  | fuel + 1, text =>
    let text := trimStart isWhitespace text
    match stripHead "--".toList text, stripHead "/*".toList text with
    | some rest, _ => skipComments fuel (((splitOnceAt '\n' rest).map Prod.snd).getD [])
    | none, some rest => skipComments fuel (afterComment rest)
    | none, none => text
where
  afterComment : Text → Text
    | '*' :: '/' :: rest => rest
    | _ :: rest => afterComment rest
    | [] => []

def stmtAxis (statement : Text) : Axis :=
  let word := (skipComments (statement.length + 1) statement).takeWhile isAsciiAlphabetic
  if eqIgnoreAsciiCase word "select".toList then .read else .write

/-- The session variable for the tenant, and the marker that stands for all tenants; a blank marker
is none. -/
structure RlsGuc where
  allMarker : Option Text
  marked : allMarker ≠ some []

structure Transaction where
  tenantGuc : Option Text
  aborted : Bool

/-- A statement that the database was given, and what the variable of its transaction was then. -/
structure Execution where
  readOnly : Bool
  axis : Axis
  undeclared : Bool
  tenantGuc : Option Text
  deriving DecidableEq

/-- The session of one database.  The outcomes are those of the calls to come: `true` for one that
fails. -/
structure SqlSession where
  txns : Bool → Option Transaction
  markerLive : Bool → Bool
  executed : List Execution
  outcomes : List Bool

/-- What does not change during an invocation, and what other code does with a raw statement. -/
structure Host where
  rlsGuc : Option RlsGuc
  tenancy : Option HostTenancy
  injectsSessionContext : Bool
  /-- The statement sets a variable that is reserved for the host. -/
  reserved : Text → Bool
  /-- The statement as it is confined for the axis, unless it is refused. -/
  applyScopeMarker : Axis → Text → Option Text
  extractRawWriteScopeValue : Text → Option SqlValue
  /-- What a statement of the guest makes of the tenant variable. -/
  guest : Text → Option Text → Option Text
  showReal : UInt64 → Text

namespace Host

variable (host : Host)

def gucText : SqlValue → Text
  | .text text => text
  | .integer value => (toString value).toList
  | .boolean value => (toString value).toList
  | .real bits => host.showReal bits
  | .blob _ => []
  | .null => []
  | .json _ => []

def opening : Option Text :=
  if host.rlsGuc.isSome then
    (host.tenancy.bind HostTenancy.rlsTenantValue).map host.gucText
  else none

def restore : SqlValue := (host.tenancy.bind HostTenancy.rlsTenantValue).getD (.text [])

def call : Attempt SqlSession Unit := fun session =>
  match session.outcomes with
  | [] => (some (), session)
  | true :: outcomes => (none, { session with outcomes })
  | false :: outcomes => (some (), { session with outcomes })

variable (readOnly : Bool)

def setTxn (transaction : Transaction) (session : SqlSession) : SqlSession :=
  { session with txns := Function.update session.txns readOnly (some transaction) }

def txn (readOnly : Bool) : Attempt SqlSession Unit := fun session =>
  if (session.txns readOnly).isSome then (some (), session)
  else (do call; Attempt.modify (setTxn readOnly ⟨host.opening, false⟩) : Attempt _ _) session

/-- Run a statement in a transaction; one that fails leaves it aborted, and an aborted transaction
takes no statement. -/
def run (readOnly : Bool) (record : Option Text → List Execution)
    (change : Option Text → Option Text) : Attempt SqlSession Unit := fun session =>
  match session.txns readOnly with
  | none => (none, session)
  | some transaction =>
    if transaction.aborted then (none, session)
    else
      let session :=
        { session with executed := session.executed ++ record transaction.tenantGuc }
      match call session with
      | (some (), session) =>
        (some (), setTxn readOnly ⟨change transaction.tenantGuc, false⟩ session)
      | (none, session) => (none, setTxn readOnly ⟨transaction.tenantGuc, true⟩ session)

def setRlsTenantOn (value : SqlValue) : Attempt SqlSession Unit :=
  if host.rlsGuc.isSome then do
    host.txn readOnly
    run readOnly (fun _ => []) fun _ => some (host.gucText value)
  else pure ()

def setAllReadMarker (axis : Axis) : Attempt SqlSession Unit :=
  match axis, host.rlsGuc.bind RlsGuc.allMarker with
  | .read, some marker =>
    if host.tenancy.any HostTenancy.readIsAll then do
      host.setRlsTenantOn readOnly (.text marker)
      Attempt.modify fun session =>
        { session with markerLive := Function.update session.markerLive readOnly true }
    else pure ()
  | _, _ => pure ()

def defendWriteMarker : Attempt SqlSession Unit := do
  if ← Attempt.read (fun session => session.markerLive false) then do
    host.setRlsTenantOn false host.restore
    Attempt.modify fun session =>
      { session with markerLive := Function.update session.markerLive false false }

def declared (value : HostTenancy → Option SqlValue) : Option SqlValue :=
  if host.rlsGuc.isSome then (host.tenancy.filter HostTenancy.writeIsAll).bind value else none

def setDeclared (value : Option SqlValue) : Attempt SqlSession Unit :=
  value.elim (pure ()) (host.setRlsTenantOn false)

def applyAllWriteRls (statement : Text) : Axis → Attempt SqlSession Unit
  | .read => pure ()
  | .write =>
    if host.rlsGuc.isSome then do
      host.defendWriteMarker
      host.setDeclared (host.declared fun _ => host.extractRawWriteScopeValue statement)
    else pure ()

def rawStatement (statement : Text) : Attempt SqlSession Unit :=
  if host.injectsSessionContext && host.reserved statement then Attempt.stop
  else
    let axis := stmtAxis statement
    match host.applyScopeMarker axis statement with
    | none => Attempt.stop
    | some statement => do
      host.applyAllWriteRls statement axis
      host.setAllReadMarker readOnly axis
      host.txn readOnly
      run readOnly (fun guc =>
        [⟨readOnly, axis, axis = .write && (host.extractRawWriteScopeValue statement).isNone, guc⟩])
        (host.guest statement)

def ormSelect (admitted : Bool) : Attempt SqlSession Unit :=
  if admitted then do
    host.setAllReadMarker false .read
    host.txn false
    run false (fun guc => [⟨false, .read, false, guc⟩]) id
  else Attempt.stop

def ormWrite (value : Option SqlValue) (undeclared admitted : Bool) : Attempt SqlSession Unit := do
  host.defendWriteMarker
  if admitted then do
    host.setDeclared value
    host.txn false
    run false (fun guc => [⟨false, .write, undeclared, guc⟩]) id
  else Attempt.stop

end Host

inductive Operation where
  | select (admitted : Bool)
  | insert (rows : Insert) (admitted : Bool)
  | update (change : Update) (admitted : Bool)
  | delete (admitted : Bool)
  | deleteReturning (admitted : Bool)
  | promote (admitted : Bool)
  | attachReference (admitted : Bool)
  | query (readOnly : Bool) (statement : Text)
  | execute (readOnly : Bool) (statement : Text)

namespace Operation

variable (host : Host)

def insertValue (rows : Insert) : Option SqlValue :=
  host.declared fun tenancy => (tenancy.tenantColumnFor rows.table).bind rows.uniformScopeValue

def updateValue (change : Update) : Option SqlValue :=
  host.declared fun tenancy => (tenancy.tenantColumnFor change.table).bind change.pinnedScopeValue

def declared : Operation → Option SqlValue
  | .insert rows _ => insertValue host rows
  | .update change _ => updateValue host change
  | .query _ statement => raw statement
  | .execute _ statement => raw statement
  | _ => none
where
  raw (statement : Text) : Option SqlValue :=
    if stmtAxis statement = .write then
      (host.applyScopeMarker .write statement).bind fun confined =>
        host.declared fun _ => host.extractRawWriteScopeValue confined
    else none

def undeclared : Operation → Bool
  | .insert rows _ => (insertValue host rows).isNone
  | .update change _ => (updateValue host change).isNone
  | .query _ statement => raw statement
  | .execute _ statement => raw statement
  | _ => false
where
  raw (statement : Text) : Bool :=
    stmtAxis statement = .write &&
      (host.applyScopeMarker .write statement).any fun confined =>
        (host.extractRawWriteScopeValue confined).isNone

def perform : Operation → Attempt SqlSession Unit
  | .select admitted => host.ormSelect admitted
  | .insert rows admitted =>
    host.ormWrite (insertValue host rows) (insertValue host rows).isNone admitted
  | .update change admitted =>
    host.ormWrite (updateValue host change) (updateValue host change).isNone admitted
  | .delete admitted => host.ormWrite none false admitted
  | .deleteReturning admitted => host.ormWrite none false admitted
  | .promote admitted => host.ormWrite none false admitted
  | .attachReference admitted => host.ormWrite none false admitted
  | .query readOnly statement => host.rawStatement readOnly statement
  | .execute readOnly statement => host.rawStatement readOnly statement

end Operation

def machine (host : Host) : Machine SqlSession (Operation × List Bool) Unit where
  step session action :=
    ((action.1.perform host { session with outcomes := action.2 }).2, ())

def SqlSession.initial : SqlSession := ⟨fun _ => none, fun _ => false, [], []⟩

end BoatRamp.Bindings

import BoatRamp.Library.SortedMap
import BoatRamp.Text

/-!
# The tenancy schema

The values that queries carry, the way each table is keyed by tenant, and the
mode in which one operation is scoped.  Both the typed queries and the rewriting
of raw statements are written over these.
-/

namespace BoatRamp.Tenancy

/-- A value of a query.  A float is given by its bits. -/
inductive SqlValue where
  | null
  | boolean (value : Bool)
  | integer (value : Int)
  | real (bits : UInt64)
  | text (value : Text)
  | blob (bytes : Octets)
  | json (document : Text)
  deriving DecidableEq

/-- A float is finite unless all the bits of its exponent are set. -/
def isFinite (bits : UInt64) : Bool := (bits >>> 52) &&& 0x7FF != 0x7FF

inductive Dialect where
  | sqlite
  | postgres
  | mysql
  deriving DecidableEq

inductive CmpOp where
  | eq
  | ne
  | lt
  | le
  | gt
  | ge
  deriving DecidableEq

/-- How a scope restricts the rows of one operation. -/
inductive ScopeMode where
  | own
  | ownOrNull
  | nullOnly
  | all
  deriving DecidableEq

inductive ResolvedScope where
  | column (name : Text)
  | unscoped
  | sharedWritable
  | tenantOrSession (tenant session : Text)
  | tenantOrBase (tenant : Text)

namespace ResolvedScope

end ResolvedScope

inductive PublicTermSql where
  | cmp (column : Text) (op : CmpOp) (value : SqlValue)
  | null (column : Text) (negated : Bool)

/-- A name that can be written without quotes. -/
def isPlainName : Text → Bool
  | [] => false
  | first :: rest =>
    (isAsciiAlphabetic first || first == '_') &&
      rest.all fun letter => isAsciiAlphanumeric letter || letter == '_'

/-- Column names are compared without their qualifier and without regard to case. -/
def baseName (name : Text) : Text :=
  toAsciiLowercase (((rsplitOnceAt '.' name).map Prod.snd).getD name)

def sameCol (first second : Text) : Bool := baseName first == baseName second

end BoatRamp.Tenancy

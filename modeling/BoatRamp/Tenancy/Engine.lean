import BoatRamp.Library.Truth
import BoatRamp.Tenancy.Schema

/-!
# Engines

What the scopes rely on in the database that runs a statement: its data, the
datum of a bound value, comparison, and the datum NULL.
-/

namespace BoatRamp.Tenancy

open Library

structure Engine where
  Datum : Type
  /-- The datum of a value that is bound to a placeholder. -/
  bound : SqlValue → Datum
  compare : CmpOp → Datum → Datum → Truth
  isNull : Datum → Bool
  /-- The truth of a datum that stands as a condition. -/
  holds : Datum → Truth

/-- The engine whose data are the values themselves, and that decides equality only. -/
def Engine.direct : Engine where
  Datum := SqlValue
  bound := id
  compare op first second :=
    if first = .null ∨ second = .null then none
    else if op = .eq then some (decide (first = second)) else none
  isNull datum := decide (datum = .null)
  holds _ := none

end BoatRamp.Tenancy

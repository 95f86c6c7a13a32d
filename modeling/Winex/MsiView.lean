import Mathlib.Logic.Function.Basic

namespace Winex.Msi

/-!
# Views of an installer database

The queries of the installer are views over views.  A view answers for its number of rows
and columns and for the raw value of a cell; columns are numbered from one.  Raw values
and counts are `UINT`s.
-/

/-- The errors that the modelled functions return. -/
inductive Failure where
  | functionFailed
  | invalidParameter
  | noMoreItems
  | invalidData
  deriving DecidableEq

/-- What a view answers in one state of the database. -/
structure View where
  execute : Except Failure Unit
  dimensions : Except Failure (Nat × Nat)
  fetchInt : Nat → Nat → Except Failure Nat

end Winex.Msi

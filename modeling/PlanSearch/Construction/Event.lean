/-
What happens while a first solution is built, as it is reported.
-/
import PlanSearch.Error

namespace PlanSearch

/-- What a construction came to. -/
structure Summary (Sc : Type) where
  /-- Entities minted and committed. -/
  assigned : Nat
  /-- Candidates whose evaluation failed. -/
  skipped : Nat
  score : Sc
  /-- Whether a termination stopped it before every entity was built. -/
  terminated : Bool
  deriving DecidableEq, Repr

/-- A report of the construction. -/
inductive ConstructionEvent (V Sc : Type)
  | started (units entities : Nat)
  | committed (entity : Nat) (value : V) (score : Sc)
  | skipped (entity : Nat) (value : V) (error : PlanError)
  | ended (summary : Summary Sc)
  deriving DecidableEq, Repr

end PlanSearch

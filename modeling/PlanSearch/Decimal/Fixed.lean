/-
Doubles with a fixed number of decimal places.

The exact value of the double is rounded, and a value midway between two
texts goes to the one with the even last digit.
-/
import PlanSearch.Decimal.Shortest

namespace PlanSearch.Decimal

/-- The natural nearest to a quotient; of two the even one. -/
def nearestEven (a : Nat × Nat) : Nat :=
  let down := a.1 / a.2
  match compare (2 * (a.1 % a.2)) a.2 with
  | .lt => down
  | .gt => down + 1
  | .eq => if down % 2 = 0 then down else down + 1

/-- A finite double with a number of places, at least one. -/
def fixed (places : Nat) (x : Binary64) : String :=
  let (n, d) := scaleTwo x.significand x.exponent
  signed x (positional ⟨nearestEven (n * Nat.pow 10 places, d),
    -(places : Int)⟩ places)

end PlanSearch.Decimal

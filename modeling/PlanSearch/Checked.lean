/-
Arithmetic that refuses to wrap.

Score levels are 64-bit signed words and counts are 64-bit unsigned
ones. Every operation here computes the exact integer and then asks
whether it fits: the result is either the true one or a fault, never a
wrapped word.
-/
import PlanSearch.Fault

namespace PlanSearch.Checked

-- ============================================================ levels

/-- Whether an integer fits a signed 64-bit level. -/
def fitsLevel (n : Int) : Bool :=
  decide (-9223372036854775808 ≤ n ∧ n ≤ 9223372036854775807)

/-- The level that holds an integer. -/
def level (n : Int) : Except Fault Int64 :=
  if fitsLevel n then .ok (Int64.ofInt n) else .error .arithmetic

def add (a b : Int64) : Except Fault Int64 := level (a.toInt + b.toInt)

def sub (a b : Int64) : Except Fault Int64 := level (a.toInt - b.toInt)

def mul (a b : Int64) : Except Fault Int64 := level (a.toInt * b.toInt)

def neg (a : Int64) : Except Fault Int64 := level (-a.toInt)

def abs (a : Int64) : Except Fault Int64 := level a.toInt.natAbs

/-- The sum of a list of levels, taken from the left. -/
def sum (levels : List Int64) : Except Fault Int64 := levels.foldlM add 0

-- ============================================================ counts

/-- The first number that is no longer a count. -/
def countLimit : Nat := 18446744073709551616

/-- The largest count. -/
def maxCount : Nat := 18446744073709551615

/-- A number as a count. -/
def count (n : Nat) : Except Fault Nat :=
  if n < countLimit then .ok n else .error .arithmetic

/-- The sum of counts, refused at the first partial sum that is none. -/
def countSum (counts : List Nat) : Except Fault Nat :=
  counts.foldlM (fun total n => count (total + n)) 0

/-- The product of counts, refused at the first partial product that is none. -/
def countProduct (counts : List Nat) : Except Fault Nat :=
  counts.foldlM (fun total n => count (total * n)) 1

end PlanSearch.Checked

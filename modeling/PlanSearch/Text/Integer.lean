/-
Integers as text.

A written level is an optional sign and at least one ASCII digit, and
its value fits the level. Reading goes from the left and stops at the
first thing wrong, so of two faults the earlier one is reported; at one
character a foreign sign is reported before a value that grows too large.
-/
import PlanSearch.Checked

namespace PlanSearch.Text

/-- Why a text is no integer. -/
inductive IntegerError
  | empty
  | invalidDigit
  | tooLarge
  | tooSmall
  deriving DecidableEq, Repr

def IntegerError.message : IntegerError → String
  | .empty => "cannot parse integer from empty string"
  | .invalidDigit => "invalid digit found in string"
  | .tooLarge => "number too large to fit in target type"
  | .tooSmall => "number too small to fit in target type"

/-- The value of an ASCII digit. -/
def digitValue? (c : Char) : Option Nat :=
  if '0' ≤ c ∧ c ≤ '9' then some (c.toNat - 48) else none

/-- Reads the digits that follow a sign, carrying the value so far. -/
def readDigits (negative : Bool) : Int → List Char → Except IntegerError Int
  | value, [] => .ok value
  | value, c :: rest =>
    match digitValue? c with
    | none => .error .invalidDigit
    | some d =>
      let next := if negative then value * 10 - d else value * 10 + d
      if Checked.fitsLevel next then readDigits negative next rest
      else .error (if negative then .tooSmall else .tooLarge)

/-- Reads a level. -/
def readLevel : List Char → Except IntegerError Int64
  | [] => .error .empty
  | ['+'] => .error .invalidDigit
  | ['-'] => .error .invalidDigit
  | '+' :: digits => (readDigits false 0 digits).map Int64.ofInt
  | '-' :: digits => (readDigits true 0 digits).map Int64.ofInt
  | digits => (readDigits false 0 digits).map Int64.ofInt

/-- Writes an integer in decimal, with a sign only below zero. -/
def ofInt : Int → String
  | .ofNat n => String.ofList (Nat.toDigits 10 n)
  | .negSucc n => String.ofList ('-' :: Nat.toDigits 10 (n + 1))

/-- Writes a count in decimal. -/
def ofNat (n : Nat) : String := String.ofList (Nat.toDigits 10 n)

/-- Writes a level in decimal. -/
def ofLevel (n : Int64) : String := ofInt n.toInt

end PlanSearch.Text

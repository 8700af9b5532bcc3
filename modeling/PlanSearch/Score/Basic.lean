/-
Scores: tuples of 64-bit levels, the most significant first.

A shape says how many levels there are and what each one means; a score
of a shape has exactly that many. Higher is better, and the first level
that differs decides. Sums and differences are taken level by level and
are defined only while every level stays within its 64 bits.
-/
import PlanSearch.Checked
import PlanSearch.Decimal.Binary64
import PlanSearch.Text.Shown

namespace PlanSearch

/-- What a score level stands for. -/
inductive Level
  | hard
  | medium
  | soft
  deriving DecidableEq, Repr

namespace Level

/-- The word written after a level's number. -/
def word : Level → String
  | hard => "hard"
  | medium => "medium"
  | soft => "soft"

/-- The level's name in a heading. -/
def title : Level → String
  | hard => "Hard"
  | medium => "Medium"
  | soft => "Soft"

end Level

/-- How many levels a score has, and of which kind. -/
inductive Shape
  | hardSoft
  | hardMediumSoft
  | bendable (hard soft : Nat)
  deriving DecidableEq, Repr

namespace Shape

/-- The levels of a shape, the most significant first. -/
def levels : Shape → List Level
  | hardSoft => [.hard, .soft]
  | hardMediumSoft => [.hard, .medium, .soft]
  | bendable hard soft => List.replicate hard .hard ++ List.replicate soft .soft

/-- The number of levels. -/
def size (shape : Shape) : Nat := shape.levels.length

/-- The number of hard levels. -/
def hardCount (shape : Shape) : Nat := (shape.levels.filter (· == .hard)).length

/-- The name of the scores of a shape. -/
def name : Shape → String
  | hardSoft => "HardSoftScore"
  | hardMediumSoft => "HardMediumSoftScore"
  | bendable _ _ => "BendableScore"

/-- What the level at an index stands for. -/
def label (shape : Shape) (index : Nat) : Except Fault Level :=
  match shape.levels[index]? with
  | some level => .ok level
  | none => .error (.broken (shape.name ++ " has " ++ Text.ofNat shape.size ++
      " levels, got index " ++ Text.ofNat index))

end Shape

/-- A score: one 64-bit number for each level of its shape. -/
structure Score (shape : Shape) where
  levels : List Int64
  length_eq : levels.length = shape.levels.length
  deriving DecidableEq

namespace Score

variable {shape : Shape}

/-- Two scores with the same levels are the same score. -/
theorem ext_levels {a b : Score shape} (h : a.levels = b.levels) : a = b := by
  cases a; cases b; cases h; rfl

/-- Every level the same number. -/
def uniform (shape : Shape) (n : Int64) : Score shape :=
  ⟨shape.levels.map fun _ => n, by simp⟩

/-- All levels zero. -/
def zero (shape : Shape) : Score shape := uniform shape 0

/-- Every level at its least value: below any score that was computed. -/
def least (shape : Shape) : Score shape := uniform shape Int64.minValue

instance : Inhabited (Score shape) := ⟨zero shape⟩

/-- The message of a level list of the wrong length. -/
def lengthMessage (shape : Shape) (got : Nat) : String :=
  let size := Text.ofNat shape.size
  let claim := match shape with
    | .bendable h s =>
      "BendableScore<" ++ Text.ofNat h ++ ", " ++ Text.ofNat s ++
        "> requires exactly " ++
        size ++ " levels"
    | _ => shape.name ++ " takes " ++ size ++ " levels"
  "assertion `left == right` failed: " ++ claim ++ "\n  left: " ++
    Text.ofNat got ++
    "\n right: " ++ size

/-- The score with the given levels. -/
def ofLevels (shape : Shape) (levels : List Int64) :
    Except Fault (Score shape) :=
  if h : levels.length = shape.levels.length then .ok ⟨levels, h⟩
  else .error (.broken (lengthMessage shape levels.length))

/-- The score whose levels are the given integers, if all of them fit. -/
def ofInts (shape : Shape) (ns : List Int)
    (h : ns.length = shape.levels.length) : Except Fault (Score shape) :=
  if ns.all Checked.fitsLevel then .ok ⟨ns.map Int64.ofInt, by simp [h]⟩
  else .error .arithmetic

/-- The levels as integers. -/
def ints (a : Score shape) : List Int := a.levels.map Int64.toInt

/-- No hard level is negative. -/
def isFeasible (a : Score shape) : Bool :=
  (shape.levels.zip a.levels).all fun (level, n) => level != .hard ||
    decide (0 ≤ n)

-- ============================================================ order

/-- The order of level lists: the first difference decides. -/
def compareLevels : List Int64 → List Int64 → Ordering
  | [], [] => .eq
  | [], _ :: _ => .lt
  | _ :: _, [] => .gt
  | a :: as, b :: bs => (compare a b).then (compareLevels as bs)

instance : Ord (Score shape) := ⟨fun a b => compareLevels a.levels b.levels⟩

/-- Strictly better. -/
def beats (a b : Score shape) : Bool := compare a b == .gt

/-- The better of two scores; of equal ones the second. -/
def max (a b : Score shape) : Score shape := if a.beats b then a else b

-- ============================================================ arithmetic

def add (a b : Score shape) : Except Fault (Score shape) :=
  ofInts shape (List.zipWith (· + ·) a.ints b.ints)
    (by simp [ints, a.length_eq, b.length_eq])

def sub (a b : Score shape) : Except Fault (Score shape) :=
  ofInts shape (List.zipWith (· - ·) a.ints b.ints)
    (by simp [ints, a.length_eq, b.length_eq])

def neg (a : Score shape) : Except Fault (Score shape) :=
  ofInts shape (a.ints.map (- ·)) (by simp [ints, a.length_eq])

def abs (a : Score shape) : Except Fault (Score shape) :=
  ofInts shape (a.ints.map fun n => (n.natAbs : Int))
    (by simp [ints, a.length_eq])

/-- Applies a floating-point function to each level and rounds to the
nearest integer, halves away from zero; what leaves the range stays at
its end, and what is no number becomes zero. -/
def scaled (f : Float → Float) (a : Score shape) : Score shape :=
  ⟨a.levels.map fun n => (f n.toFloat).round.toInt64, by simp [a.length_eq]⟩

/-- Scales every level. -/
def multiply (a : Score shape) (x : Binary64) : Score shape :=
  a.scaled (· * x.toFloat)

/-- Divides every level. -/
def divide (a : Score shape) (x : Binary64) : Score shape :=
  a.scaled (· / x.toFloat)

-- ============================================================ parts

/-- The levels that stand for hard constraints. -/
def hardLevels (a : Score shape) : List Int64 := a.levels.take shape.hardCount

/-- The levels after the hard ones. -/
def softLevels (a : Score shape) : List Int64 := a.levels.drop shape.hardCount

/-- One of a list of levels, by its position there. -/
def levelAt (levels : List Int64) (index : Nat) : Except Fault Int64 :=
  match levels[index]? with
  | some n => .ok n
  | none => .error .indexOutOfBounds

end Score

/-- A score of one hard and one soft level. -/
abbrev HardSoft := Score .hardSoft

/-- The score with the two given levels. -/
def HardSoft.of (hard soft : Int64) : HardSoft := ⟨[hard, soft], rfl⟩

end PlanSearch

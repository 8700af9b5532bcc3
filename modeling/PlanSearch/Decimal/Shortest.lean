/-
The shortest decimal text of a double.

Every real in an interval around a double reads back as that double; the
interval ends midway to the neighbours and includes its ends when the
significand is even. The text takes the fewest digits for which a
decimal falls into the interval, and of two such decimals the nearer
one (a tie goes up). All of it is exact arithmetic on naturals.

Two layouts use these digits. The plain one never writes an exponent.
The exact one always shows that the value is no integer (`1.0`) and
turns to an exponent from 10^16 on and below 10^-4.
-/
import PlanSearch.Decimal.Binary64
import PlanSearch.Text.Integer

namespace PlanSearch.Decimal

/-- A decimal `digits * 10 ^ exponent`. -/
structure Digits where
  digits : Nat
  exponent : Int
  deriving DecidableEq, Repr

/-- Numerator and denominator of `n * 2 ^ e`. -/
def scaleTwo (n : Nat) (e : Int) : Nat × Nat :=
  if e < 0 then (n, Nat.pow 2 e.natAbs) else (n * Nat.pow 2 e.natAbs, 1)

/-- Numerator and denominator of `n * 10 ^ e`. -/
def scaleTen (n : Nat) (e : Int) : Nat × Nat :=
  if e < 0 then (n, Nat.pow 10 e.natAbs) else (n * Nat.pow 10 e.natAbs, 1)

/-- Comparison of two quotients. -/
def compareQuotients (a b : Nat × Nat) : Ordering :=
  compare (a.1 * b.2) (b.1 * a.2)

/-- The floor of a quotient of quotients. -/
def floorDiv (a b : Nat × Nat) : Nat := a.1 * b.2 / (a.2 * b.1)

/-- The reals that read back as one positive double, in quarters of its
last place. -/
structure Interval where
  low : Nat × Nat
  value : Nat × Nat
  high : Nat × Nat
  closed : Bool

/-- The interval of a finite number that is not zero. -/
def Interval.of (x : Binary64) : Interval :=
  let m := x.significand
  let e := x.exponent - 2
  let below := if x.fraction = 0 ∧ x.exponentField > 1 then 1 else 2
  ⟨scaleTwo (4 * m - below) e, scaleTwo (4 * m) e,
    scaleTwo (4 * m + 2) e, m % 2 == 0⟩

/-- Whether a decimal falls into the interval. -/
def Interval.holds (i : Interval) (d : Digits) : Bool :=
  let q := scaleTen d.digits d.exponent
  let above := compareQuotients i.low q
  let below := compareQuotients q i.high
  (above == .lt || (i.closed && above == .eq)) &&
    (below == .lt || (i.closed && below == .eq))

/-- The power of ten just above a positive quotient: the least `k` from
the guess on with `value < 10 ^ k`. -/
def powerAbove (value : Nat × Nat) : Nat → Int → Int
  | 0, k => k
  | fuel + 1, k =>
    if compareQuotients value (scaleTen 1 k) == .lt then k
    else powerAbove value fuel (k + 1)

/-- The decimal nearest to the value on the grid of `10 ^ exponent`, if
one of the value's two neighbours there falls into the interval. -/
def nearestOn (i : Interval) (exponent : Int) : Option Digits :=
  let down : Digits := ⟨floorDiv i.value (scaleTen 1 exponent), exponent⟩
  let up : Digits := ⟨down.digits + 1, exponent⟩
  match i.holds down, i.holds up with
  | true, true =>
    let twice := scaleTen (2 * down.digits + 1) exponent
    if compareQuotients (i.value.1 * 2, i.value.2) twice == .lt then some down
    else some up
  | true, false => some down
  | false, true => some up
  | false, false => none

/-- Tries one more digit as long as no decimal falls into the interval. -/
def searchGrid (i : Interval) : Nat → Int → Digits
  | 0, exponent => ⟨floorDiv i.value (scaleTen 1 exponent), exponent⟩
  | fuel + 1, exponent =>
    match nearestOn i exponent with
    | some d => d
    | none => searchGrid i fuel (exponent - 1)

/-- Drops zeros at the end. -/
def stripZeros : Nat → Digits → Digits
  | 0, d => d
  | fuel + 1, d =>
    if d.digits ≠ 0 ∧ d.digits % 10 = 0 then
      stripZeros fuel ⟨d.digits / 10, d.exponent + 1⟩
    else d

/-- The shortest digits of a finite number that is not zero. -/
def shortest (x : Binary64) : Digits :=
  let i := Interval.of x
  let bits : Int := (Nat.log2 x.significand : Int) + x.exponent
  let guess : Int := bits * 30103 / 100000 - 1
  let top := powerAbove i.value 8 guess
  stripZeros 400 (searchGrid i 17 (top - 1))

-- ============================================================ layouts

/-- Digits without an exponent, with at least `places` digits after the
point (and no point when there are none). -/
def positional (d : Digits) (places : Nat) : String :=
  let ds := Nat.toDigits 10 d.digits
  if 0 ≤ d.exponent then
    let whole := ds ++ List.replicate d.exponent.natAbs '0'
    String.ofList (if places = 0 then whole else whole ++
      '.' :: List.replicate places '0')
  else
    let cut := d.exponent.natAbs
    let padded := List.replicate (cut + 1 - ds.length) '0' ++ ds
    String.ofList (padded.take (padded.length - cut) ++
      '.' :: padded.drop (padded.length - cut))

/-- Digits with a point after the first and an exponent. -/
def scientific (d : Digits) : String :=
  let ds := Nat.toDigits 10 d.digits
  let exponent := d.exponent + (ds.length - 1 : Nat)
  let lead := match ds with
    | [] => []
    | [c] => [c]
    | c :: rest => c :: '.' :: rest
  String.ofList lead ++ "e" ++ Text.ofInt exponent

def signed (x : Binary64) (magnitude : String) : String :=
  if x.isNegative then "-" ++ magnitude else magnitude

/-- The plain text of a double: no exponent, and no point for an integer. -/
def plain (x : Binary64) : String :=
  if x.isNaN then "NaN"
  else if !x.isFinite then signed x "inf"
  else if x.isZero then signed x "0"
  else signed x (positional (shortest x) 0)

/-- The exact text of a double: `1.0` for one, with an exponent from
10^16 on and below 10^-4. -/
def exact (x : Binary64) : String :=
  if x.isNaN then "NaN"
  else if !x.isFinite then signed x "inf"
  else if x.isZero then signed x "0.0"
  else
    let d := shortest x
    let lead : Int := d.exponent + (Nat.toDigits 10 d.digits).length
    signed x (if -4 < lead ∧ lead ≤ 16 then positional d 1 else scientific d)

end PlanSearch.Decimal

/-
When a phase stops.

A termination looks at the progress of a phase before each step: the
steps taken, the time spent, and which stop signals have been raised
from outside. A list of terminations stops as soon as one of them does.
-/
import PlanSearch.Checked
import PlanSearch.Text.Shown

namespace PlanSearch

/-- Limits as a configuration states them. -/
structure TerminationLimits where
  seconds : Option Nat
  minutes : Option Nat
  steps : Option Nat
  deriving DecidableEq, Repr

/-- The time limit in seconds: both parts together, none if that is zero. -/
def TerminationLimits.time (limits : TerminationLimits) :
    Except Fault (Option Nat) := do
  let minutes ← Checked.count (limits.minutes.getD 0 * 60)
  let total ← Checked.count (limits.seconds.getD 0 + minutes)
  return if 0 < total then some total else none

/-- What is seen of a running phase. -/
structure Progress where
  phase : Nat
  /-- Steps finished. -/
  steps : Nat
  /-- Milliseconds spent. -/
  elapsed : Nat
  /-- The signals raised so far. -/
  raised : List Nat
  deriving DecidableEq, Repr

/-- A reason to stop. -/
inductive Termination
  | steps (limit : Nat)
  /-- Milliseconds since the phase began. -/
  | time (millis : Nat)
  /-- A signal from outside. -/
  | external (signal : Nat)
  | any (terminations : List Termination)

namespace Termination

mutual

/-- Whether the phase is to stop before its next step. -/
def stops (p : Progress) : Termination → Bool
  | steps limit => decide (limit ≤ p.steps)
  | time millis => decide (millis ≤ p.elapsed)
  | external signal => p.raised.contains signal
  | any terminations => anyStops p terminations

/-- Whether one of a list does. -/
def anyStops (p : Progress) : List Termination → Bool
  | [] => false
  | t :: rest => stops p t || anyStops p rest

end

/-- The terminations that limits describe: time first, then steps. -/
def ofLimits (limits : TerminationLimits) :
    Except Fault (List Termination) := do
  let time ← limits.time
  return (time.map fun seconds => Termination.time (seconds * 1000)).toList ++
    (limits.steps.map Termination.steps).toList

/-- A length of time: in seconds from one second on, else in
milliseconds, with as many places as it takes; nothing at all in
nanoseconds. -/
def shownTime (millis : Nat) : String :=
  if millis = 0 then "0ns"
  else if millis < 1000 then Text.ofNat millis ++ "ms"
  else
    let places := Nat.toDigits 10 (1000 + millis % 1000) |>.drop 1
    let kept := (places.reverse.dropWhile (· == '0')).reverse
    Text.ofNat (millis / 1000) ++
      (if kept.isEmpty then "" else "." ++ String.ofList kept) ++ "s"

mutual

def shownAs (raised : List Nat) : Termination → String
  | steps limit =>
      Text.Shown.record "StepCountTermination" [("limit", shown limit)]
  | time millis =>
      Text.Shown.record "TimeTermination" [("limit", shownTime millis)]
  | external signal =>
    Text.Shown.record "ExternalTermination"
      [("flag", Text.Shown.bool (raised.contains signal))]
  | any terminations =>
    Text.Shown.record "AnyTermination"
      [("terminations", Text.Shown.list (shownAll raised terminations))]

def shownAll (raised : List Nat) : List Termination → List String
  | [] => []
  | t :: rest => shownAs raised t :: shownAll raised rest

end

end Termination

end PlanSearch

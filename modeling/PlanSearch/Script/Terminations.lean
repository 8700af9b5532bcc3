/-
Scripts on terminations: lists of them, looked at as a phase goes on.
-/
import PlanSearch.Script.Settings

namespace PlanSearch.Script

/-- Terminations described by a script, with the signals of those that wait for
one: a signal is numbered by its place, and some are raised from the start. -/
structure Signals where
  next : Nat
  raised : List Nat

mutual

/-- A described termination. -/
def terminationOf : Nat → Document → Signals → Read (Termination × Signals)
  | 0, _, _ => malformed "termination nested too deeply"
  | fuel + 1, d, signals => do
    match d with
    | .table [("steps", n)] => return (.steps (← asNat n), signals)
    | .table [("millis", n)] => return (.time (← asNat n), signals)
    | .table [("seconds", n)] => return (.time ((← asNat n) * 1000), signals)
    | .table [("external", .bool b)] =>
      let n := signals.next
      return (.external n,
        ⟨n + 1, if b then n :: signals.raised else signals.raised⟩)
    | .table [("config", config)] =>
      let limits ← required (TerminationLimits.ofDocument? config)
      return (.any (← lift (Termination.ofLimits limits)), signals)
    | .table [("any", .list items)] =>
      let (items, signals) ← terminationsOf fuel items signals
      return (.any items, signals)
    | _ => malformed "unknown termination"

def terminationsOf : Nat → List Document → Signals →
    Read (List Termination × Signals)
  | 0, _, _ => malformed "termination nested too deeply"
  | _ + 1, [], signals => return ([], signals)
  | fuel + 1, d :: rest, signals => do
    let (t, signals) ← terminationOf fuel d signals
    let (ts, signals) ← terminationsOf fuel rest signals
    return (t :: ts, signals)

end

/-- The signal of the last termination of a list that waits for one. -/
def lastSignal (terminations : List Termination) : Option Nat :=
  terminations.reverse.findSome? fun t =>
    match t with
    | .external signal => some signal
    | _ => none

/-- Runs the steps of a phase. -/
def terminationSteps (terminations : List Termination) :
    Progress → List Document → Read (List Document)
  | _, [] => .ok []
  | p, step :: rest => do
    match ← asText step with
    | "step" =>
      let p := { p with steps := p.steps + 1 }
      return .nat p.steps :: (← terminationSteps terminations p rest)
    | "count" => return .nat p.steps :: (← terminationSteps terminations p rest)
    | "check" =>
      return .bool (Termination.anyStops p terminations) ::
        (← terminationSteps terminations p rest)
    | "request" =>
      match lastSignal terminations with
      | some signal =>
        let p := { p with raised := signal :: p.raised }
        return .list [.bool true,
          .bool true] :: (← terminationSteps terminations p rest)
      | none => malformed "no signal"
    | other => malformed other

def terminationAnswer (d : Document) : Read Document := do
  let (terminations, signals) ← terminationsOf deepest
    (← getList d "list") ⟨0, []⟩
  let p : Progress := ⟨← getNatOr d "phase" 0, 0, 0, signals.raised⟩
  let head := table [("len", .nat terminations.length),
    ("empty", .bool terminations.isEmpty), ("phase", .nat p.phase),
    ("debug", .text (Termination.shownAs signals.raised (.any terminations)))]
  return .list (head :: (← terminationSteps terminations p
    (← getList d "steps")))

def limitsAnswer (d : Document) : Read Document := do
  let limits ← required (TerminationLimits.ofDocument? (getValue d "config"))
  let time ← lift limits.time
  return table [("limit_ms", Document.option .nat (time.map (· * 1000))),
    ("terminations", .nat (← lift (Termination.ofLimits limits)).length),
    ("steps", Document.option .nat limits.steps)]

end PlanSearch.Script

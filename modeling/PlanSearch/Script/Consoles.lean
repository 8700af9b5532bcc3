/-
Scripts on what is shown on a terminal. Nothing shown may depend on when a
script runs: the time of day is a mark, and so are times and speeds of
what really ran.
-/
import PlanSearch.Console.Filter
import PlanSearch.Console.Progress
import PlanSearch.Construction.Setup
import PlanSearch.Script.Selectors

namespace PlanSearch.Script

open Console

/-- Stands for the time of day. -/
def clockMark : String := "<clock>"

/-- A clock for events with times of their own. -/
def givenClock : Clock := .running clockMark

/-- A clock for what really ran. -/
def maskedClock : Clock := ⟨clockMark, fun _ => "<masked>", fun _ => "<masked>"⟩

def linesDocument (lines : List String) : Document := .list (lines.map .text)

/-- The value of a field, if it is recorded. -/
def fieldValueOf : Document → Read (Option FieldValue)
  | .null => return none
  | .text s => return some (.text s)
  | .bool b => return some (.flag b)
  | .int n => return some (.number n)
  | .float x => return some (.shown (Decimal.exact x))
  | .list _ => malformed "field expected"
  | .table entries =>
    match Document.get? "debug" (.table entries) with
    | some (.text s) => return some (.shown (shown s))
    | some (.int n) => return some (.shown (shown (some n)))
    | some (.float x) => return some (.shown (shown (some x)))
    | some .null => return some (.shown (shown (none : Option Int)))
    | _ => malformed "field expected"

def eventOf (d : Document) : Read Event := do
  let fields ← (← getEntries d "fields").filterMapM fun f => do
    return (← fieldValueOf f.2).map fun value => (f.1, value)
  return ⟨.info, ← getTextOr d "target" "planforge_solver", fields⟩

/-- The lines of each event, all of them logged. -/
def consoleAnswer (d : Document) : Read Document := do
  let events ← (← getList d "events").mapM eventOf
  return .list (events.map fun e => linesDocument (e.lines givenClock))

/-- The selectors built when the terminal is tried out: a union of a change
and a swap. -/
def sampleSelector : SelectorConfig :=
  .union .unset [.ofVariable "employee", .swapAll] none

/-- The lines of a construction and of the building of selectors, as far as
a filter lets them through. -/
def consoleRunAnswer (d : Document) : Read Document := do
  let filter := Filter.asked (← getOption asText d "rust_log")
  let roster ← plainRosterOf ((d.get? "world_state").getD (table []))
  let (_, reports) ← lift
    (SolverConfig.plain.firstSolution Roster.demand Roster.score roster)
  let context : SelectorContext Roster Int :=
    ⟨Roster.world.basics, Roster.world.chained, .empty, some 0⟩
  let built := match sampleSelector.build context 0 with
    | .ok built => built.reports
    | .error _ => []
  let events := reports.map (ConstructionEvent.logged Text.ofNat 0) ++
    built.map SelectorReport.logged
  return linesDocument ((events.filter filter.admits).flatMap fun e =>
    e.lines maskedClock)

end PlanSearch.Script

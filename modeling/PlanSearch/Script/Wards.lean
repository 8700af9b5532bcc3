/-
Scripts on the ward's program: what it prints, and with which code it
ends.
-/
import PlanSearch.Script.Stage
import PlanSearch.Ward

namespace PlanSearch.Script

/-- The outcome of the program, given the text of its configuration file. -/
def wardAnswer (d : Document) : Read Document := do
  let outcome := Ward.run (← getOption asText d "config")
  return table [("code", .nat outcome.code), ("stdout", .text outcome.out),
    ("stderr", .text outcome.err)]

/-- A roster as it is printed, scored first if the script says so. -/
def printedAnswer (d : Document) : Read Document := do
  let roster ← wardRosterOf ((d.get? "world_state").getD (table []))
  let roster ←
    if getFlag d "scored" false then do
      pure { roster with stored := some (← lift roster.wardScore) }
    else pure roster
  return .text (← lift roster.printed)

end PlanSearch.Script

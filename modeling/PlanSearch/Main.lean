/-
The command line: plans the week of the ward by the file `solver.toml` of
the directory it is called in, or by the ward's own configuration.
-/
import PlanSearch.Ward

namespace PlanSearch

/-- The text of a file, if it can be read. -/
def readText? (path : String) : IO (Option String) := do
  try return some (← IO.FS.readFile path)
  catch _ => return none

end PlanSearch

open PlanSearch in
def main : IO UInt32 := do
  let outcome := Ward.run (← readText? "solver.toml")
  IO.print outcome.out
  IO.eprint outcome.err
  return outcome.code.toUInt32

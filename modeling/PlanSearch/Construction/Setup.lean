/-
First solutions as a configuration asks for them.

The construction stops by the limits of the whole run, and by those of
the first construction phase that has any. Each solution it tries is
scored in full.
-/
import PlanSearch.Config.Solver
import PlanSearch.Construction.Initializer
import PlanSearch.Director.Full

namespace PlanSearch

namespace SolverConfig

/-- The limits of the first construction phase that has any. -/
def constructionLimits (config : SolverConfig) : Option TerminationLimits :=
  config.phases.findSome? fun
    | .construction limits => limits
    | .localSearch _ _ => none

/-- The construction that a configuration asks for. -/
def initializer (config : SolverConfig) : Except Fault Initializer := do
  let limits := config.limits.toList ++ config.constructionLimits.toList
  return { Initializer.plain with
    terminations := ← limits.mapM fun l =>
      return .any (← Termination.ofLimits l) }

variable {S E V Date T Sc : Type}

/-- Builds a first solution from one that only states its demand. Reports
come with it, oldest first, whether it is reached or not. -/
def firstSolution [Planning S Sc] [Ranked Sc] [Ord Date] [Ord T]
    (config : SolverConfig) (demand : Demand S E V Date T)
    (score : S → Except Fault Sc) (s : S) :
    Except Fault
      (Except PlanError (S × Summary Sc) × List (ConstructionEvent V Sc)) := do
  let init ← config.initializer
  let run : Initializer.Run (FullDirector S Sc) V Sc := .start (.start score s)
  let (result, run) := (init.construct demand 0 fun _ => []).run run
  let reached := (← result).map fun summary =>
    (Director.working run.director, summary)
  return (reached, run.events.reverse)

end SolverConfig

end PlanSearch

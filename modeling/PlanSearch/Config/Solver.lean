/-
The configuration of a solver: its phases, when they stop, and the
selector trees of the local searches.
-/
import PlanSearch.Config.Template
import PlanSearch.Construction.Termination

namespace PlanSearch

/-- Whether a run can be repeated. -/
inductive Environment
  /-- Everything random follows from the seed. -/
  | reproducible
  /-- Seeds come from outside. -/
  | nonReproducible
  deriving DecidableEq, Repr

namespace Environment

def word : Environment → String
  | reproducible => "reproducible"
  | nonReproducible => "non_reproducible"

def ofWord? : String → Option Environment
  | "reproducible" => some reproducible
  | "non_reproducible" => some nonReproducible
  | _ => none

end Environment

/-- One phase of a run. -/
inductive PhaseConfig
  /-- Builds a first solution. -/
  | construction (limits : Option TerminationLimits)
  /-- Improves a solution by moves. -/
  | localSearch (selector : Option SelectorConfig)
    (limits : Option TerminationLimits)

namespace PhaseConfig

def limits : PhaseConfig → Option TerminationLimits
  | construction limits | localSearch _ limits => limits

def selector : PhaseConfig → Option SelectorConfig
  | construction _ => none
  | localSearch selector _ => selector

end PhaseConfig

structure SolverConfig where
  environment : Environment
  seed : Option Nat
  limits : Option TerminationLimits
  phases : List PhaseConfig
  templates : Templates

namespace SolverConfig

/-- No phases and nothing set. -/
def plain : SolverConfig := ⟨.reproducible, none, none, [], []⟩

/-- The time limit of some limits in seconds, if there are any. -/
def timeOf (limits : Option TerminationLimits) : Except Fault (Option Nat) :=
  match limits with
  | none => .ok none
  | some limits => limits.time

/-- The time limit of the whole run in seconds. -/
def timeLimit (config : SolverConfig) : Except Fault (Option Nat) :=
  timeOf config.limits

/-- The time limit of every phase in seconds. -/
def phaseTimeLimits (config : SolverConfig) :
    Except Fault (List (Option Nat)) :=
  config.phases.mapM fun phase => timeOf phase.limits

/-- The seed of everything random; none if it is to come from outside. -/
def effectiveSeed (config : SolverConfig) : Option Nat :=
  match config.environment with
  | .reproducible => some (config.seed.getD 0)
  | .nonReproducible => none

-- ============================================================ changes

/-- Limits the time to a number of seconds; minutes and steps stay. -/
def withSeconds (seconds : Nat) (config : SolverConfig) : SolverConfig :=
  { config with limits := some { config.limits.getD ⟨none, none, none⟩ with
      seconds := some seconds } }

def withSeed (seed : Nat) (config : SolverConfig) : SolverConfig :=
  { config with seed := some seed }

/-- Adds a phase at the end. -/
def withPhase (phase : PhaseConfig) (config : SolverConfig) : SolverConfig :=
  { config with phases := config.phases ++ [phase] }

/-- Registers a template, in the place of one of the same name. -/
def withTemplate (name : String) (template : SelectorConfig)
    (config : SolverConfig) : SolverConfig :=
  { config with templates := config.templates.insert name template }

-- ============================================================ resolution

/-- Resolves the selector of a phase and checks the result. -/
def resolvePhase (templates : Templates) :
    PhaseConfig → Except ConfigError PhaseConfig
  | .localSearch (some selector) limits => do
    let resolved ← selector.resolve templates
    resolved.validate
    return .localSearch (some resolved) limits
  | phase => .ok phase

/-- Resolves phases in order up to the first error. The phases before it
are resolved, it and those after it are as they were. -/
def resolvePhases (templates : Templates) :
    List PhaseConfig → List PhaseConfig × Option ConfigError
  | [] => ([], none)
  | phase :: rest =>
    match resolvePhase templates phase with
    | .error e => (phase :: rest, some e)
    | .ok phase =>
      let (rest, e) := resolvePhases templates rest
      (phase :: rest, e)

/-- Resolves the selectors of all phases, as far as that is possible. -/
def resolveSelectors (config : SolverConfig) :
    SolverConfig × Option ConfigError :=
  let (phases, e) := resolvePhases config.templates config.phases
  ({ config with phases := phases }, e)

end SolverConfig

end PlanSearch

/-
Scripts on solver configurations: where one comes from, what it says, and
how it changes step by step.
-/
import PlanSearch.Config.File
import PlanSearch.Script.Settings

namespace PlanSearch.Script

/-- A configuration, or the answer that takes its place. -/
def configured {α : Type} : Except ConfigError α → Read α
  | .ok a => .ok a
  | .error e => .error (.answer (configErrorDocument e))

/-- The format a script names, and whether the text is in a file, which may
be missing. -/
def sourceFormat : String → Read (Format × Bool)
  | "toml" => .ok (.toml, false)
  | "yaml" => .ok (.yaml, false)
  | "toml_file" | "load" => .ok (.toml, true)
  | "yaml_file" => .ok (.yaml, true)
  | other => malformed other

/-- The configuration that a script starts with: a text in some format, a
document, or nothing at all. -/
def solverOf (d : Document) : Read SolverConfig := do
  match ← getOption asText d "format" with
  | some name =>
    let (format, isFile) ← sourceFormat name
    match ← getOption asText d "text" with
    | some text => configured (SolverConfig.ofText format text)
    | none =>
        if isFile then configured (.error (.io "no such file"))
        else malformed "text expected"
  | none =>
    match get? d "config" with
    | some config => required (SolverConfig.ofDocument? .json config)
    | none => return .plain

/-- Whether a configuration is the same after it was written and read. -/
def survives (config : SolverConfig) : Read Document := do
  match SolverConfig.ofDocument? .yaml config.document with
  | some again => return .bool (Document.same again.document config.document)
  | none => configured (.error (.yaml "not a solver configuration"))

/-- What a step asks about a configuration, or the changed one. -/
def solverStep (step : Document) (config : SolverConfig) :
    Read (Document ⊕ SolverConfig) := do
  match ← getText step "do" with
  | "time_limit" =>
      return .inl (Document.option Document.nat (← lift config.timeLimit))
  | "phase_time_limits" =>
    return .inl (.list
      ((← lift config.phaseTimeLimits).map (Document.option Document.nat)))
  | "effective_seed" =>
      return .inl (Document.option Document.nat config.effectiveSeed)
  | "round_trip" => return .inl (← survives config)
  | "with_seconds" => return .inr (config.withSeconds (← getNat step "value"))
  | "with_seed" => return .inr (config.withSeed (← getNat step "value"))
  | "with_phase" =>
    return .inr (config.withPhase
      (← required (PhaseConfig.ofDocument? (getValue step "phase"))))
  | "with_template" =>
    return .inr (config.withTemplate (← getText step "name")
      (← asSelector (getValue step "config")))
  | other => malformed other

/-- The answers of some steps. A fault is the last answer; a resolution that
fails keeps what it has resolved. -/
def solverSteps (config : SolverConfig) : List Document → Read (List Document)
  | [] => return []
  | step :: rest => do
    if (← getText step "do") == "resolve" then
      let (config, e) := config.resolveSelectors
      return e.elim config.document
        configErrorDocument :: (← solverSteps config rest)
    else
      match solverStep step config with
      | .ok (.inl answer) => return answer :: (← solverSteps config rest)
      | .ok (.inr config) =>
          return config.document :: (← solverSteps config rest)
      | .error (.answer answer) => return answer :: (← solverSteps config rest)
      | .error (.fault f) => return [faultDocument f]
      | .error (.malformed what) => malformed what

def solverAnswer (d : Document) : Read Document := do
  let config ← solverOf d
  return .list (config.document :: (← solverSteps config (← getList d "steps")))

end PlanSearch.Script

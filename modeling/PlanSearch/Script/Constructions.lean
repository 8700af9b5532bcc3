/-
Scripts on constructions: a first solution is built, and what was
reported on the way is answered.

A script may declare values that cannot be scored, and may raise a stop
signal after a number of changes; a director in front of the others sees
to both. Or a configuration says all there is to say, and the reports are
answered as they are or as a terminal shows them.
-/
import PlanSearch.Director.Traced
import PlanSearch.Script.Consoles
import PlanSearch.Script.Demands
import PlanSearch.Script.Solvers
import PlanSearch.Script.Terminations

namespace PlanSearch.Script

/-- A director that refuses to score some values and counts changes. -/
structure Probed (D S : Type) where
  inner : D
  /-- Why a solution cannot be scored while the entity at an index is tried. -/
  refusal : S → Nat → Option PlanError
  /-- The entity of the last change. -/
  last : Option Nat
  changes : Nat

namespace Probed

variable {D S Sc : Type} [Director D S Sc]

def inside {α : Type} (act : Act D α) : Act (Probed D S) α :=
  Act.zoom (·.inner) (fun p d => { p with inner := d }) act

instance : Director (Probed D S) S Sc where
  working p := Director.working p.inner
  edit f p := { p with inner := Director.edit f p.inner }
  before descriptor entity name :=
    inside (Director.before descriptor entity name)
  after descriptor entity name := do
    inside (Director.after descriptor entity name)
    modify fun p => { p with last := some entity, changes := p.changes + 1 }
  added descriptor entity := inside (Director.added descriptor entity)
  score := inside Director.score
  tryScore := do
    let p ← get
    match p.last.bind (p.refusal (Director.working p.inner)) with
    | some e => return .error e
    | none => inside Director.tryScore
  reset := inside Director.reset
  keepUndo undo := inside (Director.keepUndo undo)
  isIncremental p := Director.isIncremental p.inner

end Probed

variable {S E V T : Type} {shape : Shape}

-- ============================================================ reading

/-- Why values cannot be scored, by their words. -/
def refusalsOf (d : Document) : Read (List (String × PlanError)) := do
  (← getEntries d "failing").mapM fun (word, kind) => do
    let text := "cannot score " ++ word
    match ← asText kind with
    | "transient" => return (word, .scoring text)
    | "state" => return (word, .invalidState text)
    | "cancelled" => return (word, .cancelled)
    | "structural" => return (word, .structural text)
    | other => malformed other

/-- The refusal of the value that an entity holds. -/
def refusalOf (stage : DemandStage S E V T shape)
    (refusals : List (String × PlanError)) (s : S) (entity : Nat) :
    Option PlanError :=
  match stage.demand.assigned s entity with
  | some value => (refusals.find? fun r => r.1 == stage.word value).map Prod.snd
  | none => none

/-- The director of a construction. -/
def constructionEngine (stage : DemandStage S E V T shape) (d : Document) :
    Read (Engine S shape) := do
  match ← getOption asText d "director" with
  | some "incremental" =>
    let limit ← getOption asLevel d "limit"
    let calculator :=
      RunningTotal.calculator stage.slots stage.contribution limit
    return .incremental (.start calculator (.start shape) stage.start)
  | _ => return .full (.start stage.score stage.start)

-- ============================================================ writing

def summaryDocument (summary : Summary (Score shape)) : Document :=
  table [("assigned", .nat summary.assigned), ("skipped", .nat summary.skipped),
    ("score", scoreDocument summary.score),
      ("terminated", .bool summary.terminated)]

def resultDocument : Except PlanError (Summary (Score shape)) → Document
  | .ok summary => summaryDocument summary
  | .error e => errorDocument e

def eventDocument (stage : DemandStage S E V T shape) :
    ConstructionEvent V (Score shape) → Document
  | .started units entities =>
      .list [.text "started", .nat units, .nat entities]
  | .committed entity value score =>
    .list [.text "committed", .nat entity, stage.value value,
      scoreDocument score]
  | .skipped entity value e =>
    .list [.text "skipped", .nat entity, stage.value value, .text e.message]
  | .ended summary => .list [.text "ended", summaryDocument summary]

/-- The reports that a script listens to. -/
def heard {V Sc : Type} (sink : Option String)
    (events : List (ConstructionEvent V Sc)) : List (ConstructionEvent V Sc) :=
  match sink with
  | some "noop" => []
  | some "commits" => events.filter fun event =>
    match event with
    | .committed .. => true
    | _ => false
  | _ => events

/-- The score that a solution remembers. -/
def storedDocument (stored : Option (Score shape)) : Document :=
  Document.option scoreDocument stored

-- ============================================================ running

/-- A construction that has run. -/
structure Outcome (D V Sc : Type) where
  result : Except PlanError (Summary Sc)
  director : D
  /-- Reports, oldest first. -/
  events : List (ConstructionEvent V Sc)

/-- Runs a construction on a director. -/
def constructed {D : Type} [Director D S (Score shape)]
    [Planning S (Score shape)] [Ord T] (init : Initializer)
    (stage : DemandStage S E V T shape) (raised : D → List Nat) (d : D) :
    Except Fault (Outcome D V (Score shape)) := do
  let run : Initializer.Run D V (Score shape) := .start d
  let act : Act (Initializer.Run D V (Score shape))
      (Except PlanError (Summary (Score shape))) :=
    init.construct stage.demand 0 raised
  let (result, run) := act.run run
  return ⟨← result, run.director, run.events.reverse⟩

/-- Builds a first solution step by step as a script asks for it. -/
def directedAnswer (d : Document) : Read Document :=
  onDemand d fun {S _ V _ shape} _ _ stage => do
    let (terminations, signals) ← terminationsOf deepest
      (← getList d "terminations") ⟨0, []⟩
    let init : Initializer := ⟨terminations, ← getNatOr d "descriptor" 0,
      ← getTextOr d "variable" ""⟩
    let stopAfter ← getOption asNat d "stop_after"
    let refusals ← refusalsOf d
    let director : Probed (Traced (Engine S shape)) S :=
      ⟨.start (← constructionEngine stage d), refusalOf stage refusals, none, 0⟩
    let raised (p : Probed (Traced (Engine S shape)) S) : List Nat :=
      match stopAfter, lastSignal terminations with
      | some n, some signal =>
          if n ≤ p.changes then signal :: signals.raised else signals.raised
      | _, _ => signals.raised
    let outcome ← lift (constructed init stage raised director)
    let s := Director.working outcome.director
    let events : List (ConstructionEvent V (Score shape)) :=
      heard (← getOption asText d "sink") outcome.events
    let log := if getFlag d "log" false then
        [("log", Document.list (outcome.director.inner.log.toList.map .text))]
          else []
    return table ([("result", resultDocument outcome.result),
      ("events", .list (events.map (eventDocument stage))),
      ("state", stage.write s), ("stored", storedDocument (Planning.stored s)),
      ("initialized", .bool (← lift (stage.initialized s))),
      ("full", scoreDocument (← lift (stage.score s)))] ++ log)

/-- Builds a first solution as a configuration asks for it. -/
def configuredAnswer (isShown : Bool) (d : Document) : Read Document :=
  onDemand d fun {_ _ V _ shape} _ _ stage => do
    let config ← solverOf d
    let (result, reports) ← lift
      (config.firstSolution stage.demand stage.score stage.start)
    let told :=
      if isShown then
        let lines := reports.flatMap
            fun (r : ConstructionEvent V (Score shape)) =>
          (r.logged stage.shown 0).lines maskedClock
        [("events", Document.list []), ("lines", linesDocument lines)]
      else [("events", Document.list (reports.map (eventDocument stage)))]
    match result with
    | .error e => return table (("result", errorDocument e) :: told)
    | .ok (s, summary) =>
      let stored := if isShown then []
        else [("stored", storedDocument (Planning.stored s))]
      return table (("result", summaryDocument summary) :: ("state",
        stage.write s) ::
        stored ++ told)

/-- Builds a first solution. -/
def constructionAnswer (d : Document) : Read Document := do
  match ← getOption asText d "via" with
  | some "facade" => configuredAnswer false d
  | some "console" => configuredAnswer true d
  | _ => directedAnswer d

end PlanSearch.Script

/-
Building a first solution from its demand.

Demand units are taken in order, and each needed place gets an entity
with the next id. The entity tries every candidate in turn and keeps the
first one of the best score, before the next entity is minted; later
entities are thus scored against the ones before. A candidate whose
evaluation fails for the moment is skipped, any other failure ends the
construction. In the end the entities are put in the order of their ids.

Nothing is ever as bad as the least score: an entity whose candidates
reach no more than that stays open, and the construction fails.
-/
import PlanSearch.Construction.Event
import PlanSearch.Construction.Termination
import PlanSearch.Demand.Weight
import PlanSearch.Director.Basic
import PlanSearch.Score.Basic

namespace PlanSearch

/-- Scores that can be ranked. -/
class Ranked (Sc : Type) where
  /-- Strictly better. -/
  beats : Sc → Sc → Bool
  /-- Below any score that was computed. -/
  least : Sc

instance {shape : Shape} : Ranked (Score shape) :=
  ⟨Score.beats, Score.least shape⟩

/-- How a construction is run. -/
structure Initializer where
  terminations : List Termination
  /-- Descriptor and name of the variable, as they are announced. -/
  descriptor : Nat
  name : String

namespace Initializer

/-- No termination, and a variable without a name. -/
def plain : Initializer := ⟨[], 0, ""⟩

/-- What is carried from entity to entity. -/
structure Run (D V Sc : Type) where
  director : D
  /-- Entities committed. -/
  steps : Nat
  skipped : Nat
  nextId : Nat
  /-- Reports, newest first. -/
  events : List (ConstructionEvent V Sc)

variable {D S E V Date T Sc : Type} [Director D S Sc]

/-- Lets the director act. -/
def direct {α : Type} (act : Act D α) : Act (Run D V Sc) α :=
  Act.zoom (·.director) (fun r d => { r with director := d }) act

/-- Reports. -/
def report (event : ConstructionEvent V Sc) : Act (Run D V Sc) Unit :=
  Act.update fun r => { r with events := event :: r.events }

/-- The working solution. -/
def working : Act (Run D V Sc) S :=
  Act.look fun r => .ok (Director.working r.director)

variable (init : Initializer) (demand : Demand S E V Date T)

/-- Gives an entity a value, announced. -/
def assign (index : Nat) (value : Option V) : Act (Run D V Sc) Unit := direct do
  Director.before init.descriptor index init.name
  Act.update (Director.edit (demand.assign index value))
  Director.after init.descriptor index init.name

/-- Mints an entity, appends it and answers its index. -/
def addEntity (id unit : Nat) : Act (Run D V Sc) Nat := do
  let s ← working (S := S)
  let index := (demand.entities s).length
  direct (Act.update (Director.edit (demand.push (demand.mint s id unit))))
  direct (Director.added init.descriptor index)
  return index

variable [Ranked Sc]

/-- Tries the candidates in turn; answers the first best value and its
score, which is the least one as long as there is no value. -/
def tryCandidates (id index : Nat) :
    List V → Option V × Sc → Act (Run D V Sc) (Except PlanError (Option V × Sc))
  | [], best => return .ok best
  | value :: rest, best => do
    assign init demand index (some value)
    match ← direct Director.tryScore with
    | .ok score =>
      tryCandidates id index rest (if Ranked.beats score best.2
        then (some value, score) else best)
    | .error e =>
      if e.isTransient then
        modify fun r => { r with skipped := r.skipped + 1 }
        report (.skipped id value e)
        tryCandidates id index rest best
      else
        assign init demand index none
        return .error e

/-- The error of an entity without an acceptable candidate. -/
def noCandidate (id unit : Nat) : PlanError :=
  .initialization id
    ("no candidate value for demand " ++ Text.ofNat unit ++
      " scored above the minimum")

/-- Builds one entity of a unit. -/
def buildEntity (unit : Nat) : Act (Run D V Sc) (Except PlanError Unit) := do
  let id := (← get).nextId
  modify fun r => { r with nextId := id + 1 }
  let index ← addEntity init demand id unit
  let candidates := demand.candidates (← working) unit
  match ← tryCandidates init demand id index candidates
      (none, Ranked.least) with
  | .error e => return .error e
  | .ok (none, _) =>
    assign init demand index none
    return .error (noCandidate id unit)
  | .ok (some value, score) =>
    assign init demand index (some value)
    modify fun r => { r with steps := r.steps + 1 }
    report (.committed id value score)
    return .ok ()

/-- Whether a termination stops the construction now. -/
def isStopped (elapsed : Nat) (raised : D → List Nat) : Act (Run D V Sc) Bool :=
  Act.look fun r =>
    .ok (Termination.anyStops ⟨0, r.steps, elapsed, raised r.director⟩
      init.terminations)

/-- How the building of entities ended. -/
inductive Ending
  | complete
  | stopped
  | failed (e : PlanError)

/-- Builds a number of entities of one unit. -/
def buildPlaces (elapsed : Nat) (raised : D → List Nat) (unit : Nat) :
    Nat → Act (Run D V Sc) Ending
  | 0 => return .complete
  | n + 1 => do
    if ← isStopped init elapsed raised then return .stopped
    else
      match ← buildEntity init demand unit with
      | .error e => return .failed e
      | .ok () => buildPlaces elapsed raised unit n

/-- Builds the entities of some units, one unit after the other. -/
def buildUnits (elapsed : Nat) (raised : D → List Nat) :
    List (Weight Date T) → Act (Run D V Sc) Ending
  | [] => return .complete
  | w :: rest => do
    match ← buildPlaces init demand elapsed raised w.index w.required with
    | .complete => buildUnits elapsed raised rest
    | ending => return ending

/-- Puts the entities in the order of their ids and scores the result. -/
def finish (terminated : Bool) [Planning S Sc] :
    Act (Run D V Sc) (Summary Sc) := do
  let entities := demand.entities (← working)
  let sorted := entities.mergeSort fun a b => decide (demand.id a ≤ demand.id b)
  direct (Act.update (Director.edit (demand.install sorted)))
  direct Director.reset
  let score ← direct Director.score
  direct (Act.update (Director.edit (Planning.store (some score))))
  let r ← get
  let summary : Summary Sc := ⟨r.steps, r.skipped, score, terminated⟩
  report (.ended summary)
  return summary

/-- Runs the construction on a director. -/
def construct [Ord Date] [Ord T] [Planning S Sc] (elapsed : Nat)
    (raised : D → List Nat) :
    Act (Run D V Sc) (Except PlanError (Summary Sc)) := do
  let weights := demand.ordered (← working)
  let total ← Act.lift (Checked.countSum (weights.map Weight.required))
  report (.started weights.length total)
  match ← buildUnits init demand elapsed raised weights with
  | .failed e => return .error e
  | .complete => return .ok (← finish demand false)
  | .stopped => return .ok (← finish demand true)

/-- A construction about to begin. -/
def Run.start (director : D) : Run D V Sc := ⟨director, 0, 0, 0, []⟩

end Initializer

end PlanSearch

/-
Problems that can be searched: a solution type together with its
variables and its scoring.

Beside the score of a whole solution, a problem says what every single
entity contributes. The running-total calculator adds these up, and
takes out and puts in one of them at a time.
-/
import PlanSearch.Director.Full
import PlanSearch.Director.Incremental
import PlanSearch.Score.Text
import PlanSearch.Variable

namespace PlanSearch

/-- A problem over solutions `S` whose basic variables hold integers. -/
structure World (S : Type) where
  /-- The basic variables, each with the class of its entities. -/
  basics : List (String × BasicVariable S Int)
  chained : List (ChainedVariable S)
  /-- What an entity of a variable contributes; nothing if there is no such
  entity. -/
  contribution : S → Nat → Nat → Except Fault (Option HardSoft)
  /-- The score of a whole solution. -/
  score : S → Except Fault HardSoft
  /-- Whether every variable holds a value, as far as the problem tells. -/
  initialized : S → Except Fault Bool
  /-- Appends an entity that holds a value, where the problem admits it;
  answers the descriptor of the entity's variable. -/
  append : Option Int → S → Option (S × Nat)

/-- Entity counts by descriptor, in the order of the descriptors. -/
def World.counts {S : Type} (world : World S) (s : S) : List (Nat × Nat) :=
  world.basics.map (fun b => (b.2.descriptor, b.2.count s)) ++
    world.chained.map (fun c => (c.descriptor, c.count s))

/-- Every entity of every variable. -/
def World.slots {S : Type} (world : World S) (s : S) : List (Nat × Nat) :=
  (world.counts s).flatMap fun (descriptor, count) =>
    (List.range count).map fun e => (descriptor, e)

-- ====================================================== running totals

/-- A running total, with a count of the calls that kept it up to date. -/
structure RunningTotal (shape : Shape) where
  total : Score shape
  resets : Nat
  retractions : Nat
  insertions : Nat

namespace RunningTotal

variable {shape : Shape} {S : Type}

def start (shape : Shape) : RunningTotal shape := ⟨Score.zero shape, 0, 0, 0⟩

/-- Adds a contribution, if there is one. -/
def put (c : Option (Score shape)) : Act (RunningTotal shape) Unit := do
  match c with
  | none => return
  | some c =>
    let t ← get
    set { t with total := ← Act.lift (t.total.add c) }

/-- Takes a contribution out, if there is one. -/
def take (c : Option (Score shape)) : Act (RunningTotal shape) Unit := do
  match c with
  | none => return
  | some c =>
    let t ← get
    set { t with total := ← Act.lift (t.total.sub c) }

/-- The last level of a score; zero if it has none. -/
def lastLevel (score : Score shape) : Int64 := score.levels.getLast?.getD 0

/-- Refuses a total whose last level is below a limit. -/
def refusal (limit : Option Int64) (score : Score shape) :
    Except PlanError (Score shape) :=
  match limit with
  | some least =>
    if lastLevel score < least then
      .error (.scoring ("last level " ++ Text.ofLevel (lastLevel score) ++
        " is below " ++
        Text.ofLevel least))
    else .ok score
  | none => .ok score

/-- The calculator that sums contributions over all slots. -/
def calculator (slots : S → List (Nat × Nat))
    (contribution : S → Nat → Nat → Except Fault (Option (Score shape)))
    (limit : Option Int64) :
    Calculator S (Score shape) (RunningTotal shape) where
  reset s := do
    modify fun t => { t with total := Score.zero shape, resets := t.resets + 1 }
    (slots s).forM fun (d, e) => do put (← Act.lift (contribution s d e))
  retract s d e := do
    modify fun t => { t with retractions := t.retractions + 1 }
    take (← Act.lift (contribution s d e))
  insert s d e := do
    modify fun t => { t with insertions := t.insertions + 1 }
    put (← Act.lift (contribution s d e))
  insertNew s d e := do
    modify fun t => { t with insertions := t.insertions + 1 }
    put (← Act.lift (contribution s d e))
  total t := .ok t.total
  tryTotal t := .ok (refusal limit t.total)

end RunningTotal

/-- The sum of all contributions. -/
def World.contributionSum {S : Type} (world : World S) (s : S) :
    Except Fault HardSoft :=
  (world.slots s).foldlM (fun total slot => do
    match ← world.contribution s slot.1 slot.2 with
    | some c => total.add c
    | none => return total) (Score.zero .hardSoft)

/-- A director over a problem: scoring from scratch or by running totals. -/
inductive Engine (S : Type) (shape : Shape)
  | full (d : FullDirector S (Score shape))
  | incremental (d : IncrementalDirector S (Score shape) (RunningTotal shape))

namespace Engine

variable {S : Type} {shape : Shape} [Planning S (Score shape)]

/-- Lets whichever director is there act. -/
def dispatch {α : Type} (full : Act (FullDirector S (Score shape)) α)
    (incremental : Act
      (IncrementalDirector S (Score shape) (RunningTotal shape)) α) :
    Act (Engine S shape) α :=
  ExceptT.mk fun engine =>
    match engine with
    | .full d => let (result, d) := full.run d; (result, .full d)
    | .incremental d =>
        let (result, d) := incremental.run d; (result, .incremental d)

instance : Director (Engine S shape) S (Score shape) where
  working
    | .full d => d.working
    | .incremental d => d.working
  edit f
    | .full d => .full (Director.edit f d)
    | .incremental d => .incremental (Director.edit f d)
  before d e name :=
    dispatch (Director.before d e name) (Director.before d e name)
  after d e name := dispatch (Director.after d e name) (Director.after d e name)
  added d e := dispatch (Director.added d e) (Director.added d e)
  score := dispatch Director.score Director.score
  tryScore := dispatch Director.tryScore Director.tryScore
  reset := dispatch Director.reset Director.reset
  keepUndo undo := dispatch (Director.keepUndo undo) (Director.keepUndo undo)
  isIncremental
    | .full _ => false
    | .incremental _ => true

end Engine

end PlanSearch

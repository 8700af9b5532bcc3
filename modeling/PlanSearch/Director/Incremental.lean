/-
The director that scores by running totals.

A calculator keeps whatever totals it likes. The first score call scans
the whole solution; from then on every announced change takes the
entity's old contribution out and puts its new one in. Before the first
scan, and again after a reset, announcements are ignored, since the scan
to come will see their effect.
-/
import PlanSearch.Director.Basic

namespace PlanSearch

/-- What keeps the totals `T` of a solution `S` scored by `Sc`. -/
structure Calculator (S Sc T : Type) where
  /-- Rebuilds the totals from the solution. -/
  reset : S → Act T Unit
  /-- Takes out the present contribution of an entity. -/
  retract : S → Nat → Nat → Act T Unit
  /-- Puts in the present contribution of an entity. -/
  insert : S → Nat → Nat → Act T Unit
  /-- Puts in the contribution of an appended entity. -/
  insertNew : S → Nat → Nat → Act T Unit
  /-- The score of the totals. -/
  total : T → Except Fault Sc
  /-- The score of the totals, or why it is refused. -/
  tryTotal : T → Except Fault (Except PlanError Sc)

/-- A director that leaves the totals to a calculator. -/
structure IncrementalDirector (S Sc T : Type) where
  calculator : Calculator S Sc T
  working : S
  totals : T
  /-- Whether the full scan has run. -/
  ready : Bool

namespace IncrementalDirector

variable {S Sc T : Type}

/-- A director whose first score call will scan the solution. -/
def start (calculator : Calculator S Sc T) (totals : T) (s : S) :
    IncrementalDirector S Sc T :=
  ⟨calculator, s, totals, false⟩

/-- Lets the calculator work on the totals. -/
def calculate {α : Type} (act : Calculator S Sc T → S → Act T α) :
    Act (IncrementalDirector S Sc T) α := do
  let d ← get
  Act.zoom (·.totals) (fun d t => { d with totals := t })
    (act d.calculator d.working)

/-- Scans the solution unless that was done. -/
def prepare : Act (IncrementalDirector S Sc T) Unit := do
  unless (← get).ready do
    calculate fun c s => c.reset s
    modify fun d => { d with ready := true }

/-- Passes an announcement on once the scan has run. -/
def pass (act : Calculator S Sc T → S → Act T Unit) :
    Act (IncrementalDirector S Sc T) Unit := do
  if (← get).ready then calculate act

/-- Stores a score on the working solution. -/
def store [Planning S Sc] (score : Sc) :
    Act (IncrementalDirector S Sc T) Unit :=
  Act.update fun d =>
    { d with working := Planning.store (some score) d.working }

instance [Planning S Sc] : Director (IncrementalDirector S Sc T) S Sc where
  working d := d.working
  edit f d := { d with working := f d.working }
  before descriptor entity _ := pass fun c s => c.retract s descriptor entity
  after descriptor entity _ := pass fun c s => c.insert s descriptor entity
  added descriptor entity := pass fun c s => c.insertNew s descriptor entity
  score := do
    prepare
    let score ← Act.look fun d => d.calculator.total d.totals
    store score
    return score
  tryScore := do
    prepare
    match ← Act.look fun d => d.calculator.tryTotal d.totals with
    | .ok score =>
      store score
      return .ok score
    | .error e => return .error e
  reset := Act.update fun d => { d with ready := false }
  keepUndo _ := return
  isIncremental _ := true

end IncrementalDirector

end PlanSearch

/-
Trials that can be taken back.

A recording stands in front of another director for the length of one
trial. It keeps the undo of every change and the entities touched, and
`undoChanges` plays the undos newest first, announcing every touched
entity once before and once after.
-/
import PlanSearch.Director.Basic

namespace PlanSearch

/-- A director that remembers how to take back what was done through it. -/
structure Recording (D S : Type) where
  inner : D
  /-- The undos, newest first. -/
  undos : List (S → S)
  /-- Descriptor and index of the entities announced as changed, in order
  of their first announcement. -/
  touched : List (Nat × Nat)

namespace Recording

variable {D S Sc : Type} [Director D S Sc]

/-- A recording of nothing yet. -/
def start (inner : D) : Recording D S := ⟨inner, [], []⟩

/-- Lets the inner director act. -/
def inside {α : Type} (act : Act D α) : Act (Recording D S) α :=
  Act.zoom (·.inner) (fun r d => { r with inner := d }) act

/-- Adds an entity to the touched ones unless it is there. -/
def touch (entity : Nat × Nat) : Act (Recording D S) Unit :=
  Act.update fun r =>
    if r.touched.contains entity then r
    else { r with touched := r.touched ++ [entity] }

/-- Forgets the recording and keeps the changes. -/
def clear : Act (Recording D S) Unit :=
  Act.update fun r => { r with undos := [], touched := [] }

/-- How many changes could be taken back. -/
def changeCount (r : Recording D S) : Nat := r.undos.length

/-- Takes back every recorded change, newest first. -/
def undoChanges : Act (Recording D S) Unit := do
  let r ← get
  r.touched.forM fun t => inside (Director.before t.1 t.2 "")
  modify fun r => { r with
    inner := r.undos.foldl (fun d undo => Director.edit undo d) r.inner,
      undos := [] }
  modify fun r => { r with touched := [] }
  r.touched.forM fun t => inside (Director.after t.1 t.2 "")

instance : Director (Recording D S) S Sc where
  working r := Director.working r.inner
  edit f r := { r with inner := Director.edit f r.inner }
  before descriptor entity name :=
    inside (Director.before descriptor entity name)
  after descriptor entity name := do
    inside (Director.after descriptor entity name)
    touch (descriptor, entity)
  added descriptor entity := inside (Director.added descriptor entity)
  score := inside Director.score
  tryScore := inside Director.tryScore
  reset := do
    inside Director.reset
    clear
  keepUndo undo := Act.update fun r => { r with undos := undo :: r.undos }
  isIncremental r := Director.isIncremental r.inner

end Recording

end PlanSearch

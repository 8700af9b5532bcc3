/-
A director that writes down what it was told.

Announcements, resets and undos handed over are appended to a log in the
order of the calls, and then passed on.
-/
import PlanSearch.Director.Basic

namespace PlanSearch

/-- A director with a log of the calls that reached it. -/
structure Traced (D : Type) where
  inner : D
  log : Array String

namespace Traced

variable {D S Sc : Type} [Director D S Sc]

def start (inner : D) : Traced D := ⟨inner, #[]⟩

def inside {α : Type} (act : Act D α) : Act (Traced D) α :=
  Act.zoom (·.inner) (fun t d => { t with inner := d }) act

/-- Appends a line to the log. -/
def note (line : String) : Act (Traced D) Unit :=
  Act.update fun t => { t with log := t.log.push line }

/-- The line of an announced change. -/
def changeLine (word : String) (descriptor entity : Nat)
    (name : String) : String :=
  word ++ " " ++ Text.ofNat descriptor ++ " " ++
    Text.ofNat entity ++ " " ++ name

instance : Director (Traced D) S Sc where
  working t := Director.working t.inner
  edit f t := { t with inner := Director.edit f t.inner }
  before descriptor entity name := do
    note (changeLine "before" descriptor entity name)
    inside (Director.before descriptor entity name)
  after descriptor entity name := do
    note (changeLine "after" descriptor entity name)
    inside (Director.after descriptor entity name)
  added descriptor entity := do
    note ("added " ++ Text.ofNat descriptor ++ " " ++ Text.ofNat entity)
    inside (Director.added descriptor entity)
  score := inside Director.score
  tryScore := inside Director.tryScore
  reset := do
    note "reset"
    inside Director.reset
  keepUndo undo := do
    note "undo registered"
    inside (Director.keepUndo undo)
  isIncremental t := Director.isIncremental t.inner

end Traced

end PlanSearch

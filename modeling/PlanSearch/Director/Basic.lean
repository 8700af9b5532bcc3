/-
Score directors.

A director owns the working solution and answers what its score is. What
changes the solution tells the director before and after, entity by
entity, so that a director which keeps a running total can take the old
contribution out and put the new one in. An edit that was not announced
must be followed by `reset`.

Whoever makes a change also hands over how to take it back. Only a
recording keeps these; every other director lets them go.
-/
import PlanSearch.Error
import PlanSearch.Fault

namespace PlanSearch

/-- A solution that remembers the last score a director computed for it. -/
class Planning (S : Type) (Sc : outParam Type) where
  stored : S → Option Sc
  store : Option Sc → S → S

/-- The operations of a score director `D` for solutions `S` scored by `Sc`. -/
class Director (D : Type) (S Sc : outParam Type) where
  /-- The working solution. -/
  working : D → S
  /-- Edits the working solution; anything cached about it is dropped. -/
  edit : (S → S) → D → D
  /-- Announces that a variable of an entity is about to change. -/
  before : Nat → Nat → String → Act D Unit
  /-- Announces that a variable of an entity has changed. -/
  after : Nat → Nat → String → Act D Unit
  /-- Announces that an entity was appended. -/
  added : Nat → Nat → Act D Unit
  /-- The score, computed if need be, and stored on the solution. -/
  score : Act D Sc
  /-- The score, or why this candidate has none. -/
  tryScore : Act D (Except PlanError Sc)
  /-- Drops what is cached after a change that was not announced. -/
  reset : Act D Unit
  /-- Hands over how to take back the change just made. -/
  keepUndo : (S → S) → Act D Unit
  /-- Whether the director scores by running totals. -/
  isIncremental : D → Bool

namespace Director

variable {D S Sc : Type} [Director D S Sc]

/-- Announces a change of each listed entity. -/
def beforeEach (descriptor : Nat) (name : String)
    (entities : List Nat) : Act D Unit :=
  entities.forM fun e => Director.before descriptor e name

/-- Announces that each listed entity has changed. -/
def afterEach (descriptor : Nat) (name : String)
    (entities : List Nat) : Act D Unit :=
  entities.forM fun e => Director.after descriptor e name

end Director

end PlanSearch

/-
Passes: the first moves of a selector that is opened anew.

A selector in random order goes on to its next pass whenever it is opened,
so how often that has happened is kept from pass to pass. Asking for the
next move can take forever; where the patience runs out, the portion that
has been read says so.
-/
import PlanSearch.Selector.Reading

namespace PlanSearch.Selector

variable {S V : Type}

/-- The attempts a pass may take; more than any search makes. -/
def patience : Nat := 1152921504606846976

/-- What has been read of a pass. -/
structure Portion (S V : Type) where
  moves : List (Move S V)
  /-- The patience ran out while more moves were asked for. -/
  stuck : Bool

/-- The next moves of a reading, at most a number of them. -/
def nextMoves [BEq V] (s : S) :
    Nat → Reading S V → List (Move S V) → Act Passes (Portion S V)
  | 0, _, done => return ⟨done.reverse, false⟩
  | n + 1, reading, done => do
    match ← Reading.next s patience reading with
    | (.move m, reading) => nextMoves s n reading (m :: done)
    | (.ended, _) => return ⟨done.reverse, false⟩
    | (.stuck, _) => return ⟨done.reverse, true⟩

/-- The first moves of a new pass. -/
def firstMoves [BEq V] (selector : Selector S V) (s : S) (take : Nat) :
    Act Passes (Portion S V) := do
  nextMoves s take (← Reading.openOn s patience selector []) []

/-- The moves of such a portion, stuck or not, for who takes what there is. -/
def offered [BEq V] (selector : Selector S V) (s : S) (take : Nat) :
    Act Passes (List (Move S V)) := do
  return (← selector.firstMoves s take).moves

end PlanSearch.Selector

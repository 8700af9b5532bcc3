/-
Climbing: the best move of a pass is done as long as one is better than
doing nothing.

Every doable move of a pass is tried on a recording and taken back, so the
working solution changes only by moves that are done. Of equally good
moves the first one is taken. The score of the trial stands for the move
from then on: it is not asked for again when the move is done.
-/
import PlanSearch.Director.Recording
import PlanSearch.Move.Check
import PlanSearch.Move.Run
import PlanSearch.Score.Basic
import PlanSearch.Selector.Pass

namespace PlanSearch

namespace Move

variable {D S V : Type} {shape : Shape} [Director D S (Score shape)]

/-- The score of a move that is done on a recording and taken back. -/
def trial (m : Move S V) : Act D (Score shape) :=
  Act.zoom Recording.start (fun _ recording => recording.inner)
    (do
      m.run
      let score ← Director.score
      Recording.undoChanges
      return score : Act (Recording D S) (Score shape))

/-- A move of a pass that beats doing nothing, with its place there and the
score its trial came to. -/
structure Better (S V : Type) (shape : Shape) where
  move : Move S V
  place : Nat
  score : Score shape

/-- The first best of some doable moves, after the best one so far; while
there is none yet, of those that beat the current score. -/
def bestOf [BEq V] (current : Score shape) :
    List (Move S V × Nat) → Option (Better S V shape) →
    Act D (Option (Better S V shape))
  | [], best => return best
  | (m, place) :: rest, best => do
    if m.isDoable (Director.working (← get)) then
      let score ← m.trial
      if score.beats ((best.map Better.score).getD current) then
        bestOf current rest (some ⟨m, place, score⟩)
      else bestOf current rest best
    else bestOf current rest best

end Move

/-- A director that climbs, and what is kept between the passes of its
supply of moves. -/
structure Climb (D P : Type) where
  director : D
  passes : P

namespace Climb

variable {D P S V : Type} {shape : Shape} [Director D S (Score shape)]

/-- Lets the director act. -/
def direct {α : Type} (act : Act D α) : Act (Climb D P) α :=
  Act.zoom (·.director) (fun c d => { c with director := d }) act

/-- The moves of a new pass over the working solution. -/
def pass (supply : S → Act P (List (Move S V))) :
    Act (Climb D P) (List (Move S V)) := do
  let s := Director.working (← get).director
  Act.zoom (·.passes) (fun c p => { c with passes := p }) (supply s)

/-- Does the best move of a pass, at most a number of times, and answers the
score that is reached: the one that the trial of the last move came to. -/
def run [BEq V] (supply : S → Act P (List (Move S V))) :
    Nat → Score shape → Act (Climb D P) (Score shape)
  | 0, current => return current
  | rounds + 1, current => do
    let moves ← pass supply
    match ← direct (Move.bestOf current moves.zipIdx none) with
    | none => return current
    | some best =>
      direct best.move.run
      run supply rounds best.score

/-- Climbs from the score of the working solution. -/
def start [BEq V] (supply : S → Act P (List (Move S V))) (rounds : Nat) :
    Act (Climb D P) (Score shape) := do
  let current ← direct Director.score
  run supply rounds current

/-- Climbs with the first moves of each pass of a selector that was never
opened before. -/
def fromStart [BEq V] (selector : Selector S V) (take rounds : Nat) :
    Act D (Score shape) :=
  Act.zoom (fun d => ⟨d, []⟩) (fun _ climb => climb.director)
    (start (fun s => selector.offered s take) rounds)

end Climb

end PlanSearch

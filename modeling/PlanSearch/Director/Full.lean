/-
The director that scores from scratch.

The scoring function runs over the whole solution. Its last result is
kept until the next announcement or edit, so asking twice between moves
costs nothing.
-/
import PlanSearch.Director.Basic

namespace PlanSearch

/-- A director that runs a scoring function over the whole solution. -/
structure FullDirector (S Sc : Type) where
  scoring : S → Except Fault Sc
  working : S
  /-- The last result, while nothing can have changed since. -/
  cached : Option Sc

namespace FullDirector

variable {S Sc : Type}

/-- A director that has not scored yet. -/
def start (scoring : S → Except Fault Sc) (s : S) : FullDirector S Sc :=
  ⟨scoring, s, none⟩

/-- Drops the kept result. -/
def forget : Act (FullDirector S Sc) Unit :=
  Act.update fun d => { d with cached := none }

/-- The kept result, or a fresh one that is stored and kept. -/
def score [Planning S Sc] : Act (FullDirector S Sc) Sc := do
  let d ← get
  match d.cached with
  | some score => return score
  | none =>
    let score ← Act.lift (d.scoring d.working)
    set { d with
      working := Planning.store (some score) d.working,
      cached := some score }
    return score

instance [Planning S Sc] : Director (FullDirector S Sc) S Sc where
  working d := d.working
  edit f d := { d with working := f d.working, cached := none }
  before _ _ _ := forget
  after _ _ _ := forget
  added _ _ := forget
  score := score
  tryScore := return .ok (← score)
  reset := forget
  keepUndo _ := return
  isIncremental _ := false

end FullDirector

end PlanSearch

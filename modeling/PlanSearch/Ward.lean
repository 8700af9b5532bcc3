/-
The week of a ward: six nurses, seven days.

A first roster is built from what the shifts require, and every local
search of the configuration then improves it. The ward brings one weight
factory of its own, under which swaps are drawn most often.
-/
import PlanSearch.Config.File
import PlanSearch.Construction.Setup
import PlanSearch.Problem.Roster
import PlanSearch.Search.Climb
import PlanSearch.Selector.Build

namespace PlanSearch.Ward

def nurses : Nat := 6

def days : Nat := 7

/-- The most moves a search does. -/
def rounds : Nat := 200

/-- The moves tried before one is done. -/
def movesPerRound : Nat := 100

-- ============================================================ configuration

def randomChange : SelectorConfig :=
  .leaf { CommonSettings.unset with order := some .random }
    (.change (some "Assignment") (some "nurse"))

/-- A union of changes, swaps and changes of small groups, in random order. -/
def selector : SelectorConfig :=
  .union { CommonSettings.unset with order := some .random }
    [.leaf { CommonSettings.unset with inheritFrom := some "random_change" }
      (.change none none),
      .leaf CommonSettings.unset (.swap (some "Assignment") []),
      .leaf { CommonSettings.unset with limit := some 50 }
        (.pillarChange none (some ⟨some true, none, some 2⟩) (some "nurse"))]
    (some "favour_swaps")

/-- The configuration used where there is no other. -/
def config : SolverConfig where
  environment := .reproducible
  seed := some 17
  limits := some ⟨some 10, none, none⟩
  phases := [.construction none, .localSearch (some selector) none]
  templates := Templates.ofList [("random_change", randomChange)]

/-- The configuration in a file; the ward's own one if there is no such file
or if it cannot be read. -/
def configOf (file : Option String) : SolverConfig :=
  match file.map (SolverConfig.ofText .toml) with
  | some (.ok config) => config
  | _ => config

-- ============================================================ search

/-- The weights of the children of a union: the second one weighs most. -/
def favourSwaps (_ : Roster) (child : Nat) : Binary64 :=
  match child with
  | 0 => .one
  | 1 => .ofNat 2
  | _ => .ofDecimal false 5 (-1)

/-- What the ward's selectors may refer to. -/
def context : SelectorContext Roster Int where
  basics := Roster.wardWorld.basics
  chained := []
  registry := { Registry.empty with weights := [("favour_swaps", favourSwaps)] }
  seed := some 0

/-- Climbs with one selector after the other, then stores the score reached. -/
def improve (selectors : List (Selector Roster Int)) :
    Act (FullDirector Roster HardSoft) Roster := do
  selectors.forM fun selector => do
    let _ ← Climb.fromStart selector movesPerRound rounds
  let score ← Director.score
  return Planning.store (some score) (Director.working (← get))

/-- Plans the week, and prints the roster. -/
def plan (config : SolverConfig) : Except Fault (Except PlanError String) := do
  let start ← Roster.generate nurses days
  let (first, _) ← config.firstSolution Roster.demand Roster.wardScore start
  match first, config.buildSelectors context 0 with
  | .error e, _ => return .error e
  | .ok _, .error e => return .error e.toPlanError
  | .ok (roster, _), .ok selectors =>
    let roster ← ((improve selectors).run (.start Roster.wardScore roster)).1
    return .ok (← roster.printed)

/-- What a program leaves behind. -/
structure Outcome where
  code : Nat
  out : String
  err : String
  deriving DecidableEq, Repr

/-- Plans the week by the configuration in a file, if there is one. -/
def run (file : Option String) : Outcome :=
  match plan (configOf file) with
  | .ok (.ok text) => ⟨0, text, ""⟩
  | .ok (.error e) => ⟨1, "", "Error: " ++ shown e ++ "\n"⟩
  | .error _ => ⟨101, "", "broken off\n"⟩

end PlanSearch.Ward

/-
Vehicles that drive from visit to visit. Every visit follows a depot or
another visit; what counts is the length of the way.
-/
import PlanSearch.Problem.World

namespace PlanSearch

/-- A place to drive to, and what it is driven to from. -/
structure Visit where
  location : Int
  previous : Option Link
  deriving DecidableEq, Repr

/-- Depots by vehicle, visits by index. -/
structure Routing where
  depots : List Int
  visits : List Visit
  stored : Option HardSoft

namespace Routing

instance : Planning Routing HardSoft where
  stored := Routing.stored
  store score s := { s with stored := score }

/-- What a visit is driven to from. -/
def previous : ChainedVariable Routing where
  name := "previous"
  descriptor := 0
  count s := s.visits.length
  anchors s := s.depots.length
  get s visit := (s.visits[visit]?).bind Visit.previous
  set s visit link :=
    { s with visits := s.visits.modify visit fun v =>
        { v with previous := link } }

/-- Visits ten apart along one road, not yet driven to. -/
def visitsAlong (count : Nat) : List Visit :=
  (List.range count).map fun (i : Nat) => ⟨10 * ((i : Int) + 1), none⟩

/-- One route per vehicle, all depots at zero. A route through an unknown
visit breaks off. -/
def ofChains (chains : List (List Nat)) (count : Nat) :
    Except Fault Routing := do
  let links := ChainIndex.linksOf 0 chains
  if links.all fun l => l.1 < count then
    return ⟨chains.map fun _ => 0,
      links.foldl (fun visits l => visits.modify l.1 fun v =>
        { v with previous := some l.2 })
        (visitsAlong count), none⟩
  else .error .indexOutOfBounds

/-- The routes, if the links form chains; none otherwise. -/
def chains (s : Routing) : List (List Nat) :=
  match previous.index s with
  | .ok index => index.chains
  | .error _ => []

/-- Where a link lies; zero if it is unknown. -/
def origin (s : Routing) : Link → Int
  | .anchor a => (s.depots[a]?).getD 0
  | .entity e => ((s.visits[e]?).map Visit.location).getD 0

/-- The length of the way to a visit, nothing for one that is not driven to. -/
def wayTo (s : Routing) (visit : Visit) : Except Fault (Option Int64) :=
  match visit.previous with
  | none => .ok none
  | some link => do
    let way ← Checked.level (visit.location - s.origin link)
    return some (← Checked.abs way)

/-- Open visits are hard points, the way is soft. -/
def score (s : Routing) : Except Fault HardSoft := do
  let (missing, way) ← s.visits.foldlM (fun (missing, way) visit => do
    match ← s.wayTo visit with
    | none => return (missing + 1, way)
    | some d => return (missing, ← Checked.add way d)) ((0 : Int), (0 : Int64))
  return HardSoft.of (← Checked.level (-missing)) (← Checked.neg way)

def world : World Routing where
  basics := []
  chained := [previous]
  contribution s descriptor visit :=
    match descriptor, s.visits[visit]? with
    | 0, some v => do
      match ← s.wayTo v with
      | none => return some (HardSoft.of (-1) 0)
      | some way => return some (HardSoft.of 0 (← Checked.neg way))
    | _, _ => .ok none
  score := score
  initialized s := .ok (s.visits.all fun v => v.previous.isSome)
  append _ _ := none

end Routing

end PlanSearch

/-
Units to be staffed, with costs by value.

Every slot of a unit is to hold one of the unit's candidates, which are
texts. A value costs what its entry says, on one hard and two soft
levels; a value held before costs one more on the last level, and some
values are so bad that a plan which holds one has the least score.
-/
import PlanSearch.Demand.Weight
import PlanSearch.Problem.World

namespace PlanSearch

/-- Scores of one hard and two soft levels. -/
abbrev UnitScore := Score (.bendable 1 2)

/-- A unit that needs slots. -/
structure StaffUnit where
  date : Int
  required : Nat
  kind : String
  candidates : List String
  deriving DecidableEq, Repr

/-- A place of a unit, and what it holds. -/
structure Slot where
  id : Nat
  unit : Nat
  value : Option String
  deriving DecidableEq, Repr

structure Units where
  units : List StaffUnit
  costs : List (String × UnitScore)
  worst : List String
  slots : List Slot
  stored : Option UnitScore

namespace Units

instance : Planning Units UnitScore where
  stored := Units.stored
  store score s := { s with stored := score }

def unitScore (hard first second : Int64) : UnitScore :=
  ⟨[hard, first, second], rfl⟩

/-- What a held value costs by its entry. -/
def costOf (s : Units) (value : String) : UnitScore :=
  ((s.costs.find? fun c => c.1 == value).map Prod.snd).getD (Score.zero _)

/-- What a slot contributes. -/
def slotCost (s : Units) (slot : Slot) : UnitScore :=
  match slot.value with
  | none => unitScore (-1) 0 0
  | some value => s.costOf value

/-- The score of the slots from left to right: the least one as soon as a
worst value is held. -/
def scoreFrom (s : Units) : UnitScore → List String → List Slot →
    Except Fault UnitScore
  | total, _, [] => .ok total
  | total, seen, slot :: rest =>
    match slot.value with
    | none => do
      let total ← total.add (s.slotCost slot)
      s.scoreFrom total seen rest
    | some value =>
      if s.worst.contains value then .ok (Score.least _)
      else do
        let total ← total.add (s.slotCost slot)
        let total ←
          if seen.contains value then total.add (unitScore 0 0 (-1))
          else .ok total
        s.scoreFrom total (value :: seen) rest

def score (s : Units) : Except Fault UnitScore :=
  s.scoreFrom (Score.zero _) [] s.slots

/-- What the slot at an index contributes, whatever the descriptor. -/
def contribution (s : Units) (_descriptor index : Nat) :
    Except Fault (Option UnitScore) :=
  .ok ((s.slots[index]?).map s.slotCost)

/-- Every slot. -/
def allSlots (s : Units) : List (Nat × Nat) :=
  (List.range s.slots.length).map fun i => (0, i)

def demand : Demand Units Slot String Int String where
  count s := s.units.length
  weight s unit :=
    match s.units[unit]? with
    | some u => ⟨unit, u.date, u.required, u.kind⟩
    | none => ⟨unit, 0, 0, ""⟩
  candidates s unit := ((s.units[unit]?).map StaffUnit.candidates).getD []
  mint _ id unit := ⟨id, unit, none⟩
  id := Slot.id
  entities := Units.slots
  push slot s := { s with slots := s.slots ++ [slot] }
  assigned s index := (s.slots[index]?).bind Slot.value
  assign index value s :=
    { s with slots := s.slots.modify index fun x => { x with value := value } }
  install slots s := { s with slots := slots }

end Units

end PlanSearch

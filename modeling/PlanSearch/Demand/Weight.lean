/-
The order in which demand is met.

Earlier dates come first; of one date the units that need more, then the
smaller discriminator, then the smaller position. Since positions differ,
no two units of a plan tie.
-/
namespace PlanSearch

/-- The sorting key of one demand unit. -/
structure Weight (Date T : Type) where
  /-- Position of the unit in the solution. -/
  index : Nat
  date : Date
  /-- How many entities the unit needs. -/
  required : Nat
  discriminator : T
  deriving DecidableEq, Repr

namespace Weight

/-- Which of two units is to be met first. -/
def order {Date T : Type} [Ord Date] [Ord T] (a b : Weight Date T) : Ordering :=
  (compare a.date b.date).then <| (compare b.required a.required).then <|
    (compare a.discriminator b.discriminator).then (compare a.index b.index)

/-- Units in the order in which they are met; of equal keys the first stays
first. -/
def sort {Date T : Type} [Ord Date] [Ord T] (weights : List (Weight Date T)) :
    List (Weight Date T) :=
  weights.mergeSort fun a b => order a b != .gt

end Weight

/-- How a solution `S` states its demand: units that need entities `E`,
each of which is to hold a value `V`. -/
structure Demand (S E V Date T : Type) where
  /-- The number of units. -/
  count : S → Nat
  weight : S → Nat → Weight Date T
  /-- The candidate values of a unit's entities, in a stable order. -/
  candidates : S → Nat → List V
  /-- A new entity with an id for a unit, holding nothing. -/
  mint : S → Nat → Nat → E
  id : E → Nat
  entities : S → List E
  /-- Appends an entity. -/
  push : E → S → S
  /-- What the entity at an index holds. -/
  assigned : S → Nat → Option V
  assign : Nat → Option V → S → S
  /-- Puts a list in the place of the entities. -/
  install : List E → S → S

/-- The units of a solution in the order in which they are met. -/
def Demand.ordered {S E V Date T : Type} [Ord Date] [Ord T]
    (demand : Demand S E V Date T) (s : S) : List (Weight Date T) :=
  Weight.sort ((List.range (demand.count s)).map (demand.weight s))

end PlanSearch

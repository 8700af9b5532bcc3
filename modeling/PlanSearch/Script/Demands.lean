/-
Scripts on demand: the order in which units are met, and what a problem
says about its units.
-/
import PlanSearch.Script.Stage

namespace PlanSearch.Script

/-- A problem that states its demand. -/
structure DemandStage (S E V T : Type) (shape : Shape) where
  demand : Demand S E V Int T
  start : S
  write : S → Document
  value : V → Document
  /-- The value as a bare word. -/
  word : V → String
  /-- The value as it is shown. -/
  shown : V → String
  discriminator : T → Document
  score : S → Except Fault (Score shape)
  initialized : S → Except Fault Bool
  /-- What an entity contributes to a running total. -/
  contribution : S → Nat → Nat → Except Fault (Option (Score shape))
  slots : S → List (Nat × Nat)

def rosterStage (world : World Roster) (start : Roster) :
    DemandStage Roster Assignment Nat ShiftKind .hardSoft where
  demand := Roster.demand
  start := start
  write := writeRoster
  value := Document.nat
  word := Text.ofNat
  shown := Text.ofNat
  discriminator kind := .text kind.name
  score := world.score
  initialized := world.initialized
  contribution := world.contribution
  slots := world.slots

def unitStage (start : Units) :
    DemandStage Units Slot String String (.bendable 1 2) where
  demand := Units.demand
  start := start
  write := writeUnits
  value := .text
  word value := value
  shown := Text.Shown.text
  discriminator := .text
  score := Units.score
  initialized _ := .ok true
  contribution := Units.contribution
  slots := Units.allSlots

/-- What can be done on the stage of any problem that states its demand. -/
abbrev OnDemand (α : Type) :=
  {S E V T : Type} → {shape : Shape} → [Planning S (Score shape)] → [Ord T] →
    DemandStage S E V T shape → Read α

/-- Sets the stage of a script whose problem states its demand. -/
def onDemand {α : Type} (d : Document) (play : OnDemand α) : Read α := do
  let state := (d.get? "world_state").getD (table [])
  match ← getText d "world" with
  | "roster" => play (rosterStage Roster.world (← plainRosterOf state))
  | "demo" => play (rosterStage Roster.wardWorld (← wardRosterOf state))
  | "units" => play (unitStage (← unitsOf state))
  | _ => malformed "unknown world"

/-- What a problem says about its demand. -/
def demandSummary : OnDemand Document := fun stage => do
  let demand := stage.demand
  let s := stage.start
  let units := List.range (demand.count s)
  let weights := units.map (demand.weight s)
  let entities := demand.entities s
  return table [
    ("weights", .list
      (weights.map fun w => .list [.nat w.index, .int w.date, .nat w.required,
      stage.discriminator w.discriminator])),
    ("sorted", nats ((demand.ordered s).map Weight.index)),
    ("candidates", .list
      (units.map fun u => .list ((demand.candidates s u).map stage.value))),
    ("ids", nats (entities.map demand.id)),
    ("minted", nats (units.map fun u => demand.id (demand.mint s (u + 7) u))),
    ("assigned", .list ((List.range (entities.length + 1)).map fun i =>
      Document.option stage.value (demand.assigned s i))),
    ("state", stage.write s),
    ("score", scoreDocument (← lift (stage.score s))),
    ("initialized", .bool (← lift (stage.initialized s)))]

def demandAnswer (d : Document) : Read Document := onDemand d demandSummary

-- ============================================================ weights

def weightOf (index : Nat) (d : Document) : Read (Weight Int String) := do
  return ⟨← getNatOr d "index" index, ← asInt (← getDocument d "date"),
    ← getNat d "required", ← getText d "kind"⟩

/-- The order of each pair of neighbours. -/
def neighbourOrders : List (Weight Int String) → List Document
  | a :: b :: rest =>
      orderDocument (Weight.order a b) :: neighbourOrders (b :: rest)
  | _ => []

def orderAnswer (d : Document) : Read Document := do
  let weights ← (← getList d "weights").zipIdx.mapM fun (w, i) => weightOf i w
  return table [("pairs", .list (neighbourOrders weights)),
    ("sorted", nats ((Weight.sort weights).map Weight.index))]

end PlanSearch.Script

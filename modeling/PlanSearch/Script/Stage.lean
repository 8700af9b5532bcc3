/-
Problems as scripts pose them.

A script names a problem and describes the state it starts in. The state
reached is written the same way.
-/
import PlanSearch.Problem.Mixed
import PlanSearch.Problem.Roster
import PlanSearch.Problem.Routing
import PlanSearch.Problem.Tasks
import PlanSearch.Problem.Units
import PlanSearch.Script.Answer

namespace PlanSearch.Script

/-- A problem, the state to start in and how a state is written. -/
structure Stage (S : Type) where
  world : World S
  start : S
  write : S → Document

-- ============================================================ tasks

def tasksOf (d : Document) : Read Tasks := do
  match get? d "priorities" with
  | some priorities =>
      return ⟨← (← asList priorities).mapM (asOption asInt), none⟩
  | none => return ⟨List.replicate (← getNatOr d "unassigned" 0) none, none⟩

def writeTasks (s : Tasks) : Document :=
  .list (s.priorities.map (Document.option Document.int))

-- ============================================================ routes

/-- Replaces the items of a list, as far as both lists reach. -/
def overwrite {α β : Type} (put : α → β → α) : List α → List β → List α
  | [], _ => []
  | as, [] => as
  | a :: as, b :: bs => put a b :: overwrite put as bs

def routingOf (d : Document) : Read Routing := do
  let chains ← (← getList d "chains").mapM asNats
  let links ← (← getList d "links").mapM (asOption asLink)
  let depots ← (← getList d "depots").mapM asInt
  let locations ← (← getList d "locations").mapM asInt
  let s ← lift (Routing.ofChains chains (← getNatOr d "visits" 0))
  let linked := overwrite (fun (v : Visit) link => { v with previous := link })
    s.visits links
  return { s with
    depots := overwrite (fun _ place => place) s.depots depots
    visits := overwrite (fun (v : Visit) place => { v with location := place })
      linked locations }

def writeChains (chains : List (List Nat)) : Document := .list (chains.map nats)

def writeLinks (links : List (Option Link)) : Document :=
  .list (links.map (Document.option linkDocument))

def writeRouting (s : Routing) : Document :=
  table [("links", writeLinks (s.visits.map Visit.previous)),
    ("chains", writeChains s.chains)]

-- ============================================================ rosters

def employeeOf (daysOff : String) (d : Document) : Read Employee := do
  return ⟨← getText d "name", ← (← getList d daysOff).mapM asNat⟩

def shiftOf (d : Document) : Read Shift := do
  match ShiftKind.ofName? (← getText d "kind") with
  | some kind => return ⟨← getNat d "date", kind, ← getNat d "required"⟩
  | none => malformed "shift kind expected"

def assignmentOf (d : Document) : Read Assignment := do
  return ⟨← getNat d "id", ← getNat d "shift", ← getOption asNat d "employee"⟩

/-- A roster extended by what a script lists. -/
def rosterOf (start : Roster) (employees daysOff : String) (d : Document) :
    Read Roster := do
  return { start with
    employees := start.employees ++
      (← (← getList d employees).mapM (employeeOf daysOff))
    shifts := start.shifts ++ (← (← getList d "shifts").mapM shiftOf)
    assignments := start.assignments ++
      (← (← getList d "assignments").mapM assignmentOf) }

def plainRosterOf (d : Document) : Read Roster :=
  rosterOf ⟨[], [], [], none⟩ "employees" "unavailable" d

def wardRosterOf (d : Document) : Read Roster := do
  let start : Roster ← match get? d "generate" with
    | some nurses =>
        lift (Roster.generate (← asNat nurses) (← getNatOr d "days" 0))
    | none => .ok ⟨[], [], [], none⟩
  rosterOf start "nurses" "days_off" d

def writeRoster (s : Roster) : Document :=
  .list (s.assignments.map fun a =>
    .list [.nat a.id, .nat a.shift, Document.option Document.nat a.employee])

-- ============================================================ plans

def mixedOf (d : Document) : Read Mixed := do
  return {
    ax := ← column "ax"
    ay := ← column "ay"
    bz := ← column "bz"
    bx := ← column "bx"
    prev := ← track "prev"
    route := ← track "route"
    stored := none }
where
  column (name : String) : Read Column := do
    return ⟨← (← getList d name).mapM (asOption asInt),
      ← (← getList d (name ++ "_values")).mapM asInt⟩
  track (name : String) : Read Track := do
    return ⟨← (← getList d name).mapM (asOption asLink),
      ← getNatOr d (name ++ "_anchors") 0⟩

def writeMixed (s : Mixed) : Document :=
  table (column "ax" s.ax ++ column "ay" s.ay ++ column "bz" s.bz ++
    column "bx" s.bx ++
    track "prev" s.prev ++ track "route" s.route)
where
  column (name : String) (c : Column) : List (String × Document) :=
    if c.held.isEmpty then []
    else [(name, .list (c.held.map (Document.option Document.int)))]
  track (name : String) (t : Track) : List (String × Document) :=
    if t.links.isEmpty then [] else [(name, writeLinks t.links)]

-- ============================================================ units

def unitOf (d : Document) : Read StaffUnit := do
  return ⟨← asInt (← getDocument d "date"), ← getNat d "required",
    ← getTextOr d "kind" "", ← (← getList d "candidates").mapM asText⟩

def costOf (entry : String × Document) : Read (String × UnitScore) := do
  match ← (← asList entry.2).mapM asLevel with
  | [hard, first, second] => return (entry.1, Units.unitScore hard first second)
  | _ => malformed "three levels expected"

def slotOf (d : Document) : Read Slot := do
  return ⟨← getNat d "id", ← getNat d "unit", ← getOption asText d "value"⟩

def unitsOf (d : Document) : Read Units := do
  return ⟨← (← getList d "units").mapM unitOf,
    ← (← getEntries d "costs").mapM costOf, ← (← getList d "worst").mapM asText,
    ← (← getList d "slots").mapM slotOf, none⟩

def writeUnits (s : Units) : Document :=
  .list (s.slots.map fun x =>
    .list [.nat x.id, .nat x.unit, Document.option Document.text x.value])

-- ============================================================ stages

/-- Sets the stage of a script and plays on it. -/
def onStage {α : Type} (d : Document)
    (play : {S : Type} → [Planning S HardSoft] → Stage S → Read α) :
    Read α := do
  let state := (d.get? "world_state").getD (table [])
  match ← getText d "world" with
  | "task" => play ⟨Tasks.world, ← tasksOf state, writeTasks⟩
  | "routing" => play ⟨Routing.world, ← routingOf state, writeRouting⟩
  | "roster" => play ⟨Roster.world, ← plainRosterOf state, writeRoster⟩
  | "demo" => play ⟨Roster.wardWorld, ← wardRosterOf state, writeRoster⟩
  | "plan" => play ⟨Mixed.world, ← mixedOf state, writeMixed⟩
  | _ => malformed "unknown world"

end PlanSearch.Script

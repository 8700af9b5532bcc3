/-
Nurse rosters.

Shifts of a date and a kind need staff; each needed place becomes an
assignment that is to hold an employee. Two sets of rules score a
roster. Both count open places, work on a day off and the squares of
workloads. The plain rules count every assignment of an employee beyond
the first on a date. The ward's rules look at the sorted shifts of each
nurse: two shifts on a day, and an early shift after a night.
-/
import PlanSearch.Demand.Weight
import PlanSearch.Problem.World

namespace PlanSearch

/-- The kinds of shift, in the order of the day. -/
inductive ShiftKind
  | early
  | late
  | night
  deriving DecidableEq, Repr

namespace ShiftKind

def rank : ShiftKind → Nat
  | early => 0
  | late => 1
  | night => 2

instance : Ord ShiftKind := ⟨fun a b => compare a.rank b.rank⟩

def name : ShiftKind → String
  | early => "Early"
  | late => "Late"
  | night => "Night"

def ofName? : String → Option ShiftKind
  | "Early" => some early
  | "Late" => some late
  | "Night" => some night
  | _ => none

end ShiftKind

structure Employee where
  name : String
  daysOff : List Nat
  deriving DecidableEq, Repr

structure Shift where
  date : Nat
  kind : ShiftKind
  required : Nat
  deriving DecidableEq, Repr

/-- A place of a shift, and who holds it. -/
structure Assignment where
  id : Nat
  shift : Nat
  employee : Option Nat
  deriving DecidableEq, Repr

structure Roster where
  employees : List Employee
  shifts : List Shift
  assignments : List Assignment
  stored : Option HardSoft

namespace Roster

instance : Planning Roster HardSoft where
  stored := Roster.stored
  store score s := { s with stored := score }

/-- What the assignment at an index holds. -/
def employeeAt (s : Roster) (index : Nat) : Option Nat :=
  (s.assignments[index]?).bind Assignment.employee

/-- Gives the assignment at an index an employee. -/
def assign (s : Roster) (index : Nat) (employee : Option Nat) : Roster :=
  { s with assignments := s.assignments.modify index fun a =>
    { a with employee := employee } }

/-- Who holds an assignment, as a variable. -/
def variableNamed (name : String) : BasicVariable Roster Int where
  name := name
  descriptor := 0
  count s := s.assignments.length
  get s index := (s.employeeAt index).map fun e => (e : Int)
  set s index value := s.assign index (value.map Int.toNat)
  values s := (List.range s.employees.length).map fun (e : Nat) => (e : Int)

/-- The demand of a roster: every shift needs as many assignments as it says. -/
def demand : Demand Roster Assignment Nat Int ShiftKind where
  count s := s.shifts.length
  weight s unit :=
    match s.shifts[unit]? with
    | some shift => ⟨unit, shift.date, shift.required, shift.kind⟩
    | none => ⟨unit, 0, 0, .early⟩
  candidates s _ := List.range s.employees.length
  mint _ id unit := ⟨id, unit, none⟩
  id := Assignment.id
  entities := Roster.assignments
  push a s := { s with assignments := s.assignments ++ [a] }
  assigned := employeeAt
  assign index value s := s.assign index value
  install assignments s := { s with assignments := assignments }

-- ============================================================ plain rules

/-- The date of a shift; zero if there is no such shift. -/
def dateOf (s : Roster) (shift : Nat) : Nat :=
  ((s.shifts[shift]?).map Shift.date).getD 0

/-- Whether an employee has a date off. -/
def isOff (s : Roster) (employee date : Nat) : Bool :=
  match s.employees[employee]? with
  | some e => e.daysOff.contains date
  | none => false

/-- Hard penalties of assignments, in order, given the employees and
dates seen before. -/
def hardPenalties (s : Roster) : List (Nat × Nat) → List Assignment → Nat
  | _, [] => 0
  | seen, a :: rest =>
    match a.employee with
    | none => 1 + s.hardPenalties seen rest
    | some e =>
      let date := s.dateOf a.shift
      let off := if s.isOff e date then 1 else 0
      if seen.contains (e, date) then off + 1 + s.hardPenalties seen rest
      else off + s.hardPenalties ((e, date) :: seen) rest

/-- How many assignments an employee holds. -/
def workload (s : Roster) (employee : Nat) : Nat :=
  (s.assignments.filter fun a => a.employee == some employee).length

/-- The sum of some counts. -/
def total (counts : List Nat) : Nat := counts.foldr (· + ·) 0

/-- The sum of the squared workloads. -/
def squaredWorkloads (s : Roster) : Nat :=
  total ((List.range s.employees.length).map fun e =>
    s.workload e * s.workload e)

/-- The score by the plain rules. -/
def score (s : Roster) : Except Fault HardSoft :=
  Score.ofInts .hardSoft
    [-(s.hardPenalties [] s.assignments : Int), -(s.squaredWorkloads : Int)] rfl

/-- As many assignments as the shifts require, and all held. -/
def isStaffed (s : Roster) : Except Fault Bool := do
  let required ← Checked.countSum (s.shifts.map Shift.required)
  return s.assignments.length == required && s.assignments.all fun a =>
    a.employee.isSome

/-- What an assignment contributes to a running total: an open place a
hard point, a held one the employee's position. There is one variable, so
under which descriptor it is announced makes no difference. -/
def contribution (s : Roster) (_descriptor index : Nat) :
    Except Fault (Option HardSoft) :=
  match s.assignments[index]? with
  | some a =>
    match a.employee with
    | none => .ok (some (HardSoft.of (-1) 0))
    | some e => do
      return some (HardSoft.of 0 (← Checked.level (-((e : Int) + 1))))
  | none => .ok none

def world : World Roster where
  basics := [("ShiftAssignment", variableNamed "employee")]
  chained := []
  contribution := contribution
  score := score
  initialized := isStaffed
  append _ _ := none

-- ====================================================== the ward's rules

/-- The shifts a nurse works, in the order of the assignments. -/
def shiftsOf (s : Roster) (nurse : Nat) : List Shift :=
  s.assignments.filterMap fun a =>
    if a.employee = some nurse then s.shifts[a.shift]? else none

/-- The order of shifts in time. -/
def inTime (a b : Shift) : Bool :=
  ((compare a.date b.date).then (compare a.kind b.kind)) != .gt

/-- Neighbours in a list of shifts that fall on one day. -/
def sameDayPairs : List Shift → Nat
  | a :: b :: rest =>
      (if a.date = b.date then 1 else 0) + sameDayPairs (b :: rest)
  | _ => 0

/-- The largest day there is. -/
def lastDay : Nat := 4294967295

/-- Night shifts that an early shift follows on the next day. -/
def shortRests (shifts : List Shift) : Except Fault Nat :=
  shifts.foldlM (fun total night =>
    if night.kind = .night then
      if lastDay ≤ night.date then .error .arithmetic
      else if shifts.any fun e =>
          e.date == night.date + 1 && e.kind == .early then
        .ok (total + 1)
      else .ok total
    else .ok total) 0

/-- Whether every held assignment of a known shift names a known nurse. -/
def namesKnownNurses (s : Roster) : Bool :=
  s.assignments.all fun a =>
    match a.employee, s.shifts[a.shift]? with
    | some nurse, some _ => decide (nurse < s.employees.length)
    | _, _ => true

/-- Hard penalties of one nurse: days off worked, two shifts on a day, short
rests. -/
def nursePenalties (s : Roster) (nurse : Nat) : Except Fault Nat := do
  let worked := s.shiftsOf nurse
  let off := (worked.filter fun shift => s.isOff nurse shift.date).length
  let sorted := worked.mergeSort inTime
  return off + sameDayPairs sorted + (← shortRests sorted)

/-- The score by the ward's rules. An assignment of an unknown shift
counts for nothing; one of an unknown nurse breaks off. -/
def wardScore (s : Roster) : Except Fault HardSoft :=
  if s.namesKnownNurses then do
    let nurses := List.range s.employees.length
    let openPlaces := (s.assignments.filter fun a => a.employee.isNone).length
    let penalties ← nurses.mapM s.nursePenalties
    let squares :=
      total (nurses.map fun n => (s.shiftsOf n).length * (s.shiftsOf n).length)
    Score.ofInts .hardSoft [-((openPlaces + total penalties : Nat) : Int),
      -(squares : Int)] rfl
  else .error .indexOutOfBounds

def wardWorld : World Roster where
  basics := [("Assignment", variableNamed "nurse")]
  chained := []
  contribution := contribution
  score := wardScore
  initialized s := .ok (s.assignments.all fun a => a.employee.isSome)
  append _ _ := none

/-- The names given to the first nurses. -/
def givenNames : List String :=
  ["Ann", "Beth", "Cara", "Dina", "Emma", "Fay", "Gina", "Hana"]

/-- A roster of some nurses, each with one day off, and three shifts a
day: two places early, two late, one at night. -/
def generate (nurses days : Nat) : Except Fault Roster :=
  if days = 0 ∧ nurses ≠ 0 then .error .arithmetic
  else .ok {
    employees := (List.range nurses).map fun i =>
      ⟨(givenNames[i]?).getD ("Nurse " ++ Text.ofNat (i + 1)), [i % days + 1]⟩
    shifts := (List.range days).flatMap fun d =>
      [⟨d + 1, .early, 2⟩, ⟨d + 1, .late, 2⟩, ⟨d + 1, .night, 1⟩]
    assignments := []
    stored := none }

/-- The name printed for who holds a place. -/
def holderName (s : Roster) (a : Assignment) : Except Fault String :=
  match a.employee with
  | none => .ok "<open>"
  | some nurse =>
    match s.employees[nurse]? with
    | some e => .ok e.name
    | none => .error .indexOutOfBounds

/-- The line of one shift: day, kind and the names of its staff. -/
def shiftLine (s : Roster) (index : Nat) (shift : Shift) :
    Except Fault String := do
  let names ← (s.assignments.filter fun a => a.shift == index).mapM s.holderName
  return "  day " ++ Text.ofNat shift.date ++ " " ++ shift.kind.name ++ " | " ++
    ", ".intercalate names ++ "\n"

/-- The roster as it is printed: its stored score, then a line per shift. -/
def printed (s : Roster) : Except Fault String := do
  let head := "\nRoster (score: " ++
    ((s.stored.map Score.text).getD "-") ++ "):\n"
  let lines ← s.shifts.zipIdx.mapM fun (shift, index) => s.shiftLine index shift
  return head ++ String.join lines

end Roster

end PlanSearch

/-
Tasks that need a priority. One variable, one class: the smallest problem
with something to choose.
-/
import PlanSearch.Problem.World

namespace PlanSearch

/-- Tasks by index, each with its priority. -/
structure Tasks where
  priorities : List (Option Int)
  stored : Option HardSoft

namespace Tasks

instance : Planning Tasks HardSoft where
  stored := Tasks.stored
  store score s := { s with stored := score }

/-- The priority of a task. -/
def priority : BasicVariable Tasks Int where
  name := "priority"
  descriptor := 0
  count s := s.priorities.length
  get s task := (s.priorities[task]?).join
  set s task value := { s with priorities := s.priorities.set task value }
  values _ := [1, 2, 3]

/-- The score of some tasks, added up in order. -/
def scoreOf (priorities : List (Option Int)) : Except Fault HardSoft :=
  priorities.foldlM (fun total p => do
    match p with
    | none => total.add (HardSoft.of (-1) 0)
    | some p => total.add (HardSoft.of 0 (← Checked.level (-p))))
      (Score.zero .hardSoft)

def world : World Tasks where
  basics := [("Task", priority)]
  chained := []
  contribution s descriptor task :=
    match descriptor, s.priorities[task]? with
    | 0, some p => (scoreOf [p]).map some
    | _, _ => .ok none
  score s := scoreOf s.priorities
  initialized s := .ok (s.priorities.all Option.isSome)
  append value s := some ({ s with priorities := s.priorities ++ [value] }, 0)

end Tasks

end PlanSearch

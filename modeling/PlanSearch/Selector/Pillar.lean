/-
Pillars: sets of entities that hold the same values.

Entities are grouped by what they hold in every listed variable; an
entity that is open in one of them is in no group. A group yields itself
as its only pillar, or, if sub-pillars are asked for, each of its runs
whose length lies within bounds.
-/
import PlanSearch.Variable
import PlanSearch.Checked
import PlanSearch.Random.Chance

namespace PlanSearch

/-- Whether a group may be split into runs, and how long these may be. -/
structure SubPillars where
  enabled : Bool
  minimum : Nat
  maximum : Nat
  deriving DecidableEq, Repr

namespace SubPillars

/-- Whole groups only. -/
def none : SubPillars := ⟨false, 1, Checked.maxCount⟩

/-- Every run of every group. -/
def all : SubPillars := ⟨true, 1, Checked.maxCount⟩

/-- With a least size; there is no empty pillar. -/
def withMinimum (p : SubPillars) (size : Nat) : SubPillars :=
  { p with minimum := max size 1 }

def withMaximum (p : SubPillars) (size : Nat) : SubPillars :=
  { p with maximum := size }

/-- The sizes of the pillars that a group of a length yields. -/
def sizes (p : SubPillars) (length : Nat) : Option (Nat × Nat) :=
  if p.enabled then
    let longest := min p.maximum length
    if p.minimum ≤ longest then some (p.minimum, longest) else Option.none
  else if p.minimum ≤ length then some (length, length)
  else Option.none

instance : Shown SubPillars where
  shown p := Text.Shown.record "SubPillarConfig"
    [("enabled", Text.Shown.bool p.enabled), ("minimum_size", shown p.minimum),
      ("maximum_size", shown p.maximum)]

end SubPillars

/-- A run of a group, with the group's number. -/
structure Pillar where
  group : Nat
  entities : List Nat
  deriving DecidableEq, Repr

/-- A contiguous run of a list. -/
def runOf (items : List Nat) (start size : Nat) : List Nat :=
  (items.drop start).take size

/-- The numbers from `low` to `high`. -/
def upTo (low high : Nat) : List Nat := List.range' low (high + 1 - low)

namespace Pillar

variable {S V : Type}

/-- What an entity holds in every variable; nothing if it is open in one. -/
def key (vars : List (BasicVariable S V)) (s : S) (entity : Nat) :
    Option (List V) :=
  vars.mapM fun x => x.get s entity

/-- Puts an entity into the group of its key, or into a new last one. -/
def put [BEq V] (key : List V) (entity : Nat) :
    List (List V × List Nat) → List (List V × List Nat)
  | [] => [(key, [entity])]
  | g :: rest =>
    if g.1 == key then (g.1, g.2 ++ [entity]) :: rest
    else g :: put key entity rest

/-- The number of entities of the first variable. -/
def entityCount (vars : List (BasicVariable S V)) (s : S) : Nat :=
  match vars with
  | [] => 0
  | x :: _ => x.count s

/-- Entities by what they hold, groups in order of first occurrence. -/
def classes [BEq V] (vars : List (BasicVariable S V)) (s : S) :
    List (List V × List Nat) :=
  (List.range (entityCount vars s)).foldl (fun groups e =>
    match key vars s e with
    | some k => put k e groups
    | none => groups) []

/-- The groups that yield a pillar. -/
def groups [BEq V] (vars : List (BasicVariable S V)) (p : SubPillars) (s : S) :
    List (List Nat) :=
  ((classes vars s).map Prod.snd).filter fun g => (p.sizes g.length).isSome

/-- The pillars of one group: by size, then by start. -/
def ofGroup (p : SubPillars) (number : Nat) (group : List Nat) : List Pillar :=
  match p.sizes group.length with
  | none => []
  | some (low, high) =>
    (upTo low high).flatMap fun size =>
      (upTo 0 (group.length - size)).map fun start =>
        ⟨number, runOf group start size⟩

/-- The pillars of all groups. -/
def all [BEq V] (vars : List (BasicVariable S V)) (p : SubPillars) (s : S) :
    List Pillar :=
  ((groups vars p s).zipIdx).flatMap fun (group, number) =>
    ofGroup p number group

/-- A pillar of a group by chance: first its size, then its start. -/
def sample (p : SubPillars) (number : Nat) (group : List Nat) : Chance Pillar :=
  match p.sizes group.length with
  | some (low, high) =>
    if p.enabled then do
      let size ← Chance.drawBetween low high
      let start ← Chance.drawBetween 0 (group.length - size)
      return ⟨number, runOf group start size⟩
    else return ⟨number, group⟩
  | none => return ⟨number, group⟩

end Pillar

end PlanSearch

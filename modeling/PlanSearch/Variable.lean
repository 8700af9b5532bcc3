/-
Planning variables as a pair of readings and writings.

A variable knows how many entities it has, what each holds and how to
make one hold something else; a solution is whatever these functions are
about. A basic variable holds a value of a range, a chained one a link.
Past the last entity nothing is held, and writing there changes nothing.
-/
import PlanSearch.Chain.Index

namespace PlanSearch

/-- A variable whose entities hold values of a range. -/
structure BasicVariable (S V : Type) where
  name : String
  descriptor : Nat
  count : S → Nat
  get : S → Nat → Option V
  set : S → Nat → Option V → S
  /-- The candidate values, in a stable order. -/
  values : S → List V

/-- A variable whose entities hold links. -/
structure ChainedVariable (S : Type) where
  name : String
  descriptor : Nat
  count : S → Nat
  anchors : S → Nat
  get : S → Nat → Option Link
  set : S → Nat → Option Link → S

namespace BasicVariable

variable {S V : Type}

/-- Writes one entity after the other. -/
def setAll (x : BasicVariable S V) (s : S)
    (changes : List (Nat × Option V)) : S :=
  changes.foldl (fun s c => x.set s c.1 c.2) s

/-- What the listed entities hold, entity by entity. -/
def held (x : BasicVariable S V) (s : S) (entities : List Nat) :
    List (Nat × Option V) :=
  entities.map fun e => (e, x.get s e)

instance : Shown (BasicVariable S V) where
  shown x := Text.Shown.record "BasicVariable"
    [("variable_name", shown x.name), ("descriptor_index", shown x.descriptor)]

end BasicVariable

namespace ChainedVariable

variable {S : Type}

/-- Writes one entity after the other. -/
def setAll (x : ChainedVariable S) (s : S) (changes : LinkChanges) : S :=
  changes.foldl (fun s c => x.set s c.1 c.2) s

/-- What the listed entities follow, entity by entity. -/
def held (x : ChainedVariable S) (s : S) (entities : List Nat) : LinkChanges :=
  entities.map fun e => (e, x.get s e)

/-- The links of all entities. -/
def links (x : ChainedVariable S) (s : S) : List (Option Link) :=
  (List.range (x.count s)).map (x.get s)

/-- The chains of a solution, if they are well-formed. -/
def index (x : ChainedVariable S) (s : S) : Except ChainFlaw ChainIndex :=
  ChainIndex.ofLinks (x.anchors s) (x.links s)

instance : Shown (ChainedVariable S) where
  shown x := Text.Shown.record "ChainedVariable"
    [("variable_name", shown x.name), ("descriptor_index", shown x.descriptor)]

end ChainedVariable

end PlanSearch

/-
Links of chains.

An entity of a chained variable points at what comes before it: another
entity, or the anchor that roots the chain. The flaws listed here are
what can be wrong with a set of links, or with a rearrangement asked of
well-formed chains.
-/
import PlanSearch.Error

namespace PlanSearch

/-- What an entity of a chain follows. -/
inductive Link
  | anchor (a : Nat)
  | entity (e : Nat)
  deriving DecidableEq, Repr

instance : Shown Link where
  shown
    | .anchor a => Text.Shown.tuple "Anchor" [shown a]
    | .entity e => Text.Shown.tuple "Entity" [shown e]

/-- A list of links to write: which entity is to follow what. -/
abbrev LinkChanges := List (Nat × Option Link)

/-- What can be wrong with links, or with a rearrangement of chains. -/
inductive ChainFlaw
  | unknownAnchor (entity anchor : Nat)
  | followsItself (entity : Nat)
  | followsUnassigned (entity previous : Nat)
  | unknownEntity (entity previous : Nat)
  | twoSuccessors (link : Link) (first second : Nat)
  | rootless (entity : Nat)
  | emptySegment
  | segmentUnassigned (entity : Nat)
  | notContiguous (segment : List Nat) (anchor : Nat)
  | afterOwnEntity (segment : List Nat) (target : Nat)
  | segmentsOverlap (left right : List Nat)
  | noAnchor (anchor : Nat)
  | targetUnassigned (entity : Nat)
  | tailAfterItself (entity : Nat)
  | tailUnassigned (entity : Nat)
  | linkNowhere (link : Link)
  deriving DecidableEq, Repr

def ChainFlaw.message : ChainFlaw → String
  | unknownAnchor e a =>
      "entity " ++ shown e ++ " points at unknown anchor " ++ shown a
  | followsItself e => "entity " ++ shown e ++ " points at itself"
  | followsUnassigned e p =>
      "entity " ++ shown e ++ " follows unassigned entity " ++ shown p
  | unknownEntity e p =>
      "entity " ++ shown e ++ " points at unknown entity " ++ shown p
  | twoSuccessors link first second =>
    shown link ++ " has two successors: " ++ shown first ++
      " and " ++ shown second
  | rootless e =>
      "entity " ++ shown e ++ " is part of a cycle not rooted at any anchor"
  | emptySegment => "empty sub chain"
  | segmentUnassigned e => "sub chain starts at unassigned entity " ++ shown e
  | notContiguous segment a =>
    Text.Shown.indices segment ++
      " is not a contiguous segment of the chain of anchor " ++ shown a
  | afterOwnEntity segment target =>
    "cannot move " ++ Text.Shown.indices segment ++
      " after its own entity " ++ shown target
  | segmentsOverlap left right =>
    "sub chains " ++ Text.Shown.indices left ++ " and " ++
      Text.Shown.indices right ++ " overlap"
  | noAnchor a => "unknown anchor " ++ shown a
  | targetUnassigned e => "link target " ++ shown e ++ " is unassigned"
  | tailAfterItself e =>
      "cannot attach the tail of " ++ shown e ++ " after itself"
  | tailUnassigned e => "entity " ++ shown e ++ " is unassigned"
  | linkNowhere link => "link " ++ shown link ++ " is not in any chain"

/-- The error a flaw is answered with. -/
def ChainFlaw.error (flaw : ChainFlaw) : PlanError := .structural flaw.message

end PlanSearch

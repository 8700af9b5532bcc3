/-
The chains behind a set of links.

Links form a graph in which every entity has at most one predecessor.
They are well-formed when every target exists and is assigned, nothing
has two successors, and every assigned entity is reached from an anchor.
`ChainIndex.ofLinks` checks exactly this and returns the chains, one per
anchor, each in order; a link that fails is reported by the first entity
that shows the flaw.

Beside the chains an index keeps a table of where each entity stands. It is
filled as the chains are walked, and look-ups go through it: no chain is
searched.
-/
import PlanSearch.Chain.Link

namespace PlanSearch

/-- Anchor and position of each entity that stands on a chain. -/
abbrev Positions := List (Option (Nat × Nat))

/-- Where an entity stands; nowhere if the table does not know it. -/
def Positions.place (positions : Positions) (entity : Nat) :
    Option (Nat × Nat) :=
  (positions[entity]?).join

/-- All chains of a solution. -/
structure ChainIndex where
  /-- The entities of each anchor's chain, in chain order. -/
  chains : List (List Nat)
  positions : Positions
  deriving DecidableEq, Repr

-- ====================================================== from links

/-- Which entity was seen to follow which link. -/
abbrev Successors := List (Link × Nat)

/-- The entity that follows a link. -/
def Successors.after (successors : Successors) (link : Link) : Option Nat :=
  (successors.find? fun s => s.1 == link).map Prod.snd

namespace ChainIndex

/-- What is wrong with the target of an entity's link, looked at by itself. -/
def targetFlaw (anchors : Nat) (links : List (Option Link)) (entity : Nat) :
    Link → Option ChainFlaw
  | .anchor a => if a < anchors then none else some (.unknownAnchor entity a)
  | .entity p =>
    if p = entity then some (.followsItself entity)
    else match links[p]? with
      | none => some (.unknownEntity entity p)
      | some none => some (.followsUnassigned entity p)
      | some (some _) => none

/-- Collects the successors, entity by entity. -/
def collect (anchors : Nat) (links : List (Option Link)) :
    Nat → List (Option Link) → Successors → Except ChainFlaw Successors
  | _, [], seen => .ok seen
  | entity, none :: rest, seen => collect anchors links (entity + 1) rest seen
  | entity, some link :: rest, seen =>
    match targetFlaw anchors links entity link with
    | some flaw => .error flaw
    | none =>
      match seen.after link with
      | some other => .error (.twoSuccessors link other entity)
      | none =>
          collect anchors links (entity + 1) rest (seen ++ [(link, entity)])

/-- Walks along the successors of a link, at most `fuel` of them, and enters
each entity into the table with its position. -/
def walk (successors : Successors) (anchor : Nat) :
    Nat → Link → Nat → Positions → List Nat × Positions
  | 0, _, _, positions => ([], positions)
  | fuel + 1, link, position, positions =>
    match successors.after link with
    | none => ([], positions)
    | some entity =>
      let (rest, positions) :=
        walk successors anchor fuel (.entity entity) (position + 1)
          (positions.set entity (some (anchor, position)))
      (entity :: rest, positions)

/-- Walks the chains of anchors, one after the other. -/
def walkAll (successors : Successors) (fuel : Nat) :
    List Nat → Positions → List (List Nat) × Positions
  | [], positions => ([], positions)
  | anchor :: rest, positions =>
    let (chain, positions) :=
      walk successors anchor fuel (.anchor anchor) 0 positions
    let (chains, positions) := walkAll successors fuel rest positions
    (chain :: chains, positions)

/-- The first assigned entity that the table has nowhere. -/
def firstRootless (positions : Positions) :
    Nat → List (Option Link) → Option Nat
  | _, [] => none
  | entity, none :: rest => firstRootless positions (entity + 1) rest
  | entity, some _ :: rest =>
    if (positions.place entity).isNone then some entity
    else firstRootless positions (entity + 1) rest

/-- The chains of the links, if these are well-formed. -/
def ofLinks (anchors : Nat) (links : List (Option Link)) :
    Except ChainFlaw ChainIndex :=
  match collect anchors links 0 links [] with
  | .error flaw => .error flaw
  | .ok successors =>
    let (chains, positions) := walkAll successors links.length
      (List.range anchors) (List.replicate links.length none)
    match firstRootless positions 0 links with
    | some entity => .error (.rootless entity)
    | none => .ok ⟨chains, positions⟩

-- ========================================================== look-up

/-- Anchor and position of an assigned entity. -/
def locate (index : ChainIndex) (entity : Nat) : Option (Nat × Nat) :=
  index.positions.place entity

/-- The chain of an anchor; an unknown anchor has none of its entities. -/
def chain (index : ChainIndex) (anchor : Nat) : List Nat :=
  index.chains.getD anchor []

/-- The anchor that roots an entity's chain. -/
def anchorOf (index : ChainIndex) (entity : Nat) : Option Nat :=
  (index.locate entity).map Prod.fst

/-- The entity that follows an entity. -/
def next (index : ChainIndex) (entity : Nat) : Option Nat :=
  match index.locate entity with
  | some (anchor, position) => (index.chain anchor)[position + 1]?
  | none => none

/-- The link that stands before a position of a chain. -/
def linkBefore (anchor : Nat) (chain : List Nat) (position : Nat) :
    Except Fault Link :=
  match position with
  | 0 => .ok (.anchor anchor)
  | p + 1 =>
    match chain[p]? with
    | some entity => .ok (.entity entity)
    | none => .error .indexOutOfBounds

/-- The links of a chain's entities, in chain order. -/
def linksAlong : Link → List Nat → List (Nat × Link)
  | _, [] => []
  | link, entity :: rest => (entity, link) :: linksAlong (.entity entity) rest

/-- The links of all chains, counted from `anchor`. -/
def linksOf : Nat → List (List Nat) → List (Nat × Link)
  | _, [] => []
  | anchor, chain :: rest =>
    linksAlong (.anchor anchor) chain ++ linksOf (anchor + 1) rest

/-- The link of an assigned entity. -/
def previousLink (index : ChainIndex) (entity : Nat) : Option Link :=
  match index.locate entity with
  | some (anchor, position) =>
    (linkBefore anchor (index.chain anchor) position).toOption
  | none => none

/-- Where something inserted after a link would stand: the anchor of the
chain and the number of entities up to and including the link. -/
def splitPoint (index : ChainIndex) : Link → Option (Nat × Nat)
  | .anchor a => if a < index.chains.length then some (a, 0) else none
  | .entity e => (index.locate e).map fun (a, p) => (a, p + 1)

/-- Anchor and start of a contiguous segment of one chain. -/
def locateSegment (index : ChainIndex) (segment : List Nat) :
    Except ChainFlaw (Nat × Nat) :=
  match segment with
  | [] => .error .emptySegment
  | first :: _ =>
    match index.locate first with
    | none => .error (.segmentUnassigned first)
    | some (anchor, start) =>
      if ((index.chain anchor).drop start).take segment.length = segment then
        .ok (anchor, start)
      else .error (.notContiguous segment anchor)

end ChainIndex

end PlanSearch

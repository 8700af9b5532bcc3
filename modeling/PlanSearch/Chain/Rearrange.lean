/-
Rearrangements of chains.

Each of them takes well-formed chains apart and puts the same entities
together again: a segment moves behind another link, two segments change
places, or the tails of two chains are exchanged (within one chain, a
run is reversed). The result is compared with the old chains, and only
the links that differ are written.
-/
import PlanSearch.Chain.Index

namespace PlanSearch

namespace ChainIndex

/-- A chain with `count` entities from `start` on replaced. -/
def replaceRun (chain : List Nat) (start count : Nat)
    (run : List Nat) : List Nat :=
  chain.take start ++ run ++ chain.drop (start + count)

/-- A run of a chain turned around, from `start` up to before `stop`. -/
def reverseRun (chain : List Nat) (start stop : Nat) : List Nat :=
  chain.take start ++ ((chain.take stop).drop start).reverse ++ chain.drop stop

/-- The links to write so that the chains become the given ones. -/
def diff (index : ChainIndex) (chains : List (List Nat)) : LinkChanges :=
  (linksOf 0 chains).filterMap fun (entity, link) =>
    if index.previousLink entity = some link then none
    else some (entity, some link)

/-- The first chain that holds an entity, counted from `anchor`, and its
position there. -/
def findIn (entity : Nat) : Nat → List (List Nat) → Option (Nat × Nat)
  | _, [] => none
  | anchor, chain :: rest =>
    match chain.idxOf? entity with
    | some position => some (anchor, position)
    | none => findIn entity (anchor + 1) rest

/-- Where something inserted after a link would stand in chains that have no
table. -/
def splitIn (chains : List (List Nat)) : Link → Option (Nat × Nat)
  | .anchor a => if a < chains.length then some (a, 0) else none
  | .entity e => (findIn e 0 chains).map fun (a, p) => (a, p + 1)

/-- A segment, as it is put back. -/
def turned (reversing : Bool) (segment : List Nat) : List Nat :=
  if reversing then segment.reverse else segment

/-- The chains with a segment moved directly behind a link. -/
def moveSegment (index : ChainIndex) (segment : List Nat) (target : Link)
    (reversing : Bool) : Except ChainFlaw (List (List Nat)) :=
  match index.locateSegment segment with
  | .error flaw => .error flaw
  | .ok (anchor, start) =>
    let own := match target with
      | .entity e => segment.contains e
      | .anchor _ => false
    match own, target with
    | true, .entity e => .error (.afterOwnEntity segment e)
    | _, _ =>
      let cut := index.chains.modify anchor fun c =>
        replaceRun c start segment.length []
      match splitIn cut target, target with
      | some (anchor, split), _ =>
        .ok (cut.modify anchor fun c =>
          replaceRun c split 0 (turned reversing segment))
      | none, .anchor a => .error (.noAnchor a)
      | none, .entity e => .error (.targetUnassigned e)

/-- The chains with two segments in each other's place. The later one is
replaced first, so that the earlier one stays where it was found. -/
def swapSegments (index : ChainIndex) (left right : List Nat)
    (reversing : Bool) : Except ChainFlaw (List (List Nat)) :=
  match index.locateSegment left with
  | .error flaw => .error flaw
  | .ok (leftAnchor, leftStart) =>
    match index.locateSegment right with
    | .error flaw => .error flaw
    | .ok (rightAnchor, rightStart) =>
      if left.any right.contains then .error (.segmentsOverlap left right)
      else
        let putRight (chains : List (List Nat)) :=
          chains.modify leftAnchor fun c =>
            replaceRun c leftStart left.length (turned reversing right)
        let putLeft (chains : List (List Nat)) :=
          chains.modify rightAnchor fun c =>
            replaceRun c rightStart right.length (turned reversing left)
        if leftAnchor = rightAnchor ∧ leftStart ≤ rightStart then
          .ok (putRight (putLeft index.chains))
        else .ok (putLeft (putRight index.chains))

/-- The chains with the tail that starts at an entity attached behind a
link: tails are exchanged between two chains, and within one chain the
run between entity and link is reversed. -/
def swapTails (index : ChainIndex) (entity : Nat) (link : Link) :
    Except ChainFlaw (List (List Nat)) :=
  if link = .entity entity then .error (.tailAfterItself entity)
  else match index.locate entity with
    | none => .error (.tailUnassigned entity)
    | some (leftAnchor, position) =>
      match index.splitPoint link with
      | none => .error (.linkNowhere link)
      | some (rightAnchor, split) =>
        if leftAnchor = rightAnchor then
          .ok (index.chains.modify leftAnchor fun c =>
            reverseRun c (min position split) (max position split))
        else
          let leftTail := (index.chain leftAnchor).drop position
          let rightTail := (index.chain rightAnchor).drop split
          let cut := index.chains.modify leftAnchor fun c =>
            c.take position ++ rightTail
          .ok (cut.modify rightAnchor fun c => c.take split ++ leftTail)

end ChainIndex

end PlanSearch

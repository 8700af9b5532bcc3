/-
Moves by chance.

A selector in random order draws one move after the other, for ever. A
draw that hits nothing (a value already held, a link inside the segment,
two segments that overlap) is made again; the segment of a segment
change is kept while the link is drawn again. Where every possible draw
would be rejected there is no sampler, and the pass is empty from the
start.
-/
import PlanSearch.Selector.Leaf

namespace PlanSearch

/-- The outcome of one attempt to draw a move. -/
inductive Attempt (S V : Type)
  | take (m : Move S V)
  /-- Nothing was hit; the next attempt keeps a segment drawn before. -/
  | again (held : List Nat)
  /-- There is nothing to draw. -/
  | stop

/-- Draws a move, given a segment kept from the attempt before (empty if
there is none). -/
abbrev Sampler (S V : Type) := List Nat → Chance (Attempt S V)

namespace Leaf

variable {S V : Type}

/-- Two different numbers below `n`: the second is drawn from one fewer
and shifted past the first. -/
def drawPair (n : Nat) : Chance (Nat × Nat) := do
  let left ← Chance.drawBelow n
  let right ← Chance.drawBelow (n - 1)
  return (left, if left ≤ right then right + 1 else right)

/-- A move that may not have come out. -/
def Attempt.ofOption : Option (Move S V) → Attempt S V
  | some m => .take m
  | none => .stop

/-- Draws an entity and a value. -/
def changeSampler [BEq V] (x : BasicVariable S V) (skipNoops : Bool) (s : S) :
    Option (Sampler S V) :=
  let count := x.count s
  let values := x.values s
  let allHeld := match values with
    | [v] => skipNoops && (List.range count).all fun e => holds x s e v
    | _ => false
  if count = 0 || values.isEmpty || allHeld then none
  else some fun _ => do
    let e ← Chance.drawBelow count
    match ← Chance.pick values with
    | some v =>
        return if skipNoops && holds x s e v then .again []
          else .take (.step (.change x e (some v)))
    | none => return .stop

/-- Draws two entities. -/
def swapSampler (targets : List (BasicVariable S V)) (s : S) :
    Option (Sampler S V) :=
  let count := Pillar.entityCount targets s
  if count < 2 then none
  else some fun _ => do
    let (left, right) ← drawPair count
    return .take (swapMove targets left right)

/-- Draws a group, a pillar of it and a value. -/
def pillarChangeSampler [BEq V] (x : BasicVariable S V)
    (sub : SubPillars) (s : S) : Option (Sampler S V) :=
  let values := x.values s
  let groups := Pillar.groups [x] sub s
  if values.isEmpty || groups.isEmpty then none
  else some fun _ => do
    let number ← Chance.drawBelow groups.length
    let pillar ← Pillar.sample sub number (groups.getD number [])
    match ← Chance.pick values with
    | some v => return Attempt.ofOption (pillarChangeMove x s pillar v)
    | none => return .stop

/-- Draws two groups and a pillar of each. -/
def pillarSwapSampler [BEq V] (targets : List (BasicVariable S V))
    (sub : SubPillars) (s : S) : Option (Sampler S V) :=
  let groups := Pillar.groups targets sub s
  if groups.length < 2 then none
  else some fun _ => do
    let (left, right) ← drawPair groups.length
    let left ← Pillar.sample sub left (groups.getD left [])
    let right ← Pillar.sample sub right (groups.getD right [])
    return Attempt.ofOption (pillarSwapMove targets s left right)

/-- Whether a segment is turned around: tossed where it may be. -/
def drawTurn (allowed : Bool) : Chance Bool :=
  if allowed then Chance.flip else return false

/-- Draws a link for a segment. -/
def linkFor (x : ChainedVariable S) (links : List Link) (reversing : Bool)
    (segment : List Nat) : Chance (Attempt S V) := do
  match ← Chance.pick links with
  | none => return .stop
  | some link =>
    if link.isIn segment then return .again segment
    else
      let turn ← drawTurn (reversing && segment.length > 1)
      return .take (.step (.segmentChange x segment link turn))

/-- Draws a segment, unless one is held, and a link. -/
def segmentChangeSampler (x : ChainedVariable S) (sizes : SegmentSizes)
    (reversing : Bool) (s : S) : Option (Sampler S V) :=
  match x.index s with
  | .error _ => none
  | .ok index =>
    let links := index.allLinks
    some fun held =>
      if held.isEmpty then do
        match ← sizes.sample index with
        | none => return .stop
        | some segment => linkFor x links reversing segment
      else linkFor x links reversing held

/-- Draws two segments. -/
def segmentSwapSampler (x : ChainedVariable S) (sizes : SegmentSizes)
    (reversing : Bool) (s : S) : Option (Sampler S V) :=
  match x.index s with
  | .error _ => none
  | .ok index =>
    let segments := sizes.segments index
    if (disjointPairs segments).isEmpty then none
    else some fun _ => do
      let left ← Chance.pick segments
      let right ← Chance.pick segments
      match left, right with
      | some left, some right =>
        if segmentsOverlap left right then return .again []
        else
          let turn ← drawTurn reversing
          return .take (.step (.segmentSwap x left right turn))
      | _, _ => return .stop

/-- Draws an entity and a link. -/
def tailSwapSampler (x : ChainedVariable S) (s : S) : Option (Sampler S V) :=
  match x.index s with
  | .error _ => none
  | .ok index =>
    let links := index.allLinks
    let entities := index.allEntities
    if entities.isEmpty || links.length < 3 then none
    else some fun _ => do
      let entity ← Chance.pick entities
      let link ← Chance.pick links
      match entity, link with
      | some entity, some link =>
        return if index.isTailTarget entity link
          then .take (.step (.tailSwap x entity link))
          else .again []
      | _, _ => return .stop

/-- The sampler of a selector in a solution; nothing if its pass is empty
from the start. -/
def sampler [BEq V] (leaf : Leaf S V) (s : S) : Option (Sampler S V) :=
  match leaf with
  | change x skipNoops => changeSampler x skipNoops s
  | swap targets => swapSampler targets s
  | pillarChange x sub => pillarChangeSampler x sub s
  | pillarSwap targets sub => pillarSwapSampler targets sub s
  | segmentChange x sizes reversing => segmentChangeSampler x sizes reversing s
  | segmentSwap x sizes reversing => segmentSwapSampler x sizes reversing s
  | tailSwap x => tailSwapSampler x s
  | moveList factory =>
    let moves := factory.moves s
    if moves.isEmpty then none
    else some fun _ => do return Attempt.ofOption (← Chance.pick moves)
  | moveSource factory =>
      some fun _ => do return Attempt.ofOption (← factory.draw s)

end Leaf

end PlanSearch

/-
The kinds of selectors without children, and their moves in the given
order.

Every kind enumerates the moves of a solution in a fixed order: entities
before values, left sides before right sides, plain before reversed.
-/
import PlanSearch.Move.Check
import PlanSearch.Selector.Segment

namespace PlanSearch

/-- Each pair of a list, the earlier item on the left. -/
def pairsOf {α : Type} : List α → List (α × α)
  | [] => []
  | a :: rest => rest.map (fun b => (a, b)) ++ pairsOf rest

/-- Moves that someone else lists. -/
structure MoveList (S V : Type) where
  moves : S → List (Move S V)

/-- Moves that someone else enumerates and draws. -/
structure MoveSource (S V : Type) where
  size : S → Nat
  moves : S → List (Move S V)
  /-- A move by chance; nothing if there is none. -/
  draw : S → Chance (Option (Move S V))

/-- A selector without children. -/
inductive Leaf (S V : Type)
  | change (target : BasicVariable S V) (skipNoops : Bool)
  | swap (targets : List (BasicVariable S V))
  | pillarChange (target : BasicVariable S V) (sub : SubPillars)
  | pillarSwap (targets : List (BasicVariable S V)) (sub : SubPillars)
  | segmentChange (target : ChainedVariable S) (sizes : SegmentSizes)
    (reversing : Bool)
  | segmentSwap (target : ChainedVariable S) (sizes : SegmentSizes)
    (reversing : Bool)
  | tailSwap (target : ChainedVariable S)
  | moveList (factory : MoveList S V)
  | moveSource (factory : MoveSource S V)

namespace Leaf

variable {S V : Type}

def kind : Leaf S V → String
  | change .. => "change"
  | swap .. => "swap"
  | pillarChange .. => "pillar_change"
  | pillarSwap .. => "pillar_swap"
  | segmentChange .. => "sub_chain_change"
  | segmentSwap .. => "sub_chain_swap"
  | tailSwap .. => "tail_chain_swap"
  | moveList .. => "move_list_factory"
  | moveSource .. => "move_iterator_factory"

/-- One step for each variable; a single one stands by itself. -/
def together (steps : List (Step S V)) : Move S V :=
  match steps with
  | [step] => .step step
  | steps => .composite (steps.map Move.step)

/-- The swap of two entities in every variable. -/
def swapMove (targets : List (BasicVariable S V))
    (left right : Nat) : Move S V :=
  together (targets.map fun x => Step.swap x left right)

/-- The swap of two pillars in every variable, if it can be made. -/
def pillarSwapMove [BEq V] (targets : List (BasicVariable S V)) (s : S)
    (left right : Pillar) : Option (Move S V) :=
  if targets.all fun x =>
      (pillarPairFlaw x s left.entities right.entities).isNone then
    some (together (targets.map fun x =>
      Step.pillarSwap x left.entities right.entities))
  else none

/-- The change of a pillar, if it can be made. -/
def pillarChangeMove [BEq V] (x : BasicVariable S V) (s : S)
    (pillar : Pillar) (value : V) : Option (Move S V) :=
  if (pillarFlaw x s pillar.entities).isNone then
    some (.step (.pillarChange x pillar.entities (some value)))
  else none

/-- Whether an entity holds a value already. -/
def holds [BEq V] (x : BasicVariable S V) (s : S) (entity : Nat)
    (value : V) : Bool :=
  x.get s entity == some value

/-- The ways to put a segment back: plain, and reversed where that differs
and is asked for. -/
def segmentTurns (reversing : Bool) (segment : List Nat) : List Bool :=
  if reversing && segment.length > 1 then [false, true] else [false]

/-- The ways to put two segments back. -/
def pairTurns (reversing : Bool) : List Bool :=
  if reversing then [false, true] else [false]

def segmentsOverlap (left right : List Nat) : Bool := left.any right.contains

/-- The pairs of segments that share no entity. -/
def disjointPairs (segments : List (List Nat)) : List (List Nat × List Nat) :=
  (pairsOf segments).filter fun (left, right) => !segmentsOverlap left right

/-- The moves of a solution in the given order. -/
def moves [BEq V] (leaf : Leaf S V) (s : S) : List (Move S V) :=
  match leaf with
  | change x skipNoops =>
    (List.range (x.count s)).flatMap fun e =>
      ((x.values s).filter fun v => !(skipNoops && holds x s e v)).map fun v =>
        .step (.change x e (some v))
  | swap targets =>
    (pairsOf (List.range (Pillar.entityCount targets s))).map
        fun (left, right) =>
      swapMove targets left right
  | pillarChange x sub =>
    (Pillar.all [x] sub s).flatMap fun pillar =>
      (x.values s).filterMap fun v => pillarChangeMove x s pillar v
  | pillarSwap targets sub =>
    (pairsOf (Pillar.all targets sub s)).filterMap fun (left, right) =>
      if left.group = right.group then none
      else pillarSwapMove targets s left right
  | segmentChange x sizes reversing =>
    match x.index s with
    | .error _ => []
    | .ok index =>
      (sizes.segments index).flatMap fun segment =>
        (index.allLinks.filter fun link => !link.isIn segment).flatMap
            fun link =>
          (segmentTurns reversing segment).map fun turn =>
            .step (.segmentChange x segment link turn)
  | segmentSwap x sizes reversing =>
    match x.index s with
    | .error _ => []
    | .ok index =>
      (disjointPairs (sizes.segments index)).flatMap fun (left, right) =>
        (pairTurns reversing).map fun turn =>
          .step (.segmentSwap x left right turn)
  | tailSwap x =>
    match x.index s with
    | .error _ => []
    | .ok index =>
      index.allEntities.flatMap fun e =>
        (index.allLinks.filter (index.isTailTarget e)).map fun link =>
          .step (.tailSwap x e link)
  | moveList factory => factory.moves s
  | moveSource factory => factory.moves s

/-- How many moves the given order has, as far as the selector tells
without enumerating them. -/
def size (leaf : Leaf S V) [BEq V] (s : S) : Except Fault Nat :=
  match leaf with
  | change x _ => Checked.count (x.count s * (x.values s).length)
  | swap targets =>
    let count := Pillar.entityCount targets s
    (Checked.count (count * (count - 1))).map (· / 2)
  | pillarChange x sub =>
    Checked.count ((Pillar.all [x] sub s).length * (x.values s).length)
  | pillarSwap targets sub =>
    .ok ((pairsOf (Pillar.all targets sub s)).filter fun (left, right) =>
      left.group != right.group).length
  | segmentChange x sizes reversing =>
    match x.index s with
    | .error _ => .ok 0
    | .ok index =>
      let links := index.allLinks.length
      Checked.countSum ((sizes.segments index).map fun segment =>
        (links - segment.length) * (segmentTurns reversing segment).length)
  | segmentSwap x sizes reversing =>
    match x.index s with
    | .error _ => .ok 0
    | .ok index =>
      Checked.count ((disjointPairs (sizes.segments index)).length
        * (pairTurns reversing).length)
  | tailSwap x =>
    match x.index s with
    | .error _ => .ok 0
    | .ok index =>
        Checked.count (index.allEntities.length * (index.allLinks.length - 2))
  | moveList factory => .ok (factory.moves s).length
  | moveSource factory => .ok (factory.size s)

end Leaf

end PlanSearch

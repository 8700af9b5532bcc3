/-
Selector trees.

Leaves and unions in random order carry a seed. A union takes its
children one after the other, or in random order picks among them by
weight; a product combines one move of each child; a limit cuts a pass
off.
-/
import PlanSearch.Random.Seed
import PlanSearch.Decimal.Shortest
import PlanSearch.Selector.Leaf

namespace PlanSearch

/-- The order in which a selector yields its moves. -/
inductive Order
  /-- One finite pass in a stable order. -/
  | given
  /-- Drawn by chance. -/
  | random
  deriving DecidableEq, Repr

namespace Order

def word : Order → String
  | given => "original"
  | random => "random"

def ofWord? : String → Option Order
  | "original" => some given
  | "random" => some random
  | _ => none

instance : Shown Order where
  shown
    | given => "Original"
    | random => "Random"

end Order

/-- The weights of a union's children: fixed, or asked of a solution. -/
inductive Weights (S : Type)
  | fixed (weights : List Binary64)
  | asked (weights : List Binary64) (weight : S → Nat → Binary64)

/-- A tree of selectors. -/
inductive Selector (S V : Type)
  | leaf (leaf : Leaf S V) (order : Order) (seed : UInt64)
  | union (children : List (Selector S V)) (weights : Weights S) (order : Order)
    (seed : UInt64)
  | product (children : List (Selector S V)) (ignoreEmpty : Bool)
    (order : Order)
  | limited (limit : Nat) (inner : Selector S V)

namespace Weights

variable {S : Type}

/-- The fixed weights, also where a factory is asked instead. -/
def ofFixed : Weights S → List Binary64
  | fixed weights => weights
  | asked weights _ => weights

def isAsked : Weights S → Bool
  | fixed _ => false
  | asked _ _ => true

/-- The weights of a number of children in a solution. -/
def of (w : Weights S) (s : S) (children : Nat) : List Binary64 :=
  match w with
  | fixed weights => weights
  | asked _ weight => (List.range children).map (weight s)

/-- Weights as they stand for a number of children: one where none is given. -/
def padded (weights : List Binary64) (children : Nat) : List Binary64 :=
  (List.range children).map fun i => (weights[i]?).getD Binary64.one

/-- Weights in parts of the largest; what is no positive number weighs
nothing. -/
def normalized (weights : List Binary64) : List Float :=
  let cleaned := weights.map fun w =>
    if w.isFinite && w.isAboveZero then w.toFloat else 0.0
  let largest := cleaned.foldl (fun a b => if a < b then b else a) 0.0
  if 0.0 < largest then cleaned.map (· / largest) else cleaned

end Weights

namespace Selector

variable {S V : Type}

/-- The kind; a limit has the kind of what it limits. -/
def kind : Selector S V → String
  | leaf l _ _ => l.kind
  | union .. => "union"
  | product .. => "cartesian_product"
  | limited _ inner => inner.kind

/-- The children of a union or a product. -/
def children : Selector S V → List (Selector S V)
  | union children _ _ _ => children
  | product children _ _ => children
  | _ => []

mutual

/-- Whether a pass goes on for ever: a random leaf, a union with such a
child, a random product of nothing but such children. -/
def isNeverEnding : Selector S V → Bool
  | leaf _ order _ => order == .random
  | union children _ _ _ => anyNeverEnding children
  | product children _ order => order == .random && allNeverEnding children
  | limited _ _ => false

def anyNeverEnding : List (Selector S V) → Bool
  | [] => false
  | c :: rest => isNeverEnding c || anyNeverEnding rest

def allNeverEnding : List (Selector S V) → Bool
  | [] => true
  | c :: rest => isNeverEnding c && allNeverEnding rest

end

mutual

/-- How many moves a pass in the given order has. -/
def size [BEq V] (s : S) : Selector S V → Except Fault Nat
  | leaf l _ _ => l.size s
  | union children _ _ _ => do Checked.countSum (← sizes s children)
  | product children ignoreEmpty _ => do
    let sizes ← sizes s children
    let counted := if ignoreEmpty then sizes.filter (0 < ·) else sizes
    if counted.isEmpty then return 0 else Checked.countProduct counted
  | limited limit inner => do return min (← inner.size s) limit

def sizes [BEq V] (s : S) : List (Selector S V) → Except Fault (List Nat)
  | [] => .ok []
  | c :: rest => do
    let n ← size s c
    let ns ← sizes s rest
    return n :: ns

end

-- ============================================================ shown

def shownList {α : Type} [Shown α] (items : List α) : String :=
  Text.Shown.list (items.map shown)

/-- The pillar settings of a leaf. -/
def shownPillars (targets : List (BasicVariable S V))
    (sub : SubPillars) : String :=
  Text.Shown.record "PillarSelector" [("variables", shownList targets),
    ("sub_pillar", shown sub)]

def shownLeaf (l : Leaf S V) (order : Order) : String :=
  let order := ("order", shown order)
  match l with
  | .change x skipNoops => Text.Shown.record "ChangeMoveSelector"
      [("variable", shown x), order, ("skip_noops", Text.Shown.bool skipNoops)]
  | .swap targets =>
      Text.Shown.record "SwapMoveSelector"
        [("variables", shownList targets), order]
  | .pillarChange x sub => Text.Shown.record "PillarChangeMoveSelector"
      [("pillars", shownPillars [x] sub), order]
  | .pillarSwap targets sub => Text.Shown.record "PillarSwapMoveSelector"
      [("pillars", shownPillars targets sub), order]
  | .segmentChange x sizes reversing =>
      Text.Shown.record "SubChainChangeMoveSelector"
      [("variable", shown x), ("sizes", shown sizes),
        ("select_reversing_move_too", Text.Shown.bool reversing), order]
  | .segmentSwap x sizes reversing =>
      Text.Shown.record "SubChainSwapMoveSelector"
      [("variable", shown x), ("sizes", shown sizes),
        ("select_reversing_move_too", Text.Shown.bool reversing), order]
  | .tailSwap x =>
      Text.Shown.record "TailChainSwapMoveSelector"
        [("variable", shown x), order]
  | .moveList _ => Text.Shown.record "MoveListFactorySelector" [order]
  | .moveSource _ => Text.Shown.record "MoveIteratorFactorySelector" [order]

mutual

def shownTree : Selector S V → String
  | leaf l order _ => shownLeaf l order
  | union children weights order _ => Text.Shown.record "UnionMoveSelector"
      [("children", Text.Shown.list (shownTrees children)),
        ("fixed_weights", Text.Shown.list (weights.ofFixed.map Decimal.exact)),
        ("weight_factory", Text.Shown.bool weights.isAsked),
          ("order", shown order)]
  | product children ignoreEmpty order =>
      Text.Shown.record "CartesianProductMoveSelector"
      [("children", Text.Shown.list (shownTrees children)),
        ("ignore_empty_child_iterators", Text.Shown.bool ignoreEmpty),
          ("order", shown order)]
  | limited limit inner =>
    Text.Shown.tuple "CountLimit" [shown limit, shownTree inner]

def shownTrees : List (Selector S V) → List String
  | [] => []
  | c :: rest => shownTree c :: shownTrees rest

end

instance : Shown (Selector S V) := ⟨shownTree⟩

end Selector

end PlanSearch

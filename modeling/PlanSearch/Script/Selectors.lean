/-
Selectors in scripts: put together node by node, or built from a
configuration with factories that list moves.
-/
import PlanSearch.Script.Moves
import PlanSearch.Script.Settings
import PlanSearch.Selector.Build
import PlanSearch.Selector.Pass

namespace PlanSearch.Script

variable {S : Type}

/-- The listed moves that a solution admits. -/
def admitted (world : World S) (items : List Document) (s : S) :
    List (Move S Int) :=
  items.filterMap fun d =>
    match moveOf world [] s deepest d with
    | .ok (.ok m) => some m
    | _ => none

def moveListOf (world : World S) (items : List Document) : MoveList S Int :=
  ⟨admitted world items⟩

def moveSourceOf (world : World S) (items : List Document) :
    MoveSource S Int where
  size s := (admitted world items s).length
  moves := admitted world items
  draw s :=
    let moves := admitted world items s
    if moves.isEmpty then pure none else Chance.pick moves

/-- Weights by place; one where none is listed. -/
def weightsOf (d : Document) : Read (S → Nat → Binary64) := do
  let weights ← (← asList d).mapM asNumber
  return fun _ child => (weights[child]?).getD Binary64.one

-- ============================================================ nodes

def subPillarsOf (d : Document) (key : String) : Read SubPillars := do
  match get? d key with
  | none => return .none
  | some d =>
    let start := if getFlag d "all" false then SubPillars.all
      else SubPillars.none
    let start := match ← getOption asNat d "min" with
      | some n => start.withMinimum n
      | none => start
    match ← getOption asNat d "max" with
    | some n => return start.withMaximum n
    | none => return start

def segmentSizesOf (d : Document) : Read SegmentSizes := do
  return .of (← getOption asNat d "min") (← getOption asNat d "max")

/-- A selector without children, of a node's type. -/
def leafOf (world : World S) (kind : String) (d : Document) :
    Read (Leaf S Int) := do
  match kind with
  | "change" =>
      return .change (← basicOf world d) (getFlag d "skip_noops" false)
  | "swap" => return .swap (← basicsOf world d)
  | "pillar_change" =>
      return .pillarChange (← basicOf world d) (← subPillarsOf d "sub_pillar")
  | "pillar_swap" =>
      return .pillarSwap (← basicsOf world d) (← subPillarsOf d "sub_pillar")
  | "sub_chain_change" =>
    return .segmentChange (← chainedOf world d) (← segmentSizesOf d)
      (getFlag d "reversing" false)
  | "sub_chain_swap" =>
    return .segmentSwap (← chainedOf world d) (← segmentSizesOf d)
      (getFlag d "reversing" false)
  | "tail_chain_swap" => return .tailSwap (← chainedOf world d)
  | "list" => return .moveList (moveListOf world (← getList d "moves"))
  | "iterator" => return .moveSource (moveSourceOf world (← getList d "moves"))
  | other => malformed ("unknown selector " ++ other)

/-- The order of a node, and the seed if the order is random. -/
def orderOf (d : Document) : Read (Order × UInt64) := do
  match ← getOption asText d "order" with
  | some "random" => return (.random, UInt64.ofNat (← getNatOr d "seed" 0))
  | _ => return (.given, 0)

/-- A tree of nodes. -/
def nodeOf (world : World S) : Nat → Document → Read (Selector S Int)
  | 0, _ => malformed "selector nested too deeply"
  | fuel + 1, d => do
    let (order, seed) ← orderOf d
    match ← getText d "type" with
    | "union" =>
      let children ← (← getList d "children").mapM (nodeOf world fuel)
      let fixed := Weights.padded
        (← (← getList d "fixed_weights").mapM asNumber) children.length
      match get? d "weight_factory" with
      | some weights =>
          return .union children (.asked fixed (← weightsOf weights)) order seed
      | none => return .union children (.fixed fixed) order seed
    | "cartesian_product" =>
      let children ← (← getList d "children").mapM (nodeOf world fuel)
      return .product children (getFlag d "ignore_empty" false) order
    | "limit" =>
        return .limited (← getNat d "limit")
          (← nodeOf world fuel (← getDocument d "child"))
    | kind => return .leaf (← leafOf world kind d) order seed

-- ============================================================ contexts

def registryOf (world : World S) (d : Document) : Read (Registry S Int) := do
  let lists ← (← getEntries d "lists").mapM fun e => do
    return (e.1, moveListOf world (← asList e.2))
  let sources ← (← getEntries d "iterators").mapM fun e => do
    return (e.1, moveSourceOf world (← asList e.2))
  let weights ← (← getEntries d "weights").mapM fun e => do
    return (e.1, ← weightsOf e.2)
  return ⟨lists, sources, weights⟩

/-- All variables of a problem, and the factories and the seed of a script. -/
def contextOf (world : World S) (d : Document) :
    Read (SelectorContext S Int) := do
  let seed ← match d.get? "seed" with
    | none => pure (some 0)
    | some seed => asOption asNat seed
  return ⟨world.basics, world.chained, ← registryOf world d,
    seed.map UInt64.ofNat⟩

/-- The selector of a script, if it has one. -/
def selectorOf (world : World S) (d : Document) :
    Read (Option (Selector S Int)) := do
  match get? d "node", get? d "config" with
  | some node, _ => return some (← nodeOf world deepest node)
  | none, some config =>
    let config ← asSelector config
    match config.build (← contextOf world d) 0 with
    | .ok built => return some built.selector
    | .error e => .error (.answer (configErrorDocument e))
  | none, none => return none

-- ============================================================ describing

mutual

/-- What a selector says about itself in a solution. -/
def infoOf (s : S) (selector : Selector S Int) : Except Fault Document := do
  let size ← selector.size s
  let head := [("kind", Document.text selector.kind), ("size", .nat size),
    ("never_ending", .bool selector.isNeverEnding)]
  match selector with
  | .leaf (.change x _) _ _ =>
      return table (head ++ [("variable", .text x.name)])
  | .leaf .. => return table head
  | .union children _ _ _ =>
      return table (head ++ [("children", .list (← infosOf s children))])
  | .product children _ _ =>
      return table (head ++ [("children", .list (← infosOf s children))])
  | .limited limit inner =>
    return table (head ++ [("limit", .nat limit), ("inner", ← infoOf s inner)])

def infosOf (s : S) : List (Selector S Int) → Except Fault (List Document)
  | [] => .ok []
  | c :: rest => do
    let first ← infoOf s c
    let others ← infosOf s rest
    return first :: others

end

end PlanSearch.Script

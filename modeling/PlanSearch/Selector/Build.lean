/-
Selector trees built from their configuration.

A leaf that names no variable covers every variable that matches, as a
union when there are several. A selector without an order takes its
parent's; the root runs in the given order. Each child gets a seed of its
own from its parent's, so one seed fixes the whole tree. What is built is
reported, children before their parent.
-/
import PlanSearch.Config.Solver

namespace PlanSearch

/-- Factories by the names that configurations use. -/
structure Registry (S V : Type) where
  lists : List (String × MoveList S V)
  sources : List (String × MoveSource S V)
  /-- The weight of each child of a union in a solution. -/
  weights : List (String × (S → Nat → Binary64))

/-- What a configuration may refer to. -/
structure SelectorContext (S V : Type) where
  /-- The basic variables, each with the class of its entities. -/
  basics : List (String × BasicVariable S V)
  chained : List (ChainedVariable S)
  registry : Registry S V
  /-- The seed of the root; none if it is to come from outside. -/
  seed : Option UInt64

/-- The report of a selector that was built. -/
structure SelectorReport where
  path : String
  kind : String
  order : Order
  limit : Option Nat
  deriving DecidableEq, Repr

/-- A selector, and the reports of its building in order. -/
structure BuiltSelector (S V : Type) where
  selector : Selector S V
  reports : List SelectorReport

/-- Selectors of one list of children, and the reports of their building. -/
structure BuiltChildren (S V : Type) where
  selectors : List (Selector S V)
  reports : List SelectorReport

namespace Registry

variable {S V : Type}

def empty : Registry S V := ⟨[], [], []⟩

/-- What is registered under a name. -/
def find? {α : Type} (name : String) (entries : List (String × α)) : Option α :=
  (entries.find? fun e => e.1 == name).map Prod.snd

/-- Registers something, in the place of what has the same name. -/
def put {α : Type} (name : String) (a : α) (entries : List (String × α)) :
    List (String × α) :=
  entries.filter (fun e => e.1 != name) ++ [(name, a)]

/-- Names in their order. -/
def shownNames {α : Type} (entries : List (String × α)) : String :=
  Text.Shown.list (((entries.map Prod.fst).mergeSort fun a b =>
    !(b < a)).map shown)

instance : Shown (Registry S V) where
  shown r := Text.Shown.record "FactoryRegistry"
    [("move_lists", shownNames r.lists),
      ("move_iterators", shownNames r.sources),
      ("weights", shownNames r.weights)]

end Registry

namespace SelectorContext

variable {S V : Type}

instance : Shown (SelectorContext S V) where
  shown c := Text.Shown.record "SelectorContext"
    [("basic_variables",
        Text.Shown.list (c.basics.map fun b => shown (b.1 ++ "." ++ b.2.name))),
      ("chained_variables", Text.Shown.list (c.chained.map shown)),
      ("registry", shown c.registry), ("seed", shown (c.seed.map UInt64.toNat))]

/-- Whether a name is the one asked for, if one is. -/
def isAsked (asked : Option String) (name : String) : Bool :=
  match asked with
  | some n => n == name
  | none => true

/-- The basic variables of a class and a name, as far as these are given. -/
def basicsFor (c : SelectorContext S V) (path : String)
    (entityClass variableName : Option String) :
    Except ConfigError (List (BasicVariable S V)) :=
  let found := (c.basics.filter fun b => isAsked entityClass b.1 &&
    isAsked variableName b.2.name)
  if found.isEmpty then
    .error (.invalid (path ++ ": no basic variable matches entity class " ++
      shown entityClass ++
      " and variable " ++ shown variableName))
  else .ok (found.map Prod.snd)

/-- The basic variables of a class with the given names; all of them if no
name is given. -/
def namedBasicsFor (c : SelectorContext S V) (path : String)
    (entityClass : Option String) (names : List String) :
    Except ConfigError (List (BasicVariable S V)) := do
  let all ← c.basicsFor path entityClass none
  if names.isEmpty then return all
  else
    let found := all.filter fun x => names.contains x.name
    match names.find? fun n => !found.any fun x => x.name == n with
    | some missing =>
        .error (.invalid (path ++ ": unknown variable '" ++ missing ++ "'"))
    | none => return found

/-- The chained variables of a name, if one is given. -/
def chainedFor (c : SelectorContext S V) (path : String)
    (variableName : Option String) :
    Except ConfigError (List (ChainedVariable S)) :=
  let found := c.chained.filter fun x => isAsked variableName x.name
  if found.isEmpty then
    .error (.invalid (path ++ ": no chained variable matches " ++
      shown variableName))
  else .ok found

/-- A factory that a leaf asks for. -/
def factoryFor {α : Type} (path : String) (name : Option String)
    (entries : List (String × α)) : Except ConfigError α :=
  match name with
  | none => .error (.invalid (path ++ ": factory name is required"))
  | some name =>
    match Registry.find? name entries with
    | some factory => .ok factory
    | none => .error (.unknownFactory path name)

end SelectorContext

namespace SubPillars

/-- Settings where they are given. Pillars are split only on demand. -/
def ofSettings : Option SubPillarSettings → SubPillars
  | Option.none => .none
  | some s =>
      ⟨s.enabled.getD false, max (s.minimum.getD 1) 1,
        s.maximum.getD Checked.maxCount⟩

end SubPillars

namespace SelectorConfig

variable {S V : Type}

/-- One leaf for each variable, or for all of them together. -/
def leavesFor (c : SelectorContext S V) (path : String) :
    LeafConfig → Except ConfigError (List (Leaf S V))
  | .change entityClass name => do
    return (← c.basicsFor path entityClass name).map fun x => .change x false
  | .swap entityClass names => do
    return [.swap (← c.namedBasicsFor path entityClass names)]
  | .pillarChange entityClass sub name => do
    return (← c.basicsFor path entityClass name).map fun x =>
      .pillarChange x (SubPillars.ofSettings sub)
  | .pillarSwap entityClass sub names => do
    return [.pillarSwap (← c.namedBasicsFor path entityClass names)
      (SubPillars.ofSettings sub)]
  | .segmentChange s => do
    return (← c.chainedFor path s.variableName).map fun x =>
      .segmentChange x (SegmentSizes.of s.minimum s.maximum)
        (s.reversing.getD true)
  | .segmentSwap s => do
    return (← c.chainedFor path s.variableName).map fun x =>
      .segmentSwap x (SegmentSizes.of s.minimum s.maximum)
        (s.reversing.getD true)
  | .tailSwap name => do return (← c.chainedFor path name).map Leaf.tailSwap
  | .moveList name => do
    return [.moveList (← SelectorContext.factoryFor path name c.registry.lists)]
  | .moveSource name => do
    return [.moveSource
      (← SelectorContext.factoryFor path name c.registry.sources)]

/-- A single leaf by itself, several as a union of equal weights. All of
them have the seed of their place in the tree. -/
def joined (order : Order) (seed : UInt64) (leaves : List (Leaf S V)) :
    Selector S V :=
  match leaves with
  | [l] => .leaf l order seed
  | leaves =>
    .union (leaves.map fun l => .leaf l order seed)
      (.fixed (leaves.map fun _ => Binary64.one)) order seed

/-- The weights of a union's children. -/
def weightsFor (c : SelectorContext S V) (path : String)
    (children : List SelectorConfig) (factory : Option String) :
    Except ConfigError (Weights S) :=
  let fixed := children.map fun child => child.common.weight.getD Binary64.one
  match factory with
  | none => .ok (.fixed fixed)
  | some name =>
    match Registry.find? name c.registry.weights with
    | some weight => .ok (.asked fixed weight)
    | none => .error (.unknownFactory path name)

/-- Refuses a reference that was not resolved. -/
def refuseReference (path : String) (common : CommonSettings) :
    Except ConfigError Unit :=
  match common.inheritFrom with
  | some name => .error (.unknownTemplate path name)
  | none => .ok ()

/-- Limits a selector as configured and reports it. -/
def finished (path : String) (order : Order) (common : CommonSettings)
    (reports : List SelectorReport) (selector : Selector S V) :
    BuiltSelector S V :=
  let selector := match common.limit with
    | some limit => .limited limit selector
    | none => selector
  ⟨selector, reports ++ [⟨path, selector.kind, order, common.limit⟩]⟩

mutual

/-- Builds a tree at a path, with the order and the seed it gets from there. -/
def buildAt (c : SelectorContext S V) (path : String) (inherited : Order)
    (seed : UInt64) : SelectorConfig → Except ConfigError (BuiltSelector S V)
  | leaf common settings => do
    refuseReference path common
    let order := common.order.getD inherited
    let leaves ← leavesFor c path settings
    return finished path order common [] (joined order seed leaves)
  | union common children factory => do
    refuseReference path common
    let order := common.order.getD inherited
    let built ← buildAll c path order seed 0 children
    let weights ← weightsFor c path children factory
    return finished path order common built.reports
      (.union built.selectors weights order seed)
  | product common children ignoreEmpty => do
    refuseReference path common
    let order := common.order.getD inherited
    let built ← buildAll c path order seed 0 children
    return finished path order common built.reports
      (.product built.selectors (ignoreEmpty.getD false) order)

/-- Builds children, counted from `index`. -/
def buildAll (c : SelectorContext S V) (path : String) (order : Order)
    (seed : UInt64) (index : Nat) :
    List SelectorConfig → Except ConfigError (BuiltChildren S V)
  | [] => .ok ⟨[], []⟩
  | child :: rest => do
    let first ← buildAt c (childPath path index) order
      (Seed.ofChild seed index) child
    let others ← buildAll c path order seed (index + 1) rest
    return ⟨first.selector :: others.selectors, first.reports ++ others.reports⟩

end

/-- Builds a tree. The seed `outside` is used where the context has none. -/
def build (config : SelectorConfig) (c : SelectorContext S V)
    (outside : UInt64) : Except ConfigError (BuiltSelector S V) := do
  config.validate
  buildAt c config.kind .given (c.seed.getD outside) config

end SelectorConfig

/-- Builds the selector of every local search, in the order of the phases.
The seed of the configuration takes the place of the context's. -/
def SolverConfig.buildSelectors {S V : Type} (config : SolverConfig)
    (c : SelectorContext S V) (outside : UInt64) :
    Except ConfigError (List (Selector S V)) :=
  match config.resolveSelectors with
  | (_, some e) => .error e
  | (resolved, none) =>
    let c := { c with seed := resolved.effectiveSeed.map UInt64.ofNat }
    (resolved.phases.filterMap PhaseConfig.selector).mapM fun selector => do
      return (← selector.build c outside).selector

end PlanSearch

/-
Selector trees as they are configured.

Every selector may name a template to inherit from, an order, a weight
among its siblings and a limit. What is left open is decided when the
tree is built. A selector is addressed by the way from the root:
`union.selectors[1]` is the second child of a union at the root.
-/
import PlanSearch.Config.Error
import PlanSearch.Selector.Tree

namespace PlanSearch

/-- The settings that every selector has. -/
structure CommonSettings where
  inheritFrom : Option String
  order : Option Order
  /-- The chance of being picked by a random union, relative to the siblings. -/
  weight : Option Binary64
  /-- The most moves of one pass. -/
  limit : Option Nat
  deriving Repr

namespace CommonSettings

/-- Nothing set. -/
def unset : CommonSettings := ⟨none, none, none, none⟩

instance : BEq CommonSettings where
  beq a b := a.inheritFrom == b.inheritFrom && a.order == b.order &&
    a.weight == b.weight &&
    a.limit == b.limit

end CommonSettings

/-- How pillars may be split, as far as it is set. -/
structure SubPillarSettings where
  enabled : Option Bool
  minimum : Option Nat
  maximum : Option Nat
  deriving DecidableEq, Repr

/-- How long segments may be and whether they are turned around, as far as
it is set. -/
structure SegmentSettings where
  variableName : Option String
  minimum : Option Nat
  maximum : Option Nat
  reversing : Option Bool
  deriving DecidableEq, Repr

/-- The settings of a selector without children. -/
inductive LeafConfig
  | change (entityClass variableName : Option String)
  | swap (entityClass : Option String) (variableNames : List String)
  | pillarChange (entityClass : Option String) (sub : Option SubPillarSettings)
      (variableName : Option String)
  | pillarSwap (entityClass : Option String) (sub : Option SubPillarSettings)
      (variableNames : List String)
  | segmentChange (segments : SegmentSettings)
  | segmentSwap (segments : SegmentSettings)
  | tailSwap (variableName : Option String)
  | moveList (factory : Option String)
  | moveSource (factory : Option String)
  deriving DecidableEq, Repr

/-- A configured tree of selectors. -/
inductive SelectorConfig
  | leaf (common : CommonSettings) (settings : LeafConfig)
  | union (common : CommonSettings) (children : List SelectorConfig)
      (weightFactory : Option String)
  | product (common : CommonSettings) (children : List SelectorConfig)
      (ignoreEmpty : Option Bool)

def LeafConfig.kind : LeafConfig → String
  | change .. => "change"
  | swap .. => "swap"
  | pillarChange .. => "pillar_change"
  | pillarSwap .. => "pillar_swap"
  | segmentChange .. => "sub_chain_change"
  | segmentSwap .. => "sub_chain_swap"
  | tailSwap .. => "tail_chain_swap"
  | moveList .. => "move_list_factory"
  | moveSource .. => "move_iterator_factory"

namespace SelectorConfig

def kind : SelectorConfig → String
  | leaf _ settings => settings.kind
  | union .. => "union"
  | product .. => "cartesian_product"

def common : SelectorConfig → CommonSettings
  | leaf common _ | union common _ _ | product common _ _ => common

def setCommon (common : CommonSettings) : SelectorConfig → SelectorConfig
  | leaf _ settings => leaf common settings
  | union _ children weightFactory => union common children weightFactory
  | product _ children ignoreEmpty => product common children ignoreEmpty

def children : SelectorConfig → List SelectorConfig
  | leaf .. => []
  | union _ children _ | product _ children _ => children

/-- Puts other children in the place of those of a composite. -/
def setChildren (children : List SelectorConfig) :
    SelectorConfig → SelectorConfig
  | leaf common settings => leaf common settings
  | union common _ weightFactory => union common children weightFactory
  | product common _ ignoreEmpty => product common children ignoreEmpty

def isComposite : SelectorConfig → Bool
  | leaf .. => false
  | union .. | product .. => true

/-- A change selector for a variable. -/
def ofVariable (name : String) : SelectorConfig :=
  .leaf .unset (.change none (some name))

/-- A swap selector for every basic variable. -/
def swapAll : SelectorConfig := .leaf .unset (.swap none [])

mutual

/-- Equality by content; a weight that is no number equals nothing. -/
def same : SelectorConfig → SelectorConfig → Bool
  | leaf c settings, leaf d others => c == d && settings == others
  | union c children factory, union d others factory' =>
    c == d && sameAll children others && factory == factory'
  | product c children ignore, product d others ignore' =>
    c == d && sameAll children others && ignore == ignore'
  | _, _ => false

def sameAll : List SelectorConfig → List SelectorConfig → Bool
  | [], [] => true
  | a :: as, b :: bs => same a b && sameAll as bs
  | _, _ => false

end

instance : BEq SelectorConfig := ⟨same⟩

mutual

/-- The leaves from left to right. -/
def leaves : SelectorConfig → List SelectorConfig
  | leaf common settings => [leaf common settings]
  | union _ children _ | product _ children _ => leavesOf children

def leavesOf : List SelectorConfig → List SelectorConfig
  | [] => []
  | c :: rest => leaves c ++ leavesOf rest

end

-- ============================================================ validity

/-- The way to a child. -/
def childPath (path : String) (index : Nat) : String :=
  path ++ ".selectors[" ++ Text.ofNat index ++ "]"

/-- Whether a weight can be used: finite and not below zero. -/
def isWeight (weight : Binary64) : Bool :=
  weight.isFinite && !weight.isBelowZero

/-- What is wrong with a selector by itself, if anything: its weight
before its lack of children. -/
def flawAt (path : String) (config : SelectorConfig) : Option ConfigError :=
  match config.common.weight with
  | some weight =>
      if isWeight weight then emptyAt else some (.invalidWeight path weight)
  | none => emptyAt
where
  emptyAt : Option ConfigError :=
    if config.isComposite && config.children.isEmpty then
      some (.emptyComposite path)
    else none

mutual

/-- Checks a tree, parents before children and children from left to right. -/
def validateAt (path : String) : SelectorConfig → Except ConfigError Unit
  | leaf common settings =>
    match flawAt path (leaf common settings) with
    | some e => .error e
    | none => .ok ()
  | union common children factory =>
    match flawAt path (union common children factory) with
    | some e => .error e
    | none => validateAll path 0 children
  | product common children ignoreEmpty =>
    match flawAt path (product common children ignoreEmpty) with
    | some e => .error e
    | none => validateAll path 0 children

/-- Checks children, counted from `index`. -/
def validateAll (path : String) (index : Nat) :
    List SelectorConfig → Except ConfigError Unit
  | [] => .ok ()
  | c :: rest =>
    match validateAt (childPath path index) c with
    | .error e => .error e
    | .ok () => validateAll path (index + 1) rest

end

/-- Checks a tree: every composite has children and every weight can be used. -/
def validate (config : SelectorConfig) : Except ConfigError Unit :=
  validateAt config.kind config

end SelectorConfig

end PlanSearch

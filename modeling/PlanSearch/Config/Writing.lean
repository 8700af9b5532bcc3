/-
Configurations as documents and as text for a person who debugs.

A selector is a table of its kind and of what is set. The children of a
composite are always listed, an empty list of variables never. A solver
is written in full, with nulls for what is not set.
-/
import PlanSearch.Config.Solver
import PlanSearch.Document.Basic

namespace PlanSearch

/-- An entry for a value that may not be set. -/
def entryOf {α : Type} (key : String) (write : α → Document)
    (value : Option α) : List (String × Document) :=
  match value with
  | some a => [(key, write a)]
  | none => []

def textEntry (key : String) : Option String → List (String × Document) :=
  entryOf key .text

def countEntry (key : String) : Option Nat → List (String × Document) :=
  entryOf key Document.nat

def flagEntry (key : String) : Option Bool → List (String × Document) :=
  entryOf key .bool

/-- An entry for a list of names that is left out when it is empty. -/
def namesEntry (key : String) (names : List String) :
    List (String × Document) :=
  if names.isEmpty then [] else [(key, .list (names.map .text))]

def CommonSettings.entries (c : CommonSettings) : List (String × Document) :=
  textEntry "inherit_from" c.inheritFrom ++
    entryOf "selection_order" (fun order => .text (Order.word order)) c.order ++
    entryOf "fixed_probability_weight" .float c.weight ++
    countEntry "selected_count_limit" c.limit

def SubPillarSettings.document (s : SubPillarSettings) : Document :=
  .table (flagEntry "enabled" s.enabled ++
    countEntry "minimum_size" s.minimum ++
    countEntry "maximum_size" s.maximum)

def SegmentSettings.entries (s : SegmentSettings) : List (String × Document) :=
  textEntry "variable_name" s.variableName ++
    countEntry "minimum_sub_chain_size" s.minimum ++
    countEntry "maximum_sub_chain_size" s.maximum ++
    flagEntry "select_reversing_move_too" s.reversing

def LeafConfig.entries : LeafConfig → List (String × Document)
  | change entityClass variableName =>
    textEntry "entity_class" entityClass ++
      textEntry "variable_name" variableName
  | swap entityClass variableNames =>
    textEntry "entity_class" entityClass ++
      namesEntry "variable_names" variableNames
  | pillarChange entityClass sub variableName =>
    textEntry "entity_class" entityClass ++
      entryOf "sub_pillar" SubPillarSettings.document sub ++
      textEntry "variable_name" variableName
  | pillarSwap entityClass sub variableNames =>
    textEntry "entity_class" entityClass ++
      entryOf "sub_pillar" SubPillarSettings.document sub ++
      namesEntry "variable_names" variableNames
  | segmentChange segments | segmentSwap segments => segments.entries
  | tailSwap variableName => textEntry "variable_name" variableName
  | moveList factory | moveSource factory => textEntry "factory" factory

namespace SelectorConfig

mutual

def document : SelectorConfig → Document
  | leaf common settings =>
    .table (("type", .text settings.kind) :: common.entries ++ settings.entries)
  | union common children weightFactory =>
    .table (("type", .text "union") :: common.entries ++
      ("selectors", .list (documents children)) ::
        textEntry "selector_probability_weight_factory" weightFactory)
  | product common children ignoreEmpty =>
    .table (("type", .text "cartesian_product") :: common.entries ++
      ("selectors", .list (documents children)) ::
        flagEntry "ignore_empty_child_iterators" ignoreEmpty)

def documents : List SelectorConfig → List Document
  | [] => []
  | c :: rest => document c :: documents rest

end

end SelectorConfig

def TerminationLimits.document (limits : TerminationLimits) : Document :=
  .table [("seconds_spent_limit", Document.option Document.nat limits.seconds),
    ("minutes_spent_limit", Document.option Document.nat limits.minutes),
    ("step_count_limit", Document.option Document.nat limits.steps)]

def PhaseConfig.document : PhaseConfig → Document
  | construction limits => .table [("type", .text "construction_heuristic"),
      ("termination", Document.option TerminationLimits.document limits)]
  | localSearch selector limits => .table [("type", .text "local_search"),
      ("move_selector", Document.option SelectorConfig.document selector),
      ("termination", Document.option TerminationLimits.document limits)]

def SolverConfig.document (config : SolverConfig) : Document :=
  .table [("environment_mode", .text config.environment.word),
    ("random_seed", Document.option Document.nat config.seed),
    ("termination", Document.option TerminationLimits.document config.limits),
    ("phases", .list (config.phases.map PhaseConfig.document)),
    ("move_selector_templates",
      .table (config.templates.map fun t => (t.1, t.2.document)))]

-- ============================================================ shown

instance : Shown Bool := ⟨Text.Shown.bool⟩

instance : Shown Binary64 := ⟨Decimal.exact⟩

instance : Shown CommonSettings where
  shown c := Text.Shown.record "MoveSelectorCommon"
    [("inherit_from", shown c.inheritFrom), ("selection_order", shown c.order),
      ("fixed_probability_weight", shown c.weight),
      ("selected_count_limit", shown c.limit)]

instance : Shown SubPillarSettings where
  shown s := Text.Shown.record "SubPillarConfig" [("enabled", shown s.enabled),
    ("minimum_size", shown s.minimum), ("maximum_size", shown s.maximum)]

def shownNames (names : List String) : String :=
  Text.Shown.list (names.map shown)

/-- The name of a leaf's kind, and its fields after the common ones. -/
def LeafConfig.shownParts :
    LeafConfig → String × String × List (String × String)
  | change entityClass variableName => ("Change", "ChangeMoveConfig",
      [("entity_class", shown entityClass),
        ("variable_name", shown variableName)])
  | swap entityClass variableNames => ("Swap", "SwapMoveConfig",
      [("entity_class", shown entityClass),
        ("variable_names", shownNames variableNames)])
  | pillarChange entityClass sub variableName =>
      ("PillarChange", "PillarChangeMoveConfig",
      [("entity_class", shown entityClass), ("sub_pillar", shown sub),
        ("variable_name", shown variableName)])
  | pillarSwap entityClass sub variableNames =>
      ("PillarSwap", "PillarSwapMoveConfig",
      [("entity_class", shown entityClass), ("sub_pillar", shown sub),
        ("variable_names", shownNames variableNames)])
  | segmentChange s =>
      ("SubChainChange", "SubChainChangeMoveConfig", segmentFields s)
  | segmentSwap s => ("SubChainSwap", "SubChainSwapMoveConfig", segmentFields s)
  | tailSwap variableName => ("TailChainSwap", "TailChainSwapMoveConfig",
      [("variable_name", shown variableName)])
  | moveList factory =>
      ("MoveListFactory", "MoveFactoryConfig", [("factory", shown factory)])
  | moveSource factory =>
    ("MoveIteratorFactory", "MoveFactoryConfig", [("factory", shown factory)])
where
  segmentFields (s : SegmentSettings) : List (String × String) :=
    [("variable_name", shown s.variableName),
      ("minimum_sub_chain_size", shown s.minimum),
      ("maximum_sub_chain_size", shown s.maximum),
      ("select_reversing_move_too", shown s.reversing)]

namespace SelectorConfig

/-- A record inside the tuple of its kind. -/
def shownAs (variant name : String) (common : CommonSettings)
    (fields : List (String × String)) : String :=
  Text.Shown.tuple variant
    [Text.Shown.record name (("common", shown common) :: fields)]

mutual

def shownTree : SelectorConfig → String
  | leaf common settings =>
    let (variant, name, fields) := settings.shownParts
    shownAs variant name common fields
  | union common children weightFactory =>
      shownAs "Union" "UnionMoveConfig" common
      [("selectors", Text.Shown.list (shownTrees children)),
        ("selector_probability_weight_factory", shown weightFactory)]
  | product common children ignoreEmpty =>
    shownAs "CartesianProduct" "CartesianProductMoveConfig" common
      [("selectors", Text.Shown.list (shownTrees children)),
        ("ignore_empty_child_iterators", shown ignoreEmpty)]

def shownTrees : List SelectorConfig → List String
  | [] => []
  | c :: rest => shownTree c :: shownTrees rest

end

instance : Shown SelectorConfig := ⟨shownTree⟩

end SelectorConfig

end PlanSearch

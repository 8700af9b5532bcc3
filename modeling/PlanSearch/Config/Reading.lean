/-
Configurations read from documents.

A document comes from one of three formats, and these differ in what
they take for a record: all take a table, and where a format says so a
list of the record's fields in order. Entries with unknown keys are
ignored. A value that is null counts as not set where something may be
left open, and nowhere else.

The settings of a selector are read after its kind is known, so a wrong
value is an error only if the kind has such a setting.
-/
import PlanSearch.Config.Writing

namespace PlanSearch

/-- The formats a configuration is written in. -/
inductive Format
  | json
  | toml
  | yaml
  deriving DecidableEq, Repr

namespace ConfigReader

-- ============================================================ values

def text? : Document → Option String
  | .text s => some s
  | _ => none

def flag? : Document → Option Bool
  | .bool b => some b
  | _ => none

/-- A count: an integer of 64 bits, not below zero. -/
def count? : Document → Option Nat
  | .int n =>
      if 0 ≤ n ∧ n.toNat < Checked.countLimit then some n.toNat else none
  | _ => none

/-- A weight: any floating-point number, or an integer of 64 bits. -/
def weight? : Document → Option Binary64
  | .float x => some x
  | .int n =>
    if -9223372036854775808 ≤ n ∧ n < 18446744073709551616 then some (.ofInt n)
    else none
  | _ => none

/-- One of some words, also as the only key of a table with no content. -/
def word? {α : Type} (ofWord? : String → Option α) : Document → Option α
  | .text w => ofWord? w
  | .table [(w, .null)] => ofWord? w
  | .table [(w, .table [])] => ofWord? w
  | _ => none

/-- A value that may not be set. -/
def optional? {α : Type} (read? : Document → Option α) :
    Document → Option (Option α)
  | .null => some none
  | d => (read? d).map some

/-- A list of values. -/
def list? {α : Type} (read? : Document → Option α) : Document → Option (List α)
  | .list items => items.mapM read?
  | _ => none

-- ============================================================ fields

abbrev Entries := List (String × Document)

/-- The entry of a known key, if there is one. Two of them are an error;
entries of unknown keys are never looked at. -/
def entry? (key : String) (entries : Entries) : Option (Option Document) :=
  match entries.filter fun e => e.1 == key with
  | [] => some none
  | [e] => some (some e.2)
  | _ => none

/-- A field that may be missing. -/
def field? {α : Type} (read? : Document → Option α) (key : String)
    (entries : Entries) : Option (Option α) := do
  match ← entry? key entries with
  | none => some none
  | some d => optional? read? d

/-- A list of names that may be missing, but not null. -/
def names? (key : String) (entries : Entries) : Option (List String) := do
  match ← entry? key entries with
  | none => some []
  | some d => list? text? d

-- ============================================================ selectors

def common? (entries : Entries) : Option CommonSettings := do
  return ⟨← field? text? "inherit_from" entries,
    ← field? (word? Order.ofWord?) "selection_order" entries,
    ← field? weight? "fixed_probability_weight" entries,
    ← field? count? "selected_count_limit" entries⟩

def subPillar? : Document → Option SubPillarSettings
  | .table entries => do
    return ⟨← field? flag? "enabled" entries,
      ← field? count? "minimum_size" entries,
      ← field? count? "maximum_size" entries⟩
  | .list [enabled, minimum, maximum] => do
    return ⟨← optional? flag? enabled, ← optional? count? minimum,
      ← optional? count? maximum⟩
  | _ => none

def segments? (entries : Entries) : Option SegmentSettings := do
  return ⟨← field? text? "variable_name" entries,
    ← field? count? "minimum_sub_chain_size" entries,
    ← field? count? "maximum_sub_chain_size" entries,
    ← field? flag? "select_reversing_move_too" entries⟩

/-- The words of the kinds. -/
def kinds : List String :=
  ["change", "swap", "pillar_change", "pillar_swap", "sub_chain_change",
    "sub_chain_swap", "tail_chain_swap", "move_list_factory",
    "move_iterator_factory", "union", "cartesian_product"]

/-- The kind of a selector. Below another one, most formats also accept
the kind's number. -/
def kind? (numbered : Bool) : Document → Option String
  | .text w => if kinds.contains w then some w else none
  | .int n => if numbered && 0 ≤ n then kinds[n.toNat]? else none
  | _ => none

/-- The settings of a leaf of a kind; nothing for a composite. -/
def leaf? (kind : String) (entries : Entries) : Option LeafConfig := do
  match kind with
  | "change" => return .change (← entityClass) (← variableName)
  | "swap" => return .swap (← entityClass) (← names? "variable_names" entries)
  | "pillar_change" =>
      return .pillarChange (← entityClass) (← sub) (← variableName)
  | "pillar_swap" =>
    return .pillarSwap (← entityClass) (← sub)
      (← names? "variable_names" entries)
  | "sub_chain_change" => return .segmentChange (← segments? entries)
  | "sub_chain_swap" => return .segmentSwap (← segments? entries)
  | "tail_chain_swap" => return .tailSwap (← variableName)
  | "move_list_factory" => return .moveList (← field? text? "factory" entries)
  | "move_iterator_factory" =>
      return .moveSource (← field? text? "factory" entries)
  | _ => none
where
  entityClass : Option (Option String) := field? text? "entity_class" entries
  variableName : Option (Option String) := field? text? "variable_name" entries
  sub : Option (Option SubPillarSettings) :=
    field? subPillar? "sub_pillar" entries

mutual

/-- A selector tree. -/
def selector? (numbered inner : Bool) : Document → Option SelectorConfig
  | .table entries => do
    let kind ← kind? (numbered && inner) (← (← entry? "type" entries))
    let common ← common? entries
    match kind with
    | "union" =>
      return .union common (← children? numbered entries)
        (← field? text? "selector_probability_weight_factory" entries)
    | "cartesian_product" =>
      return .product common (← children? numbered entries)
        (← field? flag? "ignore_empty_child_iterators" entries)
    | kind => return .leaf common (← leaf? kind entries)
  | _ => none

/-- The children of a composite, which may be missing but not null. -/
def children? (numbered : Bool) : Entries → Option (List SelectorConfig)
  | [] => some []
  | ("selectors", .list items) :: rest =>
    if rest.any fun e => e.1 == "selectors" then none
    else selectors? numbered items
  | ("selectors", _) :: _ => none
  | _ :: rest => children? numbered rest

def selectors? (numbered : Bool) : List Document → Option (List SelectorConfig)
  | [] => some []
  | d :: rest => do
    let c ← selector? numbered true d
    let cs ← selectors? numbered rest
    return c :: cs

end

-- ============================================================ phases

/-- Limits of which each is given, in order. -/
def limitsOf? (seconds minutes steps : Document) :
    Option TerminationLimits := do
  return ⟨← optional? count? seconds, ← optional? count? minutes,
    ← optional? count? steps⟩

/-- The limits of a phase. -/
def limits? : Document → Option TerminationLimits
  | .table entries => do
    return ⟨← field? count? "seconds_spent_limit" entries,
      ← field? count? "minutes_spent_limit" entries,
        ← field? count? "step_count_limit" entries⟩
  | .list [seconds, minutes, steps] => limitsOf? seconds minutes steps
  | _ => none

/-- The limits of a run. A list of them is no record in one format, and
may be longer than the record in another. -/
def runLimits? (format : Format) : Document → Option TerminationLimits
  | .list items =>
    match format, items with
    | .json, _ => limits? (.list items)
    | .toml, seconds :: minutes :: steps :: _ => limitsOf? seconds minutes steps
    | _, _ => none
  | d => limits? d

/-- Whether a format accepts the number of an inner selector's kind. -/
def Format.numbersKinds : Format → Bool
  | .json | .yaml => true
  | .toml => false

def phase? (format : Format) : Document → Option PhaseConfig
  | .table entries => do
    match ← text? (← (← entry? "type" entries)) with
    | "construction_heuristic" =>
        return .construction (← field? limits? "termination" entries)
    | "local_search" =>
      return .localSearch (← field? inner? "move_selector" entries)
        (← field? limits? "termination" entries)
    | _ => none
  | .list [.text "construction_heuristic", limits] => do
    return .construction (← optional? limits? limits)
  | .list [.text "local_search", selector, limits] => do
    return .localSearch (← optional? inner? selector)
      (← optional? limits? limits)
  | _ => none
where
  inner? (d : Document) : Option SelectorConfig :=
    selector? (Format.numbersKinds format) true d

-- ============================================================ solvers

/-- The environment. Each format has its own content of a table that
stands for a word: none in one, null in another, an empty table or list
in the third. -/
def environment? (format : Format) : Document → Option Environment
  | .text w => Environment.ofWord? w
  | .table [(w, d)] =>
    match format, d with
    | .json, .null => Environment.ofWord? w
    | .toml, .table [] => Environment.ofWord? w
    | .toml, .list [] => Environment.ofWord? w
    | _, _ => none
  | _ => none

def templates? (format : Format) : Document → Option Templates
  | .table entries => do
    return Templates.ofList (← entries.mapM fun e => do
      return (e.1, ← selector? (Format.numbersKinds format) false e.2))
  | _ => none

/-- A field that has a default of its own. -/
def fieldOr? {α : Type} (default : α) (read? : Document → Option α) :
    Option Document → Option α
  | none => some default
  | some d => read? d

/-- A solver of its five fields, each of which may be missing. -/
def solverOf? (format : Format)
    (environment seed limits phases templates : Option Document) :
    Option SolverConfig := do
  return {
    environment := ← fieldOr? .reproducible (environment? format) environment
    seed := ← fieldOr? none (optional? count?) seed
    limits := ← fieldOr? none (optional? (runLimits? format)) limits
    phases := ← fieldOr? [] (list? (phase? format)) phases
    templates := ← fieldOr? [] (templates? format) templates }

end ConfigReader

open ConfigReader

/-- A selector tree that stands by itself. -/
def SelectorConfig.ofDocument? (d : Document) : Option SelectorConfig :=
  selector? true false d

def TerminationLimits.ofDocument? (d : Document) :
    Option TerminationLimits := limits? d

def PhaseConfig.ofDocument? (d : Document) : Option PhaseConfig :=
  phase? .json d

/-- A solver, read from a document of a format. -/
def SolverConfig.ofDocument? (format : Format) : Document → Option SolverConfig
  | .table entries => do
    solverOf? format (← entry? "environment_mode" entries)
      (← entry? "random_seed" entries)
      (← entry? "termination" entries) (← entry? "phases" entries)
      (← entry? "move_selector_templates" entries)
  | .list items =>
    if format = .json ∧ items.length ≤ 5 then
      solverOf? format items[0]? items[1]? items[2]? items[3]? items[4]?
    else none
  | _ => none

end PlanSearch

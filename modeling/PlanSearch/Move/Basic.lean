/-
Moves: proposed changes of a solution.

A step changes one variable; a move is a step or a sequence of moves. A
step names what it is about (this entity, that segment, after this link)
and not the values it will write, so that it can be executed in another
state than the one it was made for: what it does then depends on what it
finds.
-/
import PlanSearch.Variable

namespace PlanSearch

/-- A change of one variable. -/
inductive Step (S V : Type)
  /-- Gives one entity a value. -/
  | change (target : BasicVariable S V) (entity : Nat) (value : Option V)
  /-- Exchanges the values of two entities. -/
  | swap (target : BasicVariable S V) (left right : Nat)
  /-- Gives every entity of a pillar a value. -/
  | pillarChange (target : BasicVariable S V) (pillar : List Nat)
    (value : Option V)
  /-- Exchanges the values of two pillars. -/
  | pillarSwap (target : BasicVariable S V) (left right : List Nat)
  /-- Moves a segment of a chain behind a link. -/
  | segmentChange (target : ChainedVariable S) (segment : List Nat)
    (link : Link) (reversing : Bool)
  /-- Exchanges two segments. -/
  | segmentSwap (target : ChainedVariable S) (left right : List Nat)
    (reversing : Bool)
  /-- Attaches the tail that starts at an entity behind a link. -/
  | tailSwap (target : ChainedVariable S) (entity : Nat) (link : Link)
  /-- Writes links as they are given. -/
  | restore (target : ChainedVariable S) (links : LinkChanges)

/-- A step, or moves executed one after the other. -/
inductive Move (S V : Type)
  | step (step : Step S V)
  | composite (moves : List (Move S V))

namespace Step

variable {S V : Type}

/-- The number of the entity class the variable belongs to. -/
def descriptor : Step S V → Nat
  | change x _ _ | swap x _ _ | pillarChange x _ _ | pillarSwap x _ _ =>
      x.descriptor
  | segmentChange x _ _ _ | segmentSwap x _ _ _ | tailSwap x _ _ | restore
    x _ => x.descriptor

/-- The name of the variable. -/
def variableName : Step S V → String
  | change x _ _ | swap x _ _ | pillarChange x _ _ | pillarSwap x _ _ => x.name
  | segmentChange x _ _ _ | segmentSwap x _ _ _ | tailSwap
    x _ _ | restore x _ => x.name

/-- The entities the step names. -/
def entities : Step S V → List Nat
  | change _ entity _ => [entity]
  | swap _ left right => [left, right]
  | pillarChange _ pillar _ => pillar
  | pillarSwap _ left right => left ++ right
  | segmentChange _ segment _ _ => segment
  | segmentSwap _ left right _ => left ++ right
  | tailSwap _ entity _ => [entity]
  | restore _ links => links.map Prod.fst

/-- A link that may be missing, beside its entity. -/
def shownLink (change : Nat × Option Link) : String :=
  "(" ++ shown change.1 ++ ", " ++ shown change.2 ++ ")"

instance [Shown V] : Shown (Step S V) where
  shown
    | change x entity value => Text.Shown.record "ChangeMove"
        [("variable", shown x.name), ("entity_index", shown entity),
          ("to_value", shown value)]
    | swap x left right => Text.Shown.record "SwapMove"
        [("variable", shown x.name), ("left", shown left),
          ("right", shown right)]
    | pillarChange x pillar value => Text.Shown.record "PillarChangeMove"
        [("variable", shown x.name), ("pillar", Text.Shown.indices pillar),
          ("to_value", shown value)]
    | pillarSwap x left right => Text.Shown.record "PillarSwapMove"
        [("variable", shown x.name), ("left", Text.Shown.indices left),
          ("right", Text.Shown.indices right)]
    | segmentChange x segment link reversing =>
        Text.Shown.record "SubChainChangeMove"
        [("sub_chain", Text.Shown.indices segment), ("to_link", shown link),
          ("reversing", Text.Shown.bool reversing),
            ("variable_name", shown x.name)]
    | segmentSwap x left right reversing => Text.Shown.record "SubChainSwapMove"
        [("left", Text.Shown.indices left), ("right", Text.Shown.indices right),
          ("reversing", Text.Shown.bool reversing),
            ("variable_name", shown x.name)]
    | tailSwap x entity link => Text.Shown.record "TailChainSwapMove"
        [("left_entity", shown entity), ("right_link", shown link),
          ("variable_name", shown x.name)]
    | restore x links => Text.Shown.record "ChainRestoreMove"
        [("variable_name", shown x.name),
          ("links", Text.Shown.list (links.map shownLink))]

end Step

namespace Move

variable {S V : Type}

/-- The descriptor of the first step; zero if there is none. -/
def descriptor : Move S V → Nat
  | step s => s.descriptor
  | composite [] => 0
  | composite (m :: _) => m.descriptor

/-- The variable of the first step; no name if there is none. -/
def variableName : Move S V → String
  | step s => s.variableName
  | composite [] => ""
  | composite (m :: _) => m.variableName

mutual

/-- The steps of a move, in the order of execution. -/
def steps : Move S V → List (Step S V)
  | step s => [s]
  | composite moves => stepsOf moves

def stepsOf : List (Move S V) → List (Step S V)
  | [] => []
  | m :: rest => steps m ++ stepsOf rest

end

/-- The entities the steps name. -/
def entities (m : Move S V) : List Nat := m.steps.flatMap Step.entities

mutual

def shownMove [Shown V] : Move S V → String
  | step s => shown s
  | composite moves =>
    Text.Shown.record "CompositeMove"
      [("moves", Text.Shown.list (shownMoves moves))]

def shownMoves [Shown V] : List (Move S V) → List String
  | [] => []
  | m :: rest => shownMove m :: shownMoves rest

end

instance [Shown V] : Shown (Move S V) := ⟨shownMove⟩

end Move

end PlanSearch

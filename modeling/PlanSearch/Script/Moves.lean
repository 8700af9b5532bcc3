/-
Moves in scripts: made from their description, and described again.
-/
import PlanSearch.Move.Run
import PlanSearch.Script.Stage

namespace PlanSearch.Script

variable {S : Type}

/-- Moves made before, by name. -/
abbrev KnownMoves (S : Type) := List (String × Move S Int)

-- ============================================================ variables

/-- A basic variable by its name, or by class and name. -/
def basicNamed (world : World S) (name : String) : Read (BasicVariable S Int) :=
  match world.basics.find? fun b => b.2.name == name || b.1 ++ "." ++
      b.2.name == name with
  | some b => .ok b.2
  | none => malformed ("unknown variable " ++ name)

def chainedNamed (world : World S) (name : String) : Read (ChainedVariable S) :=
  match world.chained.find? fun c => c.name == name with
  | some c => .ok c
  | none => malformed ("unknown variable " ++ name)

def basicOf (world : World S) (d : Document) : Read (BasicVariable S Int) := do
  basicNamed world (← getText d "variable")

def chainedOf (world : World S) (d : Document) : Read (ChainedVariable S) := do
  chainedNamed world (← getText d "variable")

def basicsOf (world : World S) (d : Document) :
    Read (List (BasicVariable S Int)) := do
  (← getList d "variables").mapM fun name => do basicNamed world (← asText name)

-- ============================================================ making

/-- A link to write: `[entity, link]`. -/
def linkChangeOf (d : Document) : Read (Nat × Option Link) := do
  match ← asList d with
  | [entity, link] => return (← asNat entity, ← asOption asLink link)
  | _ => malformed "entity and link expected"

def stepOf (world : World S) (kind : String) (d : Document) :
    Read (Step S Int) := do
  match kind with
  | "change" =>
    return .change (← basicOf world d) (← getNat d "entity")
      (← getOption asInt d "value")
  | "swap" =>
      return .swap (← basicOf world d) (← getNat d "left") (← getNat d "right")
  | "pillar_change" =>
    return .pillarChange (← basicOf world d) (← getNats d "entities")
      (← getOption asInt d "value")
  | "pillar_swap" =>
    return .pillarSwap (← basicOf world d) (← getNats d "left")
      (← getNats d "right")
  | "sub_chain_change" =>
    return .segmentChange (← chainedOf world d) (← getNats d "entities")
      (← asLink (← getDocument d "to")) (getFlag d "reversing" false)
  | "sub_chain_swap" =>
    return .segmentSwap (← chainedOf world d) (← getNats d "left")
      (← getNats d "right")
      (getFlag d "reversing" false)
  | "tail_chain_swap" =>
    return .tailSwap (← chainedOf world d) (← getNat d "left")
      (← asLink (← getDocument d "to"))
  | "chain_restore" =>
    return .restore (← chainedOf world d)
      (← (← getList d "links").mapM linkChangeOf)
  | _ => malformed ("unknown move " ++ kind)

/-- A move made before. -/
def known (moves : KnownMoves S) (id : String) : Read (Move S Int) :=
  match moves.find? fun m => m.1 == id with
  | some m => .ok m.2
  | none => malformed ("unknown move " ++ id)

mutual

/-- Makes a described move in a solution, or answers why it cannot be made. -/
def moveOf (world : World S) (moves : KnownMoves S) (s : S) :
    Nat → Document → Read (Except PlanError (Move S Int))
  | 0, _ => malformed "move nested too deeply"
  | fuel + 1, d => do
    match get? d "ref" with
    | some id => return .ok (← known moves (← asText id))
    | none =>
      match ← getText d "kind" with
      | "composite" =>
        match ← movesOf world moves s fuel (← getList d "moves") with
        | .ok parts => return .ok (.composite parts)
        | .error e => return .error e
      | kind =>
        let step ← stepOf world kind d
        match step.make? s with
        | .ok step => return .ok (.step step)
        | .error e => return .error e

def movesOf (world : World S) (moves : KnownMoves S) (s : S) :
    Nat → List Document → Read (Except PlanError (List (Move S Int)))
  | 0, _ => malformed "move nested too deeply"
  | _ + 1, [] => return .ok []
  | fuel + 1, d :: rest => do
    match ← moveOf world moves s fuel d with
    | .error e => return .error e
    | .ok m =>
      match ← movesOf world moves s fuel rest with
      | .ok parts => return .ok (m :: parts)
      | .error e => return .error e

end

-- ============================================================ describing

def valueDocument : Option Int → Document := Document.option Document.int

def stepDocument : Step S Int → Document
  | .change x entity value => described "change" x.name
      [("entity", .nat entity), ("value", valueDocument value)]
  | .swap x left right =>
      described "swap" x.name [("left", .nat left), ("right", .nat right)]
  | .pillarChange x pillar value => described "pillar_change" x.name
      [("entities", nats pillar), ("value", valueDocument value),
        ("size", .nat pillar.length)]
  | .pillarSwap x left right => described "pillar_swap" x.name
      [("left", nats left), ("right", nats right)]
  | .segmentChange x segment link reversing =>
      described "sub_chain_change" x.name
      [("entities", nats segment), ("to", linkDocument link),
        ("reversing", .bool reversing)]
  | .segmentSwap x left right reversing => described "sub_chain_swap" x.name
      [("left", nats left), ("right", nats right),
        ("reversing", .bool reversing)]
  | .tailSwap x entity link => described "tail_chain_swap" x.name
      [("left", .nat entity), ("to", linkDocument link)]
  | .restore x links => described "chain_restore" x.name
      [("links", .list (links.map fun l =>
        .list [.nat l.1, Document.option linkDocument l.2]))]
where
  described (kind variableName : String)
      (fields : List (String × Document)) : Document :=
    table ([("kind", .text kind), ("variable", .text variableName)] ++ fields)

mutual

def moveDocument : Move S Int → Document
  | .step s => stepDocument s
  | .composite moves =>
      table [("kind", .text "composite"), ("len", .nat moves.length),
      ("empty", .bool moves.isEmpty), ("moves", .list (moveDocuments moves))]

def moveDocuments : List (Move S Int) → List Document
  | [] => []
  | m :: rest => moveDocument m :: moveDocuments rest

end

/-- A move with what it says about itself. -/
def fullDocument (m : Move S Int) : Document :=
  table [("move", moveDocument m), ("descriptor", .nat m.descriptor),
    ("entities", nats m.entities), ("name", .text m.variableName)]

end PlanSearch.Script

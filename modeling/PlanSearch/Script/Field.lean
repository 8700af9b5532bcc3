/-
Reading the fields of a script.

A script is a document. What a field must be is asked for here, once; a
script that does not comply is malformed and is not run at all. A step
that is understood may still end early: by a fault, or by an answer that
takes the place of the ordinary one.
-/
import PlanSearch.Chain.Link
import PlanSearch.Document.Basic

namespace PlanSearch.Script

/-- Why there is no ordinary answer. -/
inductive Stop
  | malformed (what : String)
  | fault (f : Fault)
  | answer (d : Document)

/-- A reading of a script. -/
abbrev Read := Except Stop

/-- A running script: the state it has reached stays when it stops. -/
abbrev Play (σ α : Type) := ExceptT Stop (StateM σ) α

namespace Play

variable {σ τ α : Type}

/-- Lets the library act on a part of the state. -/
def act (get : τ → σ) (set : τ → σ → τ) (act : Act σ α) : Play τ α :=
  ExceptT.mk fun whole =>
    match act.run (get whole) with
    | (.ok a, part) => (.ok a, set whole part)
    | (.error f, part) => (.error (.fault f), set whole part)

/-- Something read off the script. -/
def ofRead (read : Read α) : Play σ α := ExceptT.mk fun state => (read, state)

instance : MonadLift Read (Play σ) := ⟨ofRead⟩

/-- Something that may fault. -/
def lift (result : Except Fault α) : Play σ α :=
  ExceptT.mk fun state =>
    match result with
    | .ok a => (.ok a, state)
    | .error f => (.error (.fault f), state)

end Play

/-- How deep descriptions of moves and selectors may nest. -/
def deepest : Nat := 1000000

def malformed {α : Type} (what : String) : Read α := .error (.malformed what)

/-- Something that may fault, while a script is read. -/
def lift {α : Type} : Except Fault α → Read α
  | .ok a => .ok a
  | .error f => .error (.fault f)

-- ============================================================ values

def asText : Document → Read String
  | .text s => .ok s
  | _ => malformed "text expected"

def asInt : Document → Read Int
  | .int n => .ok n
  | _ => malformed "integer expected"

def asNat (d : Document) : Read Nat := do return (← asInt d).toNat

def asLevel (d : Document) : Read Int64 := do return Int64.ofInt (← asInt d)

def asList : Document → Read (List Document)
  | .list items => .ok items
  | _ => malformed "list expected"

def asNats (d : Document) : Read (List Nat) := do (← asList d).mapM asNat

def asEntries : Document → Read (List (String × Document))
  | .table entries => .ok entries
  | _ => malformed "table expected"

/-- A number; those that are not finite are spelled out. -/
def asNumber : Document → Read Binary64
  | .int n => .ok (.ofInt n)
  | .float x => .ok x
  | .text "inf" => .ok .infinity
  | .text "-inf" => .ok .negativeInfinity
  | .text "nan" => .ok .nan
  | _ => malformed "number expected"

/-- A value that may be missing. -/
def asOption {α : Type} (read : Document → Read α) : Document → Read (Option α)
  | .null => .ok none
  | d => do return some (← read d)

/-- A link: `A3` is the anchor 3 and `E2` the entity 2. -/
def asLink (d : Document) : Read Link := do
  match (← asText d).toList with
  | 'A' :: digits => return .anchor (← number digits)
  | 'E' :: digits => return .entity (← number digits)
  | _ => malformed "link expected"
where
  number (digits : List Char) : Read Nat :=
    match (String.ofList digits).toNat? with
    | some n => .ok n
    | none => malformed "link expected"

-- ============================================================ fields

/-- A field that may be missing; null counts as missing. -/
def get? (d : Document) (key : String) : Option Document :=
  match d.get? key with
  | some .null => none
  | found => found

/-- The value of a field; null for a missing one. -/
def getValue (d : Document) (key : String) : Document := (d.get? key).getD .null

def getDocument (d : Document) (key : String) : Read Document :=
  match get? d key with
  | some v => .ok v
  | none => malformed ("missing " ++ key)

/-- A field that may be null but must be there. -/
def getOption {α : Type} (read : Document → Read α) (d : Document)
    (key : String) : Read (Option α) :=
  match get? d key with
  | some v => do return some (← read v)
  | none => .ok none

def getText (d : Document) (key : String) :
    Read String := do asText (← getDocument d key)

def getNat (d : Document) (key : String) :
    Read Nat := do asNat (← getDocument d key)

def getNats (d : Document) (key : String) :
    Read (List Nat) := do asNats (← getDocument d key)

/-- A list; a missing one is empty. -/
def getList (d : Document) (key : String) : Read (List Document) :=
  match get? d key with
  | some v => asList v
  | none => .ok []

/-- A list of counts; a missing one is empty. -/
def getNatsOr (d : Document) (key : String) : Read (List Nat) := do
  (← getList d key).mapM asNat

/-- A table; a missing one is empty. -/
def getEntries (d : Document) (key : String) :
    Read (List (String × Document)) :=
  match get? d key with
  | some v => asEntries v
  | none => .ok []

def getFlag (d : Document) (key : String) (default : Bool) : Bool :=
  match get? d key with
  | some (.bool b) => b
  | _ => default

/-- A count; a missing one is the default. -/
def getNatOr (d : Document) (key : String) (default : Nat) : Read Nat := do
  return (← getOption asNat d key).getD default

def getTextOr (d : Document) (key : String) (default : String) :
    Read String := do
  return (← getOption asText d key).getD default

end PlanSearch.Script

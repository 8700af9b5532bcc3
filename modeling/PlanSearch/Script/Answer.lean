/-
Answers of a script: what the library has found, as documents.

An error is a table of its kind, its message and what else it is about.
A fault is named by its cause; only a broken promise has a text.
-/
import PlanSearch.Random.Stream
import PlanSearch.Script.Field
import PlanSearch.Score.Text

namespace PlanSearch.Script

def table (entries : List (String × Document)) : Document := .table entries

def nats (ns : List Nat) : Document := .list (ns.map Document.nat)

def linkDocument : Link → Document
  | .anchor a => .text ("A" ++ Text.ofNat a)
  | .entity e => .text ("E" ++ Text.ofNat e)

def pairDocument (pair : Nat × Nat) : Document := nats [pair.1, pair.2]

def scoreDocument {shape : Shape} (score : Score shape) : Document :=
  .text score.text

def orderDocument : Ordering → Document
  | .lt => .int (-1)
  | .eq => .int 0
  | .gt => .int 1

def faultDocument : Fault → Document
  | .arithmetic => table [("error", .text "Arithmetic")]
  | .indexOutOfBounds => table [("error", .text "IndexOutOfBounds")]
  | .broken text => table [("error", .text "Panic"), ("message", .text text)]

/-- The kind of an error, as it is answered. -/
def errorKind : PlanError → String
  | .config _ => "Config"
  | .initialization _ _ => "Initialization"
  | .structural _ => "Structural"
  | .scoring _ => "ScoreCalculation"
  | .cancelled => "Cancelled"
  | .invalidState _ => "InvalidState"

def errorDocument (e : PlanError) : Document :=
  table ([("error", .text (errorKind e)), ("message", .text e.message)] ++
    match e with
    | .initialization entity _ => [("entity_id", .nat entity)]
    | _ => [])

/-- An early end as an answer; a malformed script has none. -/
def stopped : Stop → Read Document
  | .fault f => .ok (faultDocument f)
  | .answer d => .ok d
  | .malformed what => malformed what

/-- The answer of a reading, whether it came to its end or not. -/
def answered : Read Document → Read Document
  | .ok d => .ok d
  | .error stop => stopped stop

end PlanSearch.Script

/-
Which events are logged.

A filter is written as directives with commas between them. A directive
sets a threshold for the targets that begin with a text, or for all
targets; it may ask for fields, and one that names a span is about
nothing here, since nothing runs in spans. Of the directives that
concern an event the one with the longest target decides, then the one
that asks for the most fields, then the one whose fields are greater; of
equal ones the last.

A directive without a threshold lets everything through. What is left of
the blanks around a directive counts as part of its target.
-/
import PlanSearch.Console.Event
import PlanSearch.Text.Blank

namespace PlanSearch.Console

/-- The least severity that is logged; nothing at all if there is none. -/
abbrev Threshold := Option Severity

namespace Threshold

def everything : Threshold := some .trace

def words : List (String × Threshold) :=
  [("off", none), ("error", some .error), ("warn", some .warn),
    ("info", some .info), ("debug", some .debug), ("trace", some .trace)]

/-- A threshold by its word, in letters of any case, or by its number;
errors for no word at all. -/
def ofWord? (word : String) : Option Threshold :=
  match (Text.readLevel word.toList).toOption with
  | some n =>
      if word.startsWith "-" then none
      else ((words.map Prod.snd)[n.toInt.toNat]?)
  | none =>
    if word.isEmpty then some (some .error)
    else (words.find? fun w => w.1 == word.toLower).map Prod.snd

end Threshold

structure Directive where
  threshold : Threshold
  /-- What the targets it is about begin with. -/
  target : Option String
  /-- Whether it is about what runs in a span, or about values. -/
  isDynamic : Bool
  /-- The fields it asks for. -/
  fields : List String
  deriving DecidableEq, Repr

namespace Directive

/-- Everything from anywhere. -/
def open_ : Directive := ⟨.everything, none, false, []⟩

/-- A threshold for all targets, or a target with everything. -/
def ofWord (word : String) : Directive :=
  match Threshold.ofWord? word with
  | some threshold => { open_ with threshold := threshold }
  | none => { open_ with target := some word }

/-- Where the reading of a directive has come to. Positions are those of
what was begun there. -/
inductive State
  | start
  | word
  | span (start : Nat)
  | field (start : Nat)
  | fields
  | target
  | threshold (start : Nat)

/-- A part of a text by the positions of its characters. -/
def part (text : List Char) (start stop : Nat) : String :=
  String.ofList ((text.drop start).take (stop - start))

/-- Asks for a field, or for a value of one. -/
def ask (d : Directive) (field : String) : Option Directive :=
  if field.isEmpty then none
  else
    let name := (field.splitOn "=").headD ""
    some { d with fields := d.fields ++ [name], isDynamic := d.isDynamic ||
      field.contains '=' }

/-- Whether a directive may begin with a character. -/
def isFirst (c : Char) : Bool :=
  c == '-' || c == ':' || c == '_' || c.isAlphanum ||
    (c.toNat ≥ 128 && !Text.isBlank c)

/-- One character further. -/
def step (text : List Char) (i : Nat) (c : Char) :
    State → Directive → Option (State × Directive)
  | .start, d =>
    if c == '[' then some (.span (i + 1), d)
    else if isFirst c then some (.word, d)
    else none
  | .word, d =>
    let named := { d with target := some (part text 0 i) }
    if c == '=' then some (.threshold (i + 1), named)
    else if c == '[' then some (.span (i + 1), named)
    else some (.word, d)
  | .span start, d =>
    if c == ']' then some (.target, { d with isDynamic := true })
    else if c == '\x7b' then
      some (.field (i + 1),
        { d with isDynamic := d.isDynamic || decide (start < i) })
    else some (.span start, d)
  | .field start, d =>
    if c == '\x7d' then do
      return (.fields, ← d.ask (part text start i)) else some (.field start, d)
  | .fields, d => if c == ']' then some (.target, d) else none
  | .target, d => if c == '=' then some (.threshold (i + 1), d) else none
  | .threshold start, d => some (.threshold start, d)

/-- Reads on from a position. -/
def readFrom (text : List Char) : Nat → State → Directive → List Char →
    Option (State × Directive)
  | _, state, d, [] => some (state, d)
  | i, state, d, c :: rest => do
    let (state, d) ← step text i c state d
    readFrom text (i + 1) state d rest

/-- Reads a directive. -/
def ofText? (text : String) : Option Directive := do
  let whole := text.toList
  let (state, d) ← readFrom whole 0 .start open_ (Text.trim whole)
  match state with
  | .word => some (ofWord text)
  | .threshold start =>
    let word := part whole start whole.length
    if word.isEmpty then some d else do
      return { d with threshold := ← Threshold.ofWord? word }
  | .target => some d
  | _ => none

/-- Whether an event is one of those that the directive is about. -/
def concerns (d : Directive) (e : Event) : Bool :=
  !d.isDynamic && (d.target.elim true fun t => e.target.startsWith t) &&
    d.fields.all fun name => e.fields.any fun f => f.1 == name

/-- How much a directive asks for: the length of its target, then fields. -/
def weight (d : Directive) : Nat × Nat :=
  (d.target.elim 0 fun t => t.utf8ByteSize + 1, d.fields.length)

/-- Whether the second directive goes before the first. -/
def yields (a b : Directive) : Bool :=
  match (compare a.weight.1 b.weight.1).then
      (compare a.weight.2 b.weight.2) with
  | .lt => true
  | .eq => !(decide (b.fields < a.fields))
  | .gt => false

end Directive

/-- Directives, in the order they are written. -/
structure Filter where
  directives : List Directive
  deriving DecidableEq, Repr

namespace Filter

/-- Reads a filter; nothing between commas is no directive. -/
def ofText? (text : String) : Option Filter := do
  let parts := (text.splitOn ",").filter fun part => !part.isEmpty
  return ⟨← parts.mapM Directive.ofText?⟩

/-- The directive that decides about an event. -/
def deciding (filter : Filter) (e : Event) : Option Directive :=
  (filter.directives.filter fun d => d.concerns e).foldl
    (fun best d =>
      match best with
      | some b => if b.yields d then some d else best
      | none => some d) none

/-- Whether an event is logged. -/
def admits (filter : Filter) (e : Event) : Bool :=
  match (filter.deciding e).bind Directive.threshold with
  | some least => decide (e.severity.rank ≤ least.rank)
  | none => false

/-- What is logged if nothing else is asked for. -/
def standard : Filter := ⟨[{ Directive.open_ with
  threshold := some .info, target := some "planforge_solver" }]⟩

/-- The filter that is asked for; the standard one if it is no filter. -/
def asked (text : Option String) : Filter := (text.bind ofText?).getD standard

end Filter

end PlanSearch.Console

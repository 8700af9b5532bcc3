/-
Events that are logged, and the lines a terminal shows of them.

An event has named fields of several sorts, and a line asks for each field
by name and sort: a number in the place of a text is not seen, and what is
not there is a question mark, zero or no. A value that was shown for
debugging loses the quotes around it. Only the events of this program
are shown, and of these only the kinds that have a line.
-/
import PlanSearch.Console.Style
import PlanSearch.Decimal.Fixed

namespace PlanSearch.Console

/-- How much an event matters. -/
inductive Severity
  | error
  | warn
  | info
  | debug
  | trace
  deriving DecidableEq, Repr

namespace Severity

/-- More for what matters less. -/
def rank : Severity → Nat
  | error => 1
  | warn => 2
  | info => 3
  | debug => 4
  | trace => 5

def word : Severity → String
  | error => "ERROR"
  | warn => "WARN"
  | info => "INFO"
  | debug => "DEBUG"
  | trace => "TRACE"

def color : Severity → Color
  | info => .brightGreen
  | warn => .brightYellow
  | _ => .brightBlack

end Severity

/-- The value of a field. -/
inductive FieldValue
  | text (s : String)
  /-- A value as it is shown for debugging. -/
  | shown (s : String)
  | number (n : Int)
  | flag (b : Bool)
  deriving DecidableEq, Repr

structure Event where
  severity : Severity
  /-- The part of the program it comes from. -/
  target : String
  fields : List (String × FieldValue)
  deriving DecidableEq, Repr

/-- A text without the quotes around it. -/
def trimQuotes (s : String) : String :=
  let isQuote (c : Char) : Bool := c == '"'
  String.ofList
    ((s.toList.dropWhile isQuote).reverse.dropWhile isQuote).reverse

namespace Event

/-- The first field of a name that has the sort asked for. -/
def find? {α : Type} (e : Event) (name : String)
    (sort? : FieldValue → Option α) : Option α :=
  e.fields.findSome? fun f => if f.1 == name then sort? f.2 else none

def text? (e : Event) (name : String) : Option String :=
  e.find? name fun
    | .text s => some s
    | .shown s => some (trimQuotes s)
    | _ => none

def text (e : Event) (name : String) : String := (e.text? name).getD "?"

/-- A number; one below zero counts as zero. -/
def number (e : Event) (name : String) : Nat :=
  (e.find? name fun
    | .number n => some n.toNat
    | _ => none).getD 0

def flag (e : Event) (name : String) : Bool :=
  (e.find? name fun
    | .flag b => some b
    | _ => none).getD false

/-- A number with its thousands set apart. -/
def count (e : Event) (name : String) : String := grouped (e.number name)

end Event

-- ============================================================ lines

/-- A time: milliseconds below a second, seconds with two places below a
minute, then minutes and seconds. -/
def spentText (millis : Nat) : String :=
  if millis < 1000 then Text.ofNat millis ++ "ms"
  else if millis < 60000 then
    let seconds := Float.ofNat (millis / 1000)
      + Float.ofNat (millis % 1000 * 1000000) / 1000000000
    Decimal.fixed 2 (.ofFloat seconds) ++ "s"
  else Text.ofNat (millis / 60000) ++ "m " ++
    Text.ofNat (millis % 60000 / 1000) ++ "s"

/-- One part of a score: hard parts red or green, others yellow or white. -/
def scorePart (part : String) : String :=
  let negative := part.startsWith "-"
  let color : Color := match part.endsWith "hard", negative with
    | true, true => .brightRed
    | true, false => .brightGreen
    | false, true => .yellow
    | false, false => .white
  paint color part

/-- A score with each part in its colour. -/
def scoreText (text : String) : String :=
  "/".intercalate ((text.splitOn "/").map scorePart)

/-- How a line shows what depends on when the program runs. -/
structure Clock where
  now : String
  spent : Nat → String
  speed : String → String

/-- A clock that shows the time. -/
def Clock.running (now : String) : Clock :=
  ⟨now, fun millis => paint .yellow (spentText millis),
    fun speed => paintBold .brightMagenta speed ++ "/sec"⟩

/-- The time and the severity that a line begins with. -/
def heading (clock : Clock) (severity : Severity) : String :=
  paint .brightBlack clock.now ++ " " ++ paint severity.color severity.word

/-- The phase that a line is about. -/
def phaseHeading (clock : Clock) (e : Event) : String :=
  heading clock .info ++ " " ++
    paint .brightCyan ("[" ++ e.text "phase" ++ "]") ++ " " ++
    paintBold .white (e.text "phase") ++ " phase (" ++
      paint .yellow (Text.ofNat (e.number "phase_index")) ++ ") "

/-- The line of an event, if its kind has one. -/
def Event.line? (clock : Clock) (e : Event) : Option String := do
  match ← e.text? "event" with
  | "phase_start" => some (phaseHeading clock e ++ "started: demand units (" ++
      paint .brightYellow (e.count "demand_count") ++
        "), entities to build (" ++
      paint .brightYellow (e.count "entity_count") ++ ")")
  | "phase_end" => some (phaseHeading clock e ++ "ended: time spent (" ++
      clock.spent (e.number "duration_ms") ++ "), score (" ++
        scoreText (e.text "score") ++
      "), speed (" ++ clock.speed (e.count "speed") ++ "), step total (" ++
        e.count "steps" ++
      "), skipped candidates (" ++ e.count "skipped" ++ ")" ++
      (if e.flag "terminated" then " " ++
        paint .brightRed "(terminated early)" else ""))
  | "entity_committed" =>
      some ("    " ++ paint .brightBlue "->" ++ " entity " ++
      padLeft 6 (e.count "entity_id") ++ " <- " ++ e.text "value" ++ " | " ++
      scoreText (e.text "score"))
  | "candidate_skipped" => some (heading clock .warn ++ " entity " ++
      Text.ofNat (e.number "entity_id") ++ " skipped value " ++
        e.text "value" ++ ": " ++
      e.text "error")
  | "selector_built" =>
      some (heading clock .debug ++ " " ++ paint .brightCyan "[Selector]" ++
      " " ++ paintBold .white (e.text "kind") ++ " selector at " ++
        e.text "path")
  | _ => none

/-- What the targets of this program's events begin with. -/
def ownTarget : String := "planforge"

/-- What a terminal shows of an event: nothing of other programs' events. A
text with line ends takes several lines. -/
def Event.lines (clock : Clock) (e : Event) : List String :=
  if e.target.startsWith ownTarget then
    ((e.line? clock).map (·.splitOn "\n")).getD []
  else []

end PlanSearch.Console

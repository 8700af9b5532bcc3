/-
How text looks on a terminal: colours, weight, and digits in groups.

A colour is switched on before a text and off behind it, so painted texts
may stand next to each other.
-/
import PlanSearch.Text.Integer

namespace PlanSearch.Console

/-- Colours of a text. -/
inductive Color
  | yellow
  | white
  | brightBlack
  | brightRed
  | brightGreen
  | brightYellow
  | brightBlue
  | brightMagenta
  | brightCyan
  deriving DecidableEq, Repr

/-- The number that switches a colour on. -/
def Color.code : Color → Nat
  | yellow => 33
  | white => 37
  | brightBlack => 90
  | brightRed => 91
  | brightGreen => 92
  | brightYellow => 93
  | brightBlue => 94
  | brightMagenta => 95
  | brightCyan => 96

/-- A control sequence. -/
def control (n : Nat) : String := "\x1b[" ++ Text.ofNat n ++ "m"

/-- A text in a colour. -/
def paint (color : Color) (text : String) : String :=
  control color.code ++ text ++ control 39

/-- A text in a colour and bold. -/
def paintBold (color : Color) (text : String) : String :=
  control 1 ++ paint color text ++ control 0

/-- Digits in groups of three, counted from the end. -/
def groupDigits : List Char → List Char
  | [] => []
  | c :: rest =>
    if rest.length ≠ 0 ∧ rest.length % 3 = 0 then c :: ',' :: groupDigits rest
    else c :: groupDigits rest

/-- A count with its thousands set apart. -/
def grouped (n : Nat) : String :=
  String.ofList (groupDigits (Nat.toDigits 10 n))

/-- A text with blanks before it, up to a width. -/
def padLeft (width : Nat) (text : String) : String :=
  String.ofList (List.replicate (width - text.length) ' ') ++ text

end PlanSearch.Console

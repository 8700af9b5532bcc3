/-
Values shown for a person who debugs.

The form names the type and its fields: `Name { field: value }` for a
record, `Name(a, b)` for a tuple, `[a, b]` for a list, `None` and
`Some(x)` for what may be missing, and text in double quotes with quote,
backslash and the line and tab characters escaped, and by their numbers
the ones that would not be seen.
-/
import PlanSearch.Text.Integer
import PlanSearch.Text.Printable

namespace PlanSearch.Text.Shown

/-- The escape of a character inside quotes. -/
def escape (c : Char) : List Char :=
  if c = '"' then ['\\', '"']
  else if c = '\\' then ['\\', '\\']
  else if c = '\n' then ['\\', 'n']
  else if c = '\r' then ['\\', 'r']
  else if c = '\t' then ['\\', 't']
  else if c.toNat = 0 then ['\\', '0']
  else if isPrintable c then [c]
  else ['\\', 'u', '\x7b'] ++ Nat.toDigits 16 c.toNat ++ ['\x7d']

/-- A text in double quotes. -/
def text (s : String) : String :=
  "\"" ++ String.ofList (s.toList.flatMap escape) ++ "\""

/-- A list in square brackets. -/
def list (items : List String) : String := "[" ++ ", ".intercalate items ++ "]"

/-- A named tuple. -/
def tuple (name : String) (items : List String) : String :=
  name ++ "(" ++ ", ".intercalate items ++ ")"

/-- A named record. -/
def record (name : String) (fields : List (String × String)) : String :=
  if fields.isEmpty then name
  else name ++ " \x7b " ++
    ", ".intercalate (fields.map fun f => f.1 ++ ": " ++ f.2) ++ " \x7d"

/-- A value that may be missing. -/
def option : Option String → String
  | none => "None"
  | some s => "Some(" ++ s ++ ")"

def bool (b : Bool) : String := if b then "true" else "false"

/-- A list of indices. -/
def indices (entities : List Nat) : String := list (entities.map Text.ofNat)

end PlanSearch.Text.Shown

namespace PlanSearch

/-- Values that can be shown for a person who debugs. -/
class Shown (α : Type) where
  shown : α → String

export Shown (shown)

instance : Shown Int := ⟨Text.ofInt⟩

instance : Shown Nat := ⟨Text.ofNat⟩

instance : Shown String := ⟨Text.Shown.text⟩

instance {α : Type} [Shown α] : Shown (Option α) :=
  ⟨fun x => Text.Shown.option (x.map shown)⟩

end PlanSearch

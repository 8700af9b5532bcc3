/-
What the readers of documents share: characters in, what is left out.

A reader takes the characters from where it stands on and gives, beside
what it has read, the characters that it leaves. Nothing is given when
the text does not comply; what is wrong is not told.
-/
import PlanSearch.Document.Json

namespace PlanSearch

/-- A reader of `α`. -/
abbrev Scan (α : Type) := List Char → Option (α × List Char)

namespace Scan

/-- The rest after a given text, if the characters begin with it. -/
def after? (head : List Char) (s : List Char) : Option (List Char) :=
  if s.take head.length = head then some (s.drop head.length) else none

/-- The characters as long as they comply, and the rest. -/
def while_ (p : Char → Bool) (s : List Char) : List Char × List Char :=
  (s.takeWhile p, s.dropWhile p)

/-- A digit and those after it, each of which may have an underscore before
it. -/
def underscored (isDigit : Char → Bool) :
    List Char → Option (List Char × List Char)
  | c :: rest => if isDigit c then some (more [c] rest) else none
  | [] => none
where
  more (done : List Char) : List Char → List Char × List Char
    | '_' :: c :: rest =>
      if isDigit c then more (c :: done) rest
      else (done.reverse, '_' :: c :: rest)
    | c :: rest =>
        if isDigit c then more (c :: done) rest else (done.reverse, c :: rest)
    | [] => (done.reverse, [])

/-- The value of digits of a base. -/
def valueIn (base : Nat) (ds : List Char) : Nat :=
  ds.foldl (fun n c => n * base + (Json.hexValue? c).getD 0) 0

def isHexDigit (c : Char) : Bool := (Json.hexValue? c).isSome

def isOctalDigit (c : Char) : Bool := '0' ≤ c && c ≤ '7'

def isBinaryDigit (c : Char) : Bool := c == '0' || c == '1'

/-- The character of a number of hexadecimal digits. -/
def codePoint (digits : Nat) (s : List Char) : Option (Char × List Char) :=
  let ds := s.take digits
  if ds.length = digits && ds.all isHexDigit then
    let n := valueIn 16 ds
    if n < 0xd800 || (0xdfff < n && n < 0x110000) then
      some (Char.ofNat n, s.drop digits)
    else none
  else none

end Scan

end PlanSearch

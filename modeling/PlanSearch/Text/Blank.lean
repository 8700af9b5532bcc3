/-
White space: the twenty-five characters that Unicode gives the property
White_Space, and trimming by them. Zero-width characters are not among
them, so a zero-width space stays where it is.
-/
namespace PlanSearch.Text

/-- Whether a character has the property White_Space. -/
def isBlank (c : Char) : Bool :=
  let n := c.toNat
  (9 ≤ n && n ≤ 13) || n == 0x20 || n == 0x85 || n == 0xa0 || n == 0x1680 ||
    (0x2000 ≤ n && n ≤ 0x200a) || n == 0x2028 || n == 0x2029 || n == 0x202f ||
    n == 0x205f || n == 0x3000

/-- Drops white space at the front. -/
def trimLeft (s : List Char) : List Char := s.dropWhile isBlank

/-- Drops white space at the back. -/
def trimRight (s : List Char) : List Char :=
  (s.reverse.dropWhile isBlank).reverse

/-- Drops white space at both ends. -/
def trim (s : List Char) : List Char := trimRight (trimLeft s)

end PlanSearch.Text

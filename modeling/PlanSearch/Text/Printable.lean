/-
Characters that a text for debugging shows as they are.

White space other than the blank, controls, format characters, private
ones and marks that attach to the character before them are not shown:
on a screen they would be mistaken for nothing, or for a part of
something else.
-/
namespace PlanSearch.Text

/-- Ranges of white space, controls, format characters and private ones. -/
def hiddenRanges : List (Nat × Nat) :=
  [(0x0, 0x1f), (0x7f, 0xa0), (0xad, 0xad), (0x600, 0x605), (0x61c, 0x61c),
    (0x6dd, 0x6dd), (0x70f, 0x70f), (0x890, 0x891), (0x8e2, 0x8e2),
    (0x1680, 0x1680), (0x180e, 0x180e), (0x2000, 0x200f), (0x2028, 0x202f),
    (0x205f, 0x206f), (0x3000, 0x3000), (0xe000, 0xf8ff), (0xfeff, 0xfeff),
    (0xfff0, 0xfffb), (0xfffe, 0xffff), (0x110bd, 0x110bd), (0x110cd, 0x110cd),
    (0x13430, 0x1343f), (0x1bca0, 0x1bca3), (0x1d173, 0x1d17a),
    (0xe0000, 0x10ffff)]

/-- Ranges of marks that attach to the character before them. -/
def markRanges : List (Nat × Nat) :=
  [(0x300, 0x36f), (0x483, 0x489), (0x591, 0x5bd), (0x5bf, 0x5bf),
    (0x5c1, 0x5c2), (0x5c4, 0x5c5), (0x5c7, 0x5c7), (0x610, 0x61a),
    (0x64b, 0x65f), (0x670, 0x670), (0x6d6, 0x6dc), (0x6df, 0x6e4),
    (0x6e7, 0x6e8), (0x6ea, 0x6ed), (0x93c, 0x93c), (0x941, 0x948),
    (0x94d, 0x94d), (0xe31, 0xe31), (0xe34, 0xe3a), (0xe47, 0xe4e),
    (0x1ab0, 0x1ace), (0x1dc0, 0x1dff), (0x20d0, 0x20f0), (0x302a, 0x302f),
    (0x3099, 0x309a), (0xfe00, 0xfe0f), (0xfe20, 0xfe2f), (0xff9e, 0xff9f)]

/-- Whether a number falls into one of some ranges. -/
def fallsInto (ranges : List (Nat × Nat)) (n : Nat) : Bool :=
  ranges.any fun r => decide (r.1 ≤ n ∧ n ≤ r.2)

/-- Whether a character is shown as it is. -/
def isPrintable (c : Char) : Bool :=
  !fallsInto hiddenRanges c.toNat && !fallsInto markRanges c.toNat

end PlanSearch.Text

/-
Seeds of passes and of children.

A selector in random order starts every pass on a stream of its own, and
hands each child a seed of its own. Both move the seed by a multiple of
one odd constant: a pass by its number, a child by its number counted
from one in the upper half of the word. Passes thus stay within the
lower half of the multipliers and children within the upper one.
-/
import PlanSearch.Random.Stream

namespace PlanSearch

namespace Seed

/-- The odd constant that separates seeds. -/
def stride : UInt64 := 0x9e3779b97f4a7c15

/-- The seed of a pass. -/
def ofPass (seed : UInt64) (pass : Nat) : UInt64 :=
  seed + UInt64.ofNat pass * stride

/-- The seed of a child. -/
def ofChild (seed : UInt64) (child : Nat) : UInt64 :=
  seed + (UInt64.ofNat (child + 1) <<< 32) * stride

/-- The stream of a pass. -/
def stream (seed : UInt64) (pass : Nat) : Stream :=
  Stream.ofSeed (ofPass seed pass)

end Seed

end PlanSearch

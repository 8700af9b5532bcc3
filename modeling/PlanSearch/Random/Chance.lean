/-
Choices left to chance.

A `Chance α` asks for draws, one after the other, and goes on with what
it is given. Who answers is left open: a generator in a running search,
and every possible outcome in a statement about all of them. A draw from
an empty range cannot be answered.
-/
import PlanSearch.Decimal.Binary64
import PlanSearch.Fault

namespace PlanSearch

/-- A computation that asks for draws. -/
inductive Chance (α : Type) : Type
  | pure (a : α)
  /-- A number below `n`. -/
  | index (n : Nat) (next : Nat → Chance α)
  /-- A number from `low` to `high`, both included. -/
  | between (low high : Nat) (next : Nat → Chance α)
  | coin (next : Bool → Chance α)
  /-- A number from zero up to before a top. -/
  | fraction (top : Float) (next : Float → Chance α)

namespace Chance

variable {α β : Type}

def bind : Chance α → (α → Chance β) → Chance β
  | .pure a, f => f a
  | .index n next, f => .index n fun k => bind (next k) f
  | .between low high next, f => .between low high fun k => bind (next k) f
  | .coin next, f => .coin fun b => bind (next b) f
  | .fraction top next, f => .fraction top fun x => bind (next x) f

instance : Monad Chance where
  pure := Chance.pure
  bind := Chance.bind

def drawBelow (n : Nat) : Chance Nat := .index n .pure

def drawBetween (low high : Nat) : Chance Nat := .between low high .pure

def flip : Chance Bool := .coin .pure

def drawFraction (top : Float) : Chance Float := .fraction top .pure

/-- An item of a list. -/
def pick (items : List α) :
    Chance (Option α) := do return items[← drawBelow items.length]?

/-- The values that can come out. -/
inductive Yields : Chance α → α → Prop
  | pure (a : α) : Yields (.pure a) a
  | index {n k : Nat} {next : Nat → Chance α} {a : α} :
      k < n → Yields (next k) a → Yields (.index n next) a
  | between {low high k : Nat} {next : Nat → Chance α} {a : α} :
      low ≤ k → k ≤ high → Yields (next k) a → Yields (.between low high next) a
  | coin {next : Bool → Chance α} {a : α} (b : Bool) : Yields (next b) a →
    Yields (.coin next) a
  | fraction {top : Float} {next : Float → Chance α} {a : α} (x : Float) :
      Yields (next x) a → Yields (.fraction top next) a

/-- No draw is asked from an empty range, whatever was drawn before. -/
inductive Safe : Chance α → Prop
  | pure (a : α) : Safe (.pure a)
  | index {n : Nat} {next : Nat → Chance α} :
      0 < n → (∀ k, k < n → Safe (next k)) → Safe (.index n next)
  | between {low high : Nat} {next : Nat → Chance α} :
      low ≤ high → (∀ k, low ≤ k → k ≤ high → Safe (next k)) →
        Safe (.between low high next)
  | coin {next : Bool → Chance α} : (∀ b, Safe (next b)) → Safe (.coin next)
  | fraction {top : Float} {next : Float → Chance α} :
      (∀ x, Safe (next x)) → Safe (.fraction top next)

end Chance

end PlanSearch

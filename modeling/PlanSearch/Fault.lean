/-
How a computation breaks off.

An error is an answer: a plan can be malformed, a configuration can name
a template that does not exist. A fault is none: arithmetic left the
machine's range, an index missed its list. No caller recovers from it,
so faults have a type of their own, and a function that can run into one
says so by returning `Except Fault`.

A running search keeps the state it had reached when a fault struck (the
changes made so far stay made), which is what `Act` records: the state
comes back beside the fault instead of being thrown away with it.
-/
namespace PlanSearch

/-- The ways a computation breaks off. -/
inductive Fault
  /-- A result outside the range of its machine integer, or a remainder by
  zero. -/
  | arithmetic
  /-- An index past the end of its list. -/
  | indexOutOfBounds
  /-- A broken promise of the caller, with the text that names it. -/
  | broken (text : String)
  deriving DecidableEq, Repr

/-- A computation on a state that may break off; the state reached stays. -/
abbrev Act (σ α : Type) := ExceptT Fault (StateM σ) α

namespace Act

variable {σ τ α : Type}

/-- Runs a computation on a part of the state and puts the part back,
also when it breaks off. -/
def zoom (get : τ → σ) (set : τ → σ → τ) (act : Act σ α) : Act τ α :=
  ExceptT.mk fun whole =>
    let (result, part) := act.run (get whole)
    (result, set whole part)

/-- A pure computation that may fault, seen from any state. -/
def lift (result : Except Fault α) : Act σ α :=
  ExceptT.mk fun state => (result, state)

/-- Reads from the state something that may fault. -/
def look (read : σ → Except Fault α) : Act σ α :=
  ExceptT.mk fun state => (read state, state)

/-- Changes the state. -/
def update (change : σ → σ) : Act σ Unit :=
  ExceptT.mk fun state => (.ok (), change state)

end Act

end PlanSearch

/-
What a move must satisfy to be made.

A pillar is a set of distinct, known entities that hold one value. A
chain move must be a rearrangement of the present chains. These checks
stand at the making of a move only: executed later, in another state, a
chain move that no longer fits does nothing.
-/
import PlanSearch.Move.Basic
import PlanSearch.Chain.Rearrange

namespace PlanSearch

/-- What can be wrong with pillars. -/
inductive PillarFlaw (V : Type)
  | empty
  | unknown (pillar : List Nat)
  | repeated (pillar : List Nat) (entity : Nat)
  | unassigned (pillar : List Nat) (entity : Nat)
  | inconsistent (pillar : List Nat) (entity : Nat) (value : Option V)
  | overlap (left right : List Nat) (entity : Nat)
  deriving DecidableEq, Repr

def PillarFlaw.message {V : Type} [Shown V] : PillarFlaw V → String
  | empty => "empty pillar"
  | unknown pillar =>
      "pillar " ++ Text.Shown.indices pillar ++ " refers to unknown entities"
  | repeated pillar e =>
      "pillar " ++ Text.Shown.indices pillar ++ " repeats entity " ++ shown e
  | unassigned pillar e =>
    "pillar " ++ Text.Shown.indices pillar ++
      " contains unassigned entity " ++ shown e
  | inconsistent pillar e value =>
    "pillar " ++ Text.Shown.indices pillar ++
      " is inconsistent: entity " ++ shown e ++
      " does not hold " ++ shown value
  | overlap left right e =>
    "pillars " ++ Text.Shown.indices left ++ " and " ++
      Text.Shown.indices right ++
      " overlap at entity " ++ shown e

/-- The first entity of a list that stands there before. -/
def firstRepeat : List Nat → List Nat → Option Nat
  | _, [] => none
  | before, e :: rest =>
      if before.contains e then some e else firstRepeat (e :: before) rest

/-- What is wrong with a pillar, if anything. -/
def pillarFlaw {S V : Type} [BEq V] (x : BasicVariable S V) (s : S)
    (pillar : List Nat) : Option (PillarFlaw V) :=
  match pillar with
  | [] => some .empty
  | first :: _ =>
    if pillar.any fun e => x.count s ≤ e then some (.unknown pillar)
    else match firstRepeat [] pillar with
      | some e => some (.repeated pillar e)
      | none =>
        let value := x.get s first
        if value.isNone then some (.unassigned pillar first)
        else (pillar.find? fun e => x.get s e != value).map fun e =>
          .inconsistent pillar e value

/-- What is wrong with two pillars that are to be exchanged, if anything. -/
def pillarPairFlaw {S V : Type} [BEq V] (x : BasicVariable S V) (s : S)
    (left right : List Nat) : Option (PillarFlaw V) :=
  (pillarFlaw x s left).or <| (pillarFlaw x s right).or <|
    (left.find? right.contains).map fun e => .overlap left right e

namespace Step

variable {S V : Type}

/-- The links a chain step writes in a solution, as changes. -/
def plan (x : ChainedVariable S) (s : S)
    (rearrange : ChainIndex → Except ChainFlaw (List (List Nat))) :
    Except ChainFlaw LinkChanges := do
  let index ← x.index s
  let chains ← rearrange index
  return index.diff chains

/-- The links a step writes, planned against the present chains. -/
def linkPlan : Step S V → S → Except ChainFlaw LinkChanges
  | segmentChange x segment link reversing, s =>
    plan x s fun index => index.moveSegment segment link reversing
  | segmentSwap x left right reversing, s =>
    plan x s fun index => index.swapSegments left right reversing
  | tailSwap x entity link, s =>
      plan x s fun index => index.swapTails entity link
  | restore _ links, _ => .ok links
  | _, _ => .ok []

/-- Makes a step, if the solution admits it. -/
def make? [BEq V] [Shown V] (step : Step S V) (s : S) :
    Except PlanError (Step S V) :=
  match step with
  | pillarChange x pillar _ =>
    match pillarFlaw x s pillar with
    | some flaw => .error (.structural flaw.message)
    | none => .ok step
  | pillarSwap x left right =>
    match pillarPairFlaw x s left right with
    | some flaw => .error (.structural flaw.message)
    | none => .ok step
  | segmentChange .. | segmentSwap .. | tailSwap .. =>
    match step.linkPlan s with
    | .error flaw => .error flaw.error
    | .ok _ => .ok step
  | change .. | swap .. | restore .. => .ok step

end Step

end PlanSearch

/-
Executing moves, and taking them back.

In a given state a step is at most one batch: entities to announce,
writes, and the writes that restore what was there. Executing a batch
announces every entity, writes, announces every entity again and hands
the restoring writes over. A step without a batch (a pillar swap with an
empty side, a chain rearrangement that does not fit the present chains
or changes nothing) does not touch the director at all.

The undo of a step is again a step, made from the state before it. The
undo of a sequence is found by replaying it on the side, each undo taken
in the state its move meets, and reversing.
-/
import PlanSearch.Move.Check
import PlanSearch.Director.Basic

namespace PlanSearch

/-- What a step comes to in one state. -/
structure Batch (S : Type) where
  descriptor : Nat
  name : String
  /-- The entities announced, in order. -/
  entities : List Nat
  write : S → S
  restore : S → S

/-- Announces, writes, announces and hands over the way back. -/
def Batch.run {D S Sc : Type} [Director D S Sc] (b : Batch S) : Act D Unit := do
  Director.beforeEach b.descriptor b.name b.entities
  Act.update (Director.edit b.write)
  Director.afterEach b.descriptor b.name b.entities
  Director.keepUndo b.restore

/-- The batch of value changes of a basic variable. -/
def BasicVariable.batch {S V : Type} (x : BasicVariable S V)
    (old new : List (Nat × Option V)) : Batch S :=
  ⟨x.descriptor, x.name, new.map Prod.fst, fun s => x.setAll s new,
    fun s => x.setAll s old⟩

/-- The batch of link changes in a solution; none if there is nothing to
write. -/
def ChainedVariable.batch? {S : Type} (x : ChainedVariable S) (s : S)
    (changes : LinkChanges) : Option (Batch S) :=
  if changes.isEmpty then none
  else
    let entities := changes.map Prod.fst
    let old := x.held s entities
    some ⟨x.descriptor, x.name, entities, fun s => x.setAll s changes,
      fun s => x.setAll s old⟩

namespace Step

variable {S V : Type}

/-- The links a chain step writes in a solution; none if it does not fit. -/
def linkChanges (step : Step S V) (s : S) : LinkChanges :=
  match step.linkPlan s with
  | .ok changes => changes
  | .error _ => []

/-- What a step comes to in a solution. -/
def batch? (step : Step S V) (s : S) : Option (Batch S) :=
  match step with
  | change x entity value =>
      some (x.batch (x.held s [entity]) [(entity, value)])
  | swap x left right =>
    some (x.batch (x.held s [left, right]) [(left, x.get s right),
      (right, x.get s left)])
  | pillarChange x pillar value =>
      some (x.batch (x.held s pillar) (pillar.map (·, value)))
  | pillarSwap x left right =>
    match left, right with
    | leftHead :: _, rightHead :: _ =>
      let leftValue := x.get s leftHead
      let rightValue := x.get s rightHead
      some (x.batch
        (left.map (·, leftValue) ++ right.map (·, rightValue))
        (left.map (·, rightValue) ++ right.map (·, leftValue)))
    | _, _ => none
  | segmentChange x _ _ _ | segmentSwap x _ _ _ | tailSwap
      x _ _ | restore x _ =>
    x.batch? s (step.linkChanges s)

/-- Executes a step on a director. -/
def run {D Sc : Type} [Director D S Sc] (step : Step S V) : Act D Unit := do
  match step.batch? (Director.working (← get)) with
  | none => return
  | some b => b.run

/-- The solution after a step. -/
def apply (step : Step S V) (s : S) : S :=
  match step.batch? s with
  | none => s
  | some b => b.write s

/-- The value that the entities of a pillar share. -/
def sharedValue [BEq V] (x : BasicVariable S V) (s : S) :
    List Nat → Option (Option V)
  | [] => none
  | head :: rest =>
    if rest.all fun e => x.get s e == x.get s head then some (x.get s head)
    else none

/-- Whether a step would change anything worth trying: a change or swap
of differing values, a pillar of one value that is to get another, a
chain step with links to write. -/
def isDoable [BEq V] (step : Step S V) (s : S) : Bool :=
  match step with
  | change x entity value => x.get s entity != value
  | swap x left right => left != right && x.get s left != x.get s right
  | pillarChange x pillar value =>
    match sharedValue x s pillar with
    | some shared => shared != value
    | none => false
  | pillarSwap x left right =>
    match sharedValue x s left, sharedValue x s right with
    | some leftValue, some rightValue => leftValue != rightValue
    | _, _ => false
  | restore x links => links.any fun l => x.get s l.1 != l.2
  | segmentChange .. | segmentSwap .. | tailSwap .. =>
      !(step.linkChanges s).isEmpty

/-- The step that takes this one back, made in the state before it. -/
def undo (step : Step S V) (s : S) : Step S V :=
  match step with
  | change x entity _ => change x entity (x.get s entity)
  | swap x left right => swap x left right
  | pillarChange x pillar _ =>
      pillarChange x pillar (pillar.head?.bind (x.get s))
  | pillarSwap x left right => pillarSwap x left right
  | segmentChange x _ _ _ | segmentSwap x _ _ _ | tailSwap
      x _ _ | restore x _ =>
    restore x (x.held s ((step.linkChanges s).map Prod.fst))

end Step

namespace Move

variable {S V : Type}

/-- Executes a move on a director, step by step. -/
def run {D Sc : Type} [Director D S Sc] (m : Move S V) : Act D Unit :=
  m.steps.forM Step.run

/-- The solution after a move. -/
def apply (m : Move S V) (s : S) : S :=
  m.steps.foldl (fun s step => step.apply s) s

/-- Whether any step of a move is doable. -/
def isDoable [BEq V] (m : Move S V) (s : S) : Bool :=
  m.steps.any fun step => step.isDoable s

mutual

/-- The move that takes this one back, made in the state before it. -/
def undo : Move S V → S → Move S V
  | step t, s => step (t.undo s)
  | composite moves, s => composite (undoAll moves s)

/-- The undos of a sequence, the last move's first. -/
def undoAll : List (Move S V) → S → List (Move S V)
  | [], _ => []
  | m :: rest, s => undoAll rest (m.apply s) ++ [undo m s]

end

end Move

end PlanSearch

/-
Scripts on what configurations refer to: the variables and factories of a
context, and the selectors that the phases of a solver get from it.
-/
import PlanSearch.Script.Selectors
import PlanSearch.Script.Solvers

namespace PlanSearch.Script

variable {S : Type}

-- ============================================================ phases

/-- What a selector says about itself, and the first moves of a pass. -/
def sampleOf (s : S) (take : Nat) (selector : Selector S Int) :
    Except Fault Document := do
  let info ← infoOf s selector
  let portion ← ((selector.firstMoves s take).run []).1
  let moves := Document.list (portion.moves.map moveDocument)
  match info with
  | .table entries =>
    return table (entries ++
      [("moves", if portion.stuck then .null else moves)])
  | info => return info

/-- The selectors of the phases of a solver. -/
def phasesAnswer (d : Document) : Read Document :=
  onStage d fun stage => do
    let context ← contextOf stage.world d
    let take ← getNatOr d "take" 10
    let config ← solverOf d
    match config.buildSelectors context 0 with
    | .error e => return errorDocument e.toPlanError
    | .ok selectors =>
        return .list (← lift (selectors.mapM (sampleOf stage.start take)))

-- ============================================================ contexts

/-- What is registered under a name: how many moves there are, and the weight
of the first child. -/
def foundAnswer (s : S) (registry : Registry S Int)
    (name : String) : Document :=
  table [("list", Document.option Document.nat
      ((Registry.find? name registry.lists).map fun f => (f.moves s).length)),
    ("iterator", Document.option Document.nat
      ((Registry.find? name registry.sources).map fun f => f.size s)),
    ("weight", Document.option Document.text
      ((Registry.find? name registry.weights).map fun f =>
        Decimal.plain (f s 0)))]

/-- What a context holds. -/
def lookupAnswer (d : Document) : Read Document :=
  onStage d fun stage => do
    let s := stage.start
    let context ← contextOf stage.world d
    let names ← (← getList d "names").mapM asText
    let basics := context.basics.map Prod.snd
    return table [("found", .list (names.map (foundAnswer s context.registry))),
      ("seed", Document.option Document.nat (context.seed.map UInt64.toNat)),
      ("registry", .text (shown context.registry)),
        ("context", .text (shown context)),
      ("basic", .list (basics.map fun x => .text (shown x))),
      ("chained", .list (context.chained.map fun x => .text (shown x))),
      ("values", .list (basics.map fun x => .list ((x.values s).map .int))),
      ("counts", nats (basics.map fun x => x.count s)),
      ("anchors", nats (context.chained.map fun x => x.anchors s))]

end PlanSearch.Script

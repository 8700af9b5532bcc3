/-
Scripts on random streams: draws from the passes of a seed.
-/
import PlanSearch.Random.Seed
import PlanSearch.Script.Answer

namespace PlanSearch.Script

/-- One draw from a stream. -/
def drawn (d : Document) (s : Stream) : Read (Document × Stream) := do
  match ← getText d "draw" with
  | "u32" =>
    let (w, s) := s.word
    return (.nat w.toNat, s)
  | "u64" =>
    let (w, s) := s.doubleWord
    return (.nat w.toNat, s)
  | "below" =>
    let (n, s) ← lift (s.below (← getNat d "n"))
    return (.nat n, s)
  | "between" =>
    let (n, s) ← lift (s.between (← getNat d "low") (← getNat d "high"))
    return (.nat n, s)
  | "half" =>
    let (b, s) := s.toss
    return (.bool b, s)
  | "float" =>
    let top ← asNumber (← getDocument d "n")
    if top.isAboveZero then
      let (x, s) := s.fraction top.toFloat
      return (.float (.ofFloat x), s)
    else .error (.fault Stream.emptyRange)
  | other => malformed other

/-- A draw repeated a number of times. -/
def drawnTimes (d : Document) : Nat → Stream → Read (List Document × Stream)
  | 0, s => .ok ([], s)
  | n + 1, s => do
    let (answer, s) ← drawn d s
    let (rest, s) ← drawnTimes d n s
    return (answer :: rest, s)

/-- The draws of one pass. -/
def passDraws : List Document → Stream → Read (List Document)
  | [], _ => .ok []
  | d :: rest, s => do
    let (answers, s) ← drawnTimes d (← getNatOr d "times" 1) s
    return answers ++ (← passDraws rest s)

def drawsAnswer (d : Document) : Read Document := do
  let seed := UInt64.ofNat (← getNat d "seed")
  let children ← getNatsOr d "children"
  let passes ← (← getList d "passes").mapM asList
  let head := table [("seed", .nat seed.toNat), ("clone", .nat seed.toNat),
    ("children", nats (children.map fun c => (Seed.ofChild seed c).toNat))]
  let draws ← passes.zipIdx.mapM fun (draws, pass) =>
    passDraws draws (Seed.stream seed pass)
  return .list (head :: draws.map .list)

end PlanSearch.Script

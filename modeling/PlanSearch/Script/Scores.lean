/-
Scripts on scores: a list of steps on one accumulator.
-/
import PlanSearch.Script.Answer

namespace PlanSearch.Script

def levelsDocument (levels : List Int64) : Document :=
  .list (levels.map fun n => .int n.toInt)

/-- A score in all its forms. -/
def scoreForms {shape : Shape} (a : Score shape) : Document :=
  let own := match shape with
    | .bendable _ _ =>
        .list [levelsDocument a.hardLevels, levelsDocument a.softLevels]
    | _ => levelsDocument a.levels
  table [("levels", levelsDocument a.levels), ("own", own),
    ("text", .text a.text), ("repr", .text a.text), ("debug", .text a.shown),
    ("feasible", .bool a.isFeasible)]

/-- A score given by its levels, or the accumulated one. -/
def asScore (shape : Shape) (acc : Score shape) : Document → Read (Score shape)
  | .text _ => .ok acc
  | d => do lift (Score.ofLevels shape (← (← asList d).mapM asLevel))

/-- The score a step makes, if it makes one. -/
def scoreMade (shape : Shape) (acc : Score shape) (step : Document) :
    String → Read (Option (Score shape))
  | "parse" => do
    match Score.parse shape (← getText step "text") with
    | .ok a => return some a
    | .error e =>
      .error (.answer (table [("error", .text "ScoreParseError"),
        ("message", .text e.message)]))
  | "levels" => some <$> operand "a"
  | "zero" | "default" | "const_zero" => .ok (some (Score.zero shape))
  | "min" | "const_min" => .ok (some (Score.least shape))
  | "add" => do return some (← lift ((← operand "a").add (← operand "b")))
  | "sub" => do return some (← lift ((← operand "a").sub (← operand "b")))
  | "neg" => do return some (← lift (← operand "a").neg)
  | "abs" => do return some (← lift (← operand "a").abs)
  | "mul" => do
    return some ((← operand "a").multiply
      (← asNumber (← getDocument step "by")))
  | "div" => do
    return some ((← operand "a").divide (← asNumber (← getDocument step "by")))
  | "of" | "of_hard" | "of_soft" => do
    let level (l : Level) : Read Int64 := do
      return (← getOption asLevel step l.word).getD 0
    return some (← lift (Score.ofLevels shape (← shape.levels.mapM level)))
  | _ => .ok none
where
  operand (key : String) : Read (Score shape) := do
    asScore shape acc (← getDocument step key)

/-- What a step asks about scores. -/
def scoreAsked (shape : Shape) (acc : Score shape) (step : Document) :
    String → Read Document
  | "cmp" => do
    let a ← operand "a"
    let b ← operand "b"
    return table [("cmp", orderDocument (compare a b)),
      ("partial", orderDocument (compare a b)), ("better", .bool (a.beats b)),
      ("worse", .bool (b.beats a)), ("equal", .bool (a == b)),
      ("max", scoreDocument (a.max b))]
  | "count" => .ok (.nat shape.size)
  | "label" => do
    return .text (← lift (shape.label (← getNat step "index"))).title
  | "level" => do
    let a ← operand "a"
    let levels := if (← getText step "kind") == "hard" then a.hardLevels
      else a.softLevels
    return .int (← lift (Score.levelAt levels (← getNat step "index"))).toInt
  | "sort" => do
    let items ← (← getList step "items").mapM (asScore shape acc)
    return .list ((items.mergeSort fun a b => !a.beats b).map scoreDocument)
  | other => malformed other
where
  operand (key : String) : Read (Score shape) := do
    asScore shape acc (← getDocument step key)

/-- Runs steps one after the other; a step that stops early leaves the
accumulator as it is. -/
def scoreSteps (shape : Shape) : Score shape → List Document →
    Read (List Document)
  | _, [] => .ok []
  | acc, step :: rest => do
    let act ← getText step "do"
    let attempt : Read (Document × Score shape) := do
      match ← scoreMade shape acc step act with
      | some a => return (scoreForms a, a)
      | none => return (← scoreAsked shape acc step act, acc)
    let (answer, acc) ← match attempt with
      | .error stop => do pure (← stopped stop, acc)
      | .ok result => pure result
    return answer :: (← scoreSteps shape acc rest)

def asShape (d : Document) : Read Shape := do
  match ← getText d "type" with
  | "hard_soft" => return .hardSoft
  | "hard_medium_soft" => return .hardMediumSoft
  | _ => return .bendable (← getNat d "hard") (← getNat d "soft")

def scoresAnswer (d : Document) : Read Document := do
  let shape ← asShape d
  return .list (← scoreSteps shape (Score.zero shape) (← getList d "steps"))

end PlanSearch.Script

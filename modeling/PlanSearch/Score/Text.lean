/-
Scores as text.

A score of fixed levels is written level by level, each number followed
by its word and the parts separated by slashes: `0hard/7soft`. A
bendable score brackets its hard and its soft levels: `[0/1]hard/[2]soft`.
Reading forgives white space around the text, around parts and around
bracketed numbers, and nothing else; it reports the first thing wrong.
-/
import PlanSearch.Score.Basic
import PlanSearch.Text.Blank

namespace PlanSearch

/-- Why a text is no score. -/
inductive ScoreTextError
  /-- The number of slash-separated parts is not the number of levels. -/
  | parts (name : String) (text : String) (expected : Nat)
  /-- A part does not end with its level's word. -/
  | ending (word : String) (part : String)
  /-- A level is no integer. -/
  | level (word : String) (digits : String) (cause : Text.IntegerError)
  /-- No hard part of a bendable score. -/
  | missingHard (text : String)
  /-- A part of a bendable score is not bracketed. -/
  | brackets (word : String) (part : String)
  /-- The wrong number of bracketed levels. -/
  | count (word : String) (expected got : Nat)
  deriving DecidableEq, Repr

def ScoreTextError.message (error : ScoreTextError) : String :=
  "cannot parse score: " ++ match error with
  | .parts name text expected =>
    "invalid " ++ name ++ " '" ++ text ++ "': expected " ++
      Text.ofNat expected ++
      " parts separated by '/'"
  | .ending word part =>
      word ++ " part '" ++ part ++ "' must end with '" ++ word ++ "'"
  | .level word digits cause =>
    "invalid " ++ word ++ " level '" ++ digits ++ "': " ++ cause.message
  | .missingHard text =>
      "invalid BendableScore '" ++ text ++ "': missing 'hard/'"
  | .brackets word part =>
      "'" ++ part ++ "' must look like '[..]" ++ word ++ "'"
  | .count word expected got =>
    "expected " ++ Text.ofNat expected ++ " " ++ word ++ " levels, got " ++
      Text.ofNat got

namespace Score

variable {shape : Shape}

-- ============================================================ writing

/-- The parts of fixed levels: number and word. -/
def partTexts (levels : List Level) (numbers : List Int64) : List String :=
  List.zipWith (fun level n => Text.ofLevel n ++ level.word) levels numbers

/-- Bracketed levels. -/
def bracketed (numbers : List Int64) (word : String) : String :=
  "[" ++ "/".intercalate (numbers.map Text.ofLevel) ++ "]" ++ word

/-- The text of a score. -/
def text (a : Score shape) : String :=
  match shape with
  | .bendable hard _ =>
    bracketed (a.levels.take hard) "hard" ++ "/" ++
      bracketed (a.levels.drop hard) "soft"
  | fixed => "/".intercalate (partTexts fixed.levels a.levels)

/-- The score shown with the name of its type. -/
def shown (a : Score shape) : String :=
  let numbers (ns : List Int64) := ns.map Text.ofLevel
  match shape with
  | .bendable hard _ =>
    Text.Shown.tuple "BendableScore"
      [Text.Shown.list (numbers (a.levels.take hard)),
        Text.Shown.list (numbers (a.levels.drop hard))]
  | fixed => Text.Shown.tuple fixed.name (numbers a.levels)

-- ============================================================ reading

/-- Cuts a text at every occurrence of a character. -/
def splitAt (mark : Char) : List Char → List (List Char)
  | [] => [[]]
  | c :: rest =>
    if c = mark then [] :: splitAt mark rest
    else match splitAt mark rest with
      | [] => [[c]]
      | piece :: more => (c :: piece) :: more

/-- The text before an ending, if it ends so. -/
def stripEnding (ending text : List Char) : Option (List Char) :=
  if ending.isSuffixOf text then some (text.take (text.length - ending.length))
  else none

/-- Reads one part of a fixed score: a number right before its word. -/
def readPart (word : String) (part : List Char) : Except ScoreTextError Int64 :=
  let part := Text.trim part
  match stripEnding word.toList part with
  | none => .error (.ending word (String.ofList part))
  | some digits =>
    match Text.readLevel digits with
    | .ok n => .ok n
    | .error cause => .error (.level word (String.ofList digits) cause)

/-- Reads one part after the other. -/
def readParts : List Level → List (List Char) →
    Except ScoreTextError (List Int64)
  | level :: levels, part :: parts => do
    let n ← readPart level.word part
    let rest ← readParts levels parts
    .ok (n :: rest)
  | _, _ => .ok []

/-- Reads a score of fixed levels. -/
def readFixed (shape : Shape) (text : List Char) :
    Except ScoreTextError (List Int64) :=
  let text := Text.trim text
  let parts := splitAt '/' text
  if parts.length = shape.levels.length then readParts shape.levels parts
  else .error (.parts shape.name (String.ofList text) shape.levels.length)

/-- Reads bracketed numbers, each trimmed. -/
def readNumbers (word : String) :
    List (List Char) → Except ScoreTextError (List Int64)
  | [] => .ok []
  | v :: rest =>
    match Text.readLevel (Text.trim v) with
    | .error cause => .error (.level word (String.ofList v) cause)
    | .ok n => do
      let ns ← readNumbers word rest
      .ok (n :: ns)

/-- What stands between the brackets of a part. -/
def insideBrackets (word : String) (part : List Char) : Option (List Char) :=
  match stripEnding word.toList part with
  | some ('[' :: rest) => stripEnding [']'] rest
  | _ => none

/-- Reads a bracketed part that must hold a given number of levels. -/
def readBracketed (word : String) (expected : Nat) (part : List Char) :
    Except ScoreTextError (List Int64) :=
  match insideBrackets word part with
  | none => .error (.brackets word (String.ofList part))
  | some inside => do
    let ns ← if (Text.trim inside).isEmpty then .ok []
      else readNumbers word (splitAt '/' inside)
    if ns.length = expected then .ok ns
    else .error (.count word expected ns.length)

/-- Cuts a text after the first `hard/`, the slash dropped. -/
def cutHard : List Char → Option (List Char × List Char)
  | 'h' :: 'a' :: 'r' :: 'd' :: '/' :: rest => some (['h', 'a', 'r', 'd'], rest)
  | [] => none
  | c :: rest => (cutHard rest).map fun (front, back) => (c :: front, back)

/-- Reads a bendable score. -/
def readBendable (hard soft : Nat) (text : List Char) :
    Except ScoreTextError (List Int64) :=
  let text := Text.trim text
  match cutHard text with
  | none => .error (.missingHard (String.ofList text))
  | some (front, back) => do
    let hs ← readBracketed "hard" hard front
    let ss ← readBracketed "soft" soft back
    .ok (hs ++ ss)

/-- The levels a text holds. -/
def readLevels : Shape → List Char → Except ScoreTextError (List Int64)
  | .bendable hard soft, text => readBendable hard soft text
  | fixed, text => readFixed fixed text

/-- Reads a score. -/
def parse (shape : Shape) (text : String) :
    Except ScoreTextError (Score shape) :=
  match readLevels shape text.toList with
  | .error e => .error e
  | .ok levels =>
    if h : levels.length = shape.levels.length then .ok ⟨levels, h⟩
    else .error (.parts shape.name text shape.levels.length)

end Score

end PlanSearch

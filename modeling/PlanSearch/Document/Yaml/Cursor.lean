/-
A place in a YAML text, and the scalars that can begin there.

Lines end at a line feed, a carriage return or both, and at three further
characters. Within a scalar a single line end stands for a blank, and of
several ones the first is dropped. Block scalars keep or fold their line
ends as their header says.
-/
import PlanSearch.Document.Scan

namespace PlanSearch.Yaml

/-- What is left of a text, with the place where it begins. -/
structure Cursor where
  rest : List Char
  line : Nat
  column : Nat
  index : Nat

def isBreak (c : Char) : Bool :=
  c == '\n' || c == '\r' || c == '\x85' || c == '\u2028' || c == '\u2029'

def isBlank (c : Char) : Bool := c == ' ' || c == '\t'

/-- Whether a character may stand in a text at all. -/
def isAllowed (c : Char) : Bool :=
  let n := c.toNat
  n == 9 || n == 10 || n == 13 || (32 ≤ n && n ≤ 126) || n == 0x85 ||
    (0xa0 ≤ n && n ≤ 0xfffd) || 0x10000 ≤ n

namespace Cursor

def start (text : List Char) : Cursor := ⟨text, 0, 0, 0⟩

def peek (c : Cursor) : Option Char := c.rest.head?

def peekAt (c : Cursor) (n : Nat) : Option Char := c.rest[n]?

/-- Whether the character after some others is a certain one. -/
def holds (c : Cursor) (ch : Char) (n : Nat) : Bool := c.peekAt n == some ch

/-- Whether a character satisfies a test. -/
def has (c : Cursor) (p : Char → Bool) (n : Nat) : Bool :=
  match c.peekAt n with
  | some ch => p ch
  | none => false

/-- Whether there is a blank, a line end or the end of the text. -/
def isOver (c : Cursor) (n : Nat) : Bool :=
  match c.peekAt n with
  | some ch => isBlank ch || isBreak ch
  | none => true

/-- Whether there is a line end or the end of the text. -/
def isLineOver (c : Cursor) : Bool :=
  match c.peek with
  | some ch => isBreak ch
  | none => true

/-- Past some characters of one line. -/
def skip (c : Cursor) (n : Nat) : Cursor :=
  ⟨c.rest.drop n, c.line, c.column + n, c.index + n⟩

/-- Past one line end, with the text it stands for. -/
def readLine (c : Cursor) : List Char × Cursor :=
  match c.rest with
  | '\r' :: '\n' :: rest => (['\n'], ⟨rest, c.line + 1, 0, c.index + 2⟩)
  | ch :: rest =>
    if isBreak ch then
      let stands := if ch == '\u2028' || ch == '\u2029' then ch else '\n'
      ([stands], ⟨rest, c.line + 1, 0, c.index + 1⟩)
    else ([], c)
  | [] => ([], c)

/-- Past the characters that satisfy a test, with these. -/
def readWhile (c : Cursor) (p : Char → Bool) : List Char × Cursor :=
  let taken := c.rest.takeWhile p
  (taken, c.skip taken.length)

/-- Past the rest of a line. -/
def skipToLineEnd (c : Cursor) : Cursor := (c.readWhile fun ch => !isBreak ch).2

/-- Whether a document marker stands at the beginning of a line. -/
def atMarker (c : Cursor) (mark : Char) : Bool :=
  c.column == 0 && c.holds mark 0 && c.holds mark 1 &&
    c.holds mark 2 && c.isOver 3

def atAnyMarker (c : Cursor) : Bool := c.atMarker '-' || c.atMarker '.'

end Cursor

/-- A scalar that was read, and where it ends. -/
abbrev Read := Option (String × Cursor)

-- ============================================================ folding

/-- Blanks and line ends between the words of a scalar. -/
structure Gap where
  /-- Blanks on the first line, as long as there is no line end. -/
  blanks : List Char
  /-- The first line end. -/
  first : List Char
  /-- The line ends after it. -/
  others : List Char
  /-- Whether a line has ended. -/
  broken : Bool

namespace Gap

def none : Gap := ⟨[], [], [], false⟩

/-- What a gap stands for. -/
def text (g : Gap) : List Char :=
  if g.broken then
    if g.first = ['\n'] then (if g.others.isEmpty then [' '] else g.others)
    else g.first ++ g.others
  else g.blanks

end Gap

/-- Reads a gap. Where an indentation is given, no tab may stand before it
on a new line. -/
def readGap (indent : Option Nat) : Nat → Gap → Cursor → Option (Gap × Cursor)
  | 0, _, _ => none
  | fuel + 1, g, c =>
    match c.peek with
    | some ch =>
      if isBlank ch then
        let misplaced := match indent with
          | some n => g.broken && c.column < n && ch == '\t'
          | none => false
        if misplaced then none
        else if g.broken then readGap indent fuel g (c.skip 1)
        else
          readGap indent fuel { g with blanks := g.blanks ++ [ch] } (c.skip 1)
      else if isBreak ch then
        let (stands, c) := c.readLine
        if g.broken then
          readGap indent fuel { g with others := g.others ++ stands } c
        else readGap indent fuel ⟨[], stands, [], true⟩ c
      else some (g, c)
    | none => some (g, c)

-- ============================================================ plain scalars

/-- Whether a character ends a scalar inside brackets. -/
def isFlowMark (ch : Char) : Bool :=
  ch == ',' || ch == '[' || ch == ']' || ch == '{' || ch == '}'

/-- The characters of a plain scalar up to a gap, reversed onto `done`. -/
def plainWord (flow : Bool) :
    Nat → List Char → Cursor → Option (List Char × Cursor)
  | 0, _, _ => none
  | fuel + 1, done, c =>
    match c.peek with
    | some ch =>
      if isBlank ch || isBreak ch then some (done, c)
      else if flow && ch == ':' &&
        c.has (fun n => isFlowMark n || n == '?') 1 then none
      else if (ch == ':' && c.isOver 1) || (flow && isFlowMark ch) then
        some (done, c)
      else plainWord flow fuel (ch :: done) (c.skip 1)
    | none => some (done, c)

/-- A plain scalar, and whether a line has ended after it. `done` holds the
text so far, reversed, and `gap` what stands before the next word. -/
def plainScalar (flow : Bool) (indent : Nat) :
    Nat → List Char → Gap → Cursor → Option ((String × Bool) × Cursor)
  | 0, _, _, _ => none
  | fuel + 1, done, gap, c =>
    if c.atAnyMarker || c.holds '#' 0 then
      some ((String.ofList done.reverse, gap.broken), c)
    else
      match plainWord flow (c.rest.length + 1) [] c with
      | none => none
      | some (word, after) =>
        let (done, gap) := if word.isEmpty then (done, gap)
          else (word ++ gap.text.reverse ++ done, Gap.none)
        if !(after.has (fun ch => isBlank ch || isBreak ch) 0) then
          some ((String.ofList done.reverse, gap.broken), after)
        else
          match readGap (some indent) (after.rest.length + 1) gap after with
          | none => none
          | some (gap, c) =>
            if !flow && c.column < indent then
              some ((String.ofList done.reverse, gap.broken), c)
            else plainScalar flow indent fuel done gap c

-- ============================================================ quoted scalars

/-- The character of an escape that is one character. -/
def simpleEscape : Char → Option Char
  | '0' => some '\x00'
  | 'a' => some '\x07'
  | 'b' => some '\x08'
  | 't' => some '\t'
  | '\t' => some '\t'
  | 'n' => some '\n'
  | 'v' => some '\x0b'
  | 'f' => some '\x0c'
  | 'r' => some '\r'
  | 'e' => some '\x1b'
  | ' ' => some ' '
  | '"' => some '"'
  | '/' => some '/'
  | '\\' => some '\\'
  | 'N' => some '\x85'
  | '_' => some '\xa0'
  | 'L' => some '\u2028'
  | 'P' => some '\u2029'
  | _ => none

/-- The character of an escape, after the backslash. -/
def escape (c : Cursor) : Option (Char × Cursor) :=
  match c.peek with
  | none => none
  | some ch =>
    let digits :=
      if ch == 'x' then 2 else if ch == 'u' then 4
      else if ch == 'U' then 8 else 0
    if digits = 0 then (simpleEscape ch).map fun e => (e, c.skip 1)
    else (Scan.codePoint digits (c.rest.drop 1)).map fun (e, _) =>
      (e, c.skip (1 + digits))

/-- The characters of a quoted scalar up to a gap or the closing quote,
reversed onto `done`. Also says whether an escaped line end was passed. -/
def quotedWord (single : Bool) :
    Nat → List Char → Cursor → Option ((List Char × Bool) × Cursor)
  | 0, _, _ => none
  | fuel + 1, done, c =>
    match c.peek with
    | none => some ((done, false), c)
    | some ch =>
      if isBlank ch || isBreak ch then some ((done, false), c)
      else if single && ch == '\'' && c.holds '\'' 1 then
        quotedWord single fuel ('\'' :: done) (c.skip 2)
      else if ch == (if single then '\'' else '"') then some ((done, false), c)
      else if !single && ch == '\\' then
        if c.has isBreak 1 then some ((done, true), (c.skip 1).readLine.2)
        else match escape (c.skip 1) with
          | some (e, c) => quotedWord single fuel (e :: done) c
          | none => none
      else quotedWord single fuel (ch :: done) (c.skip 1)

/-- The rest of a quoted scalar; `done` is reversed. -/
def quotedScalar (single : Bool) : Nat → List Char → Cursor → Read
  | 0, _, _ => none
  | fuel + 1, done, c =>
    if c.atAnyMarker || c.peek.isNone then none
    else
      match quotedWord single (c.rest.length + 1) done c with
      | none => none
      | some ((done, escaped), c) =>
        if c.holds (if single then '\'' else '"') 0 then
          some (String.ofList done.reverse, c.skip 1)
        else
          match readGap none (c.rest.length + 1)
              { Gap.none with broken := escaped } c with
          | none => none
          | some (gap, c) =>
              quotedScalar single fuel (gap.text.reverse ++ done) c

-- ============================================================ block scalars

/-- What becomes of the line ends after a block scalar. -/
inductive Chomping
  | strip
  | clip
  | keep
  deriving DecidableEq

def chomping? (ch : Char) : Option Chomping :=
  if ch == '+' then some .keep else if ch == '-' then some .strip else none

/-- The indentation that a digit asks for. -/
def increment? (ch : Char) : Option Nat :=
  if '1' ≤ ch ∧ ch ≤ '9' then some (ch.toNat - 48) else none

/-- The header of a block scalar: chomping and indentation in either order. -/
def blockHeader (c : Cursor) : (Chomping × Option Nat) × Cursor :=
  match c.peek.bind chomping? with
  | some chomping =>
    match (c.peekAt 1).bind increment? with
    | some n => ((chomping, some n), c.skip 2)
    | none => ((chomping, none), c.skip 1)
  | none =>
    match c.peek.bind increment? with
    | some n =>
      match (c.peekAt 1).bind chomping? with
      | some chomping => ((chomping, some n), c.skip 2)
      | none => ((.clip, some n), c.skip 1)
    | none => ((.clip, none), c)

/-- Passes indentation and empty lines. Answers the line ends, reversed,
and the deepest indentation met. -/
def blockBreaks (indent : Option Nat) :
    Nat → Nat → List Char → Cursor → Option ((List Char × Nat) × Cursor)
  | 0, _, _, _ => none
  | fuel + 1, deepest, breaks, c =>
    let isIndented := match indent with
      | some n => decide (c.column < n)
      | none => true
    if isIndented && c.holds ' ' 0 then
      blockBreaks indent fuel deepest breaks (c.skip 1)
    else
      let deepest := max deepest c.column
      if isIndented && c.holds '\t' 0 then none
      else if c.has isBreak 0 then
        let (stands, c) := c.readLine
        blockBreaks indent fuel deepest (stands.reverse ++ breaks) c
      else some ((breaks, deepest), c)

/-- The lines of a block scalar. `done` and `breaks` are reversed. -/
def blockLines (literal : Bool) (chomping : Chomping) (indent : Nat) :
    Nat → List Char → List Char → List Char → Bool → Cursor → Read
  | 0, _, _, _, _, _ => none
  | fuel + 1, done, lead, breaks, leadBlank, c =>
    if c.column = indent ∧ c.peek.isSome then
      let blank := c.has isBlank 0
      let joined := if !literal && lead == ['\n'] && !leadBlank && !blank then
          (if breaks.isEmpty then ' ' :: done else done)
        else lead ++ done
      let (body, c) := c.readWhile fun ch => !isBreak ch
      let (lead, c) := c.readLine
      match blockBreaks (some indent) (c.rest.length + 1) 0 [] c with
      | none => none
      | some ((next, _), c) =>
        blockLines literal chomping indent fuel (body.reverse ++
          (breaks ++ joined)) lead next
          blank c
    else
      let done := if chomping = .strip then done else lead ++ done
      let done := if chomping = .keep then breaks ++ done else done
      some (String.ofList done.reverse, c)

/-- A block scalar after its mark, inside a block of some indentation. -/
def blockScalar (literal : Bool) (parent : Int) (c : Cursor) : Read :=
  let ((chomping, increment), c) := blockHeader c
  let c := (c.readWhile isBlank).2
  let c := if c.holds '#' 0 then c.skipToLineEnd else c
  if !c.isLineOver then none
  else
    let c := c.readLine.2
    let given := increment.map fun n =>
      if parent < 0 then n else parent.toNat + n
    match blockBreaks given (c.rest.length + 1) 0 [] c with
    | none => none
    | some ((breaks, deepest), c) =>
      let indent := given.getD (max deepest (max (parent + 1).toNat 1))
      blockLines literal chomping indent (c.rest.length + 1) []
        [] breaks false c

end PlanSearch.Yaml

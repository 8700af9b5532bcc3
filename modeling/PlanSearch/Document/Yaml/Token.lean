/-
The tokens of a YAML text.

Most tokens are marks and scalars as they stand. Blocks have no marks:
they open where an entry is indented deeper than what is around it and
close where the indentation falls back, and these ends are tokens too.
That something was a key is known only when its colon is met, so the
tokens of a key are inserted before it afterwards. A key is on one line
and no longer than 1024 characters; at the indentation of a block, what
could be a key must be one.
-/
import PlanSearch.Document.Yaml.Cursor

namespace PlanSearch.Yaml

inductive Token
  | streamEnd
  | version (major minor : Nat)
  | tagHandle (handle stem : String)
  | documentStart
  | documentEnd
  | blockList
  | blockTable
  | blockEnd
  | listOpen
  | listClose
  | tableOpen
  | tableClose
  | blockEntry
  | comma
  | key
  | value
  | alias (name : String)
  | anchor (name : String)
  | tag (handle suffix : String)
  | scalar (text : String) (plain : Bool)
  deriving DecidableEq, Repr

/-- A place where a key may have begun. -/
structure KeyPlace where
  possible : Bool
  /-- Whether it must turn out to be a key. -/
  needed : Bool
  /-- The number of tokens before it. -/
  token : Nat
  line : Nat
  column : Nat
  index : Nat

namespace KeyPlace

def none : KeyPlace := ⟨false, false, 0, 0, 0, 0⟩

end KeyPlace

/-- The state between two tokens. -/
structure Scanner where
  cursor : Cursor
  tokens : Array Token
  /-- The indentation of the innermost block; below zero outside all blocks. -/
  indent : Int
  /-- The indentations around it, the innermost first. -/
  around : List Int
  /-- A place for each open bracket, and one for the blocks, the innermost
  first. -/
  places : List KeyPlace
  /-- Whether a key may begin here. -/
  keyAllowed : Bool

namespace Scanner

def start (text : List Char) : Scanner :=
  ⟨.start text, #[], -1, [], [KeyPlace.none], true⟩

/-- Whether some bracket is open. -/
def inFlow (s : Scanner) : Bool := s.places.length > 1

def place (s : Scanner) : KeyPlace := s.places.headD KeyPlace.none

def setPlace (s : Scanner) (p : KeyPlace) : Scanner :=
  { s with places := p :: s.places.drop 1 }

def push (s : Scanner) (t : Token) : Scanner :=
  { s with tokens := s.tokens.push t }

/-- Inserts a token before others. -/
def insert (s : Scanner) (at_ : Nat) (t : Token) : Scanner :=
  { s with tokens := (s.tokens.extract 0 at_).push t ++
    s.tokens.extract at_ s.tokens.size }

-- ============================================================ keys

/-- Gives up the place of a key. -/
def dropPlace (s : Scanner) : Option Scanner :=
  let p := s.place
  if p.possible && p.needed then none
  else some (s.setPlace { p with possible := false })

/-- Remembers that a key may begin here. -/
def savePlace (s : Scanner) : Option Scanner := do
  if s.keyAllowed then
    let c := s.cursor
    let s ← s.dropPlace
    return s.setPlace ⟨true, !s.inFlow && s.indent == (c.column : Int),
      s.tokens.size, c.line, c.column, c.index⟩
  else return s

/-- Gives up places that are too far back. -/
def expire (c : Cursor) : List KeyPlace → Option (List KeyPlace)
  | [] => some []
  | p :: rest => do
    let rest ← expire c rest
    if p.possible && (p.line < c.line || p.index + 1024 < c.index) then
      if p.needed then none else return { p with possible := false } :: rest
    else return p :: rest

-- ============================================================ blocks

/-- Opens a block here, if the column is deeper than the block around. -/
def openBlock (s : Scanner) (column : Nat) (at_ : Option Nat)
    (t : Token) : Scanner :=
  if s.inFlow || !(s.indent < (column : Int)) then s
  else
    let s := { s with around := s.indent :: s.around, indent := column }
    match at_ with
    | some n => s.insert n t
    | none => s.push t

/-- Closes the blocks deeper than a column. -/
def closeBlocks (column : Int) : List Int → Scanner → Scanner
  | [], s => s
  | outer :: around, s =>
    if column < s.indent then
      closeBlocks column around { s.push .blockEnd with
        indent := outer, around := around }
    else s

def unroll (s : Scanner) (column : Int) : Scanner :=
  if s.inFlow then s else closeBlocks column s.around s

-- ============================================================ between tokens

/-- Passes blanks, comments and line ends. Outside brackets a tab is no
blank where a key may begin. -/
def passBlanks : Nat → Scanner → Scanner
  | 0, s => s
  | fuel + 1, s =>
    let c := s.cursor
    let c := if c.index == 0 && c.holds '\ufeff' 0 then c.skip 1 else c
    let isTab := s.inFlow || !s.keyAllowed
    let c := (c.readWhile fun ch => ch == ' ' || (isTab && ch == '\t')).2
    let c := if c.holds '#' 0 then c.skipToLineEnd else c
    if c.has isBreak 0 then
      passBlanks fuel { s with
        cursor := c.readLine.2, keyAllowed := s.keyAllowed || !s.inFlow }
    else { s with cursor := c }

-- ============================================================ tokens

/-- A mark of some characters. -/
def mark (s : Scanner) (length : Nat) (t : Token) : Scanner :=
  { s.push t with cursor := s.cursor.skip length }

def isNameChar (c : Char) : Bool := c.isAlphanum || c == '_' || c == '-'

/-- The name of an anchor, after its mark. -/
def anchorName (c : Cursor) : Read :=
  let (name, c) := c.readWhile isNameChar
  let ends := c.isOver 0 || c.has (fun ch => "?:,]\x7d%@`".toList.contains ch) 0
  if name.isEmpty || !ends then none else some (String.ofList name, c)

/-- Whether a character may stand in a tag. -/
def isTagChar (verbatim : Bool) (c : Char) : Bool :=
  isNameChar c || ";/?:@&=+$.%!~*'()".toList.contains c ||
    (verbatim && ",[]".toList.contains c)

/-- A tag, from its mark on: its handle and its suffix. -/
def tagOf (flow : Bool) (c : Cursor) : Option ((String × String) × Cursor) := do
  let (tag, c) ←
    if c.holds '<' 1 then
      let (uri, c) := (c.skip 2).readWhile (isTagChar true)
      if uri.isEmpty || !c.holds '>' 0 then none
      else some (("", String.ofList uri), c.skip 1)
    else
      let (name, after) := (c.skip 1).readWhile isNameChar
      if after.holds '!' 0 then
        let (suffix, c) := (after.skip 1).readWhile (isTagChar false)
        if suffix.isEmpty then none
        else some ((String.ofList ('!' :: name ++ ['!']),
          String.ofList suffix), c)
      else
        let (more, c) := after.readWhile (isTagChar false)
        let suffix := String.ofList (name ++ more)
        some (if suffix.isEmpty then ("", "!") else ("!", suffix), c)
  if c.isOver 0 || (flow && c.holds ',' 0) then return (tag, c) else none

/-- A number of at most nine digits. -/
def versionPart (c : Cursor) : Option (Nat × Cursor) :=
  let (ds, c) := c.readWhile Json.isDigit
  if ds.isEmpty || ds.length > 9 then none else some (Json.digitsValue ds, c)

/-- A directive, after its mark. Only versions and handles of tags are known. -/
def directive (c : Cursor) : Option (Token × Cursor) := do
  let (name, c) := c.readWhile isNameChar
  let (t, c) ← match String.ofList name with
    | "YAML" => do
      let (major, c) ← versionPart (c.readWhile isBlank).2
      if !c.holds '.' 0 then none
      else
        let (minor, c) ← versionPart (c.skip 1)
        pure (Token.version major minor, c)
    | "TAG" => do
      let (handle, c) :=
        (c.readWhile isBlank).2.readWhile fun ch => isNameChar ch || ch == '!'
      let (blanks, c) := c.readWhile isBlank
      let (stem, c) := c.readWhile (isTagChar true)
      let isHandle := handle.head? == some '!' && handle.getLast? == some '!'
      if !isHandle || blanks.isEmpty || stem.isEmpty || !c.isOver 0 then none
      else pure (Token.tagHandle (String.ofList handle) (String.ofList stem), c)
    | _ => none
  let c := (c.readWhile isBlank).2
  let c := if c.holds '#' 0 then c.skipToLineEnd else c
  if !c.isLineOver then none else return (t, c.readLine.2)

/-- A document marker or a directive ends all blocks. -/
def betweenDocuments (s : Scanner) : Option Scanner := do
  let s ← (s.unroll (-1)).dropPlace
  return { s with keyAllowed := false }

/-- An opening bracket. -/
def openFlow (s : Scanner) (t : Token) : Option Scanner := do
  let s ← s.savePlace
  return { s.mark 1 t with
    places := KeyPlace.none :: s.places, keyAllowed := true }

/-- A closing bracket. -/
def closeFlow (s : Scanner) (t : Token) : Option Scanner := do
  let s ← s.dropPlace
  let places := if s.inFlow then s.places.drop 1 else s.places
  return { s.mark 1 t with places := places, keyAllowed := false }

def blockEntry (s : Scanner) : Option Scanner := do
  if !s.inFlow && !s.keyAllowed then none
  else
    let s ← (s.openBlock s.cursor.column none .blockList).dropPlace
    return { s.mark 1 .blockEntry with keyAllowed := true }

/-- The mark of a key. -/
def keyMark (s : Scanner) : Option Scanner := do
  if !s.inFlow && !s.keyAllowed then none
  else
    let s ← (s.openBlock s.cursor.column none .blockTable).dropPlace
    return { s.mark 1 .key with keyAllowed := !s.inFlow }

/-- The mark of a value; it tells where its key began. -/
def valueMark (s : Scanner) : Option Scanner := do
  let p := s.place
  if p.possible then
    let s := s.insert p.token .key
    let s := s.openBlock p.column (some p.token) .blockTable
    let s := s.setPlace { p with possible := false }
    return { s.mark 1 .value with keyAllowed := false }
  else if !s.inFlow && !s.keyAllowed then none
  else
    let s := s.openBlock s.cursor.column none .blockTable
    return { s.mark 1 .value with keyAllowed := !s.inFlow }

/-- A token that may begin a key. -/
def keyed (s : Scanner) (read : Scanner → Option (Token × Cursor)) :
    Option Scanner := do
  let s ← s.savePlace
  let (t, c) ← read s
  return { s.push t with cursor := c, keyAllowed := false }

def blockText (s : Scanner) (literal : Bool) : Option Scanner := do
  let s ← s.dropPlace
  let (text, c) ← blockScalar literal s.indent (s.cursor.skip 1)
  return { s.push (.scalar text false) with cursor := c, keyAllowed := true }

def plainText (s : Scanner) : Option Scanner := do
  let s ← s.savePlace
  let ((text, broken), c) ← plainScalar s.inFlow (s.indent + 1).toNat
    (s.cursor.rest.length + 1) [] Gap.none s.cursor
  return { s.push (.scalar text true) with cursor := c, keyAllowed := broken }

/-- Whether a plain scalar can begin here. -/
def isPlainStart (s : Scanner) (ch : Char) : Bool :=
  let c := s.cursor
  !(isBlank ch || isBreak ch ||
    "-?:,[]\x7b\x7d#&*!|>'\"%@`".toList.contains ch) ||
    (ch == '-' && !c.has isBlank 1) ||
    (!s.inFlow && (ch == '?' || ch == ':') && !c.isOver 1)

/-- The next token that begins with a character. -/
def fetch (s : Scanner) (ch : Char) : Option Scanner :=
  let c := s.cursor
  if c.column == 0 && ch == '%' then do
    let s ← s.betweenDocuments
    let (t, c) ← directive (s.cursor.skip 1)
    return { s.push t with cursor := c }
  else if c.atMarker '-' then do
    return (← s.betweenDocuments).mark 3 .documentStart
  else if c.atMarker '.' then do
    return (← s.betweenDocuments).mark 3 .documentEnd
  else if ch == '[' then s.openFlow .listOpen
  else if ch == '{' then s.openFlow .tableOpen
  else if ch == ']' then s.closeFlow .listClose
  else if ch == '}' then s.closeFlow .tableClose
  else if ch == ',' then do
    return { (← s.dropPlace).mark 1 .comma with keyAllowed := true }
  else if ch == '-' && c.isOver 1 then s.blockEntry
  else if ch == '?' && (s.inFlow || c.isOver 1) then s.keyMark
  else if ch == ':' && (s.inFlow || c.isOver 1) then s.valueMark
  else if ch == '*' then s.keyed fun s =>
    (anchorName (s.cursor.skip 1)).map fun (name, c) => (.alias name, c)
  else if ch == '&' then s.keyed fun s =>
    (anchorName (s.cursor.skip 1)).map fun (name, c) => (.anchor name, c)
  else if ch == '!' then s.keyed fun s =>
    (tagOf s.inFlow s.cursor).map fun (t, c) => (.tag t.1 t.2, c)
  else if ch == '|' && !s.inFlow then s.blockText true
  else if ch == '>' && !s.inFlow then s.blockText false
  else if ch == '\'' || ch == '"' then s.keyed fun s =>
    (quotedScalar (ch == '\'') (s.cursor.rest.length + 1) []
      (s.cursor.skip 1)).map
      fun (text, c) => (.scalar text false, c)
  else if s.isPlainStart ch then s.plainText
  else none

/-- Reads token after token. -/
def run : Nat → Scanner → Option (Array Token)
  | 0, _ => none
  | fuel + 1, s => do
    let s := passBlanks (s.cursor.rest.length + 1) s
    let places ← expire s.cursor s.places
    let s := { s with places := places }
    let s := s.unroll s.cursor.column
    match s.cursor.peek with
    | none =>
      let s ← (s.unroll (-1)).dropPlace
      return s.tokens.push .streamEnd
    | some ch => run fuel (← s.fetch ch)

end Scanner

/-- The tokens of a text. -/
def tokens? (text : List Char) : Option (Array Token) :=
  if text.all isAllowed then Scanner.run (text.length + 2) (.start text)
  else none

end PlanSearch.Yaml

/-
Documents written as TOML.

A line opens a table, opens one more table of a list, or gives a value to
a key of the table opened last. No key gets a value twice. Lists may go
over several lines, tables in braces may not.
-/
import PlanSearch.Document.Toml.Scalar
import PlanSearch.Document.Toml.Tree

namespace PlanSearch.Toml

-- ============================================================ lines

/-- The rest after blanks and a comment. -/
def skipComment (s : List Char) : List Char :=
  match skipBlank s with
  | '#' :: rest => rest.dropWhile isPrintable
  | s => s

/-- The rest after the end of a line with nothing more to say. -/
def lineEnd? (s : List Char) : Option (List Char) :=
  match skipComment s with
  | [] => some []
  | s => newline? s

/-- The rest after blanks, comments and line ends. -/
def skipFill : Nat → List Char → List Char
  | 0, s => s
  | fuel + 1, s =>
    let s := skipComment s
    match newline? s with
    | some rest => skipFill fuel rest
    | none => s

-- ============================================================ keys

/-- A key without quotes has letters, digits, underscores and dashes. -/
def isKeyChar (c : Char) : Bool := c.isAlphanum || c == '_' || c == '-'

/-- One key. -/
def simpleKey (s : List Char) : Option (String × List Char) :=
  match s with
  | '"' :: _ => shortText s
  | '\'' :: _ => shortText s
  | s =>
    let (key, rest) := Scan.while_ isKeyChar s
    if key.isEmpty then none else some (String.ofList key, rest)

/-- The deepest nesting of values, and the longest dotted key. -/
def deepest : Nat := 79

/-- Keys with dots between them: those before the last one, and the last one. -/
def dottedKey : Nat → Scan (List String × String)
  | 0, _ => none
  | fuel + 1, s => do
    let (key, rest) ← simpleKey (skipBlank s)
    match skipBlank rest with
    | '.' :: more =>
      let ((keys, last), rest) ← dottedKey fuel more
      return ((key :: keys, last), rest)
    | rest => return (([], key), rest)

-- ============================================================ values

mutual

/-- A value. The depth is how far values may still nest. -/
def value (depth : Nat) : Nat → Scan Document
  | 0, _ => none
  | fuel + 1, s =>
    match s with
    | '[' :: rest =>
      match depth with
      | 0 => none
      | depth + 1 => listItems depth fuel [] rest
    | '{' :: rest =>
      match depth with
      | 0 => none
      | depth + 1 =>
        match skipBlank rest with
        | '}' :: rest => some (.table [], rest)
        | rest => tableEntries depth fuel [] rest
    | s => scalar s

/-- The items of a list up to its bracket; those before are reversed. -/
def listItems (depth : Nat) : Nat → List Document → Scan Document
  | 0, _, _ => none
  | fuel + 1, done, s =>
    match skipFill s.length s with
    | ']' :: rest => some (.list done.reverse, rest)
    | s =>
      match value depth fuel s with
      | none => none
      | some (d, rest) =>
        match skipFill rest.length rest with
        | ',' :: rest => listItems depth fuel (d :: done) rest
        | ']' :: rest => some (.list (d :: done).reverse, rest)
        | _ => none

/-- The entries of a table in braces. -/
def tableEntries (depth : Nat) : Nat → Entries → Scan Document
  | 0, _, _ => none
  | fuel + 1, entries, s =>
    match dottedKey deepest s with
    | some ((path, key), '=' :: rest) =>
      match value depth fuel (skipBlank rest) with
      | none => none
      | some (d, rest) =>
        match entries.add key d path with
        | none => none
        | some entries =>
          match skipBlank rest with
          | ',' :: rest => tableEntries depth fuel entries rest
          | '}' :: rest => some (.table (entriesOf entries), rest)
          | _ => none
    | _ => none

end

-- ============================================================ documents

/-- A document under way: all entries, and the path of the table opened last. -/
structure Progress where
  entries : Entries
  path : List String

/-- The header of a table or of one more table of a list, after its brackets. -/
def header (isItem : Bool) (p : Progress) (s : List Char) :
    Option (Progress × List Char) := do
  let ((path, key), rest) ← dottedKey deepest s
  let rest ← Scan.after? (if isItem then [']', ']'] else [']']) rest
  let rest ← lineEnd? rest
  let change := if isItem then Entries.openItem key else Entries.openTable key
  let entries ← p.entries.under change path
  return (⟨entries, path ++ [key]⟩, rest)

/-- A line that gives a value to a key. -/
def keyLine (p : Progress) (s : List Char) : Option (Progress × List Char) := do
  let ((path, key), rest) ← dottedKey deepest s
  let rest ← expect '=' rest
  let (d, rest) ← value deepest (rest.length + 1) (skipBlank rest)
  let rest ← lineEnd? rest
  let entries ← p.entries.under (fun inner => inner.add key d path) p.path
  return (⟨entries, p.path⟩, rest)

/-- Reads line after line. -/
def lines : Nat → Progress → List Char → Option Progress
  | 0, _, _ => none
  | fuel + 1, p, s =>
    match skipBlank s with
    | [] => some p
    | '[' :: '[' :: rest => do
      let (p, rest) ← header true p rest
      lines fuel p rest
    | '[' :: rest => do
      let (p, rest) ← header false p rest
      lines fuel p rest
    | s =>
      match lineEnd? s with
      | some rest => lines fuel p rest
      | none => do
        let (p, rest) ← keyLine p s
        lines fuel p rest

/-- Reads a whole text as one table. A mark of the byte order at its front
is skipped. -/
def read (text : String) : Option Document :=
  let s := match text.toList with
    | '\ufeff' :: rest => rest
    | s => s
  (lines (s.length + 1) ⟨[], []⟩ s).map fun p => .table (entriesOf p.entries)

end PlanSearch.Toml

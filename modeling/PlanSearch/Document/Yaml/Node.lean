/-
The nodes that the tokens of a YAML text describe.

A node is a scalar, a list or a table, in the form of a block or in
brackets. Where the place of a node is left empty, an empty plain scalar
stands. A name given to a node by an anchor can stand for it later on. It
can also stand there inside the node itself, but nothing can be made of that.
-/
import PlanSearch.Document.Yaml.Token

namespace PlanSearch.Yaml

inductive Node
  | scalar (text : String) (plain : Bool) (tag : Option String)
  | list (items : List Node) (tag : Option String)
  | table (entries : List (Node × Node)) (tag : Option String)
  /-- A node that stands for one it is part of. -/
  | within

namespace Node

/-- What stands where nothing is written. -/
def empty : Node := .scalar "" true none

/-- The state of a description that is being read. -/
structure Context where
  tokens : List Token
  anchors : List (String × Node)
  /-- What the handles of tags stand for. -/
  handles : List (String × String)

abbrev Parse := StateT Context Option

/-- The next token, which stays. -/
def peek : Parse Token := do
  match (← get).tokens with
  | t :: _ => return t
  | [] => return .streamEnd

/-- Past the next token. -/
def advance : Parse Unit := modify fun x => { x with tokens := x.tokens.drop 1 }

def fail {α : Type} : Parse α := StateT.lift none

/-- Past a token that must come now. -/
def expect (t : Token) : Parse Unit := do
  if (← peek) = t then advance else fail

/-- The tag of a handle and a suffix. -/
def resolveTag (handle suffix : String) : Parse String := do
  if handle.isEmpty then return suffix
  else
    match (← get).handles.find? fun h => h.1 == handle with
    | some h => return h.2 ++ suffix
    | none =>
      if handle == "!" then return "!" ++ suffix
      else if handle == "!!" then return "tag:yaml.org,2002:" ++ suffix
      else fail

/-- The anchor and the tag of a node, each at most once. -/
def properties : Parse (Option String × Option String) := do
  match ← peek with
  | .anchor name =>
    advance
    match ← peek with
    | .tag handle suffix =>
      advance
      return (some name, some (← resolveTag handle suffix))
    | _ => return (some name, none)
  | .tag handle suffix =>
    advance
    let tag ← resolveTag handle suffix
    match ← peek with
    | .anchor name =>
      advance
      return (some name, some tag)
    | _ => return (none, some tag)
  | _ => return (none, none)

/-- Whether a token ends the place of a node in a block. -/
def endsEntry (t : Token) : Bool := t = .blockEntry || t = .blockEnd

def endsListEntry (t : Token) : Bool :=
  t = .blockEntry || t = .key || t = .value || t = .blockEnd

def endsTableEntry (t : Token) : Bool := t = .key || t = .value || t = .blockEnd

/-- Reads a node and keeps it under the name of its anchor, which is known
from the start of the node on. -/
def anchored (name : Option String) (read : Parse Node) : Parse Node := do
  match name with
  | none => read
  | some name =>
    let before := (← get).anchors.length
    modify fun x => { x with anchors := (name, .within) :: x.anchors }
    let n ← read
    modify fun x => { x with
      anchors := x.anchors.set (x.anchors.length - 1 - before) (name, n) }
    return n

mutual

/-- A node. Within a table of a block, the entries of a list may stand
without being indented. -/
def parse (block indentless : Bool) : Nat → Parse Node
  | 0 => fail
  | fuel + 1 => do
    match ← peek with
    | .alias name =>
      advance
      match (← get).anchors.find? fun a => a.1 == name with
      | some a => return a.2
      | none => fail
    | _ =>
      let (anchor, tag) ← properties
      match ← peek with
      | .blockEntry =>
        if indentless then anchored anchor do
          return .list (← indentlessItems fuel) tag
        else if anchor.isSome || tag.isSome then
          anchored anchor (return .scalar "" true tag)
        else fail
      | .scalar text plain =>
        advance
        anchored anchor (return .scalar text plain tag)
      | .listOpen =>
        advance
        anchored anchor do return .list (← flowItems true fuel) tag
      | .tableOpen =>
        advance
        anchored anchor do return .table (← flowEntries true fuel) tag
      | .blockList =>
        if block then
          advance
          anchored anchor do return .list (← blockItems fuel) tag
        else if anchor.isSome || tag.isSome then
          anchored anchor (return .scalar "" true tag)
        else fail
      | .blockTable =>
        if block then
          advance
          anchored anchor do return .table (← blockEntries fuel) tag
        else if anchor.isSome || tag.isSome then
          anchored anchor (return .scalar "" true tag)
        else fail
      | _ =>
        if anchor.isSome || tag.isSome then
          anchored anchor (return .scalar "" true tag)
        else fail

/-- A node, or an empty one where a token ends its place. -/
def parseUnless (ends : Token → Bool) (block indentless : Bool) :
    Nat → Parse Node
  | 0 => fail
  | fuel + 1 => do
    if ends (← peek) then return empty else parse block indentless fuel

/-- The items of a list in a block. -/
def blockItems : Nat → Parse (List Node)
  | 0 => fail
  | fuel + 1 => do
    match ← peek with
    | .blockEntry =>
      advance
      let n ← parseUnless endsEntry true false fuel
      return n :: (← blockItems fuel)
    | .blockEnd =>
      advance
      return []
    | _ => fail

/-- The items of a list that is not indented in its table. -/
def indentlessItems : Nat → Parse (List Node)
  | 0 => fail
  | fuel + 1 => do
    match ← peek with
    | .blockEntry =>
      advance
      let n ← parseUnless endsListEntry true false fuel
      return n :: (← indentlessItems fuel)
    | _ => return []

/-- The entries of a table in a block. -/
def blockEntries : Nat → Parse (List (Node × Node))
  | 0 => fail
  | fuel + 1 => do
    match ← peek with
    | .key =>
      advance
      let key ← parseUnless endsTableEntry true true fuel
      let value ← blockValue fuel
      return (key, value) :: (← blockEntries fuel)
    | .blockEnd =>
      advance
      return []
    | _ => fail

/-- The value of a key in a block, which may be missing. -/
def blockValue : Nat → Parse Node
  | 0 => fail
  | fuel + 1 => do
    match ← peek with
    | .value =>
      advance
      parseUnless endsTableEntry true true fuel
    | _ => return empty

/-- The items of a list in brackets. A key there makes a table of one entry. -/
def flowItems (first : Bool) : Nat → Parse (List Node)
  | 0 => fail
  | fuel + 1 => do
    match ← peek with
    | .listClose =>
      advance
      return []
    | _ =>
      unless first do expect .comma
      match ← peek with
      | .listClose =>
        advance
        return []
      | .key =>
        advance
        let ends (t : Token) : Bool :=
          t = .value || t = .comma || t = .listClose
        let key ← parseUnless ends false false fuel
        let value ← flowValue .listClose fuel
        return .table [(key, value)] none :: (← flowItems false fuel)
      | _ =>
        let n ← parse false false fuel
        return n :: (← flowItems false fuel)

/-- The value of a key in brackets, which may be missing. -/
def flowValue (close : Token) : Nat → Parse Node
  | 0 => fail
  | fuel + 1 => do
    match ← peek with
    | .value =>
      advance
      parseUnless (fun t => t = .comma || t = close) false false fuel
    | _ => return empty

/-- The entries of a table in brackets. -/
def flowEntries (first : Bool) : Nat → Parse (List (Node × Node))
  | 0 => fail
  | fuel + 1 => do
    match ← peek with
    | .tableClose =>
      advance
      return []
    | _ =>
      unless first do expect .comma
      match ← peek with
      | .tableClose =>
        advance
        return []
      | .key =>
        advance
        let ends (t : Token) : Bool :=
          t = .value || t = .comma || t = .tableClose
        let key ← parseUnless ends false false fuel
        let value ← flowValue .tableClose fuel
        return (key, value) :: (← flowEntries false fuel)
      | _ =>
        let key ← parse false false fuel
        return (key, empty) :: (← flowEntries false fuel)

end

-- ============================================================ documents

/-- The directives before a document. Only one version may be named, and it
must be the first or second of the first line of versions. -/
def directives (versioned : Bool) : Nat → Parse Unit
  | 0 => fail
  | fuel + 1 => do
    match ← peek with
    | .version major minor =>
      if versioned || major ≠ 1 || (minor ≠ 1 && minor ≠ 2) then fail
      else
        advance
        directives true fuel
    | .tagHandle handle stem =>
      if (← get).handles.any fun h => h.1 == handle then fail
      else
        advance
        modify fun x => { x with handles := (handle, stem) :: x.handles }
        directives versioned fuel
    | _ => return

def endsDocument : Token → Bool
  | .version .. | .tagHandle .. | .documentStart | .documentEnd | .streamEnd =>
      true
  | _ => false

def opensDocument : Token → Bool
  | .version .. | .tagHandle .. | .documentStart => true
  | _ => false

/-- The rest after markers that end a document. -/
def skipEnds : List Token → List Token
  | .documentEnd :: rest => skipEnds rest
  | tokens => tokens

/-- The only document of a text; no node if there is none. -/
def document (fuel : Nat) : Parse (Option Node) := do
  let first ← peek
  let node ←
    if first = .streamEnd then pure none
    else if opensDocument first then do
      directives false fuel
      expect .documentStart
      some <$> parseUnless endsDocument true false fuel
    else some <$> parse true false fuel
  match skipEnds (← get).tokens with
  | [.streamEnd] => return node
  | _ => fail

/-- The node of a text. -/
def ofText? (text : String) : Option (Option Node) := do
  let tokens ← tokens? text.toList
  let fuel := 4 * tokens.size + 8
  let (node, _) ← (document fuel).run ⟨tokens.toList, [], []⟩
  return node

end Node

end PlanSearch.Yaml

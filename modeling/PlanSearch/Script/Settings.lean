/-
Scripts on selector configurations: described, inherited, merged and
resolved.
-/
import PlanSearch.Config.Reading
import PlanSearch.Script.Answer

namespace PlanSearch.Script

-- ============================================================ errors

/-- The kind of a configuration error, as it is answered. -/
def configErrorKind : ConfigError → String
  | .io _ => "Io"
  | .toml _ => "Toml"
  | .yaml _ => "Yaml"
  | .invalid _ => "Invalid"
  | .emptyComposite _ => "EmptyComposite"
  | .cyclicTemplate _ _ => "CyclicTemplate"
  | .unknownTemplate _ _ => "UnknownTemplate"
  | .unknownFactory _ _ => "UnknownFactory"
  | .invalidWeight _ _ => "InvalidWeight"
  | .kindMismatch _ _ _ => "KindMismatch"

/-- An error as an answer. What is wrong with the text of a file is not told. -/
def configErrorDocument (e : ConfigError) : Document :=
  let kind := ("error", Document.text (configErrorKind e))
  match e with
  | .io _ | .toml _ | .yaml _ => table [kind]
  | e =>
      table ([kind, ("message", .text e.message)] ++ textEntry "path" e.path?)

/-- The answer to a document that is no configuration. -/
def unreadable : Stop := .answer (table [("error", .text "Json")])

/-- A reading of a configuration that ends the script when it fails. -/
def required {α : Type} : Option α → Read α
  | some a => .ok a
  | none => .error unreadable

def asSelector (d : Document) : Read SelectorConfig :=
  required (SelectorConfig.ofDocument? d)

/-- What is said about an error made from its parts. -/
def errorAnswer (d : Document) : Read Document := do
  let text ← getTextOr d "text" ""
  let path ← getTextOr d "path" ""
  let expected ← getTextOr d "expected" ""
  let found ← getTextOr d "found" ""
  let planned (e : PlanError) : Read Document :=
    .ok (table [("text", .text e.message), ("transient", .bool e.isTransient),
    ("debug", .text (shown e))])
  let configured (e : ConfigError) : Read Document := do
    let e := match ← getOption asText d "new_path" with
      | some newPath => e.withPath newPath
      | none => e
    let converted := e.toPlanError
    return table [("kind", .text (configErrorKind e)),
      ("text", .text e.message), ("path", Document.option .text e.path?),
      ("converted", .text converted.message),
      ("transient", .bool converted.isTransient)]
  match ← getText d "kind" with
  | "Config" => planned (.config text)
  | "Initialization" =>
      planned (.initialization (← getNatOr d "entity_id" 0) text)
  | "Structural" => planned (.structural text)
  | "ScoreCalculation" => planned (.scoring text)
  | "Cancelled" => planned .cancelled
  | "InvalidState" => planned (.invalidState text)
  | "Io" => configured (.io text)
  | "Invalid" => configured (.invalid text)
  | "EmptyComposite" => configured (.emptyComposite path)
  | "CyclicTemplate" => configured (.cyclicTemplate path text)
  | "UnknownTemplate" => configured (.unknownTemplate path text)
  | "UnknownFactory" => configured (.unknownFactory path text)
  | "InvalidWeight" =>
      configured (.invalidWeight path (← asNumber (← getDocument d "weight")))
  | "KindMismatch" => configured (.kindMismatch path expected found)
  | other => malformed other

-- ============================================================ selectors

/-- What a selector configuration says about itself. -/
def described (config : SelectorConfig) : List (String × Document) :=
  [("config", config.document), ("kind", .text config.kind),
    ("composite", .bool config.isComposite),
    ("children", .list (config.children.map fun c => .text c.kind)),
    ("leaves", .list (config.leaves.map SelectorConfig.document)),
    ("common", table config.common.entries),
    ("validate", match config.validate with
      | .ok () => .bool true
      | .error e => configErrorDocument e)]

/-- A selector made from its parts. -/
def selectorMade : Nat → Document → Read SelectorConfig
  | 0, _ => malformed "selector nested too deeply"
  | fuel + 1, d => do
    let children : Read (List SelectorConfig) := do
      (← getList d "selectors").mapM (selectorMade fuel)
    let config ← match ← getText d "make" with
      | "change" => .ok (SelectorConfig.ofVariable (← getText d "variable"))
      | "swap" => .ok SelectorConfig.swapAll
      | "union" => do pure (.union .unset (← children) none)
      | "cartesian_product" => do pure (.product .unset (← children) none)
      | other => malformed other
    let order := (← getOption asText d "order").map fun w =>
      if w == "random" then Order.random else Order.given
    return config.setCommon ⟨← getOption asText d "inherit_from", order,
      ← getOption asNumber d "weight", ← getOption asNat d "limit"⟩

def selectorAnswer (d : Document) : Read Document := do
  let config ← match get? d "build" with
    | some build => selectorMade deepest build
    | none => asSelector (getValue d "config")
  let debug := if getFlag d "debug" false
    then [("debug", Document.text (shown config))] else []
  return table (described config ++ debug)

/-- The child after each parent in turn; an error leaves it as it is. -/
def inheritSteps (child : SelectorConfig) :
    List SelectorConfig → List Document × SelectorConfig
  | [] => ([], child)
  | parent :: rest =>
    match child.inherit parent with
    | .ok child =>
      let (answers, last) := inheritSteps child rest
      (child.document :: answers, last)
    | .error e =>
      let (answers, last) := inheritSteps child rest
      (configErrorDocument e :: answers, last)

def inheritAnswer (d : Document) : Read Document := do
  let child ← asSelector (getValue d "child")
  let parents ← (← getList d "parents").mapM asSelector
  let (steps, last) := inheritSteps child parents
  let identity := match child.inherit child with
    | .ok again => again == child
    | .error _ => false
  return table [("steps", .list steps), ("child", child.document),
    ("changed", .bool !(last == child)),
      ("self_inherit_is_identity", .bool identity)]

/-- One merge of a list or of an optional number. -/
def mergeCase (d : Document) : Read Document := do
  match d.get? "child" with
  | some (.list child) =>
    let parent ← getList d "parent"
    return .list (Inherit.entries (child.map Document.sorted)
      (parent.map Document.sorted))
  | child =>
    let read (v : Option Document) : Read (Option Int) :=
      asOption asInt (v.getD .null)
    return Document.option Document.int
      (Inherit.value (← read child) (← read (d.get? "parent")))

def mergeAnswer (d : Document) : Read Document := do
  return .list (← (← getList d "cases").mapM mergeCase)

def resolveAnswer (d : Document) : Read Document := do
  let config ← asSelector (getValue d "config")
  let templates ← (← getEntries d "templates").mapM fun t => do
    return (t.1, ← asSelector t.2)
  match config.resolve (Templates.ofList templates) with
  | .ok resolved => return table (described resolved)
  | .error e => return configErrorDocument e

def childPathAnswer (d : Document) : Read Document := do
  return .text (SelectorConfig.childPath (← getText d "path")
    (← getNat d "index"))

end PlanSearch.Script

/-
Solver configurations written in files.

A TOML file is a table and is read as it stands. In YAML the outermost
fields are looked at as they are written: a list or table that is left
empty is an empty one, a word is taken letter by letter, and a number
has no minus. All that lies deeper is read as the documents it stands for.
-/
import PlanSearch.Config.Reading
import PlanSearch.Document.Toml
import PlanSearch.Document.Yaml.Scalar

namespace PlanSearch

namespace YamlFields

open Yaml

/-- Whether nothing is written in the place of a node. -/
def isBlankNode : Node → Bool
  | .scalar "" true _ => true
  | _ => false

/-- A document that no field accepts. -/
def refused : Document := .bool false

/-- A word: a text by whatever quotes, or a tag of one's own with nothing
behind it. -/
def word : Node → Document
  | .scalar t _ none => .text t
  | .scalar t plain (some tag) =>
    if plain && isNull t then .text (String.ofList (tag.toList.drop 1))
    else refused
  | _ => refused

/-- The tag of what stands for nothing. -/
def nullTag : String := "tag:yaml.org,2002:null"

/-- A value that may not be set; a tag says that it is, except the one of
nothing. -/
def optional (read : Node → Document) (n : Node) : Document :=
  match n with
  | .scalar t true none => if isNull t then .null else read n
  | .scalar t true (some tag) =>
    if tag == nullTag then (if isNull t && t != "" then .null else refused)
    else read n
  | n => read n

/-- A number, by whatever tag. -/
def number : Node → Document
  | .scalar t true _ =>
      if t.startsWith "-" || isNull t then refused else plainDocument t
  | _ => refused

/-- A list, empty if nothing is written. -/
def list? : Node → Option Document
  | .list items _ => (Node.documents? items).map .list
  | n => if isBlankNode n then some (.list []) else some refused

/-- A table, empty if nothing is written. -/
def table? : Node → Option Document
  | .table entries _ => (Node.entriesOf? entries).map .table
  | n => if isBlankNode n then some (.table []) else some refused

/-- The entries of a table of numbers, which may not be set. -/
def numbers : List (Node × Node) → Option (List (String × Document))
  | [] => some []
  | e :: rest => do
    let key ← e.1.text?
    let others ← numbers rest
    return (key, optional number e.2) :: others

/-- Limits, empty if nothing is written. -/
def limits? : Node → Option Document
  | .table entries _ => (numbers entries).map .table
  | n => if isBlankNode n then some (.table []) else some refused

/-- An outermost field; nothing is read of one that is not known. -/
def field? (key : String) (n : Node) : Option Document :=
  match key with
  | "environment_mode" => some (word n)
  | "random_seed" => some (optional number n)
  | "termination" => do
    let limits ← limits? n
    return optional (fun _ => limits) n
  | "phases" => list? n
  | "move_selector_templates" => table? n
  | _ => some .null

/-- The outermost fields. -/
def fields? : List (Node × Node) → Option (List (String × Document))
  | [] => some []
  | e :: rest => do
    let key ← e.1.text?
    let d ← field? key e.2
    let others ← fields? rest
    return (key, d) :: others

end YamlFields

namespace SolverConfig

/-- The configuration of a node. -/
def ofNode? : Yaml.Node → Option SolverConfig
  | .scalar "" true _ => some plain
  | .table entries _ => do
    ofDocument? .yaml (.table (← YamlFields.fields? entries))
  | _ => none

/-- Reads a YAML text. One without a document says nothing. -/
def ofYaml? (text : String) : Option SolverConfig := do
  match ← Yaml.Node.ofText? text with
  | none => some plain
  | some node => ofNode? node

/-- Reads a TOML text. -/
def ofToml? (text : String) :
    Option SolverConfig := do ofDocument? .toml (← Toml.read text)

/-- Reads a text in a format. -/
def ofText (format : Format) (text : String) :
    Except ConfigError SolverConfig :=
  match format with
  | .toml =>
      (ofToml? text).elim (.error (.toml "not a solver configuration")) .ok
  | .yaml =>
      (ofYaml? text).elim (.error (.yaml "not a solver configuration")) .ok
  | .json =>
    ((Json.read text).bind (ofDocument? .json)).elim
      (.error (.invalid "not a solver configuration")) .ok

end SolverConfig

end PlanSearch

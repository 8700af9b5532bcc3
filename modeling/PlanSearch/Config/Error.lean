/-
Errors in configurations.

An error that is about one selector carries the way to it from the root
of its tree. The other ones are about the file as a whole.
-/
import PlanSearch.Decimal.Shortest
import PlanSearch.Error

namespace PlanSearch

/-- What can be wrong with a configuration. -/
inductive ConfigError
  /-- The file cannot be read. -/
  | io (reason : String)
  | toml (reason : String)
  | yaml (reason : String)
  | invalid (text : String)
  | emptyComposite (path : String)
  | cyclicTemplate (path chain : String)
  | unknownTemplate (path name : String)
  | unknownFactory (path name : String)
  | invalidWeight (path : String) (weight : Binary64)
  | kindMismatch (path expected found : String)
  deriving DecidableEq, Repr

namespace ConfigError

def message : ConfigError → String
  | io reason => "IO error: " ++ reason
  | toml reason => "TOML parse error: " ++ reason
  | yaml reason => "YAML parse error: " ++ reason
  | invalid text => "Invalid configuration: " ++ text
  | emptyComposite path => path ++ ": composite selector has no child selectors"
  | cyclicTemplate path chain => path ++ ": cyclic template reference " ++ chain
  | unknownTemplate path name => path ++ ": unknown template '" ++ name ++ "'"
  | unknownFactory path name => path ++ ": unknown factory '" ++ name ++ "'"
  | invalidWeight path weight =>
    path ++
      ": fixed_probability_weight must be finite and not negative, got " ++
      Decimal.plain weight
  | kindMismatch path expected found =>
    path ++ ": cannot inherit a " ++ found ++ " selector into a " ++
      expected ++ " selector"

/-- The selector an error is about. -/
def path? : ConfigError → Option String
  | emptyComposite path | cyclicTemplate path _ | unknownTemplate path _
  | unknownFactory path _
  | invalidWeight path _ | kindMismatch path _ _ => some path
  | io _ | toml _ | yaml _ | invalid _ => none

/-- Moves an error to another selector; one about the file stays. -/
def withPath (path : String) : ConfigError → ConfigError
  | emptyComposite _ => emptyComposite path
  | cyclicTemplate _ chain => cyclicTemplate path chain
  | unknownTemplate _ name => unknownTemplate path name
  | unknownFactory _ name => unknownFactory path name
  | invalidWeight _ weight => invalidWeight path weight
  | kindMismatch _ expected found => kindMismatch path expected found
  | io reason => io reason
  | toml reason => toml reason
  | yaml reason => yaml reason
  | invalid text => invalid text

/-- A configuration error as an error of planning. -/
def toPlanError (e : ConfigError) : PlanError := .config e.message

end ConfigError

end PlanSearch

/-
Templates: named selector trees that others inherit from.

Resolving a tree replaces every reference by what it stands for. The
children of a selector are resolved before the selector inherits, and so
is the template, so that both sides of a merge are free of references. A
template that leads back to itself has no resolution; which templates
were entered on the way is remembered as a trail.
-/
import PlanSearch.Config.Inherit

namespace PlanSearch

/-- Selector trees by name, in the order of their names. -/
abbrev Templates := List (String × SelectorConfig)

namespace Templates

/-- The template of a name. -/
def find? (templates : Templates) (name : String) : Option SelectorConfig :=
  (List.find? (fun t => t.1 == name) templates).map Prod.snd

/-- Registers a template, in the place of one of the same name. -/
def insert (name : String) (template : SelectorConfig) : Templates → Templates
  | [] => [(name, template)]
  | t :: rest =>
    if t.1 == name then (name, template) :: rest
    else if name < t.1 then (name, template) :: t :: rest
    else t :: insert name template rest

/-- Registers templates in order. -/
def ofList (entries : List (String × SelectorConfig)) : Templates :=
  entries.foldl (fun templates t => templates.insert t.1 t.2) []

end Templates

namespace SelectorConfig

/-- The templates entered on the way to a selector, the first one first. -/
abbrev Trail := List String

/-- What a name stands for at a path, given the trail there. -/
abbrev Lookup := String → String → Trail → Except ConfigError SelectorConfig

mutual

/-- Resolves a tree, given what names stand for. -/
def resolveAt (lookup : Lookup) (path : String) (trail : Trail) :
    SelectorConfig → Except ConfigError SelectorConfig
  | leaf common settings =>
    adopt lookup path trail common.inheritFrom
      (leaf { common with inheritFrom := none } settings)
  | union common children factory =>
    match resolveAll lookup path trail 0 children with
    | .error e => .error e
    | .ok children =>
      adopt lookup path trail common.inheritFrom
        (union { common with inheritFrom := none } children factory)
  | product common children ignoreEmpty =>
    match resolveAll lookup path trail 0 children with
    | .error e => .error e
    | .ok children =>
      adopt lookup path trail common.inheritFrom
        (product { common with inheritFrom := none } children ignoreEmpty)

/-- Resolves children, counted from `index`. -/
def resolveAll (lookup : Lookup) (path : String) (trail : Trail) (index : Nat) :
    List SelectorConfig → Except ConfigError (List SelectorConfig)
  | [] => .ok []
  | c :: rest =>
    match resolveAt lookup (childPath path index) trail c with
    | .error e => .error e
    | .ok c =>
      match resolveAll lookup path trail (index + 1) rest with
      | .error e => .error e
      | .ok rest => .ok (c :: rest)

/-- Lets a selector inherit from what a name stands for. -/
def adopt (lookup : Lookup) (path : String) (trail : Trail)
    (name : Option String) (config : SelectorConfig) :
    Except ConfigError SelectorConfig :=
  match name with
  | none => .ok config
  | some name =>
    match lookup name path trail with
    | .error e => .error e
    | .ok parent =>
      match config.inherit parent with
      | .ok merged => .ok merged
      | .error e => .error (e.withPath path)

end

/-- What a name stands for, as long as at most `depth` templates are
entered. The trail holds different names of templates, so a depth of the
number of templates is never used up. -/
def lookupTemplate (templates : Templates) : Nat → Lookup
  | depth, name, path, trail =>
    if trail.contains name then
      .error (.cyclicTemplate path (" -> ".intercalate (trail ++ [name])))
    else match templates.find? name with
      | none => .error (.unknownTemplate path name)
      | some template =>
        match depth with
        | 0 =>
            .error (.cyclicTemplate path (" -> ".intercalate (trail ++ [name])))
        | depth + 1 =>
            resolveAt (lookupTemplate templates depth) path
              (trail ++ [name]) template

/-- The tree without references. -/
def resolve (templates : Templates) (config : SelectorConfig) :
    Except ConfigError SelectorConfig :=
  resolveAt (lookupTemplate templates templates.length) config.kind [] config

end SelectorConfig

end PlanSearch

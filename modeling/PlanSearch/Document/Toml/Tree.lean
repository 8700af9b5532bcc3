/-
Tables as the lines of a TOML document build them up.

A table comes about in one of three ways: by its header, by the header of
a table below it, or by a dotted key. What may be added later hangs on
this. A header may still be given to a table that only headers below it
have implied. A dotted key reaches into tables that no header has
opened, and ends in one that dotted keys have made.
-/
import PlanSearch.Document.Basic

namespace PlanSearch.Toml

/-- How a table came about. -/
inductive Origin
  | header
  | implied
  | dotted
  deriving DecidableEq, Repr

/-- A value under a key while a document is read. -/
inductive Item
  | value (d : Document)
  | table (origin : Origin) (entries : List (String × Item))
  /-- A list of tables, each opened by a header of its own; the last one
  first. -/
  | tables (items : List (List (String × Item)))

abbrev Entries := List (String × Item)

namespace Entries

def find? (key : String) (entries : Entries) : Option Item :=
  (List.find? (fun e => e.1 == key) entries).map Prod.snd

/-- Puts an item under a key, in the place of what is there. -/
def put (key : String) (item : Item) : Entries → Entries
  | [] => [(key, item)]
  | e :: rest =>
      if e.1 == key then (key, item) :: rest else e :: put key item rest

/-- Adds a value under a dotted key, given as the keys before the last one
and the last one. -/
def add (key : String) (d : Document) : List String → Entries → Option Entries
  | [], entries =>
    match entries.find? key with
    | none => some (entries ++ [(key, .value d)])
    | some _ => none
  | p :: path, entries =>
    match entries.find? p with
    | none =>
        (add key d path []).map fun inner =>
          entries ++ [(p, .table .dotted inner)]
    | some (.table origin inner) =>
      if origin = .header ∨ (path.isEmpty ∧ origin ≠ .dotted) then none
      else (add key d path inner).map fun inner =>
        entries.put p (.table origin inner)
    | some (.tables (last :: before)) =>
      if path.isEmpty then none
      else (add key d path last).map fun last =>
        entries.put p (.tables (last :: before))
    | some _ => none

/-- Changes the table at the end of a path of headers; what is missing on
the way is implied. -/
def under (change : Entries → Option Entries) :
    List String → Entries → Option Entries
  | [], entries => change entries
  | p :: path, entries =>
    match entries.find? p with
    | none =>
        (under change path []).map fun inner =>
          entries ++ [(p, .table .implied inner)]
    | some (.table origin inner) =>
      (under change path inner).map fun inner =>
        entries.put p (.table origin inner)
    | some (.tables (last :: before)) =>
      (under change path last).map fun last =>
        entries.put p (.tables (last :: before))
    | some _ => none

/-- Opens a table under a key. -/
def openTable (key : String) (entries : Entries) : Option Entries :=
  match entries.find? key with
  | none => some (entries ++ [(key, .table .header [])])
  | some (.table .implied inner) =>
      some (entries.put key (.table .header inner))
  | some _ => none

/-- Opens one more table of the list under a key. -/
def openItem (key : String) (entries : Entries) : Option Entries :=
  match entries.find? key with
  | none => some (entries ++ [(key, .tables [[]])])
  | some (.tables items) => some (entries.put key (.tables ([] :: items)))
  | some _ => none

end Entries

mutual

/-- What an item holds. -/
def Item.document : Item → Document
  | .value d => d
  | .table _ entries => .table (entriesOf entries)
  | .tables items => .list (tablesOf items).reverse

def entriesOf : List (String × Item) → List (String × Document)
  | [] => []
  | e :: rest => (e.1, Item.document e.2) :: entriesOf rest

def tablesOf : List (List (String × Item)) → List Document
  | [] => []
  | t :: rest => .table (entriesOf t) :: tablesOf rest

end

end PlanSearch.Toml

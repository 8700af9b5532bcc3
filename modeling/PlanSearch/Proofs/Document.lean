/-
What documents hold, and which of them are JSON.

JSON has no way to write a number that is not finite: one is written as
null. `Document.json` is the value that a written document stands for
then, and it stands for itself exactly if it holds finite numbers only.
-/
import PlanSearch.Document.Json

namespace PlanSearch

namespace Document

/-- A value stands in a document: it is the document, or stands in an item or
an entry of it. -/
inductive Holds : Document → Document → Prop
  | self (d : Document) : Holds d d
  | item {items : List Document} {d x : Document} (hd : d ∈ items)
      (hx : Holds d x) :
      Holds (.list items) x
  | entry {entries : List (String × Document)} {e : String × Document}
      {x : Document}
      (he : e ∈ entries) (hx : Holds e.2 x) : Holds (.table entries) x

theorem Holds.trans {d x y : Document} (hx : Holds d x) (hy : Holds x y) :
    Holds d y := by
  induction hx with
  | self => exact hy
  | item hd _ ih => exact .item hd (ih hy)
  | entry he _ ih => exact .entry he (ih hy)

/-- Every number is finite. -/
def IsJson (d : Document) : Prop := ∀ x, d.Holds (.float x) → x.isFinite = true

/-- Parts of a document of finite numbers have finite numbers only. -/
theorem IsJson.of_holds {d x : Document} (h : d.IsJson)
    (hx : d.Holds x) : x.IsJson :=
  fun y hy => h y (hx.trans hy)

mutual

/-- The JSON value that is written for a document. -/
def json : Document → Document
  | .null => .null
  | .bool b => .bool b
  | .int n => .int n
  | .float x => if x.isFinite then .float x else .null
  | .text s => .text s
  | .list items => .list (jsonItems items)
  | .table entries => .table (jsonEntries entries)

def jsonItems : List Document → List Document
  | [] => []
  | d :: rest => json d :: jsonItems rest

def jsonEntries : List (String × Document) → List (String × Document)
  | [] => []
  | e :: rest => (e.1, json e.2) :: jsonEntries rest

end

mutual

/-- A document of finite numbers stands for itself. -/
theorem IsJson.json_eq : ∀ {d : Document}, d.IsJson → d.json = d
  | .null, _ | .bool _, _ | .int _, _ | .text _, _ => rfl
  | .float x, h => if_pos (h x (.self _))
  | .list _, h =>
      congrArg list (jsonItems_eq fun d hd => h.of_holds (.item hd (.self d)))
  | .table _, h =>
    congrArg table (jsonEntries_eq fun e he =>
      h.of_holds (.entry he (.self e.2)))

theorem jsonItems_eq : ∀ {items : List Document}, (∀ d ∈ items, d.IsJson) →
    jsonItems items = items
  | [], _ => rfl
  | d :: rest, h => by
    rw [jsonItems, (h d List.mem_cons_self).json_eq,
      jsonItems_eq fun x hx => h x (List.mem_cons_of_mem d hx)]

theorem jsonEntries_eq : ∀ {entries : List (String × Document)},
    (∀ e ∈ entries, e.2.IsJson) → jsonEntries entries = entries
  | [], _ => rfl
  | (key, d) :: rest, h => by
    rw [jsonEntries, (h (key, d) List.mem_cons_self).json_eq,
      jsonEntries_eq fun x hx => h x (List.mem_cons_of_mem (key, d) hx)]

end

/-- The items of a list that stands for itself stand for themselves. -/
theorem json_of_mem_items {items : List Document}
    (h : jsonItems items = items) : ∀ d ∈ items, d.json = d := by
  induction items with
  | nil => exact nofun
  | cons d rest ih =>
    obtain ⟨hd, hrest⟩ := List.cons.inj h
    exact List.forall_mem_cons.2 ⟨hd, ih hrest⟩

/-- The entries of a table that stands for itself stand for themselves. -/
theorem json_of_mem_entries {entries : List (String × Document)}
    (h : jsonEntries entries = entries) : ∀ e ∈ entries, e.2.json = e.2 := by
  induction entries with
  | nil => exact nofun
  | cons e rest ih =>
    obtain ⟨he, hrest⟩ := List.cons.inj h
    exact List.forall_mem_cons.2 ⟨congrArg Prod.snd he, ih hrest⟩

/-- Parts of a document that stands for itself stand for themselves. -/
theorem Holds.json_eq {d x : Document} (hx : d.Holds x) (h : d.json = d) :
    x.json = x := by
  induction hx with
  | self => exact h
  | item hd _ ih => exact ih (json_of_mem_items (list.inj h) _ hd)
  | entry he _ ih => exact ih (json_of_mem_entries (table.inj h) _ he)

/-- The documents of finite numbers are those that stand for themselves. -/
theorem isJson_iff {d : Document} : d.IsJson ↔ d.json = d := by
  refine ⟨IsJson.json_eq, fun h x hx => ?_⟩
  have hself := hx.json_eq h
  rw [json] at hself
  split at hself
  · assumption
  · cases hself

-- ====================================================== throughout a document

/-- What holds of everything that stands in a document. -/
def All (P : Document → Prop) (d : Document) : Prop := ∀ x, d.Holds x → P x

section All

variable {P : Document → Prop}

/-- Throughout a list is of the list and throughout each item. -/
theorem all_list {items : List Document} :
    All P (.list items) ↔ P (.list items) ∧ ∀ d ∈ items, All P d := by
  constructor
  · exact fun h => ⟨h _ (.self _), fun d hd x hx => h x (.item hd hx)⟩
  · rintro ⟨hself, hitems⟩ x (_ | ⟨hd, hx⟩)
    · exact hself
    · exact hitems _ hd x hx

/-- Throughout a table is of the table and throughout each entry. -/
theorem all_table {entries : List (String × Document)} :
    All P (.table entries) ↔ P (.table entries) ∧ ∀ e ∈ entries, All P e.2 := by
  constructor
  · exact fun h => ⟨h _ (.self _), fun e he x hx => h x (.entry he hx)⟩
  · rintro ⟨hself, hentries⟩ x (_ | _ | ⟨he, hx⟩)
    · exact hself
    · exact hentries _ he x hx

/-- Nothing else stands in a document that is neither a list nor a table. -/
theorem all_atom {d : Document} (hlist : ∀ items, d ≠ .list items)
    (htable : ∀ entries, d ≠ .table entries) (h : P d) : All P d := by
  rintro x (_ | _ | _)
  · exact h
  · exact absurd rfl (hlist _)
  · exact absurd rfl (htable _)

end All

end Document

end PlanSearch

/-
Documents: the data model that configuration files and scripts share.

A table keeps its entries in the order they were written. Integers and
floating-point numbers are told apart by how they are written, because a
count accepts the one and refuses the other.
-/
import PlanSearch.Decimal.Binary64

namespace PlanSearch

/-- A value read from a structured text. -/
inductive Document
  | null
  | bool (b : Bool)
  | int (n : Int)
  | float (x : Binary64)
  | text (s : String)
  | list (items : List Document)
  | table (entries : List (String × Document))
  deriving Inhabited

namespace Document

/-- The value under a key. -/
def lookup (key : String) (entries : List (String × Document)) :
    Option Document :=
  (entries.find? fun e => e.1 == key).map Prod.snd

/-- The value under a key of a table; nothing for any other document. -/
def get? (key : String) : Document → Option Document
  | table entries => lookup key entries
  | _ => none

def nat (n : Nat) : Document := .int n

/-- A value that may be missing. -/
def option {α : Type} (write : α → Document) : Option α → Document
  | none => .null
  | some a => write a

mutual

/-- Equality by content: tables are equal when their entries are, in order. -/
def same : Document → Document → Bool
  | null, null => true
  | bool a, bool b => a == b
  | int a, int b => a == b
  | float a, float b => a == b
  | text a, text b => a == b
  | list as, list bs => sameList as bs
  | table as, table bs => sameEntries as bs
  | _, _ => false

def sameList : List Document → List Document → Bool
  | [], [] => true
  | a :: as, b :: bs => same a b && sameList as bs
  | _, _ => false

def sameEntries : List (String × Document) → List (String × Document) → Bool
  | [], [] => true
  | a :: as, b :: bs => a.1 == b.1 && same a.2 b.2 && sameEntries as bs
  | _, _ => false

end

instance : BEq Document := ⟨same⟩

-- ============================================================ order

mutual

/-- The document with the entries of every table in the order of their keys. -/
def sorted : Document → Document
  | list items => list (sortedAll items)
  | table entries =>
      table ((sortedEntries entries).mergeSort fun a b => !(b.1 < a.1))
  | d => d

def sortedAll : List Document → List Document
  | [] => []
  | d :: rest => sorted d :: sortedAll rest

def sortedEntries : List (String × Document) → List (String × Document)
  | [] => []
  | e :: rest => (e.1, sorted e.2) :: sortedEntries rest

end

end Document

end PlanSearch

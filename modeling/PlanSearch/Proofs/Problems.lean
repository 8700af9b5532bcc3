/-
The variables of the problems are lawful.

Every variable here keeps its contents in a list of its own, one place for
each entity, and writes by replacing a place. Whatever is kept so reads
back what was written (`Columnar.lawful`), and whatever is kept in a list
that a write leaves alone does not see it (`Columnar.apart`).
-/
import PlanSearch.Problem.Mixed
import PlanSearch.Problem.Routing
import PlanSearch.Problem.Tasks
import PlanSearch.Proofs.Variables

namespace PlanSearch

variable {S A B : Type}

-- ================================================================= columns

namespace Cells

/-- The contents stand in a list, by entity. -/
structure Columnar (c : Cells S A) (list : S → List (Option A)) : Prop where
  count : ∀ s, c.count s = (list s).length
  get : ∀ s e, c.get s e = ((list s)[e]?).join

variable {c : Cells S A} {list : S → List (Option A)}

/-- A variable over a list that writes in place keeps to its laws. -/
theorem Columnar.lawful (h : c.Columnar list)
    (hset : ∀ s e v, list (c.set s e v) = (list s).set e v) : c.Lawful where
  count_set s e v := by rw [h.count, h.count, hset, List.length_set]
  get_set s e v he := by
    rw [h.count] at he
    rw [h.get, hset, List.getElem?_set_self he]
    rfl
  get_set_of_ne s e v d _ hne := by
    rw [h.get, h.get, hset, List.getElem?_set_ne hne.symm]

/-- A variable that leaves the list alone is apart from it. -/
theorem Columnar.apart (h : c.Columnar list) {d : Cells S B}
    (hset : ∀ s e v, list (d.set s e v) = list s) : d.Apart c where
  count_set s e v := by rw [h.count, h.count, hset]
  get_set s e v i _ := by rw [h.get, h.get, hset]

/-- A column of records of which one is modified. -/
theorem map_modify {α β : Type} {read : α → β} {write : α → α} {v : β}
    (records : List α) (e : Nat) (h : ∀ a, read (write a) = v) :
    (records.modify e write).map read = (records.map read).set e v := by
  refine List.ext_getElem? fun i => ?_
  rw [List.getElem?_map, List.getElem?_modify, List.getElem?_set,
    List.getElem?_map, List.length_map]
  by_cases hei : e = i
  · subst hei
    by_cases hlt : e < records.length
    · simp [hlt, h]
    · simp [hlt]
  · simp [hei]

/-- A column that the modification leaves alone. -/
theorem map_modify_of_keeps {α β : Type} {read : α → β} {write : α → α}
    (records : List α) (e : Nat) (h : ∀ a, read (write a) = read a) :
    (records.modify e write).map read = records.map read := by
  refine List.ext_getElem? fun i => ?_
  rw [List.getElem?_map, List.getElem?_modify, List.getElem?_map]
  by_cases hei : e = i
  · subst hei
    cases records[e]? with
    | none => rfl
    | some a => simp [h]
  · simp [hei]

end Cells

/-- The planning variables of a problem. -/
def World.variables (world : World S) : Variables S Int :=
  ⟨world.basics.map Prod.snd, world.chained⟩

-- =================================================================== tasks

namespace Tasks

/-- The priorities are a column of the tasks. -/
theorem columnar_priority : priority.cells.Columnar Tasks.priorities :=
  ⟨fun _ => rfl, fun _ _ => rfl⟩

theorem lawful_priority : priority.cells.Lawful :=
  columnar_priority.lawful fun _ _ _ => rfl

theorem lawful : world.variables.Lawful where
  values x hx := by
    rw [List.mem_singleton.mp hx]
    exact lawful_priority
  links _ hx := nomatch hx
  values_apart x hx y hy h := by
    rw [List.mem_singleton.mp hx, List.mem_singleton.mp hy] at h
    exact absurd rfl h
  links_apart _ hx := nomatch hx
  kinds_apart _ _ _ hy := nomatch hy
  anchors _ hy := nomatch hy
  stored score s := by
    refine ⟨fun x hx => ?_, fun _ hx => (nomatch hx), fun _ hx => (nomatch hx)⟩
    rw [List.mem_singleton.mp hx]
    exact ⟨rfl, fun _ _ => rfl⟩

end Tasks

-- ================================================================= routing

namespace Routing

/-- What visits follow is a column of them. -/
theorem columnar_previous :
    previous.cells.Columnar fun s => s.visits.map Visit.previous where
  count s := (List.length_map ..).symm
  get s e := by
    rw [List.getElem?_map]
    show (s.visits[e]?).bind Visit.previous
      = ((s.visits[e]?).map Visit.previous).join
    cases s.visits[e]? with
    | none => rfl
    | some visit => rfl

theorem lawful_previous : previous.cells.Lawful := by
  refine columnar_previous.lawful fun s e link => ?_
  show (s.visits.modify e fun v => { v with previous := link }).map
    Visit.previous = _
  exact Cells.map_modify s.visits e fun _ => rfl

theorem lawful : world.variables.Lawful where
  values _ hx := nomatch hx
  links x hx := by
    rw [List.mem_singleton.mp hx]
    exact lawful_previous
  values_apart _ hx := nomatch hx
  links_apart x hx y hy h := by
    rw [List.mem_singleton.mp hx, List.mem_singleton.mp hy] at h
    exact absurd rfl h
  kinds_apart _ hx := nomatch hx
  anchors y hy := by
    rw [List.mem_singleton.mp hy]
    refine ⟨fun _ hx => (nomatch hx), fun x hx s e link => ?_⟩
    rw [List.mem_singleton.mp hx]
    rfl
  stored score s := by
    refine ⟨fun _ hx => (nomatch hx), fun x hx => ?_, fun x hx => ?_⟩
    · rw [List.mem_singleton.mp hx]
      exact ⟨rfl, fun _ _ => rfl⟩
    · rw [List.mem_singleton.mp hx]
      rfl

end Routing

-- =================================================================== mixed

namespace Mixed

/-- A basic variable is the column it holds. -/
theorem columnar_basic (name : String) (descriptor : Nat)
    (column : Mixed → Column) (put : Mixed → Column → Mixed) :
    (basic name descriptor column put).cells.Columnar fun s =>
    (column s).held :=
  ⟨fun _ => rfl, fun _ _ => rfl⟩

/-- A chained variable is the links of its track. -/
theorem columnar_chainedOver (name : String) (descriptor : Nat)
    (track : Mixed → Track) (put : Mixed → Track → Mixed) :
    (chainedOver name descriptor track put).cells.Columnar fun s =>
    (track s).links :=
  ⟨fun _ => rfl, fun _ _ => rfl⟩

/-- The basic variables of the mixed problem. -/
theorem mem_basics {x : BasicVariable Mixed Int}
    (hx : x ∈ world.variables.basics) :
    x = basic "x" 0 Mixed.ax (fun s c => { s with ax := c }) ∨
      x = basic "y" 1 Mixed.ay (fun s c => { s with ay := c }) ∨
      x = basic "z" 2 Mixed.bz (fun s c => { s with bz := c }) ∨
      x = basic "x" 3 Mixed.bx (fun s c => { s with bx := c }) := by
  simpa [World.variables, world, parts, basics] using hx

/-- The chained variables of the mixed problem. -/
theorem mem_chained {x : ChainedVariable Mixed}
    (hx : x ∈ world.variables.chained) :
    x = chainedOver "prev" 4 Mixed.prev (fun s t => { s with prev := t }) ∨
      x = chainedOver "route" 5 Mixed.route
        (fun s t => { s with route := t }) := by
  simpa [World.variables, world, parts, chained] using hx

/-- No two variables share a column or a track. -/
theorem lawful : world.variables.Lawful where
  values x hx := by
    rcases mem_basics hx with rfl | rfl | rfl | rfl <;>
      exact (columnar_basic ..).lawful fun _ _ _ => rfl
  links x hx := by
    rcases mem_chained hx with rfl | rfl <;>
      exact (columnar_chainedOver ..).lawful fun _ _ _ => rfl
  values_apart x hx y hy h := by
    rcases mem_basics hx with rfl | rfl | rfl | rfl <;>
      rcases mem_basics hy with rfl | rfl | rfl | rfl <;>
      first
      | exact absurd rfl h
      | exact (columnar_basic ..).apart fun _ _ _ => rfl
  links_apart x hx y hy h := by
    rcases mem_chained hx with rfl | rfl <;>
      rcases mem_chained hy with rfl | rfl <;>
      first
      | exact absurd rfl h
      | exact (columnar_chainedOver ..).apart fun _ _ _ => rfl
  kinds_apart x hx y hy := by
    rcases mem_basics hx with rfl | rfl | rfl | rfl <;>
      rcases mem_chained hy with rfl | rfl <;>
      exact ⟨(columnar_chainedOver ..).apart fun _ _ _ => rfl,
        (columnar_basic ..).apart fun _ _ _ => rfl⟩
  anchors y hy := by
    constructor
    · intro x hx s e v
      rcases mem_chained hy with rfl | rfl <;>
        rcases mem_basics hx with rfl | rfl | rfl | rfl <;> rfl
    · intro x hx s e link
      rcases mem_chained hy with rfl | rfl <;>
        rcases mem_chained hx with rfl | rfl <;> rfl
  stored score s := by
    refine ⟨fun x hx => ?_, fun x hx => ?_, fun x hx => ?_⟩
    · rcases mem_basics hx with rfl | rfl | rfl | rfl <;>
        exact ⟨rfl, fun _ _ => rfl⟩
    · rcases mem_chained hx with rfl | rfl <;> exact ⟨rfl, fun _ _ => rfl⟩
    · rcases mem_chained hx with rfl | rfl <;> rfl

end Mixed

end PlanSearch

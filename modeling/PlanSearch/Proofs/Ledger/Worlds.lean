/-
Ledgers of problems.

A problem lists its variables and by them its entities, so all that a
ledger of it adds is what they contribute. It is lawful as soon as the
variables are and no two of them share a class (`World.lawful_ledger`).
-/
import PlanSearch.Proofs.Director
import PlanSearch.Proofs.Ledger.Basic
import PlanSearch.Proofs.Problems

namespace PlanSearch

variable {S G : Type}

-- ============================================================== entities

namespace World

variable {world : World S} {s s' : S} {slot : Nat × Nat}

/-- The slots of a world are the entities of its classes. -/
theorem mem_slots :
    slot ∈ world.slots s ↔
    ∃ count, (slot.1, count) ∈ world.counts s ∧ slot.2 < count := by
  unfold slots
  rw [List.mem_flatMap]
  constructor
  · intro h
    obtain ⟨⟨descriptor, count⟩, hcount, hmem⟩ := h
    obtain ⟨e, he, rfl⟩ := List.mem_map.mp hmem
    exact ⟨count, hcount, List.mem_range.mp he⟩
  · intro h
    obtain ⟨count, hcount, hlt⟩ := h
    exact ⟨_, hcount, List.mem_map.mpr ⟨slot.2, List.mem_range.mpr hlt, rfl⟩⟩

/-- Variables of different classes list no entity twice. -/
theorem nodup_slots (distinct : ((world.counts s).map Prod.fst).Nodup) :
    (world.slots s).Nodup := by
  unfold slots
  refine List.nodup_flatMap.mpr ⟨fun count _ => ?_, ?_⟩
  · exact List.nodup_range.map fun _ _ h => (Prod.mk.inj h).2
  · refine (List.pairwise_map.mp distinct).imp fun {first second} hne => ?_
    intro slot hfirst hsecond
    obtain ⟨d, -, rfl⟩ := List.mem_map.mp hfirst
    obtain ⟨e, -, h⟩ := List.mem_map.mp hsecond
    exact hne (Prod.mk.inj h).1.symm

/-- The entity of a slot is one of its class. -/
theorem lt_of_mem_slots (distinct : ((world.counts s).map Prod.fst).Nodup)
    (h : slot ∈ world.slots s) {count : Nat}
    (hcount : (slot.1, count) ∈ world.counts s) : slot.2 < count := by
  obtain ⟨other, hother, hlt⟩ := mem_slots.mp h
  have heq := List.inj_on_of_nodup_map distinct hother hcount rfl
  exact (Prod.mk.inj heq).2 ▸ hlt

/-- Entities depend on their numbers alone. -/
theorem slots_congr
    (basics : ∀ x ∈ world.variables.basics, x.count s' = x.count s)
    (chained : ∀ x ∈ world.variables.chained, x.count s' = x.count s) :
    world.slots s' = world.slots s := by
  have hcounts : world.counts s' = world.counts s := by
    unfold counts
    congr 1
    · refine List.map_congr_left fun b hb => ?_
      rw [basics b.2 (List.mem_map_of_mem hb)]
    · refine List.map_congr_left fun x hx => ?_
      rw [chained x hx]
  unfold slots
  rw [hcounts]

/-- Each basic variable has a class that is counted. -/
theorem mem_counts_of_basic {x : BasicVariable S Int}
    (hx : x ∈ world.variables.basics) (s : S) :
    (x.descriptor, x.count s) ∈ world.counts s := by
  obtain ⟨b, hb, rfl⟩ := List.mem_map.mp hx
  exact List.mem_append_left _ (List.mem_map.mpr ⟨b, hb, rfl⟩)

/-- Each chained variable has a class that is counted. -/
theorem mem_counts_of_chained {x : ChainedVariable S}
    (hx : x ∈ world.variables.chained) (s : S) :
    (x.descriptor, x.count s) ∈ world.counts s :=
  List.mem_append_right _ (List.mem_map.mpr ⟨x, hx, rfl⟩)

-- =============================================================== ledgers

/-- The ledger of a problem without facts. -/
def ledger (world : World S) (share : Nat × Nat → Holding Int → G)
    (grade : G → HardSoft) : Ledger S Int Unit G HardSoft where
  family := world.variables
  slots := world.slots
  facts _ := ()
  share _ := share
  grade := grade

/-- A world whose classes are told apart has a lawful ledger, whatever the
shares and however they are graded. -/
theorem lawful_ledger [Planning S HardSoft] (accessors : world.variables.Lawful)
    (distinct : ∀ s, ((world.counts s).map Prod.fst).Nodup)
    (class_eq : ∀ x ∈ world.variables.basics, ∀ y ∈ world.variables.basics,
      x.cells = y.cells → x.descriptor = y.descriptor)
    (class_eq_links : ∀ x ∈ world.variables.chained,
        ∀ y ∈ world.variables.chained,
      x.cells = y.cells → x.descriptor = y.descriptor)
    (share : Nat × Nat → Holding Int → G) (grade : G → HardSoft) :
    (world.ledger share grade).Lawful where
  accessors := accessors
  class_eq := class_eq
  class_eq_links := class_eq_links
  nodup s := nodup_slots (distinct s)
  known s slot hslot := by
    constructor
    · intro x hx hclass
      exact lt_of_mem_slots (distinct s) hslot
        (hclass ▸ mem_counts_of_basic hx s)
    · intro x hx hclass
      exact lt_of_mem_slots (distinct s) hslot
        (hclass ▸ mem_counts_of_chained hx s)
  set x hx s e v := by
    refine ⟨slots_congr (fun y hy => ?_) fun y hy => ?_, rfl⟩
    · exact accessors.count_setAll hx hy [(e, v)] s
    · exact (accessors.kinds_apart x hx y hy).1.count_set s e v
  set_link x hx s e link := by
    refine ⟨slots_congr (fun y hy => ?_) fun y hy => ?_, rfl⟩
    · exact (accessors.kinds_apart y hy x hx).2.count_set s e link
    · by_cases h : x.cells = y.cells
      · have own := (accessors.links x hx).count_set s e link
        rw [h] at own
        rw [← show x.cells.set s e link = x.set s e link from rfl, h]
        exact own
      · exact (accessors.links_apart x hx y hy h).count_set s e link
  store score s := by
    have same := accessors.stored score s
    exact ⟨slots_congr (fun x hx => (same.values x hx).count)
      fun x hx => (same.links x hx).count, rfl⟩

end World

-- ================================================================== mixed

namespace Mixed

/-- What a value comes to, as hard and soft points. -/
def valuePoints (descriptor : Nat) : Option Int → Int × Int
  | none => (-1, 0)
  | some value => (0, -(value * (descriptor + 1)))

/-- What a link comes to. -/
def linkPoints (entity : Nat) : Option Link → Int × Int
  | none => (-1, 0)
  | some (.anchor a) => (0, -(((entity : Int) + 1) * 10 - a * 5).natAbs)
  | some (.entity p) => (0, -(((entity : Int) - p).natAbs * 10))

/-- What an entity comes to: each class has one variable. -/
def points (slot : Nat × Nat) : Holding Int → Int × Int
  | ⟨[value], _⟩ => valuePoints slot.1 value
  | ⟨_, [link]⟩ => linkPoints slot.2 link
  | _ => (0, 0)

/-- The contributions of the plan, in integers that do not end. -/
def ledger : Ledger Mixed Int Unit (Int × Int) HardSoft :=
  world.ledger points fun points =>
    HardSoft.of (Int64.ofInt points.1) (Int64.ofInt points.2)

instance : LawfulPlanning Mixed := ⟨fun _ _ => rfl, fun _ _ _ => rfl⟩

theorem lawful_ledger : ledger.Lawful := by
  -- a plan in which no two variables have equally many entities
  let uneven : Mixed :=
    ⟨⟨[], []⟩, ⟨[none], []⟩, ⟨[none, none], []⟩, ⟨[none, none, none], []⟩,
    ⟨[], 0⟩, ⟨[none], 0⟩, none⟩
  refine World.lawful_ledger lawful (fun s => ?_) (fun x hx y hy h => ?_)
    (fun x hx y hy h => ?_) _ _
  · show [0, 1, 2, 3, 4, 5].Nodup
    decide
  · have hcount := congrArg (fun c => c.count uneven) h
    rcases mem_basics hx with rfl | rfl | rfl | rfl <;>
      rcases mem_basics hy with rfl | rfl | rfl | rfl <;>
      first
      | rfl
      | cases hcount
  · have hcount := congrArg (fun c => c.count uneven) h
    rcases mem_chained hx with rfl | rfl <;>
      rcases mem_chained hy with rfl | rfl <;>
      first
      | rfl
      | cases hcount

/-- An entity that is appended to the first column. -/
theorem grows_append (value : Option Int) (s : Mixed) :
    ledger.Grows (0, s.ax.held.length) s
      { s with ax := { s.ax with held := s.ax.held ++ [value] } } := by
  let rest (s : Mixed) : List (Nat × Nat) :=
    (world.counts s).tail.flatMap fun count =>
      (List.range count.2).map fun e => (count.1, e)
  have hslots : ∀ s : Mixed, ledger.slots s =
      (List.range s.ax.held.length).map (fun e => (0, e)) ++
        rest s := fun _ => rfl
  refine ⟨?_, rfl, fun slot hslot =>
    Variables.holding_congr (fun x hx hclass => ?_) fun x hx _ => ?_⟩
  · rw [hslots, hslots, List.length_append, List.length_singleton,
      List.range_succ, List.map_append, List.append_assoc]
    exact List.perm_middle
  · have hlt := (lawful_ledger.known s slot hslot).1 x hx hclass
    rcases mem_basics hx with rfl | rfl | rfl | rfl
    · show (s.ax.held ++ [value])[slot.2]?.join = s.ax.held[slot.2]?.join
      rw [List.getElem?_append_left hlt]
    · rfl
    · rfl
    · rfl
  · rcases mem_chained hx with rfl | rfl <;> rfl

end Mixed

end PlanSearch

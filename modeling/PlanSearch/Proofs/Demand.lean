/-
Demand as a construction counts on it.

`Demand.Lawful` says what the accessors of a problem promise each other:
an appended entity stands last, an assignment is seen by its own entity
only and forgets what was there, and neither of them sees the score that a
director stores.

The units of a solution have one strictly increasing order and no other:
the keys are compared in turn, and the last of them, the position, is never
the same for two units. Sorting finds this order. It merges; the same comes
of insertion (`mergeSort_eq_insertionSort`), which follows the list and can
be evaluated.
-/
import Mathlib.Data.List.Sort
import PlanSearch.Demand.Weight
import PlanSearch.Problem.Roster
import PlanSearch.Problem.Units
import PlanSearch.Proofs.Checked
import PlanSearch.Proofs.Director

namespace PlanSearch

variable {S E V Date T Sc : Type}

-- ============================================================= accessors

namespace Demand

/-- Accessors as their users count on them. -/
structure Lawful (demand : Demand S E V Date T) [Planning S Sc] : Prop where
  index_weight : ∀ s unit, (demand.weight s unit).index = unit
  id_mint : ∀ s id unit, demand.id (demand.mint s id unit) = id
  entities_push : ∀ e s, demand.entities (demand.push e s)
    = demand.entities s ++ [e]
  assigned_push : ∀ e s, ∀ i < (demand.entities s).length,
    demand.assigned (demand.push e s) i = demand.assigned s i
  ids_assign : ∀ i v s,
    (demand.entities (demand.assign i v s)).map demand.id
      = (demand.entities s).map demand.id
  entities_assign_of_ne : ∀ i v s j, j ≠ i →
    (demand.entities (demand.assign i v s))[j]? = (demand.entities s)[j]?
  assigned_assign : ∀ i v s, i < (demand.entities s).length →
    demand.assigned (demand.assign i v s) i = v
  assigned_assign_of_ne : ∀ i v s j, j ≠ i →
    demand.assigned (demand.assign i v s) j = demand.assigned s j
  assign_assign : ∀ i v w s, demand.assign i v (demand.assign i w s)
    = demand.assign i v s
  install_entities : ∀ s, demand.install (demand.entities s) s = s
  entities_store : ∀ (score : Option Sc) s,
    demand.entities (Planning.store score s) = demand.entities s
  assigned_store : ∀ (score : Option Sc) s i,
    demand.assigned (Planning.store score s) i = demand.assigned s i
  candidates_store : ∀ (score : Option Sc) s unit,
    demand.candidates (Planning.store score s) unit = demand.candidates s unit
  mint_store : ∀ (score : Option Sc) s id unit,
    demand.mint (Planning.store score s) id unit = demand.mint s id unit
  push_store : ∀ (score : Option Sc) e s,
    demand.push e (Planning.store score s)
      = Planning.store score (demand.push e s)
  assign_store : ∀ (score : Option Sc) i v s,
    demand.assign i v (Planning.store score s)
      = Planning.store score (demand.assign i v s)

/-- A problem that keeps its entities in a list, from which `value` reads
what an entity holds and into which `fill` writes it. -/
structure Listed (demand : Demand S E V Date T) [Planning S Sc]
    (value : E → Option V) (fill : Option V → E → E) : Prop where
  index_weight : ∀ s unit, (demand.weight s unit).index = unit
  id_mint : ∀ s id unit, demand.id (demand.mint s id unit) = id
  id_fill : ∀ v e, demand.id (fill v e) = demand.id e
  value_fill : ∀ v e, value (fill v e) = v
  fill_fill : ∀ v w e, fill v (fill w e) = fill v e
  entities_install : ∀ es s, demand.entities (demand.install es s) = es
  install_install : ∀ es es' s, demand.install es (demand.install es' s)
    = demand.install es s
  install_entities : ∀ s, demand.install (demand.entities s) s = s
  push : ∀ e s, demand.push e s = demand.install (demand.entities s ++ [e]) s
  assigned : ∀ s i, demand.assigned s i = (demand.entities s)[i]?.bind value
  assign : ∀ i v s, demand.assign i v s
    = demand.install ((demand.entities s).modify i (fill v)) s
  entities_store : ∀ (score : Option Sc) s,
    demand.entities (Planning.store score s) = demand.entities s
  install_store : ∀ (score : Option Sc) es s,
    demand.install es (Planning.store score s)
      = Planning.store score (demand.install es s)
  candidates_store : ∀ (score : Option Sc) s unit,
    demand.candidates (Planning.store score s) unit = demand.candidates s unit
  mint_store : ∀ (score : Option Sc) s id unit,
    demand.mint (Planning.store score s) id unit = demand.mint s id unit

variable {demand : Demand S E V Date T} [Planning S Sc] {value : E → Option V}
  {fill : Option V → E → E}

/-- A demand over a list that is written in place keeps to its laws. -/
theorem Listed.lawful (h : demand.Listed value fill) : demand.Lawful where
  index_weight := h.index_weight
  id_mint := h.id_mint
  entities_push e s := by rw [h.push, h.entities_install]
  assigned_push e s i hi := by
    rw [h.assigned, h.assigned, h.push, h.entities_install,
      List.getElem?_append_left hi]
  ids_assign i v s := by
    rw [h.assign, h.entities_install]
    refine List.ext_getElem? fun j => ?_
    rw [List.getElem?_map, List.getElem?_map, List.getElem?_modify]
    cases (demand.entities s)[j]? with
    | none => rfl
    | some e =>
        show some (demand.id (if i = j then fill v e else e)) = _
        split
        · rw [h.id_fill]
          rfl
        · rfl
  entities_assign_of_ne i v s j hj := by
    rw [h.assign, h.entities_install, List.getElem?_modify_ne _ _ hj.symm]
  assigned_assign i v s hi := by
    rw [h.assigned, h.assign, h.entities_install, List.getElem?_modify_eq,
      List.getElem?_eq_getElem hi]
    exact h.value_fill v _
  assigned_assign_of_ne i v s j hj := by
    rw [h.assigned, h.assigned, h.assign, h.entities_install,
      List.getElem?_modify_ne _ _ hj.symm]
  assign_assign i v w s := by
    rw [h.assign, h.assign, h.assign, h.entities_install, h.install_install,
      List.modify_modify_eq]
    exact congrArg (fun g => demand.install (List.modify _ i g) s)
      (funext (h.fill_fill v w))
  install_entities := h.install_entities
  entities_store := h.entities_store
  assigned_store score s i := by rw [h.assigned, h.assigned, h.entities_store]
  candidates_store := h.candidates_store
  mint_store := h.mint_store
  push_store score e s := by
    rw [h.push, h.push, h.entities_store, h.install_store]
  assign_store score i v s := by
    rw [h.assign, h.assign, h.entities_store, h.install_store]

end Demand

-- ============================================================= insertion

section

variable {α : Type}

/-- An element is inserted in front of the first one that it may precede. -/
theorem orderedInsert_append {le : α → α → Prop} [DecidableRel le] {a : α}
    {before after : List α} (hbefore : ∀ b ∈ before, ¬ le a b)
    (hafter : ∀ b ∈ after, le a b) :
    (before ++ after).orderedInsert le a = before ++ a :: after := by
  induction before with
  | nil =>
      cases after with
      | nil => exact List.orderedInsert_nil ..
      | cons b after =>
          exact List.orderedInsert_cons_of_le _ _
            (hafter b (List.mem_cons_self ..))
  | cons b before ih =>
      rw [List.cons_append, List.orderedInsert_of_not_le _ _
        (hbefore b (List.mem_cons_self ..)),
        ih fun c hc => hbefore c (List.mem_cons_of_mem b hc)]
      rfl

/-- Merging and insertion are both stable, so they sort alike, also where
different elements compare as equal. -/
theorem mergeSort_eq_insertionSort {le : α → α → Bool}
    (trans : ∀ a b c, le a b = true → le b c = true → le a c = true)
    (total : ∀ a b, (le a b || le b a) = true) (entries : List α) :
    entries.mergeSort le = entries.insertionSort fun a b => le a b = true := by
  induction entries with
  | nil => exact List.mergeSort_nil
  | cons a rest ih =>
      obtain ⟨before, after, hsort, hrest, hbefore⟩ :=
        List.mergeSort_cons trans total a rest
      have hpairs := List.pairwise_mergeSort trans total (a :: rest)
      rw [hsort] at hpairs
      have hafter : ∀ b ∈ after, le a b = true := fun b hb =>
        List.rel_of_pairwise_cons (List.pairwise_append.mp hpairs).2.1 hb
      rw [List.insertionSort_cons, ← ih, hrest, hsort]
      refine (orderedInsert_append (fun b hb hle => ?_) hafter).symm
      have hnot := hbefore b hb
      rw [hle] at hnot
      cases hnot

end

-- ================================================================= order

namespace Weight

variable [Ord Date] [Ord T]

/-- The keys are compared in turn, the required number the other way round. -/
theorem order_eq_compareLex :
    (order : Weight Date T → Weight Date T → Ordering)
      = compareLex (compareOn Weight.date)
        (compareLex (fun a b => compareOn Weight.required b a)
      (compareLex (compareOn Weight.discriminator) (compareOn Weight.index))) :=
        rfl

instance [Std.TransOrd Date] [Std.TransOrd T] :
    Std.TransCmp (order : Weight Date T → Weight Date T → Ordering) := by
  rw [order_eq_compareLex]
  have : Std.TransCmp fun a b : Weight Date T =>
      compareOn Weight.required b a :=
    Std.TransCmp.opposite
  infer_instance

/-- Units of equal weight in all keys are one unit. -/
theorem index_eq_of_order_eq {a b : Weight Date T} (h : order a b = .eq) :
    a.index = b.index := by
  unfold order at h
  simp only [Ordering.then_eq_eq] at h
  exact Nat.compare_eq_eq.mp h.2.2.2

variable [Std.TransOrd Date] [Std.TransOrd T]
  {weights others : List (Weight Date T)}

/-- The order of units is transitive, as a test of what may stand first. -/
theorem order_trans (a b c : Weight Date T) (hab : (order a b != .gt) = true)
    (hbc : (order b c != .gt) = true) : (order a c != .gt) = true := by
  simp only [bne_iff_ne, ne_eq, ← Ordering.isLE_iff_ne_gt] at hab hbc ⊢
  exact Std.TransCmp.isLE_trans hab hbc

/-- Of two units one may stand first. -/
theorem order_total (a b : Weight Date T) :
    (order a b != .gt || order b a != .gt) = true := by
  have hswap : order b a = (order a b).swap := Std.OrientedCmp.eq_swap
  rw [hswap]
  cases order a b <;> rfl

/-- Units can be sorted by insertion. -/
theorem sort_eq_insertionSort (weights : List (Weight Date T)) :
    sort weights =
      weights.insertionSort fun a b => (order a b != .gt) = true :=
  mergeSort_eq_insertionSort order_trans order_total weights

/-- Units at different positions come out strictly increasing. -/
theorem pairwise_sort (distinct : (weights.map Weight.index).Nodup) :
    (sort weights).Pairwise fun a b => order a b = .lt := by
  have hperm : (sort weights).Perm weights := List.mergeSort_perm weights _
  have hdistinct : (sort weights).Pairwise fun a b => a.index ≠ b.index :=
    List.pairwise_map.mp ((hperm.map Weight.index).nodup_iff.mpr distinct)
  have hsorted : (sort weights).Pairwise fun a b =>
      (order a b != .gt) = true :=
    List.pairwise_mergeSort order_trans order_total weights
  refine (hsorted.and hdistinct).imp fun {a b} h => ?_
  cases hab : order a b with
  | lt => rfl
  | eq => exact absurd (index_eq_of_order_eq hab) h.2
  | gt =>
      rw [hab] at h
      cases h.1

/-- There is one strictly increasing order. -/
theorem eq_sort_of_perm (distinct : (weights.map Weight.index).Nodup)
    (h : others.Perm weights)
    (increasing : others.Pairwise fun a b => order a b = .lt) :
    others = sort weights := by
  refine List.Perm.eq_of_pairwise (fun a b _ _ hab hba => ?_) increasing
    (pairwise_sort distinct)
    (h.trans (List.mergeSort_perm weights _).symm)
  have hswap : order a b = (order b a).swap := Std.OrientedCmp.eq_swap
  rw [hab, hba] at hswap
  cases hswap

end Weight

-- ================================================================ places

namespace Demand

/-- The positions of the units, each as often as it needs an entity. -/
def places (units : List (Weight Date T)) : List Nat :=
  units.flatMap fun w => List.replicate w.required w.index

/-- The units of a solution, strictly increasing. -/
structure InOrder [Ord Date] [Ord T] (demand : Demand S E V Date T) (s : S)
    (units : List (Weight Date T)) : Prop where
  perm : units.Perm ((List.range (demand.count s)).map (demand.weight s))
  increasing : units.Pairwise fun a b => Weight.order a b = .lt

section

variable [Ord Date] [Ord T] [Std.TransOrd Date] [Std.TransOrd T] [Planning S Sc]
  {demand : Demand S E V Date T}

/-- The units of a solution have one strictly increasing order: the one in
which they are met. -/
theorem Lawful.inOrder_iff (lawful : demand.Lawful) {s : S}
    {units : List (Weight Date T)} : demand.InOrder s units ↔
    units = demand.ordered s := by
  have distinct :
      (((List.range (demand.count s)).map (demand.weight s)).map
          Weight.index).Nodup := by
    have hindex : Weight.index ∘ demand.weight s = fun unit => unit :=
      funext (lawful.index_weight s)
    rw [List.map_map, hindex, List.map_id']
    exact List.nodup_range
  constructor
  · exact fun h => Weight.eq_sort_of_perm distinct h.perm h.increasing
  · rintro rfl
    exact ⟨List.mergeSort_perm _ _, Weight.pairwise_sort distinct⟩

end

/-- So can entities, by their ids. -/
theorem mergeSort_id (demand : Demand S E V Date T) (entities : List E) :
    entities.mergeSort (fun a b => decide (demand.id a ≤ demand.id b)) =
      entities.insertionSort fun a b =>
        decide (demand.id a ≤ demand.id b) = true := by
  refine mergeSort_eq_insertionSort (fun a b c hab hbc => ?_)
    (fun a b => ?_) entities
  · exact decide_eq_true (Nat.le_trans (of_decide_eq_true hab)
      (of_decide_eq_true hbc))
  · rw [Bool.or_eq_true, decide_eq_true_iff, decide_eq_true_iff]
    exact Nat.le_total _ _

/-- Entities whose ids were given out in order stand in that order. -/
theorem mergeSort_of_ids (demand : Demand S E V Date T)
    {entities : List E} {n : Nat} (h : entities.map demand.id = List.range n) :
    entities.mergeSort (fun a b => decide (demand.id a ≤ demand.id b))
      = entities := by
  refine List.mergeSort_of_pairwise
    (List.Pairwise.imp (R := fun a b => demand.id a ≤ demand.id b)
    (fun hle => decide_eq_true hle) (List.pairwise_map.mp ?_))
  rw [h]
  exact List.pairwise_le_range

/-- The sum of the required numbers is the number of places, if that is a
count. -/
theorem countSum_required (units : List (Weight Date T)) :
    Checked.countSum (units.map Weight.required)
      = Checked.count (places units).length := by
  rw [Checked.countSum_eq, places, List.length_flatMap]
  simp only [List.length_replicate]

end Demand

-- ================================================================ problems

instance : Std.TransOrd ShiftKind :=
  inferInstanceAs (Std.TransCmp (compareOn ShiftKind.rank))

namespace Roster

instance : LawfulPlanning Roster where
  stored_store _ _ := rfl
  store_store _ _ _ := rfl

theorem listed_demand :
    demand.Listed Assignment.employee fun employee a =>
    { a with employee := employee } where
  index_weight s unit := by
    dsimp only [demand]
    split <;> rfl
  id_mint _ _ _ := rfl
  id_fill _ _ := rfl
  value_fill _ _ := rfl
  fill_fill _ _ _ := rfl
  entities_install _ _ := rfl
  install_install _ _ _ := rfl
  install_entities _ := rfl
  push _ _ := rfl
  assigned _ _ := rfl
  assign _ _ _ := rfl
  entities_store _ _ := rfl
  install_store _ _ _ := rfl
  candidates_store _ _ _ := rfl
  mint_store _ _ _ _ := rfl

theorem lawful_demand : demand.Lawful := listed_demand.lawful

end Roster

namespace Units

instance : LawfulPlanning Units where
  stored_store _ _ := rfl
  store_store _ _ _ := rfl

theorem listed_demand :
    demand.Listed Slot.value fun value slot =>
    { slot with value := value } where
  index_weight s unit := by
    dsimp only [demand]
    split <;> rfl
  id_mint _ _ _ := rfl
  id_fill _ _ := rfl
  value_fill _ _ := rfl
  fill_fill _ _ _ := rfl
  entities_install _ _ := rfl
  install_install _ _ _ := rfl
  install_entities _ := rfl
  push _ _ := rfl
  assigned _ _ := rfl
  assign _ _ _ := rfl
  entities_store _ _ := rfl
  install_store _ _ _ := rfl
  candidates_store _ _ _ := rfl
  mint_store _ _ _ _ := rfl

theorem lawful_demand : demand.Lawful := listed_demand.lawful

end Units

end PlanSearch

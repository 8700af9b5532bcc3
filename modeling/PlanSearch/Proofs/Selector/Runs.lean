/-
Runs of a list.

A run is cut out of a list by where it starts and how long it is. Pillars
are runs of a group, and segments are runs of a chain. Both are listed by
going through starts and sizes, in one order or the other, and nothing
comes twice, because in a list of distinct items a run that is not empty
is cut out in one way only (`runOf_inj`).
-/
import Mathlib.Data.List.Nodup
import PlanSearch.Selector.Pillar

namespace PlanSearch

variable {α β : Type}

-- ==================================================================== pairs

/-- Items with what goes with each of them. -/
theorem nodup_flatMap_pair {items : List α} {f : α → List β}
    (hitems : items.Nodup) (hf : ∀ a ∈ items, (f a).Nodup) :
    (items.flatMap fun a => (f a).map (Prod.mk a)).Nodup := by
  refine List.nodup_flatMap.mpr ⟨fun a ha => ?_, ?_⟩
  · exact (hf a ha).map fun b c h => congrArg Prod.snd h
  · refine hitems.imp fun {a b} hab => ?_
    intro p hpa hpb
    obtain ⟨_, -, rfl⟩ := List.mem_map.mp hpa
    obtain ⟨_, -, h⟩ := List.mem_map.mp hpb
    exact hab (congrArg Prod.fst h).symm

/-- Pairs of an item and something of it. -/
theorem mem_flatMap_pair {items : List α} {f : α → List β} {p : α × β} :
    p ∈ (items.flatMap fun a => (f a).map (Prod.mk a)) ↔
    p.1 ∈ items ∧ p.2 ∈ f p.1 := by
  rw [List.mem_flatMap]
  constructor
  · rintro ⟨a, ha, h⟩
    obtain ⟨b, hb, rfl⟩ := List.mem_map.mp h
    exact ⟨ha, hb⟩
  · rintro ⟨ha, hb⟩
    exact ⟨p.1, ha, List.mem_map.mpr ⟨p.2, hb, rfl⟩⟩

/-- The numbers from one to another. -/
theorem mem_upTo {low high n : Nat} : n ∈ upTo low high ↔
    low ≤ n ∧ n ≤ high := by
  unfold upTo
  rw [List.mem_range'_1]
  omega

-- ===================================================================== runs

variable {items run : List Nat} {start size : Nat}

theorem length_runOf (h : size ≤ items.length - start) :
    (runOf items start size).length = size := by
  unfold runOf
  rw [List.length_take, List.length_drop, Nat.min_eq_left h]

/-- A run is a part of the list. -/
theorem runOf_isInfix (items : List Nat) (start size : Nat) :
    runOf items start size <:+: items :=
  (List.take_prefix _ _).isInfix.trans (List.drop_suffix _ _).isInfix

/-- A run starts somewhere, and ends no later than the list. -/
theorem isInfix_iff_runOf :
    run <:+: items ↔
      ∃ start, start + run.length ≤ items.length ∧
        runOf items start run.length = run := by
  constructor
  · rintro ⟨front, back, rfl⟩
    refine ⟨front.length, ?_, ?_⟩
    · simp only [List.length_append]
      omega
    · unfold runOf
      rw [List.append_assoc, List.drop_left, List.take_left]
  · rintro ⟨start, -, hrun⟩
    rw [← hrun]
    exact runOf_isInfix items start run.length

/-- A run starts where it is said to. -/
theorem head_runOf (hstart : start < items.length) (hsize : 1 ≤ size) :
    (runOf items start size)[0]? = some items[start] := by
  unfold runOf
  rw [List.getElem?_take_of_lt hsize, List.getElem?_drop, Nat.add_zero,
    List.getElem?_eq_getElem hstart]

/-- A run is told from the others by its first item and its length. -/
theorem runOf_inj (nodup : items.Nodup) {start' size' : Nat}
    (hsize : 1 ≤ size ∧ size ≤ items.length - start)
    (hsize' : 1 ≤ size' ∧ size' ≤ items.length - start')
    (h : runOf items start size = runOf items start' size') :
    start = start' ∧ size = size' := by
  have hstart : start < items.length := by omega
  have hstart' : start' < items.length := by omega
  have hfirst := head_runOf hstart hsize.1
  rw [h, head_runOf hstart' hsize'.1] at hfirst
  refine ⟨((List.Nodup.getElem_inj_iff nodup).mp
    (Option.some_inj.mp hfirst)).symm, ?_⟩
  rw [← length_runOf hsize.2, h, length_runOf hsize'.2]

end PlanSearch

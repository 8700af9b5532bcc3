/-
Products in the given order.

A product reads each of its children to the end before it hands out
anything, so where every child has a finite pass the product has all there
is to combine. What it hands out then is every combination of one move of
each child, once, and it ends after the last.

# Combinations

A combination is said by places: the number, in the pass of each child, of
the move that stands there (`Combines`). Two moves of a child that are alike
still stand at two places, so places can be told apart where combinations
cannot. The order of a product is that of the places, compared like words in
a dictionary, so that the last child turns fastest.

# Reading the children

Each child is read from the counters that the children before it have left.
A child keeps to its own part of the tree, so its pass is the one that it
has if it is read alone (`exists_reaches_drainAll`).
-/
import Mathlib.Data.List.Lex
import PlanSearch.Proofs.Selector.Complete
import PlanSearch.Proofs.Selector.Sizes

namespace PlanSearch

-- ============================================================= combinations

/-- One item of each list, each given by its place in the list. -/
inductive Combines {α : Type} : List (List α) → List Nat → List α → Prop
  | nil : Combines [] [] []
  | cons {pool : List α} {pools : List (List α)} {i : Nat} {place :
      List Nat} {a : α}
      {items : List α} : pool[i]? = some a → Combines pools place items →
      Combines (pool :: pools) (i :: place) (a :: items)

/-- A combination of at least one list holds an item. -/
theorem Combines.ne_nil {α : Type} {pools : List (List α)} {place : List Nat}
    {items : List α} (h : Combines pools place items) (hpools : pools ≠ []) :
    items ≠ [] := by
  cases h with
  | nil => exact absurd rfl hpools
  | cons _ _ => exact List.cons_ne_nil _ _

/-- Every combination of some lists beside its places, the last list turning
fastest. -/
def placedChoices {α : Type} : List (List α) → List (List Nat × List α)
  | [] => [([], [])]
  | pool :: rest => pool.zipIdx.flatMap fun c =>
      (placedChoices rest).map fun d => (c.2 :: d.1, c.1 :: d.2)

section

variable {α : Type} {pools : List (List α)}

/-- The choices with their places are the combinations. -/
theorem mem_placedChoices_iff {place : List Nat} {items : List α} :
    (place, items) ∈ placedChoices pools ↔ Combines pools place items := by
  induction pools generalizing place items with
  | nil =>
      constructor
      · intro h
        cases List.mem_singleton.1 h
        exact .nil
      · intro h
        cases h
        exact List.mem_singleton.2 rfl
  | cons pool rest ih =>
      simp only [placedChoices, List.mem_flatMap, List.mem_map]
      constructor
      · intro h
        rcases h with ⟨⟨a, i⟩, ha, ⟨place, items⟩, hrest, heq⟩
        cases heq
        exact .cons (List.mem_zipIdx_iff_getElem?.1 ha) (ih.1 hrest)
      · intro h
        rcases h with _ | ⟨ha, hrest⟩
        exact ⟨(_, _), List.mem_zipIdx_iff_getElem?.2 ha, (_, _),
          ih.2 hrest, rfl⟩

/-- Choices are listed in the order of their places. -/
theorem map_snd_placedChoices (pools : List (List α)) :
    (placedChoices pools).map Prod.snd = choices pools := by
  induction pools with
  | nil => rfl
  | cons pool rest ih =>
      have hpool : pool = pool.zipIdx.map Prod.fst := by
        rw [List.zipIdx_map_fst]
      rw [placedChoices, choices, List.map_flatMap, ← ih]
      conv_rhs => rw [hpool, List.flatMap_map]
      simp [Function.comp_def]

/-- Combinations come in the order of their places, so none comes twice. -/
theorem pairwise_placedChoices (pools : List (List α)) :
    ((placedChoices pools).map Prod.fst).Pairwise (· < ·) := by
  induction pools with
  | nil => exact List.pairwise_singleton _ _
  | cons pool rest ih =>
      rw [List.pairwise_map] at ih ⊢
      rw [placedChoices, List.pairwise_flatMap]
      constructor
      · rintro ⟨a, i⟩ -
        rw [List.pairwise_map]
        exact ih.imp fun hlt => List.cons_lt_cons_iff.2 (.inr ⟨rfl, hlt⟩)
      · have hplaces : (pool.zipIdx.map Prod.snd).Pairwise (· < ·) := by
          rw [List.zipIdx_map_snd]
          exact List.pairwise_lt_range'
        rw [List.pairwise_map] at hplaces
        refine hplaces.imp fun hlt x hx y hy => ?_
        obtain ⟨d, -, rfl⟩ := List.mem_map.1 hx
        obtain ⟨d', -, rfl⟩ := List.mem_map.1 hy
        exact List.cons_lt_cons_iff.2 (.inl hlt)

/-- There is a combination if every list has an item. -/
theorem placedChoices_eq_nil_iff : placedChoices pools = [] ↔ [] ∈ pools := by
  induction pools with
  | nil => simp [placedChoices]
  | cons pool rest ih =>
      rw [placedChoices, List.flatMap_eq_nil_iff, List.mem_cons, ← ih]
      constructor
      · intro h
        cases pool with
        | nil => exact .inl rfl
        | cons a pool =>
            exact .inr (List.map_eq_nil_iff.1 (h (a, 0) List.mem_cons_self))
      · intro h
        rcases h with rfl | h
        · exact fun c hc => nomatch hc
        · intro c _
          rw [h, List.map_nil]

end

-- ================================================================== children

variable {S V : Type} [BEq V] {s : S} {path : List Nat} {passes : Passes}
  {full : Nat → List (Move S V)}

namespace Reading

/-- Children that have finite passes are read to their ends, one after the
other, and what is read is the pass of each. -/
theorem exists_reaches_drainAll {children : List (Selector S V × Nat)}
    (hdistinct : (children.map Prod.snd).Nodup)
    (hfull : ∀ c ∈ children, c.1.Reads s (path ++ [c.2]) passes (full c.2)) :
    ∃ after, Act.Reaches (fun fuel => drainAll s fuel children path) passes
      (some (children.map fun c => full c.2)) after := by
  induction children generalizing passes with
  | nil =>
      refine ⟨passes, Act.Reaches.later ?_⟩
      simp only [drainAll]
      exact Act.reaches_of_run fun _ => rfl
  | cons c rest ih =>
      rw [List.map_cons, List.nodup_cons] at hdistinct
      obtain ⟨hnew, hrest⟩ := hdistinct
      obtain ⟨hc, hothers⟩ := List.forall_mem_cons.1 hfull
      obtain ⟨reading, opened, hopen, hreads⟩ := hc
      have hzoned := zoned (V := V) s (path ++ [c.2])
      obtain ⟨hrooted, hopened⟩ :=
        hopen.apart fun fuel => (hzoned fuel).openOn c.1 _ (List.prefix_refl _)
      obtain ⟨read, hdrain⟩ := hreads.drain hrooted []
      obtain ⟨-, hread⟩ :=
        hdrain.apart fun fuel => (hzoned fuel).drain reading [] hrooted
      -- those after the child do not look at what it has moved
      have hlater : ∀ d ∈ rest,
          d.1.Reads s (path ++ [d.2]) read (full d.2) := by
        intro d hd
        refine (hothers d hd).alike fun other hother => ?_
        have hapart : ¬ path ++ [c.2] <+: other := by
          intro hbelow
          rw [child_unique hbelow hother] at hnew
          exact hnew (List.mem_map_of_mem hd)
        rw [hread other hapart, hopened other hapart]
      obtain ⟨after, hall⟩ := ih hrest hlater
      have hpath := hrooted.mono (List.prefix_append path [c.2])
      refine ⟨after, Act.Reaches.later ?_⟩
      simp only [drainAll]
      have hdrained : ∀ fuel, (drain s fuel reading []).Within (path <+: ·)
          fun _ => True :=
        fun fuel => (zoned s path fuel).drain reading [] hpath
      refine hopen.bind_bind hdrain hdrained (fun fuel pool => ?_) ?_
      · cases pool with
        | none => exact Act.within_pure trivial
        | some pool =>
            refine ((zoned s path fuel).drainAll rest path
              (List.prefix_refl path)).bind ?_
            intro pools _
            cases pools <;> exact Act.within_pure trivial
      · exact hall.bind_pure fun _ => rfl

end Reading

namespace Selector

variable {children : List (Selector S V)} {ignoreEmpty : Bool}

/-- A product hands out the combinations of the passes that its children have
if each is read alone from here. -/
theorem reads_product (hfull : ∀ c ∈ children.zipIdx,
      c.1.Reads s (path ++ [c.2]) passes (full c.2)) :
    (product children ignoreEmpty .given : Selector S V).Reads s path passes
      (combinations ignoreEmpty ((List.range children.length).map full)) := by
  have hdistinct : (children.zipIdx.map Prod.snd).Nodup := by
    rw [List.zipIdx_map_snd]
    exact List.nodup_range'
  have hpools : children.zipIdx.map (fun c => full c.2)
      = (List.range children.length).map full := by
    calc children.zipIdx.map (fun c => full c.2)
        = (children.zipIdx.map Prod.snd).map full := by rw [List.map_map]; rfl
      _ = (List.range children.length).map full := by
          rw [List.zipIdx_map_snd, List.range_eq_range']
  obtain ⟨after, hdrained⟩ := Reading.exists_reaches_drainAll hdistinct hfull
  rw [hpools] at hdrained
  generalize (List.range children.length).map full = pools at hdrained ⊢
  refine ⟨.combined (Reading.wheels ignoreEmpty pools), after,
    Act.Reaches.later ?_,
    (Reading.lists_wheels s ignoreEmpty pools).reads after⟩
  simp only [Reading.openOn]
  exact hdrained.bind_pure fun _ => rfl

/-- The passes that a product combines: those of all children, or of all
whose passes are not empty. -/
def pooled (full : Nat → List (Move S V)) (children : List (Selector S V))
    (ignoreEmpty : Bool) : List (List (Move S V)) :=
  let pools := (List.range children.length).map full
  if ignoreEmpty then pools.filter fun pool => !pool.isEmpty else pools

/-- A product in the given order, given what each child would hand out if it
were read alone from here. It hands out every combination of at least one
move, once, in the order of the places, as one move that holds the moves in
the order of the children, and then it ends. There is no combination where a
pass to be combined is empty, or where there is none to combine. -/
theorem product_combines (hfull : ∀ c ∈ children.zipIdx,
      c.1.Reads s (path ++ [c.2]) passes (full c.2)) :
    let pools := pooled full children ignoreEmpty
    ∃ combos : List (List Nat × List (Move S V)),
      (product children ignoreEmpty .given : Selector S V).Reads s path passes
        (combos.map fun c => .composite c.2) ∧
      (combos.map Prod.fst).Pairwise (· < ·) ∧
      (∀ place moves, (place, moves) ∈ combos ↔
        moves ≠ [] ∧ Combines pools place moves) ∧
      (combos = [] ↔ pools = [] ∨ [] ∈ pools) := by
  intro pools
  have hreads : (product children ignoreEmpty .given : Selector S V).Reads s
      path passes
      (if pools.isEmpty then [] else (choices pools).map Move.composite) :=
    reads_product hfull
  by_cases hnone : pools = []
  · rw [if_pos (by rw [hnone]; rfl)] at hreads
    refine ⟨[], hreads, .nil, fun place moves => ?_, by simp [hnone]⟩
    rw [hnone]
    constructor
    · exact fun h => nomatch h
    · intro h
      cases h.2
      exact absurd rfl h.1
  · rw [if_neg (by simpa using hnone), ← map_snd_placedChoices, List.map_map]
      at hreads
    refine ⟨placedChoices pools, hreads, pairwise_placedChoices pools,
      fun place moves => ?_, ?_⟩
    · rw [mem_placedChoices_iff]
      exact ⟨fun h => ⟨h.ne_nil hnone, h⟩, And.right⟩
    · rw [placedChoices_eq_nil_iff]
      exact ⟨.inr, fun h => h.resolve_left hnone⟩

/-- Two changes, and with each of them every swap of three tasks; a child
between them that has no moves is passed over. -/
theorem product_combines_between :
    let s := Tasks.twoOfThree
    let changes : Leaf Tasks Int := .change Tasks.priority false
    let swaps : Leaf Tasks Int := .swap [Tasks.priority]
    let children := [limited 2 (leaf changes .given 0),
      leaf (.moveList ⟨fun _ => []⟩) .given 0, leaf swaps .given 0]
    let full : Nat → List (Move Tasks Int) := fun i =>
      if i = 0 then (changes.moves s).take 2 else if i = 1 then []
      else swaps.moves s
    let pools := pooled full children true
    (∀ c ∈ children.zipIdx, c.1.Reads s ([] ++ [c.2]) [] (full c.2)) ∧
      pools.map List.length = [2, 3] ∧
      ∃ combos : List (List Nat × List (Move Tasks Int)),
        (product children true .given : Selector Tasks Int).Reads s [] []
          (combos.map fun c => .composite c.2) ∧
        (combos.map Prod.fst).Pairwise (· < ·) ∧
        (∀ place moves, (place, moves) ∈ combos ↔
          moves ≠ [] ∧ Combines pools place moves) ∧
        combos ≠ [] := by
  intro s changes swaps children full pools
  have hlisted : ∀ {child : Selector Tasks Int} (path : List Nat),
      child.InOrder (fun _ => True) →
      child.Reads s path [] (child.given s) :=
    fun path hinOrder => (hinOrder.offers s).reads path []
  have hfull : ∀ c ∈ children.zipIdx,
      c.1.Reads s ([] ++ [c.2]) [] (full c.2) := by
    refine List.forall_mem_cons.mpr ⟨?_, List.forall_mem_cons.mpr ⟨?_, ?_⟩⟩
    · exact hlisted [0] (.limited (.leaf trivial))
    · exact hlisted [1] (.leaf trivial)
    · exact List.forall_mem_singleton.mpr (hlisted [2] (.leaf trivial))
  have hlengths : pools.map List.length = [2, 3] := rfl
  obtain ⟨combos, hreads, hsorted, hmem, hempty⟩ :=
    @product_combines Tasks Int _ s [] [] full children true hfull
  refine ⟨hfull, hlengths, combos, hreads, hsorted, hmem, fun hnone => ?_⟩
  rcases hempty.mp hnone with hnone | hnone
  · exact absurd hnone (by decide)
  · have hzero : 0 ∈ pools.map List.length := List.mem_map_of_mem hnone
    rw [hlengths] at hzero
    exact absurd hzero (by decide)

end Selector

end PlanSearch

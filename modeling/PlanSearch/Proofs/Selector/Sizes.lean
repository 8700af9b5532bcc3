/-
The size of a selector is the length of its pass.

A size is worked out without listing anything, by formulas of their own:
entities times values, links less the ones taken out, products of sizes.
This file proves them right, leaf by leaf (`Leaf.size_eq`) and then along
the tree (`Selector.InOrder.size_eq`).

# Where a size is refused

Counts are machine words. `Selector.reckoned` names the numbers that the
size of a tree passes through, in terms of the lengths of passes: the
length of each leaf's pass, twice that for swaps, the total of a union,
and of a product every partial product of its children's lengths. If all
of them are counts, the size is the length of the pass; if one is not, it
is an arithmetic fault, also where the pass itself is short or empty.

# What a leaf relies on

Counting skips nothing, so leaves that skip changes without effect are
not counted exactly; no configuration asks for them. There is no empty
pillar, a pillar exchanged in several variables has to be known to all
of them (`BasicVariable.OpenFor`), and whoever enumerates moves of its own
says how many there are. `Leaf.Countable` collects these. A configured leaf
has the first two, and the others are asked of the variables and the source
that it finds in its context (`SelectorContext.Countable`).
-/
import PlanSearch.Proofs.Chain.Diff
import PlanSearch.Proofs.Checked
import PlanSearch.Proofs.Config.Inherit
import PlanSearch.Proofs.Move.Turn
import PlanSearch.Proofs.Selector.Groups
import PlanSearch.Proofs.Selector.Leaves
import PlanSearch.Proofs.Selector.Passes

namespace PlanSearch

variable {S V : Type} {s : S}

-- ==================================================================== lists

theorem length_flatMap_const {α β : Type} {items : List α}
    {f : α → List β} {n : Nat} (h : ∀ a ∈ items, (f a).length = n) :
    (items.flatMap f).length = items.length * n := by
  rw [List.length_flatMap, List.map_congr_left h, List.map_const',
    List.sum_replicate_nat]

/-- Paired items are items of the list. -/
theorem mem_of_mem_pairsOf {α : Type} {items : List α} {p : α × α}
    (h : p ∈ pairsOf items) : p.1 ∈ items ∧ p.2 ∈ items := by
  induction items with
  | nil => cases h
  | cons a rest ih =>
      rcases List.mem_append.mp h with h | h
      · obtain ⟨b, hb, rfl⟩ := List.mem_map.mp h
        exact ⟨List.mem_cons_self .., List.mem_cons_of_mem _ hb⟩
      · obtain ⟨hleft, hright⟩ := ih h
        exact ⟨List.mem_cons_of_mem _ hleft, List.mem_cons_of_mem _ hright⟩

/-- Each of a number of items is paired with each other one, once. -/
theorem length_pairsOf {α : Type} (items : List α) :
    2 * (pairsOf items).length = items.length * (items.length - 1) := by
  induction items with
  | nil => rfl
  | cons a rest ih =>
      rw [pairsOf, List.length_append, List.length_map, List.length_cons,
        Nat.add_sub_cancel, Nat.mul_add, ih]
      cases rest.length with
      | zero => rfl
      | succ n =>
          rw [Nat.add_sub_cancel, Nat.mul_comm (n + 1) n, ← Nat.add_mul,
            Nat.add_comm 2 n]

/-- Distinct items taken out of a list without repetition. -/
theorem length_filter_not_contains {items taken : List Nat}
    (hitems : items.Nodup) (htaken : taken.Nodup)
    (hsub : ∀ e ∈ taken, e ∈ items) :
    (items.filter fun e => !taken.contains e).length
      = items.length - taken.length := by
  have hperm : (items.filter fun e => taken.contains e).Perm taken := by
    rw [List.perm_ext_iff_of_nodup (hitems.filter _) htaken]
    intro e
    rw [List.mem_filter, List.contains_iff_mem]
    exact ⟨fun h => h.2, fun h => ⟨hsub e h, h⟩⟩
  have hsplit := List.length_eq_length_filter_add (l := items) fun e =>
    taken.contains e
  rw [hperm.length_eq] at hsplit
  omega

-- ==================================================================== links

namespace ChainIndex

variable {index : ChainIndex}

theorem length_allLinks (index : ChainIndex) :
    index.allLinks.length
      = index.chains.length + index.chains.flatten.length := by
  unfold allLinks
  rw [List.length_append, List.length_map, List.length_map, List.length_range]

/-- No link is listed twice if no entity is. -/
theorem nodup_allLinks (nodup : index.chains.flatten.Nodup) :
    index.allLinks.Nodup := by
  unfold allLinks
  refine List.nodup_append.mpr ⟨?_, ?_, ?_⟩
  · exact List.nodup_range.map fun a b h => Link.anchor.inj h
  · exact nodup.map fun a b h => Link.entity.inj h
  · intro l hl m hm hlm
    obtain ⟨a, -, rfl⟩ := List.mem_map.mp hl
    obtain ⟨e, -, rfl⟩ := List.mem_map.mp hm
    cases hlm

/-- A segment takes as many links out as it has entities. -/
theorem length_filter_isIn (nodup : index.chains.flatten.Nodup)
    {segment : List Nat} (hsegment : segment.Sublist index.chains.flatten) :
    (index.allLinks.filter fun link => !link.isIn segment).length
      = index.allLinks.length - segment.length := by
  have hanchors : ((List.range index.chains.length).map Link.anchor).filter
      (fun link => !link.isIn segment)
          = (List.range index.chains.length).map Link.anchor := by
    refine List.filter_eq_self.mpr fun link hlink => ?_
    obtain ⟨a, -, rfl⟩ := List.mem_map.mp hlink
    rfl
  have hentities : ((index.chains.flatten.map Link.entity).filter
      fun link => !link.isIn segment).length = index.chains.flatten.length
          - segment.length := by
    rw [List.filter_map, List.length_map]
    exact length_filter_not_contains nodup (nodup.sublist hsegment) fun e he =>
      hsegment.subset he
  have hle := hsegment.length_le
  rw [length_allLinks, allLinks, List.filter_append, List.length_append,
    hanchors, hentities, List.length_map, List.length_range]
  omega

/-- What an entity follows is a link, and not the entity itself. -/
theorem previousLink_of_mem (tabled : index.Tabled) {e : Nat}
    (he : e ∈ index.allEntities) :
    ∃ link, index.previousLink e = some link ∧ link ∈ index.allLinks ∧
      link ≠ .entity e := by
  obtain ⟨a, p, hstands⟩ := mem_flatten_iff.mp he
  obtain ⟨link, hlink⟩ := exists_mem_linksOf hstands
  refine ⟨link, (previousLink_iff tabled).mpr hlink, ?_, ?_⟩
  · cases link with
    | anchor b =>
        have hb := (mem_linksOf_anchor.mp hlink).lt_length
        exact List.mem_append_left _
          (List.mem_map_of_mem (List.mem_range.mpr hb))
    | entity d =>
        obtain ⟨b, q, hd, -⟩ := mem_linksOf_entity.mp hlink
        exact List.mem_append_right _
          (List.mem_map_of_mem (mem_flatten_iff.mpr ⟨b, q, hd⟩))
  · rintro rfl
    obtain ⟨b, q, hd, he'⟩ := mem_linksOf_entity.mp hlink
    have hplace := (hd.place_unique tabled.nodup he').2
    omega

/-- A tail can be attached behind every link but two. -/
theorem length_filter_isTailTarget (tabled : index.Tabled) {e : Nat}
    (he : e ∈ index.allEntities) :
    (index.allLinks.filter (index.isTailTarget e)).length
      = index.allLinks.length - 2 := by
  obtain ⟨link, hprevious, hlink, hne⟩ := previousLink_of_mem tabled he
  have hself : Link.entity e ∈ index.allLinks :=
    List.mem_append_right _ (List.mem_map_of_mem he)
  have hlinks := nodup_allLinks tabled.nodup
  have htargets : index.allLinks.filter (index.isTailTarget e)
      = (index.allLinks.erase link).erase (.entity e) := by
    rw [(hlinks.erase link).erase_eq_filter, hlinks.erase_eq_filter,
      List.filter_filter]
    refine List.filter_congr fun l _ => ?_
    rw [isTailTarget, hprevious, bne_comm (a := some link)]
    rfl
  rw [htargets, List.length_erase_of_mem
    ((List.mem_erase_of_ne hne.symm).mpr hself), List.length_erase_of_mem hlink]
  omega

end ChainIndex

/-- A segment is a run of one of the chains. -/
theorem SegmentSizes.sublist_of_mem {z : SegmentSizes} {index : ChainIndex}
    {segment : List Nat} (h : segment ∈ z.segments index) :
    segment.Sublist index.chains.flatten := by
  obtain ⟨chain, hchain, h⟩ := List.mem_flatMap.mp h
  obtain ⟨start, -, h⟩ := List.mem_flatMap.mp h
  obtain ⟨size, -, rfl⟩ := List.mem_map.mp h
  exact (runOf_isInfix chain start size).sublist.trans
    (List.sublist_flatten_of_mem hchain)

-- =================================================================== leaves

namespace Leaf

/-- What a leaf relies on for its size. -/
def Countable [BEq V] (s : S) : Leaf S V → Prop
  | .change _ skipNoops => skipNoops = false
  | .pillarChange _ sub => 0 < sub.minimum
  | .pillarSwap targets sub =>
    0 < sub.minimum ∧ ∀ x ∈ targets, ∀ y ∈ targets, x.OpenFor y s
  | .moveSource factory => factory.size s = (factory.moves s).length
  | _ => True

variable [BEq V]

/-- The numbers that the size of a leaf passes through. Pairs are halved
last, and what a leaf finds out by listing is not checked. -/
def reckoned (s : S) (l : Leaf S V) : List Nat :=
  match l with
  | .swap _ => [2 * (l.moves s).length]
  | .pillarSwap .. | .moveList _ | .moveSource _ => []
  | _ => [(l.moves s).length]

/-- Each entity takes each value. -/
theorem length_change (x : BasicVariable S V) (s : S) :
    ((Leaf.change x false).moves s).length
      = x.count s * (x.values s).length := by
  unfold moves
  rw [length_flatMap_const (n := (x.values s).length), List.length_range]
  intro e _
  have hall : (x.values s).filter (fun v => !(false && holds x s e v))
      = x.values s :=
    List.filter_eq_self.mpr fun _ _ => rfl
  rw [List.length_map, hall]

/-- Each two entities of the first variable are swapped once. -/
theorem length_swap (targets : List (BasicVariable S V)) (s : S) :
    2 * ((Leaf.swap targets).moves s).length
      = Pillar.entityCount targets s * (Pillar.entityCount targets s - 1) := by
  have hpairs := length_pairsOf (List.range (Pillar.entityCount targets s))
  rw [List.length_range] at hpairs
  unfold moves
  rw [List.length_map]
  exact hpairs

/-- Each pillar takes each value. -/
theorem length_pillarChange [EquivBEq V] {x : BasicVariable S V}
    {sub : SubPillars} (least : 0 < sub.minimum) (s : S) :
    ((Leaf.pillarChange x sub).moves s).length
      = (Pillar.all [x] sub s).length * (x.values s).length := by
  unfold moves
  refine length_flatMap_const fun p hp => ?_
  rw [List.length_filterMap_eq_countP, List.countP_eq_length]
  intro v _
  have oneClass : ∀ y ∈ [x], ∀ z ∈ [x], y.OpenFor z s := by
    intro y hy z hz
    rw [List.mem_singleton.mp hy, List.mem_singleton.mp hz]
    exact x.openFor_self s
  unfold pillarChangeMove
  rw [(Pillar.flawless_iff least oneClass hp (List.mem_singleton.mpr rfl)).mpr
    fun _ _ => BEq.rfl]
  rfl

/-- Each two pillars of different groups are swapped once. -/
theorem length_pillarSwap [EquivBEq V] {targets : List (BasicVariable S V)}
    {sub : SubPillars} (least : 0 < sub.minimum)
    (hopen : ∀ x ∈ targets, ∀ y ∈ targets, x.OpenFor y s) :
    ((Leaf.pillarSwap targets sub).moves s).length
      = ((pairsOf (Pillar.all targets sub s)).filter fun (left, right) =>
          left.group != right.group).length := by
  unfold moves
  rw [List.length_filterMap_eq_countP, ← List.countP_eq_length_filter]
  refine List.countP_congr fun pair hpair => ?_
  obtain ⟨left, right⟩ := pair
  obtain ⟨hleft, hright⟩ := mem_of_mem_pairsOf hpair
  dsimp only
  by_cases hgroup : left.group = right.group
  · simp [hgroup]
  · have hall : (targets.all fun x =>
        (pillarPairFlaw x s left.entities right.entities).isNone) = true := by
      rw [List.all_eq_true]
      intro x hx
      rw [(Pillar.pairFlawless_iff least hopen hleft hright hgroup hx).mpr
        fun _ _ => BEq.rfl]
      rfl
    simp [hgroup, pillarSwapMove, hall]

/-- A segment goes behind each link outside of it, in each of its
directions. -/
theorem length_segmentChange {x : ChainedVariable S} {index : ChainIndex}
    (hindex : x.index s = .ok index) (sizes : SegmentSizes) (reversing : Bool) :
    ((Leaf.segmentChange x sizes reversing : Leaf S V).moves s).length
      = ((sizes.segments index).map fun segment =>
          (index.allLinks.length - segment.length)
            * (segmentTurns reversing segment).length).sum := by
  have nodup := ChainedVariable.nodup_of_index hindex
  simp only [moves, hindex]
  rw [List.length_flatMap]
  congr 1
  refine List.map_congr_left fun segment hsegment => ?_
  rw [length_flatMap_const (n := (segmentTurns reversing segment).length),
    ChainIndex.length_filter_isIn nodup (SegmentSizes.sublist_of_mem hsegment)]
  intro link _
  rw [List.length_map]

/-- Each two segments apart from each other are swapped, in each of their
directions. -/
theorem length_segmentSwap {x : ChainedVariable S} {index : ChainIndex}
    (hindex : x.index s = .ok index) (sizes : SegmentSizes) (reversing : Bool) :
    ((Leaf.segmentSwap x sizes reversing : Leaf S V).moves s).length
      = (disjointPairs (sizes.segments index)).length
        * (pairTurns reversing).length := by
  simp only [moves, hindex]
  refine length_flatMap_const fun pair _ => ?_
  rw [List.length_map]

/-- Each tail goes behind each link but two. -/
theorem length_tailSwap {x : ChainedVariable S} {index : ChainIndex}
    (hindex : x.index s = .ok index) :
    ((Leaf.tailSwap x : Leaf S V).moves s).length
      = index.allEntities.length * (index.allLinks.length - 2) := by
  have tabled := ChainedVariable.tabled_of_index hindex
  simp only [moves, hindex]
  refine length_flatMap_const fun e he => ?_
  rw [List.length_map, ChainIndex.length_filter_isTailTarget tabled he]

/-- The size of a leaf is the number of its moves. -/
theorem size_eq [EquivBEq V] {l : Leaf S V} (h : l.Countable s) :
    l.size s = Checked.reckon (l.reckoned s) (l.moves s).length := by
  cases l with
  | change x skipNoops =>
      cases h
      rw [size, Checked.count_eq, ← length_change]
      rfl
  | swap targets =>
      rw [size, Checked.count_eq, ← length_swap, Checked.reckon_map,
        Nat.mul_div_cancel_left _ (by decide)]
      rfl
  | pillarChange x sub =>
      rw [size, Checked.count_eq, ← length_pillarChange h]
      rfl
  | pillarSwap targets sub =>
      rw [size, ← length_pillarSwap h.1 h.2]
      exact (Checked.reckon_nil _).symm
  | segmentChange x sizes reversing =>
      cases hindex : x.index s with
      | error flaw =>
          simp [size, reckoned, moves, hindex, Checked.reckon,
            Checked.countLimit]
      | ok index =>
          have hlength := length_segmentChange (V := V) hindex sizes reversing
          simp only [size, hindex]
          rw [Checked.countSum_eq, Checked.count_eq, ← hlength]
          rfl
  | segmentSwap x sizes reversing =>
      cases hindex : x.index s with
      | error flaw =>
          simp [size, reckoned, moves, hindex, Checked.reckon,
            Checked.countLimit]
      | ok index =>
          have hlength := length_segmentSwap (V := V) hindex sizes reversing
          simp only [size, hindex]
          rw [Checked.count_eq, ← hlength]
          rfl
  | tailSwap x =>
      cases hindex : x.index s with
      | error flaw =>
          simp [size, reckoned, moves, hindex, Checked.reckon,
            Checked.countLimit]
      | ok index =>
          have hlength := length_tailSwap (V := V) hindex
          simp only [size, hindex]
          rw [Checked.count_eq, ← hlength]
          rfl
  | moveList factory => exact (Checked.reckon_nil _).symm
  | moveSource factory =>
      rw [size, h]
      exact (Checked.reckon_nil _).symm

end Leaf

-- ==================================================================== trees

namespace Selector

variable [BEq V]

/-- The lengths that a product multiplies. -/
def factors (ignoreEmpty : Bool) (lengths : List Nat) : List Nat :=
  if ignoreEmpty then lengths.filter (0 < ·) else lengths

mutual

/-- The numbers that the size of a tree passes through. -/
def reckoned (s : S) : Selector S V → List Nat
  | leaf l _ _ => l.reckoned s
  | union children _ _ _ =>
      reckonedAll s children ++ [((givens s children).map List.length).sum]
  | product children ignoreEmpty _ =>
    reckonedAll s children ++
      (factors ignoreEmpty ((givens s children).map List.length)).scanl
        (· * ·) 1
  | limited _ inner => reckoned s inner

def reckonedAll (s : S) : List (Selector S V) → List Nat
  | [] => []
  | c :: rest => reckoned s c ++ reckonedAll s rest

end

/-- There are as many choices as the lengths multiply to. -/
theorem length_choices {α : Type} (pools : List (List α)) :
    (choices pools).length = (pools.map List.length).prod := by
  induction pools with
  | nil => rfl
  | cons pool rest ih =>
      rw [choices, length_flatMap_const (n := (choices rest).length), ih,
        List.map_cons, List.prod_cons]
      intro a _
      rw [List.length_map]

omit [BEq V] in
/-- Nothing is combined with a child that has no moves. -/
theorem combinations_of_mem_nil {pools : List (List (Move S V))}
    (h : [] ∈ pools) : combinations false pools = [] := by
  unfold combinations
  dsimp only
  rw [if_neg Bool.false_ne_true, choices_of_mem_nil h]
  split <;> rfl

omit [BEq V] in
/-- The combinations are as many as the product of the lengths, and none if
there is no factor. -/
theorem length_combinations (ignoreEmpty : Bool)
    (pools : List (List (Move S V))) : (combinations ignoreEmpty pools).length =
      if (factors ignoreEmpty (pools.map List.length)).isEmpty then 0
      else (factors ignoreEmpty (pools.map List.length)).prod := by
  have hfactors : factors ignoreEmpty (pools.map List.length)
      = (if ignoreEmpty then pools.filter fun p => !p.isEmpty else pools).map
          List.length := by
    cases ignoreEmpty with
    | false => rfl
    | true =>
        simp only [factors, if_true, List.filter_map]
        congr 1
        refine List.filter_congr fun p _ => ?_
        cases p <;> simp
  rw [hfactors, List.isEmpty_map]
  unfold combinations
  dsimp only
  generalize (if ignoreEmpty then pools.filter fun p => !p.isEmpty
    else pools) = kept
  split
  · rfl
  · rw [List.length_map, length_choices]

/-- The sizes of children, as far as each child's is the length of its pass.
-/
theorem sizes_eq {children : List (Selector S V)}
    (h : ∀ c ∈ children,
      size s c = Checked.reckon (reckoned s c) (given s c).length) :
    sizes s children =
      Checked.reckon (reckonedAll s children)
        ((givens s children).map List.length) := by
  induction children with
  | nil => exact (Checked.reckon_nil _).symm
  | cons c rest ih =>
      obtain ⟨hc, hrest⟩ := List.forall_mem_cons.mp h
      rw [sizes, hc, ih hrest, givens, reckonedAll, List.map_cons]
      exact Checked.reckon_bind (Checked.reckon_bind_pure ..)

/-- The size of a tree is the number of its moves. -/
theorem InOrder.size_eq [EquivBEq V] {selector : Selector S V}
    (h : selector.InOrder (Leaf.Countable s)) :
    selector.size s = Checked.reckon (selector.reckoned s)
      (selector.given s).length := by
  induction h with
  | leaf hleaf => exact Leaf.size_eq hleaf
  | @union children weights seed _ ih =>
      rw [size, sizes_eq ih, reckoned, given, List.length_flatten]
      refine Checked.reckon_bind ?_
      rw [Checked.countSum_eq, Checked.count_eq]
  | @product children ignoreEmpty _ ih =>
      rw [size, sizes_eq ih, reckoned, given, length_combinations]
      refine Checked.reckon_bind ?_
      -- without a factor nothing is multiplied, and one is a count
      change (if (factors ignoreEmpty _).isEmpty then _ else _) = _
      split
      · rename_i hempty
        rw [List.isEmpty_iff.mp hempty]
        exact (if_pos (by decide)).symm
      · exact Checked.countProduct_eq _
  | @limited limit inner _ ih =>
      rw [size, ih, reckoned, given, List.length_take, Nat.min_comm]
      exact Checked.reckon_bind_pure ..

end Selector

-- ================================================================= building

/-- What the leaves of a configuration rely on in their context: variables
whose pillars are exchanged together are open for what they do not have, and
who enumerates moves of its own says how many there are. -/
structure SelectorContext.Countable (s : S) (c : SelectorContext S V)
    (config : SelectorConfig) : Prop where
  together : ∀ common entityClass sub names,
    config.Occurs (.leaf common (.pillarSwap entityClass sub names)) →
      ∀ path xs, c.namedBasicsFor path entityClass names = .ok xs →
        ∀ x ∈ xs, ∀ y ∈ xs, x.OpenFor y s
  sources : ∀ common name, config.Occurs (.leaf common (.moveSource name)) →
    ∀ path factory,
      SelectorContext.factoryFor path name c.registry.sources = .ok factory →
        factory.size s = (factory.moves s).length

/-- What is relied on throughout a tree is relied on in the tree of a child. -/
theorem SelectorContext.Countable.child {c : SelectorContext S V}
    {config child : SelectorConfig} (h : c.Countable s config)
    (hchild : child ∈ config.children) : c.Countable s child where
  together common entityClass sub names hx :=
    h.together common entityClass sub names (.inside hchild hx)
  sources common name hx := h.sources common name (.inside hchild hx)

/-- No configured pillar is empty. -/
theorem SubPillars.minimum_ofSettings (settings : Option SubPillarSettings) :
    0 < (SubPillars.ofSettings settings).minimum := by
  cases settings with
  | none => exact Nat.one_pos
  | some settings => exact Nat.lt_of_lt_of_le Nat.one_pos (Nat.le_max_right _ _)

namespace SelectorConfig

open SelectorContext

variable [BEq V] {c : SelectorContext S V}

/-- The leaves of a configuration have what they rely on. -/
theorem countable_leavesFor {common : CommonSettings} {settings : LeafConfig}
    (hc : c.Countable s (.leaf common settings)) {path : String}
    {leaves : List (Leaf S V)} (h : leavesFor c path settings = .ok leaves) :
    ∀ l ∈ leaves, l.Countable s := by
  cases settings with
  | change entityClass name =>
      obtain ⟨xs, -, h⟩ := exists_of_bind_ok h
      cases h
      intro l hl
      obtain ⟨x, -, rfl⟩ := List.mem_map.mp hl
      rfl
  | pillarChange entityClass sub name =>
      obtain ⟨xs, -, h⟩ := exists_of_bind_ok h
      cases h
      intro l hl
      obtain ⟨x, -, rfl⟩ := List.mem_map.mp hl
      exact SubPillars.minimum_ofSettings sub
  | swap entityClass names =>
      obtain ⟨xs, -, h⟩ := exists_of_bind_ok h
      cases h
      intro l hl
      cases List.mem_singleton.mp hl
      trivial
  | pillarSwap entityClass sub names =>
      obtain ⟨xs, hxs, h⟩ := exists_of_bind_ok h
      cases h
      intro l hl
      cases List.mem_singleton.mp hl
      exact ⟨SubPillars.minimum_ofSettings sub,
        hc.together _ _ _ _ (.root _) path xs hxs⟩
  | segmentChange segments | segmentSwap segments | tailSwap name =>
      obtain ⟨xs, -, h⟩ := exists_of_bind_ok h
      cases h
      intro l hl
      obtain ⟨x, -, rfl⟩ := List.mem_map.mp hl
      trivial
  | moveList name =>
      obtain ⟨factory, -, h⟩ := exists_of_bind_ok h
      cases h
      intro l hl
      cases List.mem_singleton.mp hl
      trivial
  | moveSource name =>
      obtain ⟨factory, hfactory, h⟩ := exists_of_bind_ok h
      cases h
      intro l hl
      cases List.mem_singleton.mp hl
      exact hc.sources _ _ (.root _) path factory hfactory

variable {fits : Leaf S V → Prop}

omit [BEq V] in
/-- Leaves put together in the given order. -/
theorem inOrder_joined {leaves : List (Leaf S V)} (h : ∀ l ∈ leaves, fits l)
    (seed : UInt64) : (joined .given seed leaves).InOrder fits := by
  unfold joined
  split
  · exact .leaf (h _ (List.mem_singleton.mpr rfl))
  · refine .union fun c hc => ?_
    obtain ⟨l, hl, rfl⟩ := List.mem_map.mp hc
    exact .leaf (h l hl)

omit [BEq V] in
/-- A limit keeps the order of a tree. -/
theorem inOrder_finished {path : String} {order : Order}
    {common : CommonSettings} {reports : List SelectorReport}
    {selector : Selector S V} (h : selector.InOrder fits) :
    (finished path order common reports selector).selector.InOrder fits := by
  unfold finished
  cases common.limit with
  | none => exact h
  | some limit => exact .limited h

/-- No selector of the configuration asks for random order. -/
def Ordered (config : SelectorConfig) : Prop :=
  ∀ x, Occurs config x → x.common.order ≠ some .random

theorem Ordered.child {config child : SelectorConfig} (h : config.Ordered)
    (hchild : child ∈ config.children) : child.Ordered :=
  fun x hx => h x (.inside hchild hx)

/-- No order is random at the root or in the trees of the children. -/
theorem ordered_iff {config : SelectorConfig} :
    config.Ordered ↔
    config.common.order ≠ some .random ∧ ∀ d ∈ config.children, d.Ordered :=
  forall_occurs_iff

/-- What is not asked to be random takes the given order from its parent. -/
theorem Ordered.given {config : SelectorConfig} (h : config.Ordered) :
    config.common.order.getD .given = .given := by
  have hroot := h config (.root config)
  cases horder : config.common.order with
  | none => rfl
  | some order =>
      cases order with
      | given => rfl
      | random => exact absurd horder hroot

mutual

/-- Where no selector asks for random order, all of the tree runs in the
given one. -/
theorem inOrder_buildAt :
    ∀ (config : SelectorConfig) {path : String} {seed : UInt64}
          {built : BuiltSelector S V},
      c.Countable s config → config.Ordered →
      buildAt c path .given seed config = .ok built →
      built.selector.InOrder (Leaf.Countable s)
  | .leaf common settings, path, seed, built, hc, ordered, h => by
      have hgiven : common.order.getD .given = .given := ordered.given
      obtain ⟨_, -, h⟩ := exists_of_bind_ok h
      dsimp only at h
      rw [hgiven] at h
      obtain ⟨leaves, hleaves, h⟩ := exists_of_bind_ok h
      cases h
      exact inOrder_finished (inOrder_joined (countable_leavesFor hc hleaves) _)
  | .union common children factory, path, seed, built, hc, ordered, h => by
      have hgiven : common.order.getD .given = .given := ordered.given
      obtain ⟨_, -, h⟩ := exists_of_bind_ok h
      dsimp only at h
      rw [hgiven] at h
      obtain ⟨below, hbelow, h⟩ := exists_of_bind_ok h
      obtain ⟨weights, -, h⟩ := exists_of_bind_ok h
      cases h
      exact inOrder_finished (.union (inOrder_buildAll children
        (fun _ hd => hc.child hd) (fun _ hd => ordered.child hd) hbelow))
  | .product common children ignoreEmpty, path, seed, built, hc,
      ordered, h => by
      have hgiven : common.order.getD .given = .given := ordered.given
      obtain ⟨_, -, h⟩ := exists_of_bind_ok h
      dsimp only at h
      rw [hgiven] at h
      obtain ⟨below, hbelow, h⟩ := exists_of_bind_ok h
      cases h
      exact inOrder_finished (.product (inOrder_buildAll children
        (fun _ hd => hc.child hd) (fun _ hd => ordered.child hd) hbelow))

theorem inOrder_buildAll :
    ∀ (children : List SelectorConfig) {path : String}
          {seed : UInt64} {index : Nat}
      {built : BuiltChildren S V}, (∀ d ∈ children, c.Countable s d) →
      (∀ d ∈ children, d.Ordered) →
      buildAll c path .given seed index children = .ok built →
      ∀ x ∈ built.selectors, x.InOrder (Leaf.Countable s)
  | [], path, seed, index, built, _, _, h => by
      cases h
      exact fun x hx => nomatch hx
  | child :: rest, path, seed, index, built, hc, ordered, h => by
      obtain ⟨hown, hothersOwn⟩ := List.forall_mem_cons.mp hc
      obtain ⟨hchild, hrest⟩ := List.forall_mem_cons.mp ordered
      obtain ⟨first, hfirst, h⟩ := exists_of_bind_ok h
      obtain ⟨others, hothers, h⟩ := exists_of_bind_ok h
      cases h
      exact List.forall_mem_cons.mpr
        ⟨inOrder_buildAt child hown hchild hfirst,
          inOrder_buildAll rest hothersOwn hrest hothers⟩

end

end SelectorConfig

-- ================================================================ instances

/-- Exchanges of pillars, in all variables together. -/
def SelectorConfig.exchangeAll : SelectorConfig :=
  .leaf .unset (.pillarSwap none none [])

/-- Two variables, of two entities and of one, that hold something for every
number. -/
def SelectorContext.overhanging : SelectorContext Unit Nat :=
  let holding (name : String) (count : Nat) : BasicVariable Unit Nat :=
    ⟨name, 0, fun _ => count, fun _ e => some e, fun s _ _ => s, fun _ => []⟩
  ⟨[("Entity", holding "first" 2), ("Entity", holding "second" 1)], [],
    Registry.empty, some 0⟩

/-- A leaf without settings does not ask for random order. -/
theorem SelectorConfig.ordered_leaf (settings : LeafConfig) :
    (SelectorConfig.leaf .unset settings).Ordered :=
  ordered_iff.mpr ⟨fun h => (nomatch h), fun _ hd => (nomatch hd)⟩

namespace Tasks

open SelectorConfig (exchangeAll ordered_iff ordered_leaf)

/-- One variable is open for itself, and no source of moves is registered. -/
theorem countable_context (s : Tasks) (config : SelectorConfig) :
    context.Countable s config where
  together _ _ _ _ _ _ xs hxs x hx y hy := by
    obtain ⟨a, ha, rfl⟩ := SelectorContext.mem_of_namedBasicsFor hxs x hx
    obtain ⟨b, hb, rfl⟩ := SelectorContext.mem_of_namedBasicsFor hxs y hy
    cases List.mem_singleton.mp ha
    cases List.mem_singleton.mp hb
    exact priority.openFor_self s
  sources _ _ _ _ _ hfactory := by
    obtain ⟨_, hentry, -⟩ := SelectorContext.mem_of_factoryFor hfactory
    cases hentry

/-- Three tasks in two pillars. -/
def twoOfThree : Tasks := ⟨[some 1, some 1, some 2], none⟩

/-- Two tasks in one pillar. -/
def bothAlike : Tasks := ⟨[some 1, some 1], none⟩

/-- Changes of single tasks, each combined with an exchange of pillars. -/
def exchangesBeside : SelectorConfig := changesBeside (.pillarSwap none none [])

/-- Changes of single tasks, many times over, combined with an exchange of
pillars. -/
def changesOver (factors : Nat) : SelectorConfig :=
  .product .unset (List.replicate factors (.ofVariable "priority") ++
    [exchangeAll]) none

theorem ordered_changesBeside (child : LeafConfig) :
    (changesBeside child).Ordered := by
  refine ordered_iff.mpr ⟨fun h => (nomatch h), ?_⟩
  exact List.forall_mem_cons.mpr ⟨ordered_leaf _, List.forall_mem_cons.mpr
    ⟨ordered_leaf _, fun _ hd => (nomatch hd)⟩⟩

theorem ordered_changesOver (factors : Nat) :
    (changesOver factors).Ordered := by
  refine ordered_iff.mpr ⟨fun h => (nomatch h), fun d hd => ?_⟩
  rcases List.mem_append.mp hd with hd | hd
  · rw [List.eq_of_mem_replicate hd]
    exact ordered_leaf _
  · rw [List.mem_singleton.mp hd]
    exact ordered_leaf _

end Tasks

-- =================================================================== sizes

/-- The size of a built tree in the given order is the length of its pass,
as far as the numbers it passes through are counts. -/
theorem SelectorConfig.size_eq_pass [BEq V] [EquivBEq V]
    {c : SelectorContext S V} {config : SelectorConfig} {outside : UInt64}
    {built : BuiltSelector S V} (hc : c.Countable s config)
    (ordered : config.Ordered) (hbuild : config.build c outside = .ok built) :
    built.selector.Lists s (built.selector.given s) ∧
      built.selector.size s =
        Checked.reckon (built.selector.reckoned s)
          (built.selector.given s).length := by
  obtain ⟨_, -, hbuild⟩ := exists_of_bind_ok hbuild
  have htree := inOrder_buildAt config hc ordered hbuild
  exact ⟨htree.lists s, htree.size_eq⟩

/-- Nine changes beside the one exchange of the two pillars of three tasks. -/
theorem SelectorConfig.size_eq_pass_changesBeside :
    (Tasks.context.Countable Tasks.twoOfThree Tasks.exchangesBeside ∧
        Tasks.exchangesBeside.Ordered) ∧
      ∃ built, Tasks.exchangesBeside.build Tasks.context 0 = .ok built ∧
        built.selector.Lists Tasks.twoOfThree
          (built.selector.given Tasks.twoOfThree) ∧
        (built.selector.given Tasks.twoOfThree).length = 9 ∧
        built.selector.size Tasks.twoOfThree = .ok 9 := by
  have hcontext :=
    Tasks.countable_context Tasks.twoOfThree Tasks.exchangesBeside
  have hordered := Tasks.ordered_changesBeside (.pillarSwap none none [])
  have hbuild : ∃ built,
      Tasks.exchangesBeside.build Tasks.context 0 = .ok built ∧
      (built.selector.given Tasks.twoOfThree).length = 9 ∧
      Checked.reckon (built.selector.reckoned Tasks.twoOfThree)
        (built.selector.given Tasks.twoOfThree).length = .ok 9 :=
    ⟨_, rfl, rfl, rfl⟩
  obtain ⟨built, hbuild, hlength, hreckon⟩ := hbuild
  obtain ⟨hlists, hsize⟩ := SelectorConfig.size_eq_pass hcontext hordered hbuild
  exact ⟨⟨hcontext, hordered⟩, built, hbuild, hlists, hlength,
    hsize.trans hreckon⟩

/-- Two ways in which a size departs from the pass. Twenty-five times six
changes of two tasks multiply to more than a count before the child without
moves makes the pass empty. And a variable that holds something for an
entity that only another one has lets a pair of pillars be counted that
cannot be exchanged. -/
theorem SelectorConfig.size_departs_from_pass :
    ((Tasks.context.Countable Tasks.bothAlike (Tasks.changesOver 25) ∧
          (Tasks.changesOver 25).Ordered) ∧
        ∃ built, (Tasks.changesOver 25).build Tasks.context 0 = .ok built ∧
          built.selector.Lists Tasks.bothAlike [] ∧
          built.selector.size Tasks.bothAlike = .error .arithmetic) ∧
      SelectorConfig.exchangeAll.Ordered ∧
        ∃ built, SelectorConfig.exchangeAll.build SelectorContext.overhanging 0
          = .ok built ∧ built.selector.Lists () [] ∧
          built.selector.size () = .ok 1 := by
  constructor
  · have hcontext :=
      Tasks.countable_context Tasks.bothAlike (Tasks.changesOver 25)
    have hordered := Tasks.ordered_changesOver 25
    have hbuild : ∃ built,
        (Tasks.changesOver 25).build Tasks.context 0 = .ok built ∧
        built.selector.given Tasks.bothAlike = [] ∧
        built.selector.size Tasks.bothAlike = .error .arithmetic := by
      refine ⟨_, rfl, Selector.combinations_of_mem_nil ?_, rfl⟩
      exact List.mem_of_getElem? (i := 25) rfl
    obtain ⟨built, hbuild, hgiven, hsize⟩ := hbuild
    refine ⟨⟨hcontext, hordered⟩, built, hbuild, ?_, hsize⟩
    rw [← hgiven]
    obtain ⟨_, -, hbuild⟩ := exists_of_bind_ok hbuild
    exact (SelectorConfig.inOrder_buildAt _ hcontext hordered hbuild).lists _
  · have hleaf : ∀ (l : Leaf Unit Nat) (seed : UInt64),
        (Selector.leaf l .given seed).Lists () (l.moves ()) := by
      intro l seed
      have hinOrder : (Selector.leaf l .given seed).InOrder fun _ =>
        True := .leaf trivial
      exact hinOrder.lists ()
    exact ⟨SelectorConfig.ordered_leaf _, _, rfl, hleaf _ _, rfl⟩

end PlanSearch

/-
What the selectors on chains hand out.

They build their steps without checking them, on the promise that the
parts fit: a segment of a chain, a link outside of it, two segments that
share nothing, a tail and a link it does not follow already. The promise
is kept, and nothing is left out: in the given order a pass comes to all
the steps of its kind that can be made, each once (`Leaf.Enumerates`).
Where the links are not chains there is nothing to hand out.

# Why nothing comes twice

A chain has no entity twice, so a segment is told from the others by
where it starts and how long it is (`runOf_inj`), and chains share no
entity, so segments of two chains differ as well. For pairs of segments
only the order within the pair is open, and a pair is taken with the
earlier segment on its left.
-/
import PlanSearch.Proofs.Move.Effects
import PlanSearch.Proofs.Selector.Runs
import PlanSearch.Proofs.Selector.Sizes

namespace PlanSearch

open ChainIndex

variable {S V α β : Type}

-- ==================================================================== lists

/-- Two different items are paired, one way around. -/
theorem mem_pairsOf_or {items : List α} {a b : α} (ha : a ∈ items)
    (hb : b ∈ items) (hne : a ≠ b) :
    (a, b) ∈ pairsOf items ∨ (b, a) ∈ pairsOf items := by
  induction items with
  | nil => cases ha
  | cons c rest ih =>
      have hpair : ∀ d ∈ rest, (c, d) ∈ pairsOf (c :: rest) :=
        fun d hd => List.mem_append_left _ (List.mem_map_of_mem hd)
      rcases List.mem_cons.mp ha with rfl | ha'
      · exact .inl (hpair b ((List.mem_cons.mp hb).resolve_left (Ne.symm hne)))
      rcases List.mem_cons.mp hb with rfl | hb'
      · exact .inr (hpair a ha')
      · exact (ih ha' hb').imp (List.mem_append_right _)
          (List.mem_append_right _)

/-- Nor are they paired the other way around too. -/
theorem pairwise_pairsOf {items : List α} (nodup : items.Nodup) :
    (pairsOf items).Pairwise fun p q => p ≠ q ∧ p ≠ q.swap := by
  induction items with
  | nil => exact .nil
  | cons a rest ih =>
      obtain ⟨ha, hrest⟩ := List.nodup_cons.mp nodup
      refine List.pairwise_append.mpr ⟨List.pairwise_map.mpr ?_, ih hrest, ?_⟩
      · refine hrest.imp_of_mem fun {b c} _ hc hbc => ?_
        refine ⟨fun h => hbc (congrArg Prod.snd h), fun h => ?_⟩
        have hac : a = c := congrArg Prod.fst h
        exact ha (hac ▸ hc)
      · intro p hp q hq
        obtain ⟨b, -, rfl⟩ := List.mem_map.mp hp
        obtain ⟨hleft, hright⟩ := mem_of_mem_pairsOf hq
        refine ⟨fun h => ?_, fun h => ?_⟩
        · have haq : a = q.1 := congrArg Prod.fst h
          exact ha (haq ▸ hleft)
        · have haq : a = q.2 := congrArg Prod.fst h
          exact ha (haq ▸ hright)

-- ================================================================= segments

namespace SegmentSizes

variable {z : SegmentSizes} {index : ChainIndex} {chain run : List Nat}

/-- A segment of the chains with a length that is asked for. -/
def Admits (z : SegmentSizes) (index : ChainIndex) (run : List Nat) : Prop :=
  Segment index.chains run ∧ z.minimum ≤ run.length ∧ run.length ≤ z.maximum

/-- Where the segments of a chain start and how long they are. -/
def spans (z : SegmentSizes) (chain : List Nat) : List (Nat × Nat) :=
  (List.range chain.length).flatMap fun start =>
    (upTo z.minimum (min z.maximum (chain.length - start))).map (Prod.mk start)

/-- The segments of a chain are its runs over spans that fit. -/
theorem segmentsOf_eq (z : SegmentSizes) (chain : List Nat) :
    z.segmentsOf chain = (z.spans chain).map fun span =>
    runOf chain span.1 span.2 := by
  unfold spans
  rw [List.map_flatMap]
  simp only [List.map_map]
  rfl

/-- A span fits if it starts in the chain, ends there, and has a size in
bounds. -/
theorem mem_spans {span : Nat × Nat} : span ∈ z.spans chain ↔
    span.1 < chain.length ∧ z.minimum ≤ span.2 ∧ span.2 ≤ z.maximum ∧
      span.2 ≤ chain.length - span.1 := by
  unfold spans
  rw [mem_flatMap_pair, List.mem_range, mem_upTo, Nat.le_min]

/-- No span is listed twice. -/
theorem nodup_spans (z : SegmentSizes) (chain : List Nat) :
    (z.spans chain).Nodup :=
  nodup_flatMap_pair List.nodup_range fun _ _ => List.nodup_range'

/-- The segments of a chain are its runs of a size in bounds. -/
theorem mem_segmentsOf (least : 1 ≤ z.minimum) : run ∈ z.segmentsOf chain ↔
    run ≠ [] ∧ run <:+: chain ∧ z.minimum ≤ run.length ∧
    run.length ≤ z.maximum := by
  rw [segmentsOf_eq, List.mem_map]
  constructor
  · rintro ⟨span, hspan, rfl⟩
    obtain ⟨-, hmin, hmax, hsize⟩ := mem_spans.mp hspan
    rw [length_runOf hsize]
    refine ⟨List.ne_nil_of_length_pos ?_, ?_, hmin, hmax⟩
    · rw [length_runOf hsize]
      exact least.trans hmin
    · exact runOf_isInfix chain span.1 span.2
  · rintro ⟨hne, hrun, hmin, hmax⟩
    have hpos := List.length_pos_of_ne_nil hne
    obtain ⟨start, hend, hrun⟩ := isInfix_iff_runOf.mp hrun
    refine ⟨(start, run.length), mem_spans.mpr ⟨?_, hmin, hmax, ?_⟩, hrun⟩
    · dsimp only
      omega
    · dsimp only
      omega

/-- The segments are all there are. -/
theorem mem_segments (least : 1 ≤ z.minimum) : run ∈ z.segments index ↔
    z.Admits index run := by
  unfold segments Admits Segment
  simp only [List.mem_flatMap, mem_segmentsOf least]
  constructor
  · rintro ⟨chain, hchain, hne, hrun, hsize⟩
    exact ⟨⟨hne, chain, hchain, hrun⟩, hsize⟩
  · rintro ⟨⟨hne, chain, hchain, hrun⟩, hsize⟩
    exact ⟨chain, hchain, hne, hrun, hsize⟩

/-- And each is listed once. -/
theorem nodup_segments (least : 1 ≤ z.minimum)
    (nodup : index.chains.flatten.Nodup) : (z.segments index).Nodup := by
  obtain ⟨heach, hapart⟩ := List.nodup_flatten.mp nodup
  refine List.nodup_flatMap.mpr ⟨fun chain hchain => ?_,
    hapart.imp fun hdisjoint run h g => ?_⟩
  · rw [segmentsOf_eq]
    refine (z.nodup_spans chain).map_on fun p hp q hq h => ?_
    obtain ⟨-, hpmin, -, hpsize⟩ := mem_spans.mp hp
    obtain ⟨-, hqmin, -, hqsize⟩ := mem_spans.mp hq
    obtain ⟨hstart, hsize⟩ :=
      runOf_inj (heach chain hchain) ⟨least.trans hpmin, hpsize⟩
      ⟨least.trans hqmin, hqsize⟩ h
    exact Prod.ext hstart hsize
  · obtain ⟨hne, hrun, -⟩ := (mem_segmentsOf least).mp h
    obtain ⟨-, hother, -⟩ := (mem_segmentsOf least).mp g
    obtain ⟨e, he⟩ := List.exists_mem_of_ne_nil run hne
    exact hdisjoint (hrun.subset he) (hother.subset he)

end SegmentSizes

-- ==================================================================== links

namespace ChainIndex

variable {index : ChainIndex} {e : Nat} {link : Link}

/-- The links of an index are those that its chains have. -/
theorem mem_allLinks : link ∈ index.allLinks ↔ Present index.chains link := by
  unfold allLinks
  rw [List.mem_append, List.mem_map, List.mem_map]
  cases link with
  | anchor a => simp [Present]
  | entity e => simp [Present]

end ChainIndex

theorem Link.isIn_eq_false_iff {segment : List Nat} {link : Link} :
    (!link.isIn segment) = true ↔ link ∉ segment.map Link.entity := by
  cases link with
  | anchor a => simp [Link.isIn]
  | entity e => simp [Link.isIn]

-- ============================================================= enumerations

/-- The items are those that fit, each of them once; `same` says which count
as one. -/
structure Exhausts (same : α → α → Prop) (fits : α → Prop)
    (items : List α) : Prop where
  once : items.Pairwise fun a b => ¬ same a b
  all : ∀ a, fits a ↔ ∃ b ∈ items, same a b

/-- A list without repetition of just what fits exhausts it. -/
theorem exhausts_eq {fits : α → Prop} {items : List α} (nodup : items.Nodup)
    (hmem : ∀ a, a ∈ items ↔ fits a) : Exhausts Eq fits items where
  once := nodup
  all a := by
    rw [← hmem]
    exact ⟨fun h => ⟨a, h, rfl⟩, fun ⟨_, h, hab⟩ => hab ▸ h⟩

namespace Leaf

-- =================================================================== choices

/-- A segment of one entity is not reversed. -/
theorem mem_segmentTurns {reversing turn : Bool} {segment : List Nat} :
    turn ∈ segmentTurns reversing segment ↔
      (turn = true → reversing = true ∧ 1 < segment.length) := by
  unfold segmentTurns
  cases turn <;> cases reversing <;> simp <;> split <;> simp_all

theorem nodup_segmentTurns (reversing : Bool) (segment : List Nat) :
    (segmentTurns reversing segment).Nodup := by
  unfold segmentTurns
  split <;> decide

/-- Pairs are reversed only where that is allowed. -/
theorem mem_pairTurns {reversing turn : Bool} :
    turn ∈ pairTurns reversing ↔ (turn = true → reversing = true) := by
  cases turn <;> cases reversing <;> decide

theorem nodup_pairTurns (reversing : Bool) : (pairTurns reversing).Nodup := by
  cases reversing <;> decide

/-- Segments that do not overlap have no entity in common. -/
theorem not_segmentsOverlap_iff {left right : List Nat} :
    (!segmentsOverlap left right) = true ↔ left.Disjoint right := by
  unfold segmentsOverlap
  simp [List.Disjoint]

-- ==================================================================== passes

variable [BEq V] [Shown V] {s : S}

/-- A pass in the given order comes to the steps of the items that fit, each
once, and all of these steps can be made. -/
def Enumerates (l : Leaf S V) (s : S) (make : α → Step S V)
    (same : α → α → Prop) (fits : α → Prop) : Prop :=
  ∃ items, Exhausts same fits items ∧
    (∀ a ∈ items, (make a).make? s = .ok (make a)) ∧
    ∀ seed, (Selector.leaf l .given seed).Lists s
      (items.map fun a => .step (make a))

omit [Shown V] in
/-- A leaf in the given order lists its moves. -/
theorem lists_given (l : Leaf S V) (seed : UInt64) (s : S) :
    (Selector.leaf l .given seed).Lists s (l.moves s) := by
  have hinOrder : (Selector.leaf l .given seed).InOrder fun _ =>
    True := .leaf trivial
  exact hinOrder.lists s

/-- A pass in the given order comes to the moves of the leaf as they are. -/
theorem enumerates_of_moves {l : Leaf S V} {make : α → Step S V}
    {same : α → α → Prop} {fits : α → Prop} {items : List α}
    (exhausts : Exhausts same fits items)
    (made : ∀ a ∈ items, (make a).make? s = .ok (make a))
    (hmoves : l.moves s = items.map fun a => .step (make a)) :
    l.Enumerates s make same fits :=
  ⟨items, exhausts, made, fun seed => hmoves ▸ lists_given l seed s⟩

variable {x : ChainedVariable S} {index : ChainIndex} {sizes : SegmentSizes}
  {reversing : Bool}

/-- A segment, a link outside of it, and turned around only where that is
asked for and makes a difference. -/
def FitsChange (x : ChainedVariable S) (sizes : SegmentSizes)
    (reversing : Bool) (s : S) (index : ChainIndex) :
    List Nat × Link × Bool → Prop
  | (segment, link, turn) => sizes.Admits index segment ∧
    (x.Has s link ∧ link ∉ segment.map Link.entity) ∧
    (turn = true → reversing = true ∧ 1 < segment.length)

/-- Two segments that share no entity. -/
def FitsSwap (sizes : SegmentSizes) (reversing : Bool) (index : ChainIndex) :
    (List Nat × List Nat) × Bool → Prop
  | ((left, right), turn) =>
      sizes.Admits index left ∧ sizes.Admits index right ∧
    left.Disjoint right ∧ (turn = true → reversing = true)

/-- It does not matter which of two segments is on the left. -/
def SamePair (a b : (List Nat × List Nat) × Bool) : Prop :=
  a.2 = b.2 ∧ (a.1 = b.1 ∨ a.1 = b.1.swap)

/-- An assigned entity, and a link that is neither it nor what it follows. -/
def FitsTail (x : ChainedVariable S) (s : S) : Nat × Link → Prop
  | (e, link) =>
      x.Has s (.entity e) ∧ x.Has s link ∧ link ≠ .entity e ∧
        x.get s e ≠ some link

/-- Segments go behind every link outside of them, longer ones also turned
around if that is asked for. -/
theorem enumerates_segmentChange (hindex : x.index s = .ok index)
    (least : 1 ≤ sizes.minimum) :
    (Leaf.segmentChange x sizes reversing : Leaf S V).Enumerates s
      (fun (segment, link, turn) => .segmentChange x segment link turn) Eq
      (FitsChange x sizes reversing s index) := by
  have tabled := ChainedVariable.tabled_of_index hindex
  have nodup := tabled.nodup
  let items := (sizes.segments index).flatMap fun segment =>
    ((index.allLinks.filter fun link => !link.isIn segment).flatMap fun link =>
      (segmentTurns reversing segment).map (Prod.mk link)).map (Prod.mk segment)
  have hmem : ∀ item, item ∈ items ↔
      FitsChange x sizes reversing s index item := by
    rintro ⟨segment, link, turn⟩
    rw [mem_flatMap_pair, mem_flatMap_pair, SegmentSizes.mem_segments least,
      List.mem_filter, mem_allLinks, Link.isIn_eq_false_iff,
      ChainedVariable.present_iff_has hindex, mem_segmentTurns]
    exact Iff.rfl
  refine enumerates_of_moves (exhausts_eq ?_ hmem) ?_ ?_
  · refine nodup_flatMap_pair (SegmentSizes.nodup_segments least nodup)
      fun segment _ => ?_
    exact nodup_flatMap_pair ((nodup_allLinks nodup).filter _) fun _ _ =>
      nodup_segmentTurns ..
  · rintro ⟨segment, link, turn⟩ hitem
    obtain ⟨⟨hsegment, -⟩, ⟨hlink, hout⟩, -⟩ := (hmem _).mp hitem
    have ht : (Step.segmentChange x segment link turn : Step S V).CarriesOut x
        fun index => index.moveSegment segment link turn :=
          ⟨fun _ => rfl, fun _ => rfl⟩
    obtain ⟨chains, hchains⟩ := (moveSegment_iff tabled).mpr
      ⟨hsegment, (ChainedVariable.present_iff_has hindex).mpr hlink, hout⟩
    exact ht.make?_of_ok hindex hchains
  · simp only [moves, hindex, items, List.map_flatMap, List.map_map]
    rfl

/-- Any two segments without a common entity change places, one way around. -/
theorem enumerates_segmentSwap (hindex : x.index s = .ok index)
    (least : 1 ≤ sizes.minimum) :
    (Leaf.segmentSwap x sizes reversing : Leaf S V).Enumerates s
      (fun ((left, right), turn) => .segmentSwap x left right turn) SamePair
      (FitsSwap sizes reversing index) := by
  have tabled := ChainedVariable.tabled_of_index hindex
  have hsegments := SegmentSizes.nodup_segments least tabled.nodup
  let items := (disjointPairs (sizes.segments index)).flatMap fun pair =>
    (pairTurns reversing).map (Prod.mk pair)
  have hfits : ∀ item ∈ items, FitsSwap sizes reversing index item := by
    rintro ⟨⟨left, right⟩, turn⟩ hitem
    obtain ⟨hpair, hturn⟩ := mem_flatMap_pair.mp hitem
    obtain ⟨hpair, hdisjoint⟩ := List.mem_filter.mp hpair
    obtain ⟨hleft, hright⟩ := mem_of_mem_pairsOf hpair
    exact ⟨(SegmentSizes.mem_segments least).mp hleft,
      (SegmentSizes.mem_segments least).mp hright,
      not_segmentsOverlap_iff.mp hdisjoint, mem_pairTurns.mp hturn⟩
  refine enumerates_of_moves (⟨?_, ?_⟩ : Exhausts SamePair _ items) ?_ ?_
  · refine List.pairwise_flatMap.mpr ⟨fun pair _ => ?_, ?_⟩
    · refine List.pairwise_map.mpr ((nodup_pairTurns reversing).imp
        fun hne h => hne h.1)
    · refine ((pairwise_pairsOf hsegments).filter _).imp
        fun hpq a ha b hb h => ?_
      obtain ⟨_, -, rfl⟩ := List.mem_map.mp ha
      obtain ⟨_, -, rfl⟩ := List.mem_map.mp hb
      exact h.2.elim hpq.1 hpq.2
  · rintro ⟨⟨left, right⟩, turn⟩
    constructor
    · rintro ⟨hleft, hright, hdisjoint, hturn⟩
      -- segments that share nothing are different, since none is empty
      have hne : left ≠ right := by
        rintro rfl
        obtain ⟨e, he⟩ := List.exists_mem_of_ne_nil left hleft.1.1
        exact hdisjoint he he
      rcases mem_pairsOf_or ((SegmentSizes.mem_segments least).mpr hleft)
        ((SegmentSizes.mem_segments least).mpr hright) hne with hpair | hpair
      · refine ⟨((left, right), turn), ?_, rfl, .inl rfl⟩
        exact mem_flatMap_pair.mpr ⟨List.mem_filter.mpr
          ⟨hpair, not_segmentsOverlap_iff.mpr hdisjoint⟩,
            mem_pairTurns.mpr hturn⟩
      · refine ⟨((right, left), turn), ?_, rfl, .inr rfl⟩
        exact mem_flatMap_pair.mpr ⟨List.mem_filter.mpr
          ⟨hpair, not_segmentsOverlap_iff.mpr hdisjoint.symm⟩,
            mem_pairTurns.mpr hturn⟩
    · rintro ⟨item, hitem, hturn, hpair⟩
      obtain ⟨⟨ahead, behind⟩, other⟩ := item
      obtain ⟨hleft, hright, hdisjoint, hreversing⟩ := hfits _ hitem
      obtain rfl : turn = other := hturn
      rcases hpair with h | h
      · cases h
        exact ⟨hleft, hright, hdisjoint, hreversing⟩
      · cases h
        exact ⟨hright, hleft, hdisjoint.symm, hreversing⟩
  · rintro ⟨⟨left, right⟩, turn⟩ hitem
    obtain ⟨⟨hleft, -⟩, ⟨hright, -⟩, hdisjoint, -⟩ := hfits _ hitem
    have ht : (Step.segmentSwap x left right turn : Step S V).CarriesOut x
        fun index => index.swapSegments left right turn :=
          ⟨fun _ => rfl, fun _ => rfl⟩
    obtain ⟨chains, hchains⟩ :=
      (swapSegments_iff tabled).mpr ⟨hleft, hright, hdisjoint⟩
    exact ht.make?_of_ok hindex hchains
  · simp only [moves, hindex, items, List.map_flatMap, List.map_map]
    rfl

omit [Shown V] in
/-- The tail moves of a solution, by entity and link. -/
theorem exists_items_tailSwap (hindex : x.index s = .ok index) :
    ∃ items : List (Nat × Link), items.Nodup ∧
      (∀ item, item ∈ items ↔ FitsTail x s item) ∧
      (Leaf.tailSwap x : Leaf S V).moves s
        = items.map fun (e, link) => .step (.tailSwap x e link) := by
  have nodup := ChainedVariable.nodup_of_index hindex
  refine ⟨index.allEntities.flatMap fun e =>
    (index.allLinks.filter (index.isTailTarget e)).map (Prod.mk e), ?_, ?_, ?_⟩
  · exact nodup_flatMap_pair nodup fun _ _ => (nodup_allLinks nodup).filter _
  · rintro ⟨e, link⟩
    have hentity : e ∈ index.allEntities ↔ x.Has s (.entity e) :=
      ChainedVariable.mem_flatten_of_index hindex
    rw [mem_flatMap_pair, List.mem_filter, mem_allLinks,
      ChainedVariable.present_iff_has hindex, hentity]
    show _ ↔ x.Has s (.entity e) ∧ x.Has s link ∧ link ≠ .entity e ∧
      x.get s e ≠ some link
    refine and_congr_right fun he => and_congr_right fun _ => ?_
    rw [isTailTarget, ChainedVariable.previousLink_eq_get hindex he.1,
      Bool.and_eq_true, bne_iff_ne, bne_iff_ne]
  · simp only [moves, hindex, List.map_flatMap, List.map_map]
    rfl

/-- The tail at every entity goes behind every link but the entity itself and
the one it follows. -/
theorem enumerates_tailSwap (hindex : x.index s = .ok index) :
    (Leaf.tailSwap x : Leaf S V).Enumerates s
      (fun (e, link) => .tailSwap x e link) Eq (FitsTail x s) := by
  have tabled := ChainedVariable.tabled_of_index hindex
  obtain ⟨items, hitems, hmem, hmoves⟩ := exists_items_tailSwap (V := V) hindex
  refine enumerates_of_moves (exhausts_eq hitems hmem) ?_ hmoves
  rintro ⟨e, link⟩ hitem
  obtain ⟨hentity, hlink, hne, -⟩ := (hmem _).mp hitem
  have ht : (Step.tailSwap x e link : Step S V).CarriesOut x
      fun index => index.swapTails e link := ⟨fun _ => rfl, fun _ => rfl⟩
  obtain ⟨chains, hchains⟩ := (swapTails_iff tabled).mpr
    ⟨(ChainedVariable.present_iff_has hindex).mpr hentity,
      (ChainedVariable.present_iff_has hindex).mpr hlink, hne⟩
  exact ht.make?_of_ok hindex hchains

/-- The selectors on chains hand out all the steps of their kind that can be
made, each once; and none where the links are not chains. -/
theorem enumerates_chain_steps (x : ChainedVariable S) (sizes : SegmentSizes)
    (least : 1 ≤ sizes.minimum) (reversing : Bool) (s : S) :
    (∀ index, x.index s = .ok index →
      (Leaf.segmentChange x sizes reversing : Leaf S V).Enumerates s
        (fun (segment, link, turn) => .segmentChange x segment link turn) Eq
        (FitsChange x sizes reversing s index) ∧
      (Leaf.segmentSwap x sizes reversing : Leaf S V).Enumerates s
        (fun ((left, right), turn) => .segmentSwap x left right turn) SamePair
        (FitsSwap sizes reversing index) ∧
      (Leaf.tailSwap x : Leaf S V).Enumerates s
        (fun (e, link) => .tailSwap x e link) Eq (FitsTail x s)) ∧
    ∀ flaw, x.index s = .error flaw → ∀ l ∈ ([.segmentChange x sizes reversing,
      .segmentSwap x sizes reversing, .tailSwap x] : List (Leaf S V)), ∀ seed,
        (Selector.leaf l .given seed).Lists s [] := by
  refine ⟨fun index hindex => ⟨enumerates_segmentChange hindex least,
    enumerates_segmentSwap hindex least, enumerates_tailSwap hindex⟩, ?_⟩
  intro flaw hindex l hl seed
  have hmoves : l.moves s = [] := by
    rcases List.mem_cons.mp hl with rfl | hl
    · simp only [moves, hindex]
    rcases List.mem_cons.mp hl with rfl | hl
    · simp only [moves, hindex]
    · rw [List.mem_singleton.mp hl]
      simp only [moves, hindex]
  rw [← hmoves]
  exact lists_given l seed s

/-- Segments of two or three entities on two tracks; and a track that runs in
a circle. -/
theorem enumerates_chain_steps_tracks :
    let x := Mixed.previous
    let sizes : SegmentSizes := ⟨2, 3⟩
    let s := Mixed.twoTracks.working
    let tracks := ChainIndex.ofChains 7 [[0, 1, 2, 3], [4, 5]]
    let circle : Mixed :=
      { s with prev := ⟨[some (.entity 1), some (.entity 0)], 1⟩ }
    (1 ≤ sizes.minimum ∧ x.index s = .ok tracks ∧
      ∃ flaw, x.index circle = .error flaw) ∧
    ((Leaf.segmentChange x sizes true : Leaf Mixed Int).Enumerates s
        (fun (segment, link, turn) => .segmentChange x segment link turn) Eq
        (FitsChange x sizes true s tracks) ∧
      (Leaf.segmentSwap x sizes true : Leaf Mixed Int).Enumerates s
        (fun ((left, right), turn) => .segmentSwap x left right turn) SamePair
        (FitsSwap sizes true tracks) ∧
      (Leaf.tailSwap x : Leaf Mixed Int).Enumerates s
        (fun (e, link) => .tailSwap x e link) Eq
        (FitsTail x s)) ∧
    ∀ l ∈ ([.segmentChange x sizes true, .segmentSwap x sizes true,
      .tailSwap x] :
      List (Leaf Mixed Int)), ∀ seed,
          (Selector.leaf l .given seed).Lists circle [] := by
  intro x sizes s tracks circle
  have least : 1 ≤ sizes.minimum := by decide
  have hcircle : ∃ flaw, x.index circle = .error flaw := ⟨_, rfl⟩
  obtain ⟨flaw, hflaw⟩ := hcircle
  exact ⟨⟨least, Mixed.index_twoTracks, flaw, hflaw⟩,
    (enumerates_chain_steps x sizes least true s).1 tracks
      Mixed.index_twoTracks,
    (enumerates_chain_steps x sizes least true circle).2 flaw hflaw⟩

end Leaf

end PlanSearch

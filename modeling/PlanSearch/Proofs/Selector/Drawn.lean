/-
By chance, only moves of the given order.

A leaf draws the parts of a move where in the given order it runs through
them: an entity and a value, two different entities, a run of a group, a
segment and a link outside of it. What is drawn is one of the moves of the
pass in the given order, except that two sides drawn one after the other
may come the other way around (`Leaf.Covers`). And nothing is drawn from an
empty range: where there is nothing to draw from, there is no sampler, or
it stops before it draws.

# Attempts

A draw that is refused may leave a segment behind, which the next attempt
keeps. So an attempt is judged from every segment that attempts can come to
(`Sampler.Reached`), and for the change of a segment these are segments of
the solution (`Leaf.segment_of_reached`); from any other list of entities
it could draw something else.
-/
import PlanSearch.Proofs.Selector.Draws
import PlanSearch.Proofs.Selector.Leaves
import PlanSearch.Proofs.Selector.Segments

namespace PlanSearch

variable {S V : Type}

-- ================================================================= attempts

namespace Sampler

/-- What can be kept from attempt to attempt, starting with nothing. -/
inductive Reached (sampler : Sampler S V) : List Nat → Prop
  | start : Reached sampler []
  | again {held kept : List Nat} :
      Reached sampler held → (sampler held).Yields (.again kept) →
        Reached sampler kept

end Sampler

-- ================================================================ two sides

/-- The step with its sides exchanged, if it has two. -/
def Step.turned : Step S V → Step S V
  | swap x left right => swap x right left
  | pillarSwap x left right => pillarSwap x right left
  | segmentSwap x left right reversing => segmentSwap x right left reversing
  | t => t

namespace Move

mutual

/-- The move with the sides of all its steps exchanged. -/
def turned : Move S V → Move S V
  | step t => step t.turned
  | composite moves => composite (turnedAll moves)

def turnedAll : List (Move S V) → List (Move S V)
  | [] => []
  | m :: rest => turned m :: turnedAll rest

end

/-- Moves of single steps are turned step by step. -/
theorem turnedAll_steps (ts : List (Step S V)) :
    turnedAll (ts.map step) = (ts.map Step.turned).map step := by
  induction ts with
  | nil => rfl
  | cons t rest ih =>
      rw [List.map_cons, turnedAll, ih]
      rfl

end Move

namespace Leaf

/-- Steps made for every variable turn one by one. -/
theorem turned_together (ts : List (Step S V)) :
    (together ts).turned = together (ts.map Step.turned) := by
  cases ts with
  | nil => rfl
  | cons t rest =>
      cases rest with
      | nil => rfl
      | cons u rest =>
          show Move.composite
            (Move.turnedAll ((t :: u :: rest).map Move.step)) = _
          rw [Move.turnedAll_steps]
          rfl

/-- A swap turned around swaps the same entities. -/
theorem turned_swapMove (targets : List (BasicVariable S V))
    (left right : Nat) :
    (swapMove targets left right).turned = swapMove targets right left := by
  unfold swapMove
  rw [turned_together, List.map_map]
  rfl

-- ==================================================================== parts

/-- Two numbers drawn one after the other differ. -/
theorem of_yields_drawPair {n : Nat} {pair : Nat × Nat}
    (h : (drawPair n).Yields pair) :
    pair.1 < n ∧ pair.2 < n ∧ pair.1 ≠ pair.2 := by
  obtain ⟨left, hleft, h⟩ := Chance.yields_bind h
  obtain ⟨right, hright, h⟩ := Chance.yields_bind h
  have hpair := Chance.yields_pure h
  have hleft := Chance.yields_drawBelow.mp hleft
  have hright := Chance.yields_drawBelow.mp hright
  subst hpair
  dsimp only
  split <;> omega

/-- A pillar drawn from a group is one of its pillars. -/
theorem mem_ofGroup_of_yields {sub : SubPillars} {number : Nat}
    {group : List Nat} {p : Pillar}
    (hgroup : (sub.sizes group.length).isSome = true)
    (h : (Pillar.sample sub number group).Yields p) :
    p ∈ Pillar.ofGroup sub number group := by
  obtain ⟨⟨low, high⟩, hsizes⟩ := Option.isSome_iff_exists.mp hgroup
  obtain ⟨-, hlength⟩ := SubPillars.sizes_bounds hsizes
  unfold Pillar.sample at h
  rw [hsizes] at h
  dsimp only at h
  rw [Pillar.mem_ofGroup, SubPillars.allows_iff]
  split at h
  · obtain ⟨size, hsize, h⟩ := Chance.yields_bind h
    obtain ⟨start, hstart, h⟩ := Chance.yields_bind h
    obtain ⟨hlow, hhigh⟩ := Chance.yields_drawBetween.mp hsize
    obtain ⟨-, hstart⟩ := Chance.yields_drawBetween.mp hstart
    have hrun : (runOf group start size).length = size :=
      length_runOf (by omega)
    cases Chance.yields_pure h
    refine ⟨rfl, isInfix_iff_runOf.mpr ⟨start, ?_⟩, low, high, hsizes, ?_⟩
    · dsimp only
      rw [hrun]
      exact ⟨by omega, rfl⟩
    · dsimp only
      rw [hrun]
      exact ⟨hlow, hhigh⟩
  · rename_i hwhole
    cases Chance.yields_pure h
    refine ⟨rfl, List.infix_rfl, low, high, hsizes, ?_⟩
    unfold SubPillars.sizes at hsizes
    rw [if_neg hwhole] at hsizes
    split at hsizes
    · cases hsizes
      exact ⟨le_refl _, le_refl _⟩
    · cases hsizes

/-- Nothing is turned unless turning is allowed. -/
theorem of_yields_drawTurn {allowed turn : Bool}
    (h : (drawTurn allowed).Yields turn) : turn = true → allowed = true := by
  unfold drawTurn at h
  split at h
  · exact fun _ => ‹_›
  · cases Chance.yields_pure h
    exact nofun

/-- Drawing a turn asks for nothing impossible. -/
theorem safe_drawTurn (allowed : Bool) : (drawTurn allowed).Safe := by
  unfold drawTurn
  split
  · exact .coin fun b => .pure b
  · exact Chance.safe_pure _

/-- A segment that is drawn is one of the solution. -/
theorem mem_segments_of_yields {sizes : SegmentSizes}
    (least : 1 ≤ sizes.minimum) {index : ChainIndex} {segment : List Nat}
    (h : (sizes.sample index).Yields (some segment)) :
    segment ∈ sizes.segments index := by
  unfold SegmentSizes.sample at h
  dsimp only at h
  split at h
  · cases Chance.yields_pure h
  · obtain ⟨number, hnumber, h⟩ := Chance.yields_bind h
    obtain ⟨size, hsize, h⟩ := Chance.yields_bind h
    obtain ⟨start, hstart, h⟩ := Chance.yields_bind h
    cases Chance.yields_pure h
    have hnumber := Chance.yields_drawBelow.mp hnumber
    rw [List.getD_eq_getElem _ _ hnumber] at *
    obtain ⟨hchain, hlong⟩ := List.mem_filter.mp (List.getElem_mem hnumber)
    obtain ⟨hmin, hmax⟩ := Chance.yields_drawBetween.mp hsize
    obtain ⟨-, hstart⟩ := Chance.yields_drawBetween.mp hstart
    refine List.mem_flatMap.mpr ⟨_, hchain, ?_⟩
    rw [SegmentSizes.segmentsOf_eq]
    refine List.mem_map.mpr ⟨(start, size), SegmentSizes.mem_spans.mpr ?_, rfl⟩
    dsimp only
    omega

/-- A link is drawn for the segment, outside of it, or another one has to be. -/
theorem of_yields_linkFor {x : ChainedVariable S} {links : List Link}
    {reversing : Bool} {segment : List Nat} {outcome : Attempt S V}
    (h : (linkFor x links reversing segment).Yields outcome) :
    outcome = .again segment ∨
      ∃ link ∈ links, ∃ turn, link.isIn segment = false ∧
        (turn = true → (reversing && segment.length > 1) = true) ∧
        outcome = .take (.step (.segmentChange x segment link turn)) := by
  obtain ⟨link, hlink, h⟩ := Chance.yields_bind h
  cases link with
  | none => cases Chance.isSome_of_yields_pick hlink
  | some link =>
      dsimp only at h
      split at h
      · exact .inl (Chance.yields_pure h).symm
      · rename_i hout
        obtain ⟨turn, hturn, h⟩ := Chance.yields_bind h
        exact .inr ⟨link, Chance.mem_of_yields_pick hlink, turn,
          Bool.eq_false_of_not_eq_true hout, of_yields_drawTurn hturn,
          (Chance.yields_pure h).symm⟩

/-- Drawing a link asks for nothing impossible if there is one. -/
theorem safe_linkFor {x : ChainedVariable S} {links : List Link}
    (h : links ≠ []) (reversing : Bool) (segment : List Nat) :
    (linkFor x links reversing segment : Chance (Attempt S V)).Safe := by
  refine Chance.safe_bind (Chance.safe_pick h) fun link _ => ?_
  cases link with
  | none => exact Chance.safe_pure _
  | some link =>
      dsimp only
      split
      · exact Chance.safe_pure _
      · exact Chance.safe_bind (safe_drawTurn _) fun _ _ => Chance.safe_pure _

/-- Nothing is drawn where no chain is long enough. -/
theorem safe_sample_segment (sizes : SegmentSizes) (index : ChainIndex) :
    (sizes.sample index).Safe := by
  unfold SegmentSizes.sample
  dsimp only
  split
  · exact Chance.safe_pure _
  · rename_i hguard
    rw [Bool.or_eq_true, not_or, List.isEmpty_iff, decide_eq_true_eq] at hguard
    obtain ⟨heligible, hsizes⟩ := hguard
    refine Chance.safe_bind
      (Chance.safe_drawBelow (List.length_pos_iff.mpr heligible)) ?_
    intro number hnumber
    have hnumber := Chance.yields_drawBelow.mp hnumber
    have hlong := (List.mem_filter.mp (List.getElem_mem hnumber)).2
    rw [List.getD_eq_getElem _ _ hnumber]
    rw [decide_eq_true_eq] at hlong
    refine Chance.safe_bind
      (Chance.safe_drawBetween (Nat.le_min.mpr ⟨by omega, hlong⟩)) ?_
    intro size _
    exact Chance.safe_bind (Chance.safe_drawBetween (Nat.zero_le _)) fun _ _ =>
      Chance.safe_pure _

/-- Where there is a segment, there is a chain, and the link to its anchor. -/
theorem allLinks_ne_nil {sizes : SegmentSizes} {index : ChainIndex}
    {segment : List Nat} (h : segment ∈ sizes.segments index) :
    index.allLinks ≠ [] := by
  obtain ⟨chain, hchain, -⟩ := List.mem_flatMap.mp h
  obtain ⟨a, ha, -⟩ := List.getElem_of_mem hchain
  refine List.ne_nil_of_mem (a := Link.anchor a) (List.mem_append_left _ ?_)
  exact List.mem_map_of_mem (List.mem_range.mpr ha)

variable {s : S} {sampler : Sampler S V} {held : List Nat} {m : Move S V}

/-- Nothing is drawn along chains that are none. -/
theorem exists_index_of_sampler {x : ChainedVariable S}
    {made : ChainIndex → Option (Sampler S V)}
    (h : (match x.index s with | .error _ => none | .ok index => made index)
      = some sampler) :
    ∃ index, x.index s = .ok index ∧ made index = some sampler := by
  cases hindex : x.index s with
  | error flaw =>
      rw [hindex] at h
      cases h
  | ok index =>
      rw [hindex] at h
      exact ⟨index, rfl, h⟩

/-- What attempts keep is a segment of the solution. -/
theorem segment_of_reached {x : ChainedVariable S} {sizes : SegmentSizes}
    (least : 1 ≤ sizes.minimum) {reversing : Bool} {index : ChainIndex}
    (hindex : x.index s = .ok index)
    (hsampler : segmentChangeSampler x sizes reversing s = some sampler)
    (reached : sampler.Reached held) :
    held = [] ∨ held ∈ sizes.segments index := by
  unfold segmentChangeSampler at hsampler
  rw [hindex] at hsampler
  cases hsampler
  induction reached with
  | start => exact .inl rfl
  | @again held kept _ hagain ih =>
      have hlink : ∀ {segment}, segment ∈ sizes.segments index →
          (linkFor x index.allLinks reversing segment :
            Chance (Attempt S V)).Yields (.again kept) →
          kept ∈ sizes.segments index := by
        intro segment hsegment h
        rcases of_yields_linkFor h with h | ⟨_, _, _, _, _, h⟩
        · cases h
          exact hsegment
        · cases h
      split at hagain
      · obtain ⟨segment, hsegment, hagain⟩ := Chance.yields_bind hagain
        cases segment with
        | none => cases Chance.yields_pure hagain
        | some segment =>
            exact .inr (hlink (mem_segments_of_yields least hsegment) hagain)
      · rename_i hheld
        refine .inr (hlink (ih.resolve_left fun hnil => hheld ?_) hagain)
        rw [hnil]
        rfl

/-- Two segments are drawn that share no entity, or they are drawn again. -/
theorem of_yields_segmentSwapSampler {x : ChainedVariable S}
    {sizes : SegmentSizes} {reversing : Bool}
    (hsampler : segmentSwapSampler x sizes reversing s = some sampler)
    (hm : (sampler held).Yields (.take m)) : ∃ index, x.index s = .ok index ∧
      ∃ left ∈ sizes.segments index, ∃ right ∈ sizes.segments index, ∃ turn,
        left.Disjoint right ∧ (turn = true → reversing = true) ∧
          m = .step (.segmentSwap x left right turn) := by
  obtain ⟨index, hindex, hmade⟩ := exists_index_of_sampler hsampler
  refine ⟨index, hindex, ?_⟩
  rw [← eq_of_guarded hmade] at hm
  obtain ⟨left, hleft, hm⟩ := Chance.yields_bind hm
  obtain ⟨right, hright, hm⟩ := Chance.yields_bind hm
  cases left with
  | none => cases Chance.yields_pure hm
  | some left =>
      cases right with
      | none => cases Chance.yields_pure hm
      | some right =>
          dsimp only at hm
          split at hm
          · cases Chance.yields_pure hm
          · rename_i hapart
            obtain ⟨turn, hturn, hm⟩ := Chance.yields_bind hm
            cases Chance.yields_pure hm
            refine ⟨left, Chance.mem_of_yields_pick hleft, right,
              Chance.mem_of_yields_pick hright, turn,
              not_segmentsOverlap_iff.mp ?_, of_yields_drawTurn hturn, rfl⟩
            rw [Bool.eq_false_of_not_eq_true hapart, Bool.not_false]

-- =================================================================== safety

/-- Sampled moves of segments ask for nothing impossible. -/
theorem safe_segmentChange {x : ChainedVariable S} {sizes : SegmentSizes}
    {reversing : Bool} (least : 1 ≤ sizes.minimum)
    (hsampler : segmentChangeSampler x sizes reversing s = some sampler)
    (reached : sampler.Reached held) : (sampler held).Safe := by
  obtain ⟨index, hindex, hmade⟩ := exists_index_of_sampler hsampler
  have hheld := segment_of_reached least hindex hsampler reached
  cases hmade
  dsimp only
  split
  · refine Chance.safe_bind (safe_sample_segment sizes index)
      fun segment hsegment => ?_
    cases segment with
    | none => exact Chance.safe_pure _
    | some segment =>
        exact safe_linkFor
          (allLinks_ne_nil (mem_segments_of_yields least hsegment)) _ _
  · rename_i hkept
    have hsegment :=
      hheld.resolve_left fun hnil => hkept (List.isEmpty_iff.mpr hnil)
    exact safe_linkFor (allLinks_ne_nil hsegment) _ _

/-- Sampled swaps of segments ask for nothing impossible. -/
theorem safe_segmentSwap {x : ChainedVariable S} {sizes : SegmentSizes}
    {reversing : Bool}
    (hsampler : segmentSwapSampler x sizes reversing s = some sampler)
    (held : List Nat) : (sampler held).Safe := by
  obtain ⟨index, -, hmade⟩ := exists_index_of_sampler hsampler
  obtain ⟨hpairs, hmade⟩ := Option.ite_none_left_eq_some.mp hmade
  have hsegments : sizes.segments index ≠ [] := by
    intro hnil
    rw [hnil] at hpairs
    exact hpairs rfl
  cases hmade
  refine Chance.safe_bind (Chance.safe_pick hsegments) fun left _ => ?_
  refine Chance.safe_bind (Chance.safe_pick hsegments) fun right _ => ?_
  cases left with
  | none => exact Chance.safe_pure _
  | some left =>
      cases right with
      | none => exact Chance.safe_pure _
      | some right =>
          dsimp only
          split
          · exact Chance.safe_pure _
          · exact Chance.safe_bind (safe_drawTurn _) fun _ _ =>
              Chance.safe_pure _

/-- Sampled swaps of tails ask for nothing impossible. -/
theorem safe_tailSwap {x : ChainedVariable S}
    (hsampler : tailSwapSampler x s = some sampler) (held : List Nat) :
    (sampler held).Safe := by
  obtain ⟨index, -, hmade⟩ := exists_index_of_sampler hsampler
  obtain ⟨hguard, hmade⟩ := Option.ite_none_left_eq_some.mp hmade
  rw [Bool.or_eq_true, not_or, List.isEmpty_iff, decide_eq_true_eq] at hguard
  obtain ⟨hentities, hthree⟩ := hguard
  have hlinks : index.allLinks ≠ [] := List.ne_nil_of_length_pos (by omega)
  cases hmade
  refine Chance.safe_bind (Chance.safe_pick hentities) fun entity _ => ?_
  refine Chance.safe_bind (Chance.safe_pick hlinks) fun link _ => ?_
  cases entity with
  | none => exact Chance.safe_pure _
  | some entity =>
      cases link with
      | none => exact Chance.safe_pure _
      | some link => exact Chance.safe_pure _

-- ==================================================================== sides

variable [BEq V]

/-- The sides of a pair of pillars are checked alike. -/
theorem pillarPairFlaw_isNone_comm (x : BasicVariable S V) (s : S)
    (left right : List Nat) : (pillarPairFlaw x s left right).isNone
      = (pillarPairFlaw x s right left).isNone := by
  have hshared : (left.find? right.contains).isNone
      = (right.find? left.contains).isNone := by
    rw [Bool.eq_iff_iff, Option.isNone_iff_eq_none, Option.isNone_iff_eq_none,
      List.find?_eq_none, List.find?_eq_none]
    simp only [List.contains_iff_mem]
    exact ⟨fun h e her hel => h e hel her, fun h e hel her => h e her hel⟩
  unfold pillarPairFlaw
  simp only [Option.isNone_or, Option.isNone_map, hshared]
  exact Bool.and_left_comm _ _ _

/-- A swap of pillars turned around swaps the same pillars. -/
theorem turned_pillarSwapMove {targets : List (BasicVariable S V)}
    {left right : Pillar} {m : Move S V}
    (h : pillarSwapMove targets s left right = some m) :
    pillarSwapMove targets s right left = some m.turned := by
  unfold pillarSwapMove at h ⊢
  split at h
  · rename_i hall
    cases h
    simp only [pillarPairFlaw_isNone_comm _ s right.entities left.entities]
    rw [if_pos hall, turned_together, List.map_map]
    rfl
  · cases h

-- =================================================================== covered

/-- The move is one of the pass in the given order, as it is or with its
sides exchanged. -/
def Covers (l : Leaf S V) (s : S) (m : Move S V) : Prop :=
  m ∈ l.moves s ∨ m.turned ∈ l.moves s

/-- Segments have a least size of one, as built leaves have it. -/
def Sized : Leaf S V → Prop
  | segmentChange _ sizes _ | segmentSwap _ sizes _ => 1 ≤ sizes.minimum
  | _ => True

/-- A pillar drawn from a group of the solution is one of its pillars. -/
theorem mem_all_of_yields {targets : List (BasicVariable S V)}
    {sub : SubPillars} {number : Nat} {p : Pillar}
    (hnumber : number < (Pillar.groups targets sub s).length)
    (h : (Pillar.sample sub number
      ((Pillar.groups targets sub s).getD number [])).Yields p) :
    p ∈ Pillar.all targets sub s ∧ p.group = number := by
  rw [List.getD_eq_getElem _ _ hnumber] at h
  have hgroup := (List.mem_filter.mp (List.getElem_mem hnumber)).2
  have hp := mem_ofGroup_of_yields hgroup h
  obtain ⟨hnumber', hrun⟩ := Pillar.mem_ofGroup.mp hp
  subst hnumber'
  exact ⟨Pillar.mem_all_iff.mpr ⟨_, List.getElem?_eq_getElem hnumber, hrun⟩,
    rfl⟩

-- ============================================================ kind by kind

/-- Sampled changes are those of the pass. -/
theorem covers_change {x : BasicVariable S V} {skipNoops : Bool}
    (hsampler : changeSampler x skipNoops s = some sampler)
    (hm : (sampler held).Yields (.take m)) :
    (change x skipNoops).Covers s m := by
  rw [← eq_of_guarded hsampler] at hm
  obtain ⟨e, he, hm⟩ := Chance.yields_bind hm
  obtain ⟨v, hv, hm⟩ := Chance.yields_bind hm
  cases v with
  | none => cases Chance.yields_pure hm
  | some v =>
      have htake := Chance.yields_pure hm
      split at htake
      · cases htake
      · rename_i hkept
        cases htake
        refine .inl (List.mem_flatMap.mpr ⟨e, List.mem_range.mpr ?_,
          List.mem_map.mpr ⟨v, ?_, rfl⟩⟩)
        · exact Chance.yields_drawBelow.mp he
        · exact List.mem_filter.mpr ⟨Chance.mem_of_yields_pick hv,
            by rw [Bool.eq_false_of_not_eq_true hkept, Bool.not_false]⟩

theorem covers_swap {targets : List (BasicVariable S V)}
    (hsampler : swapSampler targets s = some sampler)
    (hm : (sampler held).Yields (.take m)) : (swap targets).Covers s m := by
  rw [← eq_of_guarded hsampler] at hm
  obtain ⟨⟨left, right⟩, hpair, hm⟩ := Chance.yields_bind hm
  obtain ⟨hleft, hright, hne⟩ := of_yields_drawPair hpair
  cases Chance.yields_pure hm
  have hmem : ∀ {a b},
      (a, b) ∈ pairsOf (List.range (Pillar.entityCount targets s)) →
      swapMove targets a b ∈ (swap targets).moves s :=
    fun h => List.mem_map.mpr ⟨_, h, rfl⟩
  rcases mem_pairsOf_or (List.mem_range.mpr hleft) (List.mem_range.mpr hright)
    hne with h | h
  · exact .inl (hmem h)
  · refine .inr ?_
    rw [turned_swapMove]
    exact hmem h

/-- Sampled changes of pillars are those of the pass. -/
theorem covers_pillarChange {x : BasicVariable S V} {sub : SubPillars}
    (hsampler : pillarChangeSampler x sub s = some sampler)
    (hm : (sampler held).Yields (.take m)) :
    (pillarChange x sub).Covers s m := by
  rw [← eq_of_guarded hsampler] at hm
  obtain ⟨number, hnumber, hm⟩ := Chance.yields_bind hm
  obtain ⟨pillar, hpillar, hm⟩ := Chance.yields_bind hm
  obtain ⟨v, hv, hm⟩ := Chance.yields_bind hm
  cases v with
  | none => cases Chance.yields_pure hm
  | some v =>
      have hmade := eq_some_of_ofOption (Chance.yields_pure hm)
      obtain ⟨hall, -⟩ :=
        mem_all_of_yields (Chance.yields_drawBelow.mp hnumber) hpillar
      refine .inl (List.mem_flatMap.mpr ⟨pillar, hall,
        List.mem_filterMap.mpr ⟨v, ?_, hmade⟩⟩)
      exact Chance.mem_of_yields_pick hv

/-- Sampled swaps of pillars are those of the pass, turned or not. -/
theorem covers_pillarSwap {targets : List (BasicVariable S V)}
    {sub : SubPillars}
    (hsampler : pillarSwapSampler targets sub s = some sampler)
    (hm : (sampler held).Yields (.take m)) :
    (pillarSwap targets sub).Covers s m := by
  rw [← eq_of_guarded hsampler] at hm
  obtain ⟨⟨i, j⟩, hpair, hm⟩ := Chance.yields_bind hm
  obtain ⟨hi, hj, hij⟩ := of_yields_drawPair hpair
  obtain ⟨left, hleft, hm⟩ := Chance.yields_bind hm
  obtain ⟨right, hright, hm⟩ := Chance.yields_bind hm
  have hmade := eq_some_of_ofOption (Chance.yields_pure hm)
  obtain ⟨hp, rfl⟩ := mem_all_of_yields hi hleft
  obtain ⟨hq, rfl⟩ := mem_all_of_yields hj hright
  have hmem : ∀ {a b : Pillar} {n : Move S V},
      (a, b) ∈ pairsOf (Pillar.all targets sub s) →
      a.group ≠ b.group → pillarSwapMove targets s a b = some n →
      n ∈ (pillarSwap targets sub).moves s :=
    fun h hne hn => List.mem_filterMap.mpr ⟨_, h, (if_neg hne).trans hn⟩
  rcases mem_pairsOf_or hp hq fun h => hij (congrArg Pillar.group h) with h | h
  · exact .inl (hmem h hij hmade)
  · exact .inr (hmem h (Ne.symm hij) (turned_pillarSwapMove hmade))

/-- Sampled moves of segments are those of the pass. -/
theorem covers_segmentChange {x : ChainedVariable S} {sizes : SegmentSizes}
    {reversing : Bool} (least : 1 ≤ sizes.minimum)
    (hsampler : segmentChangeSampler x sizes reversing s = some sampler)
    (reached : sampler.Reached held) (hm : (sampler held).Yields (.take m)) :
    (segmentChange x sizes reversing : Leaf S V).Covers s m := by
  obtain ⟨index, hindex, hmade⟩ := exists_index_of_sampler hsampler
  have hheld := segment_of_reached least hindex hsampler reached
  have hlink : ∀ {segment}, segment ∈ sizes.segments index →
      (linkFor x index.allLinks reversing segment).Yields (.take m) →
      (segmentChange x sizes reversing : Leaf S V).Covers s m := by
    intro segment hsegment h
    rcases of_yields_linkFor h with h | ⟨link, hlink, turn, hout, hturn, h⟩
    · cases h
    · cases h
      refine .inl ?_
      simp only [moves, hindex]
      refine List.mem_flatMap.mpr ⟨segment, hsegment,
        List.mem_flatMap.mpr ⟨link, ?_, ?_⟩⟩
      · exact List.mem_filter.mpr ⟨hlink, by rw [hout, Bool.not_false]⟩
      · refine List.mem_map.mpr ⟨turn,
          mem_segmentTurns.mpr fun hreversed => ?_, rfl⟩
        simpa using hturn hreversed
  cases hmade
  dsimp only at hm
  split at hm
  · obtain ⟨segment, hsegment, hm⟩ := Chance.yields_bind hm
    cases segment with
    | none => cases Chance.yields_pure hm
    | some segment => exact hlink (mem_segments_of_yields least hsegment) hm
  · rename_i hkept
    exact hlink (hheld.resolve_left fun hnil =>
      hkept (List.isEmpty_iff.mpr hnil)) hm

/-- Sampled swaps of segments are those of the pass, turned or not. -/
theorem covers_segmentSwap {x : ChainedVariable S} {sizes : SegmentSizes}
    {reversing : Bool} (least : 1 ≤ sizes.minimum)
    (hsampler : segmentSwapSampler x sizes reversing s = some sampler)
    (hm : (sampler held).Yields (.take m)) :
    (segmentSwap x sizes reversing : Leaf S V).Covers s m := by
  obtain ⟨index, hindex, left, hleft, right, hright, turn, hdisjoint,
      hturn, rfl⟩ :=
    of_yields_segmentSwapSampler hsampler hm
  have hne : left ≠ right := by
    rintro rfl
    obtain ⟨e, he⟩ := List.exists_mem_of_ne_nil left
      ((SegmentSizes.mem_segments least).mp hleft).1.1
    exact hdisjoint he he
  have hmem : ∀ {a b : List Nat}, (a, b) ∈ pairsOf (sizes.segments index) →
      a.Disjoint b → .step (.segmentSwap x a b turn) ∈
        (segmentSwap x sizes reversing : Leaf S V).moves s := by
    intro a b hpair hab
    simp only [moves, hindex]
    refine List.mem_flatMap.mpr ⟨(a, b), List.mem_filter.mpr ⟨hpair, ?_⟩, ?_⟩
    · exact not_segmentsOverlap_iff.mpr hab
    · exact List.mem_map.mpr ⟨turn, mem_pairTurns.mpr hturn, rfl⟩
  rcases mem_pairsOf_or hleft hright hne with h | h
  · exact .inl (hmem h hdisjoint)
  · exact .inr (hmem h hdisjoint.symm)

/-- A tail has no sides to be exchanged. -/
theorem mem_moves_of_yields_tailSwap {x : ChainedVariable S}
    (hsampler : tailSwapSampler x s = some sampler)
    (hm : (sampler held).Yields (.take m)) :
    m ∈ (tailSwap x : Leaf S V).moves s := by
  obtain ⟨index, hindex, hmade⟩ := exists_index_of_sampler hsampler
  rw [← eq_of_guarded hmade] at hm
  obtain ⟨entity, hentity, hm⟩ := Chance.yields_bind hm
  obtain ⟨link, hlink, hm⟩ := Chance.yields_bind hm
  cases entity with
  | none => cases Chance.yields_pure hm
  | some entity =>
      cases link with
      | none => cases Chance.yields_pure hm
      | some link =>
          have htake := Chance.yields_pure hm
          split at htake
          · rename_i htarget
            cases htake
            simp only [moves, hindex]
            refine List.mem_flatMap.mpr ⟨entity,
              Chance.mem_of_yields_pick hentity,
              List.mem_map.mpr ⟨link, List.mem_filter.mpr ⟨?_, htarget⟩, rfl⟩⟩
            exact Chance.mem_of_yields_pick hlink
          · cases htake

omit [BEq V] in
/-- And each of its moves can be drawn. -/
theorem yields_tailSwap {x : ChainedVariable S} {index : ChainIndex}
    (hsampler : tailSwapSampler x s = some sampler)
    (hindex : x.index s = .ok index) {entity : Nat} {link : Link}
    (hentity : entity ∈ index.allEntities) (hlink : link ∈ index.allLinks)
    (htarget : index.isTailTarget entity link = true) (held : List Nat) :
    (sampler held).Yields (.take (.step (.tailSwap x entity link))) := by
  obtain ⟨found, hfound, hmade⟩ := exists_index_of_sampler hsampler
  cases hfound.symm.trans hindex
  rw [← eq_of_guarded hmade]
  refine (Chance.yields_pick_of_mem hentity).bind
    ((Chance.yields_pick_of_mem hlink).bind ?_)
  dsimp only
  rw [if_pos htarget]
  exact .pure _

/-- Sampled swaps of tails are those of the pass. -/
theorem covers_tailSwap {x : ChainedVariable S}
    (hsampler : tailSwapSampler x s = some sampler)
    (hm : (sampler held).Yields (.take m)) :
    (tailSwap x : Leaf S V).Covers s m :=
  .inl (mem_moves_of_yields_tailSwap hsampler hm)

/-- What can be drawn is in the pass in the given order. -/
theorem covers_of_yields {l : Leaf S V} (sized : l.Sized)
    (own : ∀ factory, l ≠ .moveSource factory)
    (hsampler : l.sampler s = some sampler) (reached : sampler.Reached held)
    (hm : (sampler held).Yields (.take m)) : l.Covers s m := by
  cases l with
  | change x skipNoops => exact covers_change hsampler hm
  | swap targets => exact covers_swap hsampler hm
  | pillarChange x sub => exact covers_pillarChange hsampler hm
  | pillarSwap targets sub => exact covers_pillarSwap hsampler hm
  | segmentChange x sizes reversing =>
      exact covers_segmentChange sized hsampler reached hm
  | segmentSwap x sizes reversing => exact covers_segmentSwap sized hsampler hm
  | tailSwap x => exact covers_tailSwap hsampler hm
  | moveList factory =>
      rw [← eq_of_guarded hsampler] at hm
      obtain ⟨found, hfound, hm⟩ := Chance.yields_bind hm
      rw [eq_some_of_ofOption (Chance.yields_pure hm)] at hfound
      exact .inl (Chance.mem_of_yields_pick hfound)
  | moveSource factory => exact absurd rfl (own factory)

/-- No attempt asks from an empty range. -/
theorem safe_of_reached {l : Leaf S V} (sized : l.Sized)
    (own : ∀ factory, l ≠ .moveSource factory)
    (hsampler : l.sampler s = some sampler) (reached : sampler.Reached held) :
    (sampler held).Safe := by
  cases l with
  | change x skipNoops => exact safe_changeSampler hsampler held
  | swap targets => exact (Plain.sure (.swap targets) hsampler).safe held
  | pillarChange x sub =>
      exact (Plain.sure (.pillarChange x sub) hsampler).safe held
  | pillarSwap targets sub =>
      exact (Plain.sure (.pillarSwap targets sub) hsampler).safe held
  | segmentChange x sizes reversing =>
      exact safe_segmentChange sized hsampler reached
  | segmentSwap x sizes reversing => exact safe_segmentSwap hsampler held
  | tailSwap x => exact safe_tailSwap hsampler held
  | moveList factory =>
      exact (Plain.sure (.moveList factory) hsampler).safe held
  | moveSource factory => exact absurd rfl (own factory)

end Leaf

end PlanSearch

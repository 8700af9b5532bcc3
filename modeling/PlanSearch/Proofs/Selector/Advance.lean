/-
Draws that are refused, and draws that can be accepted.

Four kinds of leaves refuse some of what they draw and draw again: a change
that would change nothing, a link inside the segment, two segments that
overlap, a tail that follows the link already. Each looks once, before the
first draw, whether there is anything to accept. `Sampler.Advances` says
that the look was enough: from wherever attempts have come to, one that is
accepted is possible.

For the three kinds along chains it always is. A segment never contains an
anchor, two segments that share nothing were found, and of three links at
most two are refused for an entity. For a change it is not. The look is for
a range of one value that all entities hold; a range that lists such a
value twice passes it, and then every draw is refused, for ever
(`Leaf.change_refuses_forever`).
-/
import PlanSearch.Proofs.Selector.Drawn

namespace PlanSearch

variable {S V : Type}

-- ================================================================= attempts

/-- From wherever attempts have come to, the next one may take a move. -/
def Sampler.Advances (sampler : Sampler S V) : Prop :=
  ∀ held, sampler.Reached held → ∃ m, (sampler held).Yields (.take m)

namespace Leaf

variable {s : S} {sampler : Sampler S V}

-- ================================================================== chains

/-- A turn may always be drawn straight. -/
theorem yields_drawTurn (allowed : Bool) : (drawTurn allowed).Yields false := by
  unfold drawTurn
  split
  · exact .coin false (.pure false)
  · exact .pure false

/-- An anchor is outside of every segment. -/
theorem exists_yields_linkFor (x : ChainedVariable S) {index : ChainIndex}
    (reversing : Bool) (segment : List Nat) (h : index.chains ≠ []) :
    ∃ m : Move S V, (linkFor x index.allLinks reversing segment).Yields
      (.take m) := by
  have hanchor : Link.anchor 0 ∈ index.allLinks :=
    List.mem_append_left _
      (List.mem_map_of_mem (List.mem_range.mpr (List.length_pos_iff.mpr h)))
  refine ⟨.step (.segmentChange x segment (.anchor 0) false), ?_⟩
  exact (Chance.yields_pick_of_mem hanchor).bind
    ((yields_drawTurn _).bind (.pure _))

/-- Either no segment can be drawn at all, or one can. -/
theorem yields_sample_segment (sizes : SegmentSizes) (index : ChainIndex) :
    (sizes.sample index).Yields none ∨
      ∃ segment, (sizes.sample index).Yields (some segment) := by
  unfold SegmentSizes.sample
  dsimp only
  split
  · exact .inl (.pure none)
  · rename_i hguard
    rw [Bool.or_eq_true, not_or, List.isEmpty_iff, decide_eq_true_eq] at hguard
    obtain ⟨heligible, hsizes⟩ := hguard
    obtain ⟨chain, hchain⟩ := List.exists_mem_of_ne_nil _ heligible
    have hlong := (List.mem_filter.mp hchain).2
    rw [decide_eq_true_eq] at hlong
    obtain ⟨number, hnumber, hat⟩ := List.getElem_of_mem hchain
    refine .inr ⟨runOf chain 0 sizes.minimum,
      (Chance.yields_drawBelow.mpr hnumber).bind ?_⟩
    rw [List.getD_eq_getElem _ _ hnumber, hat]
    refine (Chance.yields_drawBetween.mpr ⟨le_refl _,
      Nat.le_min.mpr ⟨by omega, hlong⟩⟩).bind ?_
    exact (Chance.yields_drawBetween.mpr ⟨le_refl _, Nat.zero_le _⟩).bind
      (.pure _)

/-- Sampled moves of segments advance unless there is nothing to move. -/
theorem advances_segmentChange {x : ChainedVariable S} {sizes : SegmentSizes}
    {reversing : Bool} (least : 1 ≤ sizes.minimum)
    (hsampler : segmentChangeSampler x sizes reversing s = some sampler)
    (hopen : ¬(sampler []).Yields .stop) : sampler.Advances := by
  intro held reached
  obtain ⟨index, hindex, hmade⟩ := exists_index_of_sampler hsampler
  have hheld := segment_of_reached least hindex hsampler reached
  have hchains : ∀ {segment}, segment ∈ sizes.segments index →
      index.chains ≠ [] := by
    intro segment hsegment
    obtain ⟨chain, hchain, -⟩ := List.mem_flatMap.mp hsegment
    exact List.ne_nil_of_mem hchain
  cases hmade
  rcases hheld with rfl | hsegment
  · dsimp only at hopen ⊢
    rw [if_pos List.isEmpty_nil] at hopen ⊢
    rcases yields_sample_segment sizes index with hnone | ⟨segment, hdrawn⟩
    · exact (hopen (hnone.bind (.pure _))).elim
    · obtain ⟨m, hm⟩ := exists_yields_linkFor (V := V) x reversing segment
        (hchains (mem_segments_of_yields least hdrawn))
      exact ⟨m, hdrawn.bind hm⟩
  · have hkept : held.isEmpty = false := by
      have hne := ((SegmentSizes.mem_segments least).mp hsegment).1.1
      rwa [List.isEmpty_eq_false_iff]
    obtain ⟨m, hm⟩ :=
      exists_yields_linkFor (V := V) x reversing held (hchains hsegment)
    refine ⟨m, ?_⟩
    dsimp only
    rw [if_neg (by rw [hkept]; exact Bool.false_ne_true)]
    exact hm

/-- Sampled swaps of segments advance. -/
theorem advances_segmentSwap {x : ChainedVariable S} {sizes : SegmentSizes}
    {reversing : Bool}
    (hsampler : segmentSwapSampler x sizes reversing s = some sampler) :
    sampler.Advances := by
  intro held _
  obtain ⟨index, -, hmade⟩ := exists_index_of_sampler hsampler
  obtain ⟨hpairs, hmade⟩ := Option.ite_none_left_eq_some.mp hmade
  rw [List.isEmpty_iff] at hpairs
  obtain ⟨⟨left, right⟩, hpair⟩ := List.exists_mem_of_ne_nil _ hpairs
  obtain ⟨hpair, hapart⟩ := List.mem_filter.mp hpair
  obtain ⟨hleft, hright⟩ := mem_of_mem_pairsOf hpair
  cases hmade
  refine ⟨.step (.segmentSwap x left right false), ?_⟩
  refine (Chance.yields_pick_of_mem hleft).bind
    ((Chance.yields_pick_of_mem hright).bind ?_)
  dsimp only at hapart ⊢
  rw [if_neg (by simpa using hapart)]
  exact (yields_drawTurn reversing).bind (.pure _)

/-- Sampled swaps of tails advance. -/
theorem advances_tailSwap {x : ChainedVariable S}
    (hsampler : tailSwapSampler x s = some sampler) : sampler.Advances := by
  intro held _
  obtain ⟨index, hindex, hmade⟩ := exists_index_of_sampler hsampler
  obtain ⟨hguard, hmade⟩ := Option.ite_none_left_eq_some.mp hmade
  rw [Bool.or_eq_true, not_or, List.isEmpty_iff, decide_eq_true_eq] at hguard
  obtain ⟨hentities, hthree⟩ := hguard
  obtain ⟨entity, hentity⟩ := List.exists_mem_of_ne_nil _ hentities
  -- the entity itself and the link it follows are refused, and no other
  have htargets : 0
      < (index.allLinks.filter (index.isTailTarget entity)).length := by
    rw [ChainIndex.length_filter_isTailTarget
      (ChainedVariable.tabled_of_index hindex) hentity]
    omega
  obtain ⟨link, hlink⟩ := List.exists_mem_of_length_pos htargets
  obtain ⟨hlink, htarget⟩ := List.mem_filter.mp hlink
  exact ⟨_, yields_tailSwap hsampler hindex hentity hlink htarget held⟩

-- ================================================================== changes

section

variable [BEq V] {x : BasicVariable S V}

/-- A change that skips what is held already: what it draws from, and what
comes of a draw. -/
theorem yields_changeSampler (hsampler : changeSampler x true s = some sampler)
    (held : List Nat) {outcome : Attempt S V} : (sampler held).Yields outcome ↔
      ∃ e < x.count s, ∃ v ∈ x.values s,
        outcome = if holds x s e v then .again []
          else .take (.step (.change x e (some v))) := by
  rw [← eq_of_guarded hsampler]
  constructor
  · intro h
    obtain ⟨e, he, h⟩ := Chance.yields_bind h
    obtain ⟨v, hv, h⟩ := Chance.yields_bind h
    cases v with
    | none => cases Chance.isSome_of_yields_pick hv
    | some v =>
        refine ⟨e, Chance.yields_drawBelow.mp he, v,
          Chance.mem_of_yields_pick hv, ?_⟩
        rw [← Chance.yields_pure h, Bool.true_and]
  · rintro ⟨e, he, v, hv, rfl⟩
    refine (Chance.yields_drawBelow.mpr he).bind
      ((Chance.yields_pick_of_mem hv).bind ?_)
    dsimp only
    rw [Bool.true_and]
    exact .pure _

/-- It is drawn from something, so it never stops; whether a draw is ever
accepted depends on there being a value that some entity does not hold. -/
theorem advances_change_iff (hsampler : changeSampler x true s = some sampler) :
    sampler.Advances ↔
    ∃ e < x.count s, ∃ v ∈ x.values s, holds x s e v = false := by
  constructor
  · intro h
    obtain ⟨m, hm⟩ := h [] .start
    obtain ⟨e, he, v, hv, htake⟩ := (yields_changeSampler hsampler []).mp hm
    refine ⟨e, he, v, hv, ?_⟩
    split at htake
    · cases htake
    · exact Bool.eq_false_of_not_eq_true ‹_›
  · rintro ⟨e, he, v, hv, hfree⟩ held _
    refine ⟨.step (.change x e (some v)),
      (yields_changeSampler hsampler held).mpr ?_⟩
    exact ⟨e, he, v, hv, by rw [hfree]; rfl⟩

/-- Two values that are not equal cannot both be held. -/
theorem advances_change_of_ne [PartialEquivBEq V]
    (hsampler : changeSampler x true s = some sampler) {v w : V}
    (hv : v ∈ x.values s) (hw : w ∈ x.values s) (hne : (v == w) = false) :
    sampler.Advances := by
  have hcount : 0 < x.count s := by
    obtain ⟨hguard, -⟩ := Option.ite_none_left_eq_some.mp hsampler
    refine Nat.pos_of_ne_zero fun hzero => hguard ?_
    rw [hzero]
    rfl
  refine (advances_change_iff hsampler).mpr ?_
  by_cases hheld : holds x s 0 v = true
  · refine ⟨0, hcount, w, hw, Bool.eq_false_of_not_eq_true fun hboth => ?_⟩
    have hvw : (some v == some w) = true := BEq.trans (BEq.symm hheld) hboth
    rw [show (some v == some w) = (v == w) from rfl, hne] at hvw
    cases hvw
  · exact ⟨0, hcount, v, hv, Bool.eq_false_of_not_eq_true hheld⟩

/-- A range of a single value is looked at before the first draw. -/
theorem advances_change_of_single
    (hsampler : changeSampler x true s = some sampler) {v : V}
    (hvalues : x.values s = [v]) : sampler.Advances := by
  obtain ⟨hguard, -⟩ := Option.ite_none_left_eq_some.mp hsampler
  refine (advances_change_iff hsampler).mpr ?_
  rw [hvalues] at hguard ⊢
  rw [Bool.or_eq_true, not_or] at hguard
  have hfree : ¬((List.range (x.count s)).all fun e => holds x s e v)
    = true := hguard.2
  rw [List.all_eq_true] at hfree
  by_contra hnone
  refine hfree fun e he => ?_
  by_contra hfree
  exact hnone ⟨e, List.mem_range.mp he, v, List.mem_singleton.mpr rfl,
    Bool.eq_false_of_not_eq_true hfree⟩

/-- Along chains, a pass that does not stop at once can always go on. A pass
of changes that skips what is held never stops, and can go on if there is a
value that some entity does not hold: at any rate if the range lists a
single value or two that differ. -/
theorem attempts_advance [PartialEquivBEq V] (s : S) :
    (∀ (x : ChainedVariable S) (sizes : SegmentSizes) (reversing : Bool),
        1 ≤ sizes.minimum →
      ∀ l ∈ ([.segmentChange x sizes reversing, .segmentSwap x sizes reversing,
            .tailSwap x] :
          List (Leaf S V)),
        ∀ sampler, l.sampler s = some sampler → ¬(sampler []).Yields .stop →
          sampler.Advances) ∧
    ∀ (x : BasicVariable S V) (sampler : Sampler S V),
      (change x true).sampler s = some sampler → ¬(sampler []).Yields .stop ∧
      (sampler.Advances ↔
        ∃ e < x.count s, ∃ v ∈ x.values s, holds x s e v = false) ∧
      ((x.values s).length = 1 ∨
          (∃ v ∈ x.values s, ∃ w ∈ x.values s, (v == w) = false) →
        sampler.Advances) := by
  refine ⟨fun x sizes reversing least l hl sampler hsampler hopen => ?_,
    fun x sampler hsampler =>
    ⟨fun hstop => ?_, advances_change_iff hsampler, ?_⟩⟩
  · rcases List.mem_cons.mp hl with rfl | hl
    · exact advances_segmentChange least hsampler hopen
    rcases List.mem_cons.mp hl with rfl | hl
    · exact advances_segmentSwap hsampler
    · rw [List.mem_singleton.mp hl] at hsampler
      exact advances_tailSwap hsampler
  · obtain ⟨e, -, v, -, houtcome⟩ := (yields_changeSampler hsampler []).mp hstop
    split at houtcome <;> cases houtcome
  · rintro (hsingle | ⟨v, hv, w, hw, hne⟩)
    · obtain ⟨v, hvalues⟩ := List.length_eq_one_iff.mp hsingle
      exact advances_change_of_single hsampler hvalues
    · exact advances_change_of_ne hsampler hv hw hne

end

end Leaf

-- ================================================================ instances

namespace Mixed

/-- The first of the basic variables. -/
def leading : BasicVariable Mixed Int :=
  basic "x" 0 Mixed.ax fun s c => { s with ax := c }

/-- An entity, and a range that lists the value 1 twice. -/
def oneValueTwice (held : Option Int) : Mixed :=
  ⟨⟨[held], [1, 1]⟩, ⟨[], []⟩, ⟨[], []⟩, ⟨[], []⟩, ⟨[], 0⟩, ⟨[], 0⟩, none⟩

end Mixed

namespace Leaf

/-- Segments of two or three entities on two tracks, and an entity that does
not hold the one value of its range. -/
theorem attempts_advance_tracks :
    (∃ sampler, (segmentChange Mixed.previous ⟨2, 3⟩ true :
          Leaf Mixed Int).sampler
        Mixed.twoTracks.working = some sampler ∧ ¬(sampler []).Yields .stop ∧
        sampler.Advances) ∧
    ∃ sampler, (change Mixed.leading true).sampler
      (Mixed.oneValueTwice (some 2)) = some sampler ∧ sampler.Advances := by
  constructor
  · let tracks := ChainIndex.ofChains 7 [[0, 1, 2, 3], [4, 5]]
    have hstop : ¬((⟨2, 3⟩ : SegmentSizes).sample tracks).Yields none := by
      intro h
      unfold SegmentSizes.sample at h
      dsimp only at h
      rw [if_neg (by decide)] at h
      obtain ⟨_, -, h⟩ := Chance.yields_bind h
      obtain ⟨_, -, h⟩ := Chance.yields_bind h
      obtain ⟨_, -, h⟩ := Chance.yields_bind h
      cases Chance.yields_pure h
    obtain ⟨sampler, hsampler, hopen⟩ : ∃ sampler,
        (segmentChange Mixed.previous ⟨2, 3⟩ true : Leaf Mixed Int).sampler
          Mixed.twoTracks.working = some sampler ∧
              ¬(sampler []).Yields .stop := by
      refine ⟨_, rfl, fun h => ?_⟩
      obtain ⟨segment, hsegment, h⟩ := Chance.yields_bind h
      cases segment with
      | none => exact hstop hsegment
      | some segment =>
          rcases of_yields_linkFor h with h | ⟨_, _, _, _, _, h⟩ <;> cases h
    exact ⟨sampler, hsampler, hopen,
      (attempts_advance _).1 Mixed.previous ⟨2, 3⟩ true (by decide)
      _ (List.mem_cons_self ..) sampler hsampler hopen⟩
  · obtain ⟨sampler, hsampler⟩ : ∃ sampler, (change Mixed.leading true).sampler
        (Mixed.oneValueTwice (some 2)) = some sampler := ⟨_, rfl⟩
    refine ⟨sampler, hsampler,
      ((attempts_advance _).2 Mixed.leading _ hsampler).2.1.mpr ?_⟩
    exact ⟨0, by decide, 1, by decide, by decide⟩

/-- A range that lists one value twice, and the one entity holds it: draw
after draw is refused. -/
theorem change_refuses_forever :
    let s := Mixed.oneValueTwice (some 1)
    ∃ sampler, (change Mixed.leading true).sampler s = some sampler ∧
      ¬(sampler []).Yields .stop ∧ ¬sampler.Advances ∧
      ∀ fuel stream, ∃ after,
        Reading.drawNext fuel sampler [] stream
            = .ok (.stuck, .drawn sampler [] after) := by
  intro s
  obtain ⟨sampler, hsampler⟩ : ∃ sampler, changeSampler Mixed.leading true s
      = some sampler :=
    ⟨_, rfl⟩
  have hrefused : ∀ outcome, (sampler []).Yields outcome →
      outcome = .again [] := by
    intro outcome h
    obtain ⟨e, he, v, hv, rfl⟩ := (yields_changeSampler hsampler []).mp h
    have hheld : ∀ e < Mixed.leading.count s, ∀ v ∈ Mixed.leading.values s,
        holds Mixed.leading s e v = true := by decide
    rw [hheld e he v hv]
    rfl
  refine ⟨sampler, hsampler, fun h => (nomatch hrefused _ h), fun h => ?_,
    fun fuel => ?_⟩
  · obtain ⟨m, hm⟩ := h [] .start
    cases hrefused _ hm
  · induction fuel with
    | zero => exact fun stream => ⟨stream, rfl⟩
    | succ fuel ih =>
        intro stream
        obtain ⟨outcome, after, hrun⟩ :=
          (safe_changeSampler hsampler []).exists_run stream
        have hattempt : Reading.attempt sampler [] stream
          = .ok (outcome, after) := hrun
        rw [hrefused outcome (Chance.yields_of_run hrun)] at hattempt
        rw [Reading.drawNext, hattempt]
        exact ih after

end Leaf

end PlanSearch

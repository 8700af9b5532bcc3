/-
What chain steps do.

A step on chains is checked when it is made, and planned once more when it
is executed. Both times the same rearrangement decides: where it has an
answer the step can be made, and executing it makes the chains of the
solution that answer; where it has none, making the step is an error, and
executing it touches nothing (`Performs`). So what a step does is what its
rearrangement comes to, and that is known for each of the three: segments
change places, a segment moves behind a link, a tail is attached behind a
link.

Well-formed chains are all that is asked of the solution. Nothing is asked
of the arguments; which of them are possible is part of the statements.
-/
import PlanSearch.Proofs.Chain.Outcome
import PlanSearch.Proofs.Move.Chains
import PlanSearch.Proofs.Problems

namespace PlanSearch

open ChainIndex

variable {D S V Sc : Type}

-- =================================================================== links

/-- The solution has the link: an anchor of it, or an entity that is
assigned. -/
def ChainedVariable.Has (x : ChainedVariable S) (s : S) : Link → Prop
  | .anchor a => a < x.anchors s
  | .entity e => e < x.count s ∧ (x.get s e).isSome

instance (x : ChainedVariable S) (s : S) : DecidablePred (x.Has s)
  | .anchor _ => inferInstanceAs (Decidable (_ < _))
  | .entity _ => inferInstanceAs (Decidable (_ ∧ _))

/-- The links that a solution has are those of its chains. -/
theorem ChainedVariable.present_iff_has {x : ChainedVariable S} {s : S}
    {index : ChainIndex} (h : x.index s = .ok index) {link : Link} :
    Present index.chains link ↔ x.Has s link := by
  cases link with
  | anchor a =>
      show a < index.chains.length ↔ a < x.anchors s
      rw [(traces_of_index h).2.length]
  | entity e => exact mem_flatten_of_index h

namespace Mixed

/-- The first of the two chained variables. -/
def previous : ChainedVariable Mixed :=
  chainedOver "prev" 4 Mixed.prev fun s t => { s with prev := t }

/-- Four entities on one track, two on another, and one on none. -/
def twoTracks : FullDirector Mixed HardSoft :=
  .start world.score ⟨⟨[], []⟩, ⟨[], []⟩, ⟨[], []⟩, ⟨[], []⟩,
    ⟨[some (.anchor 0), some (.entity 0), some (.entity 1), some (.entity 2),
      some (.anchor 1), some (.entity 4), none], 2⟩, ⟨[], 0⟩, none⟩

/-- The chains of the two tracks, among seven entities. -/
theorem index_twoTracks : previous.index twoTracks.working =
    .ok (.ofChains 7 [[0, 1, 2, 3], [4, 5]]) := rfl

theorem previous_mem : previous ∈ world.variables.chained :=
  List.mem_cons_self ..

end Mixed

namespace Step

-- ============================================================== performing

section

variable [BEq V] [Shown V] [Director D S Sc]

/-- A step on chains, where it is possible, can be made and leads to chains
of the described kind. Elsewhere making it is an error in structure, and
executing it leaves the director alone. -/
structure Performs (t : Step S V) (x : ChainedVariable S) (d : D)
    (possible : Prop) (outcome : List (List Nat) → Prop) : Prop where
  makes : possible → t.make? (Director.working d) = .ok t
  leads : possible → ∃ chains, outcome chains ∧
    (t.run : Act D Unit).Leads (¬ Director.Quiet d) d
      fun _ done => x.index (Director.working done) =
        .ok (.ofChains (x.count (Director.working d)) chains)
  refuses : ¬ possible →
    ∃ text, t.make? (Director.working d) = .error (.structural text)
  rests : ¬ possible → (t.run : Act D Unit).Leads False d fun _ done => done = d

omit [Director D S Sc] in
/-- The step is checked and executed by one rearrangement of the chains of a
variable. -/
structure CarriesOut (t : Step S V) (x : ChainedVariable S)
    (rearrange : ChainIndex → Except ChainFlaw (List (List Nat))) : Prop where
  make : ∀ s, t.make? s = match plan x s rearrange with
    | .error flaw => .error flaw.error
    | .ok _ => .ok t
  batch : ∀ s, t.batch? s = x.batch? s (match plan x s rearrange with
    | .ok changes => changes
    | .error _ => [])

variable {t : Step S V} {x : ChainedVariable S}
  {rearrange : ChainIndex → Except ChainFlaw (List (List Nat))}
  {index : ChainIndex} {chains : List (List Nat)} {s : S} {d : D}

omit [BEq V] [Shown V] [Director D S Sc] in
/-- The plan is the diff to the rearranged chains, or the flaw. -/
theorem plan_of_index (h : x.index s = .ok index) :
    plan x s rearrange = (rearrange index).map index.diff := by
  unfold plan
  rw [h]
  show rearrange index >>= _ = _
  cases rearrange index with
  | ok chains => rfl
  | error flaw => rfl

omit [Director D S Sc] in
/-- A step whose plan is accepted is made as it is. -/
theorem CarriesOut.make?_of_ok (ht : t.CarriesOut x rearrange)
    (hindex : x.index s = .ok index) (h : rearrange index = .ok chains) :
    t.make? s = .ok t := by
  rw [ht.make, plan_of_index hindex, h]
  rfl

omit [Director D S Sc] in
/-- A step whose plan is rejected is refused with the flaw. -/
theorem CarriesOut.make?_of_error (ht : t.CarriesOut x rearrange)
    {flaw : ChainFlaw} (hindex : x.index s = .ok index)
    (h : rearrange index = .error flaw) :
    t.make? s = .error (.structural flaw.message) := by
  rw [ht.make, plan_of_index hindex, h]
  rfl

/-- A rearrangement without an answer is not carried out at all. -/
theorem CarriesOut.leads_run_of_error (ht : t.CarriesOut x rearrange)
    {flaw : ChainFlaw} (hindex : x.index (Director.working d) = .ok index)
    (h : rearrange index = .error flaw) :
    (t.run : Act D Unit).Leads False d fun _ done => done = d := by
  have hbatch : t.batch? (Director.working d) = none := by
    rw [ht.batch, plan_of_index hindex, h]
    rfl
  refine Act.leads_bind (Act.leads_get ?_)
  rw [hbatch]
  exact Act.leads_pure rfl

variable [Planning S Sc] [LawfulDirector D] {vs : Variables S V}

/-- The chains become the rearranged ones. -/
theorem CarriesOut.leads_run (ht : t.CarriesOut x rearrange)
    (lawful : vs.Lawful) (hx : x ∈ vs.chained)
    (hindex : x.index (Director.working d) = .ok index)
    (h : rearrange index = .ok chains)
    (rearranged : Rearranged index.chains chains) :
    (t.run : Act D Unit).Leads (¬ Director.Quiet d) d
      fun _ done => x.index (Director.working done) =
        .ok (.ofChains (x.count (Director.working d)) chains) := by
  have happly : t.apply (Director.working d) =
      x.setAll (Director.working d) (index.diff chains) := by
    refine apply_eq_setAllLinks ?_
    rw [ht.batch, plan_of_index hindex, h]
    rfl
  obtain ⟨inv, hd, calls⟩ := Director.exists_announced d
  refine (Step.leads_run calls t hd).mono (fun _ done hdone => ?_) id
  rw [hdone.2, happly]
  exact ChainedVariable.index_diff (lawful.links x hx) hindex rearranged
    (lawful.anchors_setAllLinks hx hx _ _)

/-- A step does what its rearrangement comes to. -/
theorem CarriesOut.performs (ht : t.CarriesOut x rearrange) (lawful : vs.Lawful)
    (hx : x ∈ vs.chained) (hindex : x.index (Director.working d) = .ok index)
    {possible : Prop} {outcome : List (List Nat) → Prop}
    (answers : (∃ chains, rearrange index = .ok chains) ↔ possible)
    (comes : ∀ chains, rearrange index = .ok chains →
      Rearranged index.chains chains ∧ outcome chains) :
      t.Performs x d possible outcome := by
  cases hanswer : rearrange index with
  | ok chains =>
      obtain ⟨rearranged, houtcome⟩ := comes chains hanswer
      have hpossible := answers.mp ⟨chains, hanswer⟩
      exact ⟨fun _ => ht.make?_of_ok hindex hanswer,
        fun _ => ⟨chains, houtcome,
          ht.leads_run lawful hx hindex hanswer rearranged⟩,
        fun hnot => absurd hpossible hnot, fun hnot => absurd hpossible hnot⟩
  | error flaw =>
      have himpossible : ¬ possible := by
        intro h
        obtain ⟨chains, hok⟩ := answers.mpr h
        cases hanswer.symm.trans hok
      exact ⟨fun h => absurd h himpossible, fun h => absurd h himpossible,
        fun _ => ⟨flaw.message, ht.make?_of_error hindex hanswer⟩,
        fun _ => ht.leads_run_of_error hindex hanswer⟩

-- ============================================================== the steps

/-- Segments without a common entity change places, turned around or not;
others do not. -/
theorem segmentSwap_exchanges (lawful : vs.Lawful) (hx : x ∈ vs.chained)
    (hindex : x.index (Director.working d) = .ok index) (left right : List Nat)
    (reversing : Bool) :
    (segmentSwap x left right reversing : Step S V).Performs x d
      (Segment index.chains left ∧ Segment index.chains right ∧
        left.Disjoint right)
      (Exchanged index.chains left right
        (if reversing then left.reverse else left)
          (if reversing then right.reverse else right)) := by
  have ht : (segmentSwap x left right reversing : Step S V).CarriesOut x
      fun index => index.swapSegments left right reversing :=
        ⟨fun _ => rfl, fun _ => rfl⟩
  have tabled := ChainedVariable.tabled_of_index hindex
  refine ht.performs lawful hx hindex (swapSegments_iff tabled)
    fun chains h => ?_
  exact ⟨rearranged_swapSegments h, exchanged_swapSegments tabled h⟩

/-- The two ends of a track change places, turned around; two segments with
a common entity do not. -/
theorem segmentSwap_exchanges_tracks :
    let swap (left right : List Nat) : Step Mixed Int :=
  .segmentSwap Mixed.previous left right true
    let d := Mixed.twoTracks
    (Mixed.world.variables.Lawful ∧
      Mixed.previous ∈ Mixed.world.variables.chained ∧
      Mixed.previous.index d.working
        = .ok (.ofChains 7 [[0, 1, 2, 3], [4, 5]]) ∧
      Director.Quiet d) ∧
    ((swap [2, 3] [0]).make? d.working = .ok (swap [2, 3] [0]) ∧
      ∃ chains, Exchanged [[0, 1, 2, 3], [4, 5]] [2, 3] [0] [3, 2] [0] chains ∧
        ((swap [2, 3] [0]).run : Act (FullDirector Mixed HardSoft) Unit).Leads
          (¬ Director.Quiet d) d fun _ done =>
            Mixed.previous.index done.working = .ok (.ofChains 7 chains)) ∧
    (∃ text, (swap [0, 1] [1, 2]).make? d.working = .error (.structural text)) ∧
      ((swap [0, 1] [1, 2]).run : Act (FullDirector Mixed HardSoft)
        Unit).Leads False d
        fun _ done => done = d := by
  intro swap d
  have hends := segmentSwap_exchanges (d := d) Mixed.lawful Mixed.previous_mem
    Mixed.index_twoTracks [2, 3] [0] true
  have hshared := segmentSwap_exchanges (d := d) Mixed.lawful Mixed.previous_mem
    Mixed.index_twoTracks [0, 1] [1, 2] true
  have possible : Segment [[0, 1, 2, 3], [4, 5]] [2, 3] ∧
      Segment [[0, 1, 2, 3], [4, 5]] [0] ∧
      [2, 3].Disjoint [0] := ⟨by decide, by decide, by simp⟩
  have impossible : ¬ (Segment [[0, 1, 2, 3], [4, 5]] [0, 1] ∧
      Segment [[0, 1, 2, 3], [4, 5]] [1, 2] ∧ [0, 1].Disjoint [1, 2]) := by simp
  exact ⟨⟨Mixed.lawful, Mixed.previous_mem, Mixed.index_twoTracks,
    FullDirector.quiet d⟩, ⟨hends.makes possible, hends.leads possible⟩,
    hshared.refuses impossible, hshared.rests impossible⟩

/-- A segment moves behind a link, turned around or not; it cannot move
behind one of its own entities, or behind a link that is not there. -/
theorem segmentChange_relocates (lawful : vs.Lawful) (hx : x ∈ vs.chained)
    (hindex : x.index (Director.working d) = .ok index)
    (segment : List Nat) (link : Link) (reversing : Bool) :
    (segmentChange x segment link reversing : Step S V).Performs x d
      (Segment index.chains segment ∧ x.Has (Director.working d) link ∧
        link ∉ segment.map Link.entity)
      (Relocated index.chains segment link (if reversing then segment.reverse
        else segment)) := by
  have ht : (segmentChange x segment link reversing : Step S V).CarriesOut x
      fun index => index.moveSegment segment link reversing :=
        ⟨fun _ => rfl, fun _ => rfl⟩
  have tabled := ChainedVariable.tabled_of_index hindex
  rw [← ChainedVariable.present_iff_has hindex]
  refine ht.performs lawful hx hindex (moveSegment_iff tabled)
    fun chains h => ?_
  exact ⟨rearranged_moveSegment h, relocated_moveSegment tabled h⟩

/-- The middle of a track moves behind the end of the other one; it does not
move behind an entity that is on no track. -/
theorem segmentChange_relocates_tracks :
    let change (link : Link) : Step Mixed Int :=
  .segmentChange Mixed.previous [1, 2] link true
    let d := Mixed.twoTracks
    (Mixed.world.variables.Lawful ∧
      Mixed.previous ∈ Mixed.world.variables.chained ∧
      Mixed.previous.index d.working
        = .ok (.ofChains 7 [[0, 1, 2, 3], [4, 5]]) ∧
      Director.Quiet d) ∧
    ((change (.entity 5)).make? d.working = .ok (change (.entity 5)) ∧
      ∃ chains, Relocated [[0, 1, 2, 3], [4, 5]] [1, 2] (.entity 5)
        [2, 1] chains ∧
        ((change (.entity 5)).run :
          Act (FullDirector Mixed HardSoft) Unit).Leads
          (¬ Director.Quiet d) d fun _ done =>
            Mixed.previous.index done.working = .ok (.ofChains 7 chains)) ∧
    (∃ text, (change (.entity 6)).make? d.working = .error (.structural text)) ∧
      ((change (.entity 6)).run : Act (FullDirector Mixed HardSoft)
        Unit).Leads False d
        fun _ done => done = d := by
  intro change d
  have hthere := segmentChange_relocates (d := d) Mixed.lawful
    Mixed.previous_mem
    Mixed.index_twoTracks [1, 2] (.entity 5) true
  have hnowhere :=
    segmentChange_relocates (d := d) Mixed.lawful Mixed.previous_mem
    Mixed.index_twoTracks [1, 2] (.entity 6) true
  have possible : Segment [[0, 1, 2, 3], [4, 5]] [1, 2] ∧
      Mixed.previous.Has d.working (.entity 5) ∧
        Link.entity 5 ∉ [1, 2].map Link.entity := by decide
  have impossible : ¬ (Segment [[0, 1, 2, 3], [4, 5]] [1, 2] ∧
      Mixed.previous.Has d.working (.entity 6) ∧
          Link.entity 6 ∉ [1, 2].map Link.entity) := by
    decide
  exact ⟨⟨Mixed.lawful, Mixed.previous_mem, Mixed.index_twoTracks,
    FullDirector.quiet d⟩, ⟨hthere.makes possible, hthere.leads possible⟩,
    hnowhere.refuses impossible, hnowhere.rests impossible⟩

/-- A tail is attached behind any link but the entity it starts at: tails of
two chains are exchanged, within one chain a run is turned around. -/
theorem tailSwap_reattaches (lawful : vs.Lawful) (hx : x ∈ vs.chained)
    (hindex : x.index (Director.working d) = .ok index) (e : Nat)
    (link : Link) : (tailSwap x e link : Step S V).Performs x d
      (x.Has (Director.working d) (.entity e) ∧
          x.Has (Director.working d) link ∧
        link ≠ .entity e)
      (Reattached index.chains e link) := by
  have ht : (tailSwap x e link : Step S V).CarriesOut x fun index =>
      index.swapTails e link :=
    ⟨fun _ => rfl, fun _ => rfl⟩
  have tabled := ChainedVariable.tabled_of_index hindex
  rw [← ChainedVariable.present_iff_has hindex,
    ← ChainedVariable.present_iff_has hindex]
  refine ht.performs lawful hx hindex (swapTails_iff tabled) fun chains h => ?_
  exact ⟨rearranged_swapTails tabled h, reattached_swapTails tabled h⟩

/-- The tail at entity 1 is attached behind the other track's anchor; it is
not attached behind entity 1. -/
theorem tailSwap_reattaches_tracks :
    let attach (link : Link) : Step Mixed Int := .tailSwap Mixed.previous 1 link
    let d := Mixed.twoTracks
    (Mixed.world.variables.Lawful ∧
      Mixed.previous ∈ Mixed.world.variables.chained ∧
      Mixed.previous.index d.working
        = .ok (.ofChains 7 [[0, 1, 2, 3], [4, 5]]) ∧
      Director.Quiet d) ∧
    ((attach (.anchor 1)).make? d.working = .ok (attach (.anchor 1)) ∧
      ∃ chains, Reattached [[0, 1, 2, 3], [4, 5]] 1 (.anchor 1) chains ∧
        ((attach (.anchor 1)).run :
          Act (FullDirector Mixed HardSoft) Unit).Leads
          (¬ Director.Quiet d) d fun _ done =>
            Mixed.previous.index done.working = .ok (.ofChains 7 chains)) ∧
    (∃ text, (attach (.entity 1)).make? d.working = .error (.structural text)) ∧
      ((attach (.entity 1)).run : Act (FullDirector Mixed HardSoft)
        Unit).Leads False d
        fun _ done => done = d := by
  intro attach d
  have hother := tailSwap_reattaches (d := d) Mixed.lawful Mixed.previous_mem
    Mixed.index_twoTracks 1 (.anchor 1)
  have hitself := tailSwap_reattaches (d := d) Mixed.lawful Mixed.previous_mem
    Mixed.index_twoTracks 1 (.entity 1)
  have possible : Mixed.previous.Has d.working (.entity 1) ∧
      Mixed.previous.Has d.working (.anchor 1) ∧
        Link.anchor 1 ≠ .entity 1 := by decide
  have impossible : ¬ (Mixed.previous.Has d.working (.entity 1) ∧
      Mixed.previous.Has d.working (.entity 1) ∧
        Link.entity 1 ≠ .entity 1) := by decide
  exact ⟨⟨Mixed.lawful, Mixed.previous_mem, Mixed.index_twoTracks,
    FullDirector.quiet d⟩, ⟨hother.makes possible, hother.leads possible⟩,
    hitself.refuses impossible, hitself.rests impossible⟩

end

end Step

end PlanSearch

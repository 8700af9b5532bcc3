/-
Chains stay chains.

A chain step is planned against the chains it finds, and what it writes is
the diff to a rearrangement of these. So from links that are chains it
leads to links that are chains again, of the same entities, whatever its
arguments are: if they fit no more, no plan comes about and nothing is
written. Nothing is asked of the state a move was made for.

The undo of a move restores links as they were, so a run may also take
moves back. What a step keeps (`OnChains.apply`) every run keeps.
-/
import PlanSearch.Proofs.Chain.Diff
import PlanSearch.Proofs.Move.Run

namespace PlanSearch

variable {D S V Sc : Type}

/-- The links of a variable are chains, of the entities that were on chains
at the start. -/
structure OnChains (x : ChainedVariable S) (start s : S) : Prop where
  accepted : ∃ index, x.index s = .ok index
  count : x.count s = x.count start
  assigned : ∀ e < x.count start, (x.get s e).isSome = (x.get start e).isSome

-- ================================================================ one step

namespace Step

/-- The step rearranges the chains of a variable of the family. -/
def Rearranges (vs : Variables S V) : Step S V → Prop
  | segmentChange x _ _ _ | segmentSwap x _ _ _ | tailSwap x _ _ =>
      x ∈ vs.chained
  | _ => False

variable {vs : Variables S V} {t : Step S V} {s : S} {changes : LinkChanges}
  {flaw : ChainFlaw}

theorem Rearranges.over (h : t.Rearranges vs) : t.Over vs := by
  cases t with
  | segmentChange | segmentSwap | tailSwap => exact h
  | change | swap | pillarChange | pillarSwap | restore => exact h.elim

/-- A plan is the diff to the rearranged chains. -/
theorem plan_ok {x : ChainedVariable S}
    {rearrange : ChainIndex → Except ChainFlaw (List (List Nat))}
    (h : plan x s rearrange = .ok changes) :
    ∃ index chains, x.index s = .ok index ∧ rearrange index = .ok chains ∧
      changes = index.diff chains := by
  obtain ⟨index, hindex, h⟩ := exists_of_bind_ok h
  obtain ⟨chains, hchains, h⟩ := exists_of_bind_ok h
  cases h
  exact ⟨index, chains, hindex, hchains, rfl⟩

/-- What a rearranging step comes to: it writes what it plans, and a plan
leads to the same entities on as many chains. -/
theorem Rearranges.apply_eq (h : t.Rearranges vs) :
    ∃ x ∈ vs.chained, (∀ s, t.apply s = x.setAll s (t.linkChanges s)) ∧
      ∀ s changes, t.linkPlan s = .ok changes →
        ∃ index chains, x.index s = .ok index ∧
          ChainIndex.Rearranged index.chains chains ∧
          changes = index.diff chains := by
  cases t with
  | segmentChange x segment link reversing =>
      refine ⟨x, h, fun s => apply_eq_setAllLinks rfl,
        fun s changes hplan => ?_⟩
      obtain ⟨index, chains, hindex, hchains, rfl⟩ := plan_ok hplan
      exact ⟨index, chains, hindex,
        ChainIndex.rearranged_moveSegment hchains, rfl⟩
  | segmentSwap x left right reversing =>
      refine ⟨x, h, fun s => apply_eq_setAllLinks rfl,
        fun s changes hplan => ?_⟩
      obtain ⟨index, chains, hindex, hchains, rfl⟩ := plan_ok hplan
      exact ⟨index, chains, hindex,
        ChainIndex.rearranged_swapSegments hchains, rfl⟩
  | tailSwap x e link =>
      refine ⟨x, h, fun s => apply_eq_setAllLinks rfl,
        fun s changes hplan => ?_⟩
      obtain ⟨index, chains, hindex, hchains, rfl⟩ := plan_ok hplan
      have tabled := ChainedVariable.tabled_of_index hindex
      exact ⟨index, chains, hindex,
        ChainIndex.rearranged_swapTails tabled hchains, rfl⟩
  | change | swap | pillarChange | pillarSwap | restore => exact h.elim

/-- A plan that is accepted is what is changed. -/
theorem linkChanges_of_ok (h : t.linkPlan s = .ok changes) :
    t.linkChanges s = changes := by
  unfold linkChanges
  rw [h]

/-- A plan that is rejected changes nothing. -/
theorem linkChanges_of_error (h : t.linkPlan s = .error flaw) :
    t.linkChanges s = [] := by
  unfold linkChanges
  rw [h]

/-- A step whose plan is rejected does nothing at all. -/
theorem batch?_of_error (ht : t.Rearranges vs)
    (h : t.linkPlan s = .error flaw) : t.batch? s = none := by
  have hnone : ∀ x : ChainedVariable S,
      x.batch? s (t.linkChanges s) = none := by
    intro x
    rw [linkChanges_of_error h]
    rfl
  cases t with
  | segmentChange x _ _ _ | segmentSwap x _ _ _ | tailSwap x _ _ =>
      exact hnone x
  | change | swap | pillarChange | pillarSwap | restore => exact ht.elim

end Step

namespace OnChains

variable {vs : Variables S V} {x : ChainedVariable S} {start s s' : S}

theorem refl (accepted : ∃ index, x.index s = .ok index) : OnChains x s s :=
  ⟨accepted, rfl, fun _ _ => rfl⟩

/-- It depends on the links alone. -/
theorem congr (h : OnChains x start s) (links : x.cells.Agree Eq s' s)
    (anchors : x.anchors s' = x.anchors s) : OnChains x start s' where
  accepted := by
    rw [ChainedVariable.index_congr links anchors]
    exact h.accepted
  count := links.count.trans h.count
  assigned e he := by
    rw [← h.assigned e he]
    rw [← h.count] at he
    exact congrArg Option.isSome (links.get e he)

/-- Writing the diff to rearranged chains keeps the entities on chains. -/
theorem diff (own : x.cells.Lawful) {index : ChainIndex}
    {chains : List (List Nat)} (hindex : x.index s = .ok index)
    (rearranged : ChainIndex.Rearranged index.chains chains)
    (anchors : x.anchors (x.setAll s (index.diff chains)) = x.anchors s)
    (h : OnChains x start s) :
    OnChains x start (x.setAll s (index.diff chains)) := by
  have hnew := ChainedVariable.index_diff own hindex rearranged anchors
  have hcount := ChainedVariable.count_setAll own (s := s) (index.diff chains)
  refine ⟨⟨_, hnew⟩, hcount.trans h.count, fun e he => ?_⟩
  rw [← h.assigned e he, Bool.eq_iff_iff]
  have hbefore := ChainedVariable.mem_flatten_of_index (e := e) hindex
  have hafter := ChainedVariable.mem_flatten_of_index (e := e) hnew
  rw [ChainIndex.chains_ofChains, rearranged.perm.mem_iff, hbefore, hcount,
    h.count, and_iff_right he, and_iff_right he] at hafter
  exact hafter.symm

variable [Planning S Sc]

/-- A rearranging step keeps the chains of every variable: those of its own,
and those of the others since these do not see its writes. -/
theorem apply (lawful : vs.Lawful) (hx : x ∈ vs.chained)
    (single : ∀ y ∈ vs.chained, y.cells = x.cells → y.anchors = x.anchors)
    {t : Step S V} (ht : t.Rearranges vs) (h : OnChains x start s) :
    OnChains x start (t.apply s) := by
  obtain ⟨y, hy, happly, hplan⟩ := ht.apply_eq
  rw [happly]
  have anchors := lawful.anchors_setAllLinks hy hx (t.linkChanges s) s
  by_cases hyx : y.cells = x.cells
  · -- `y` is `x` under another name
    have hset : y.setAll s (t.linkChanges s) = x.setAll s (t.linkChanges s) :=
      congrArg (fun c : Cells S Link => c.setAll s (t.linkChanges s)) hyx
    have hsame : y.index s = x.index s := by
      have hcount : y.count = x.count := congrArg Cells.count hyx
      have hget : y.get = x.get := congrArg Cells.get hyx
      unfold ChainedVariable.index ChainedVariable.links
      rw [single y hy hyx, hcount, hget]
    rw [hset] at anchors ⊢
    cases hplanned : t.linkPlan s with
    | error flaw =>
        rw [Step.linkChanges_of_error hplanned]
        exact h
    | ok changes =>
        obtain ⟨index, chains, hindex, rearranged, rfl⟩ :=
          hplan s changes hplanned
        rw [Step.linkChanges_of_ok hplanned] at anchors ⊢
        exact h.diff (lawful.links x hx) (hsame ▸ hindex) rearranged anchors
  · exact h.congr ((lawful.links_apart y hy x hx hyx).agree_setAll
      (fun _ => rfl) _ s) anchors

/-- And so do rearranging steps one after the other. -/
theorem applyAll (lawful : vs.Lawful) (hx : x ∈ vs.chained)
    (single : ∀ y ∈ vs.chained, y.cells = x.cells → y.anchors = x.anchors)
    (ts : List (Step S V)) (rearranges : ∀ t ∈ ts, t.Rearranges vs)
    (h : OnChains x start s) : OnChains x start (Step.applyAll ts s) := by
  induction ts generalizing s with
  | nil => exact h
  | cons t rest ih =>
      exact ih (fun u hu => rearranges u (List.mem_cons_of_mem _ hu))
        (h.apply lawful hx single (rearranges t (List.mem_cons_self ..)))

end OnChains

-- ==================================================================== runs

/-- A turn of a run: a move, or a move that is taken back at once. -/
inductive ChainTurn (S V : Type)
  | onward (m : Move S V)
  | andBack (m : Move S V)

namespace ChainTurn

/-- Executes a turn. The undo is taken before the move. -/
def run [Director D S Sc] : ChainTurn S V → Act D Unit
  | onward m => m.run
  | andBack m => do
    let undo := m.undo (Director.working (← get))
    m.run
    undo.run

/-- Every step of the move rearranges chains of the family. -/
def Rearranges (vs : Variables S V) : ChainTurn S V → Prop
  | onward m | andBack m => ∀ t ∈ m.steps, t.Rearranges vs

variable [Planning S Sc] [Director D S Sc] {vs : Variables S V} {excuse : Prop}
  {inv : D → Prop}

/-- Steps on chains do not care about pillars or the range of entities. -/
theorem undo_apply_of_rearranges (lawful : vs.Lawful) {m : Move S V}
    (rearranges : ∀ t ∈ m.steps, t.Rearranges vs) (s : S) :
    vs.Same (literal (Option V)) ((m.undo s).apply (m.apply s)) s := by
  refine Move.undo_apply lawful (fun t ht => (rearranges t ht).over)
    (fun t ht => ?_) ?_
  · have h := rearranges t ht
    cases t with
    | segmentChange | segmentSwap | tailSwap => trivial
    | change | swap | pillarChange | pillarSwap | restore => exact h.elim
  · show Step.PillarsAgreeInTurn _ m.steps s
    generalize m.steps = ts at rearranges
    induction ts generalizing s with
    | nil => trivial
    | cons t rest ih =>
        refine ⟨?_, ih _ fun u hu => rearranges u (List.mem_cons_of_mem _ hu)⟩
        have h := rearranges t (List.mem_cons_self ..)
        cases t with
        | segmentChange | segmentSwap | tailSwap => trivial
        | change | swap | pillarChange | pillarSwap | restore => exact h.elim

/-- A turn keeps the entities on chains. -/
theorem preserves_run [LawfulDirector D] (calls : Director.Announced excuse inv)
    (lawful : vs.Lawful) {x : ChainedVariable S} (hx : x ∈ vs.chained)
    (single : ∀ y ∈ vs.chained, y.cells = x.cells → y.anchors = x.anchors)
    (start : S) {turn : ChainTurn S V} (rearranges : turn.Rearranges vs) :
    (turn.run : Act D Unit).Preserves excuse
      fun d => inv d ∧ OnChains x start (Director.working d) := by
  intro d h
  obtain ⟨hd, hchains⟩ := h
  cases turn with
  | onward m =>
      refine (m.leads_run calls hd).mono ?_ id
      intro _ done h
      obtain ⟨hdone, hworking⟩ := h
      rw [hworking]
      exact ⟨hdone, hchains.applyAll lawful hx single m.steps rearranges⟩
  | andBack m =>
      refine Act.leads_bind (Act.leads_get (Act.leads_bind ?_))
      refine (m.leads_run_undo calls hd).mono ?_ id
      intro _ done h
      refine h.2.mono ?_ id
      intro _ undone h
      obtain ⟨hundone, hworking⟩ := h
      have hsame := undo_apply_of_rearranges lawful rearranges
        (Director.working d)
      rw [hworking]
      exact ⟨hundone, hchains.congr (hsame.links x hx) (hsame.anchors x hx)⟩

/-- A run of rearranging moves, some of them taken back, keeps chains
chains and the same entities on them. A plan that is rejected leaves the
director alone, and with it every link. -/
theorem chains_of_run [LawfulDirector D] (lawful : vs.Lawful)
    {x : ChainedVariable S} (hx : x ∈ vs.chained)
    (single : ∀ y ∈ vs.chained, y.cells = x.cells → y.anchors = x.anchors)
    (turns : List (ChainTurn S V))
    (rearranges : ∀ turn ∈ turns, turn.Rearranges vs) (d : D)
    (accepted : ∃ index, x.index (Director.working d) = .ok index) :
    (turns.forM run : Act D PUnit).Leads (¬ Director.Quiet d) d (fun _ done =>
        (∃ index, x.index (Director.working done) = .ok index) ∧
        x.count (Director.working done) = x.count (Director.working d) ∧
        ∀ e < x.count (Director.working d),
          (x.get (Director.working done) e).isSome
            = (x.get (Director.working d) e).isSome) ∧
      ∀ (t : Step S V) (flaw : ChainFlaw), t.Rearranges vs →
        t.linkPlan (Director.working d) = .error flaw →
          (t.run : Act D Unit).Leads False d fun _ done => done = d := by
  constructor
  · obtain ⟨inv, hd, calls⟩ := Director.exists_announced d
    have hrun := Act.preserves_forM turns (run (D := D)) (fun turn hturn =>
      preserves_run calls lawful hx single (Director.working d)
        (rearranges turn hturn))
    refine (hrun d ⟨hd, .refl accepted⟩).mono ?_ id
    intro _ done h
    obtain ⟨-, hchains⟩ := h
    exact ⟨hchains.accepted, hchains.count, hchains.assigned⟩
  · intro t flaw ht hplan
    refine Act.leads_bind (Act.leads_get ?_)
    rw [Step.batch?_of_error ht hplan]
    exact Act.leads_pure rfl

/-- Tracks that are run over by a tail swap, a segment moved back and forth,
and two moves made for other tracks, which are rejected. -/
theorem chains_of_run_tracks :
    let prev := Mixed.chainedOver "prev" 4 Mixed.prev fun s t =>
      { s with prev := t }
    let turns : List (ChainTurn Mixed Int) := [
      .onward (.step (.tailSwap prev 1 (.entity 3))),
      .andBack (.step (.segmentChange prev [1, 2] (.anchor 0) true)),
      .onward (.composite [.step (.segmentSwap prev [0] [4, 5] false),
        .step (.segmentChange prev [0, 2] (.entity 2) false)])]
    let s : Mixed := ⟨⟨[], []⟩, ⟨[], []⟩, ⟨[], []⟩, ⟨[], []⟩,
      ⟨[some (.anchor 0), some (.entity 0), some (.entity 1),
        some (.anchor 1), none], 2⟩,
      ⟨[], 0⟩, none⟩
    let d := FullDirector.start Mixed.world.score s
    (prev ∈ Mixed.world.variables.chained ∧
      (∀ y ∈ Mixed.world.variables.chained, y.cells = prev.cells →
        y.anchors = prev.anchors) ∧
      (∀ turn ∈ turns, turn.Rearranges Mixed.world.variables) ∧
      (∃ index, prev.index s = .ok index) ∧ Director.Quiet d) ∧
    (turns.forM run : Act (FullDirector Mixed HardSoft) PUnit).Leads
        (¬ Director.Quiet d) d
        (fun _ done => (∃ index, prev.index done.working = .ok index) ∧
          prev.count done.working = prev.count s ∧
          ∀ e < prev.count s, (prev.get done.working e).isSome
            = (prev.get s e).isSome) ∧
      ∀ (t : Step Mixed Int) (flaw : ChainFlaw),
        t.Rearranges Mixed.world.variables →
        t.linkPlan s = .error flaw →
          (t.run : Act (FullDirector Mixed HardSoft) Unit).Leads False d
            fun _ done => done = d := by
  intro prev turns s d
  have hprev : prev ∈ Mixed.world.variables.chained := List.mem_cons_self ..
  have single : ∀ y ∈ Mixed.world.variables.chained,
      y.cells = prev.cells → y.anchors = prev.anchors := by
    intro y hy hcells
    rcases Mixed.mem_chained hy with rfl | rfl
    · rfl
    · -- the other track is empty here
      have hcount : (0 : Nat) = 5 := congrArg (fun c => c.count s) hcells
      cases hcount
  have rearranges : ∀ turn ∈ turns, turn.Rearranges Mixed.world.variables := by
    intro turn hturn
    rcases List.mem_cons.mp hturn with rfl | hturn
    · intro t ht
      rw [List.mem_singleton.mp ht]
      exact hprev
    rcases List.mem_cons.mp hturn with rfl | hturn
    · intro t ht
      rw [List.mem_singleton.mp ht]
      exact hprev
    · rw [List.mem_singleton.mp hturn]
      intro t ht
      rcases List.mem_cons.mp ht with rfl | ht
      · exact hprev
      · rw [List.mem_singleton.mp ht]
        exact hprev
  have accepted : ∃ index, prev.index s = .ok index :=
    ⟨.ofChains 5 [[0, 1, 2], [3]], rfl⟩
  exact ⟨⟨hprev, single, rearranges, accepted, FullDirector.quiet d⟩,
    chains_of_run Mixed.lawful hprev single turns rearranges d accepted⟩

end ChainTurn

end PlanSearch

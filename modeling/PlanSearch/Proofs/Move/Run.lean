/-
Executing moves on a director.

`Move.apply` says what a move makes of a solution, `Move.run` what it
tells a director on the way. That the working solution comes out as
`apply` has it is one rule (`Batch.leads_run`) and an induction over the
steps; the recording adds which undos it has kept by then.

The main result is that undoing is exact, also for a move that was made
for another state than the one it is executed in: nothing is asked of the
state but that pillars still agree, so chains may be malformed and a
chain step may find nothing to do.
-/
import PlanSearch.Proofs.Director
import PlanSearch.Proofs.Move.Undo
import PlanSearch.Proofs.Problems

namespace PlanSearch

variable {D S V Sc : Type} [Planning S Sc] [Director D S Sc]
  {excuse : Prop} {inv : D → Prop}

-- =================================================================== batches

omit [Planning S Sc] in
/-- The rule of a batch: announcements, the edit, announcements, and the
way back handed over. -/
theorem Batch.leads_run (b : Batch S) (held written : D → Prop)
    {done : D → Prop}
    (before : ∀ e, (Director.before b.descriptor e b.name).Preserves
      excuse held)
    (edit : ∀ d, held d → written (Director.edit b.write d))
    (after : ∀ e, (Director.after b.descriptor e b.name).Preserves
      excuse written)
    (keep : ∀ d, written d →
      (Director.keepUndo b.restore).Leads excuse d fun _ => done)
    {d : D} (hd : held d) : b.run.Leads excuse d fun _ => done := by
  refine Act.leads_bind ?_
  refine (Act.preserves_forM b.entities _ (fun e _ => before e) d hd).mono ?_ id
  intro _ d₁ h₁
  refine Act.leads_bind (Act.leads_update (Act.leads_bind ?_))
  refine (Act.preserves_forM b.entities _ (fun e _ => after e) _
    (edit d₁ h₁)).mono ?_ id
  exact fun _ d₂ h₂ => keep d₂ h₂

-- ===================================================================== steps

namespace Step

variable [LawfulDirector D]

/-- A step changes the working solution as `apply` says. -/
theorem leads_run (calls : Director.Announced excuse inv) (t : Step S V) {d : D}
    (hd : inv d) : t.run.Leads excuse d
      fun _ d' => inv d' ∧
      Director.working d' = t.apply (Director.working d) := by
  refine Act.leads_bind (Act.leads_get ?_)
  unfold apply
  cases t.batch? (Director.working d) with
  | none => exact Act.leads_pure ⟨hd, rfl⟩
  | some b =>
      refine b.leads_run (fun d' => inv d' ∧
        Director.working d' = Director.working d)
        (fun d' => inv d' ∧ Director.working d' = b.write (Director.working d))
        (fun e => ?_) (fun d' h => ?_) (fun e => ?_) (fun d' h => ?_) ⟨hd, rfl⟩
      · exact Director.preserves_working (calls.before _ _ _)
          (LawfulDirector.working_before _ _ _) _
      · rw [LawfulDirector.working_edit, h.2]
        exact ⟨calls.edit _ _ h.1, rfl⟩
      · exact Director.preserves_working (calls.after _ _ _)
          (LawfulDirector.working_after _ _ _) _
      · exact Director.preserves_working (calls.keepUndo _)
          (LawfulDirector.working_keepUndo _) _ d' h

/-- And so do steps one after the other. -/
theorem leads_runAll (calls : Director.Announced excuse inv)
    (ts : List (Step S V)) {d : D} (hd : inv d) :
    (ts.forM (run (D := D))).Leads excuse d
      fun _ d' => inv d' ∧
      Director.working d' = applyAll ts (Director.working d) := by
  induction ts generalizing d with
  | nil => exact Act.leads_pure ⟨hd, rfl⟩
  | cons t rest ih =>
      refine Act.leads_bind ((leads_run calls t hd).mono ?_ id)
      intro _ d₁ h
      obtain ⟨h₁, hworking⟩ := h
      refine (ih h₁).mono ?_ id
      intro _ d₂ h
      obtain ⟨h₂, hrest⟩ := h
      rw [hworking] at hrest
      exact ⟨h₂, hrest⟩

end Step

/-- A move that is run is applied to the solution, announcements and all. -/
theorem Move.leads_run [LawfulDirector D]
    (calls : Director.Announced excuse inv) (m : Move S V) {d : D}
    (hd : inv d) : m.run.Leads excuse d
      fun _ d' => inv d' ∧ Director.working d' = m.apply (Director.working d) :=
  Step.leads_runAll calls m.steps hd

-- ================================================================== undoing

namespace Move

variable {vs : Variables S V} {same : Setoid (Option V)}

/-- The undo of a move takes it back: on solutions. -/
theorem undo_apply (lawful : vs.Lawful) {m : Move S V} {s : S}
    (scope : m.Over vs) (inRange : m.InRange s)
    (agree : m.PillarsAgree same s) :
    vs.Same same ((m.undo s).apply (m.apply s)) s := by
  show vs.Same same (Step.applyAll (m.undo s).steps (m.apply s)) s
  rw [undo_steps]
  exact Step.undoSteps_apply lawful m.steps s scope inRange agree

/-- What an undo needs to be undone in turn, it has. -/
theorem undo_fits (lawful : vs.Lawful) {m : Move S V} {s : S}
    (scope : m.Over vs) (inRange : m.InRange s)
    (agree : m.PillarsAgree same s) :
    (m.undo s).Over vs ∧ (m.undo s).InRange (m.apply s) ∧
      (m.undo s).PillarsAgree same (m.apply s) := by
  unfold Over InRange PillarsAgree
  rw [undo_steps]
  refine ⟨Step.over_undoSteps m.steps s scope, ?_,
    Step.pillarsAgreeInTurn_undoSteps lawful m.steps s scope inRange agree⟩
  refine Step.inRange_undoSteps m.steps s fun t ht => ?_
  exact (Step.inRange_applyAll lawful m.steps scope (scope t ht)).mpr
    (inRange t ht)

/-- A move and then its undo, on a director. -/
theorem leads_run_undo [LawfulDirector D]
    (calls : Director.Announced excuse inv) (m : Move S V) {d : D}
    (hd : inv d) : m.run.Leads excuse d fun _ done =>
      Director.working done = m.apply (Director.working d) ∧
      (m.undo (Director.working d)).run.Leads excuse done fun _ undone =>
        inv undone ∧ Director.working undone
          = (m.undo (Director.working d)).apply
            (m.apply (Director.working d)) := by
  refine (m.leads_run calls hd).mono ?_ id
  intro _ done h
  obtain ⟨hdone, hworking⟩ := h
  refine ⟨hworking, ?_⟩
  rw [← hworking]
  exact (m.undo (Director.working d)).leads_run calls hdone

/-- Undoing is exact, whatever state the move is executed in, and undoing
the undo redoes the move. -/
theorem run_undo_redo [LawfulDirector D] (lawful : vs.Lawful)
    (m : Move S V) (d : D) (scope : m.Over vs)
    (inRange : m.InRange (Director.working d))
    (agree : m.PillarsAgree same (Director.working d)) :
    (m.run : Act D Unit).Leads (¬ Director.Quiet d) d fun _ done =>
      let undo := m.undo (Director.working d)
      undo.run.Leads (¬ Director.Quiet d) done fun _ undone =>
        vs.Same same (Director.working undone) (Director.working d) ∧
        (undo.undo (Director.working done)).run.Leads
          (¬ Director.Quiet d) undone
          fun _ redone => vs.Same same (Director.working redone)
              (Director.working done) := by
  obtain ⟨inv, hd, calls⟩ := Director.exists_announced d
  refine (m.leads_run_undo calls hd).mono ?_ id
  intro _ done h
  obtain ⟨hdone, hundo⟩ := h
  refine hundo.mono ?_ id
  intro _ undone h
  obtain ⟨hinv, hback⟩ := h
  refine ⟨by rw [hback]; exact undo_apply lawful scope inRange agree, ?_⟩
  refine ((Move.undo _ _).leads_run calls hinv).mono ?_ id
  intro _ redone h
  obtain ⟨-, hagain⟩ := h
  -- the undo is itself a move that fits the solution it is executed in
  obtain ⟨uover, urange, uagree⟩ := undo_fits lawful scope inRange agree
  rw [hagain, hback, hdone]
  exact undo_apply lawful uover urange uagree

/-- An instance with nested sequences, a pillar and two tracks, one of them
malformed (entity 0 follows itself), so that its step does nothing. -/
theorem run_undo_redo_nested :
    let x := Mixed.basic "x" 0 Mixed.ax fun s c => { s with ax := c }
    let prev := Mixed.chainedOver "prev" 4 Mixed.prev fun s t =>
      { s with prev := t }
    let route := Mixed.chainedOver "route" 5 Mixed.route fun s t =>
      { s with route := t }
    let m : Move Mixed Int := .composite [
      .composite [.step (.pillarChange x [0, 1] (some 3)), .step (.swap x 1 2)],
      .step (.tailSwap prev 1 (.anchor 0)),
        .step (.tailSwap route 1 (.anchor 1))]
    let s : Mixed :=
      ⟨⟨[some 1, some 1, some 2], [1, 2, 3]⟩, ⟨[], []⟩, ⟨[], []⟩, ⟨[], []⟩,
        ⟨[some (.entity 0), some (.anchor 0)], 1⟩,
        ⟨[some (.anchor 0), some (.entity 0), some (.anchor 1)], 2⟩, none⟩
    let d := FullDirector.start Mixed.world.score s
    (m.Over Mixed.world.variables ∧ m.InRange s ∧
      m.PillarsAgree (literal (Option Int)) s ∧
      Director.Quiet d) ∧
    (m.run : Act (FullDirector Mixed HardSoft) Unit).Leads (¬ Director.Quiet d)
        d fun _ done =>
      let undo := m.undo s
      undo.run.Leads (¬ Director.Quiet d) done fun _ undone =>
        Mixed.world.variables.Same (literal (Option Int)) undone.working s ∧
        (undo.undo done.working).run.Leads (¬ Director.Quiet d) undone
            fun _ redone =>
          Mixed.world.variables.Same (literal (Option Int)) redone.working
              done.working := by
  intro x prev route m s d
  have hx : x ∈ Mixed.world.variables.basics := List.mem_cons_self ..
  have hprev : prev ∈ Mixed.world.variables.chained := List.mem_cons_self ..
  have hroute : route ∈ Mixed.world.variables.chained :=
    List.mem_cons_of_mem _ (List.mem_cons_self ..)
  have scope : m.Over Mixed.world.variables := by
    intro t ht
    rcases List.mem_cons.mp ht with rfl | ht
    · exact hx
    rcases List.mem_cons.mp ht with rfl | ht
    · exact hx
    rcases List.mem_cons.mp ht with rfl | ht
    · exact hprev
    · rw [List.mem_singleton.mp ht]
      exact hroute
  have inRange : m.InRange s := by
    intro t ht
    rcases List.mem_cons.mp ht with rfl | ht
    · show ∀ e ∈ [0, 1], e < 3
      decide
    rcases List.mem_cons.mp ht with rfl | ht
    · show ∀ e ∈ [1, 2], e < 3
      decide
    rcases List.mem_cons.mp ht with rfl | ht
    · trivial
    · rw [List.mem_singleton.mp ht]
      trivial
  have agree : m.PillarsAgree (literal (Option Int)) s := by
    refine ⟨⟨some 1, ?_⟩, trivial, trivial, trivial, trivial⟩
    intro e he
    rcases List.mem_cons.mp he with rfl | he
    · rfl
    · rw [List.mem_singleton.mp he]
      rfl
  exact ⟨⟨scope, inRange, agree, FullDirector.quiet d⟩,
    run_undo_redo Mixed.lawful m d scope inRange agree⟩

end Move

end PlanSearch

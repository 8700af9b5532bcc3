/-
A construction that nothing stops is the greedy one.

If it succeeds, the places of the units in order have been filled one after
the other, each with the first best value at its time (`Sequential`). The
entities stand in the order of their ids because the ids were given out in
that order, and the reports name the same choices.
-/
import PlanSearch.Proofs.Construction.Build

namespace PlanSearch

variable {D S E V Date T Sc : Type} [Planning S Sc] [Director D S Sc] [Ord Date]
  [Ord T] [Ranked Sc]

namespace Initializer

-- =================================================================== frame

section

/-- What is done after the places. -/
def conclude (demand : Demand S E V Date T) :
    Ending → Act (Run D V Sc) (Except PlanError (Summary Sc))
  | .failed e => return .error e
  | .complete => return .ok (← finish demand false)
  | .stopped => return .ok (← finish demand true)

/-- A construction that was announced. -/
def Run.begun (demand : Demand S E V Date T) (s : S) (d : D) : Run D V Sc :=
  ⟨d, 0, 0, 0, [.started (demand.ordered s).length
    (Demand.places (demand.ordered s)).length]⟩

variable {init : Initializer} {demand : Demand S E V Date T} {elapsed : Nat}
  {raised : D → List Nat} {s : S} {d : D}

/-- A construction is the building of all places, announced and concluded;
only the number of places can make it break off before. -/
theorem leads_construct
    {post : Except PlanError (Summary Sc) → Run D V Sc → Prop}
    (hworking : Director.working d = s)
    (h : (buildAll init demand elapsed raised
      (Demand.places (demand.ordered s))).Leads (Checked.countLimit
        ≤ (Demand.places (demand.ordered s)).length) (Run.begun demand s d)
      fun ending r => (conclude demand ending).Leads
        (Checked.countLimit ≤ (Demand.places (demand.ordered s)).length)
          r post) :
    (construct init demand elapsed raised : Act (Run D V Sc) _).Leads
      (Checked.countLimit ≤ (Demand.places (demand.ordered s)).length)
        (Run.start d) post := by
  subst hworking
  refine Act.leads_bind
    (Act.leads_of_run (t := Run.start d) (a := Director.working d) rfl ?_)
  dsimp only
  rw [Demand.countSum_required, Checked.count]
  by_cases hfits : (Demand.places (demand.ordered (Director.working d))).length
    < Checked.countLimit
  · rw [if_pos hfits, buildUnits_eq]
    refine Act.leads_bind
      (Act.leads_of_run rfl (Act.leads_bind (Act.leads_update ?_)))
    refine Act.leads_bind (Act.Leads.mono h (fun ending r h' => ?_) id)
    cases ending <;> exact h'
  · rw [if_neg hfits]
    refine Act.leads_bind
      ((Act.leads_lift fun _ hcount => ?_).mono (fun _ _ h' => h')
      fun _ => Nat.le_of_not_lt hfits)
    cases hcount

/-- A construction that comes to its end has counted its places, and has
built and concluded them. -/
theorem of_construct {post : Except PlanError (Summary Sc) → Run D V Sc → Prop}
    (hworking : Director.working d = s)
    (h : (construct init demand elapsed raised : Act (Run D V Sc) _).Leads
      False (Run.start d) post) :
    (Demand.places (demand.ordered s)).length < Checked.countLimit ∧
      (buildAll init demand elapsed raised
        (Demand.places (demand.ordered s))).Leads False (Run.begun demand s d)
          fun ending r => (conclude demand ending).Leads False r post := by
  subst hworking
  have hread : (working : Act (Run D V Sc) S).run (Run.start d) =
    (.ok (Director.working d), Run.start d) := rfl
  have hcounted := h.of_bind.of_run hread
  dsimp only at hcounted
  rw [Demand.countSum_required, Checked.count] at hcounted
  by_cases hfits : (Demand.places (demand.ordered (Director.working d))).length
    < Checked.countLimit
  · rw [if_pos hfits, buildUnits_eq] at hcounted
    have hbuilt := (hcounted.of_bind.of_run rfl).of_bind.of_run rfl
    refine ⟨hfits, hbuilt.of_bind.mono (fun ending r h' => ?_) id⟩
    cases ending <;> exact h'
  · rw [if_neg hfits] at hcounted
    obtain ⟨_, _, hrun, -⟩ := hcounted.of_bind.exists_run
    cases hrun

omit [Director D S Sc] in
/-- A run that begins has no choices behind it. -/
theorem underway_begun {scoring : Scoring S Sc} {known : S → D → Prop}
    (hknown : known s d) :
    Underway demand scoring known s ([] : List (Choice V Sc))
      (Run.begun demand s d) :=
  ⟨Demand.greedy_nil, ⟨s, rfl, hknown⟩, rfl, rfl, rfl,
    List.forall_mem_singleton.mpr rfl⟩

end

-- ============================================================== sequential

/-- The result of filling the places of the units in order, each with the
first best value at its time. -/
structure Sequential (demand : Demand S E V Date T)
    (scoring : Scoring S Sc) (s : S) (units : List (Weight Date T))
    (chosen : List (Choice V Sc)) (summary : Summary Sc)
    (r : Run D V Sc) : Prop where
  /-- The units are in order, and have no other order. -/
  ordered : ∀ others, demand.InOrder s others ↔ others = units
  /-- There is one choice for each place. -/
  places : chosen.map Choice.unit = Demand.places units
  greedy : demand.Greedy scoring s chosen
  working : Director.working r.director =
    Planning.store (some summary.score) (demand.filled s chosen)
  ids : (demand.entities (Director.working r.director)).map demand.id =
    List.range (Demand.places units).length
  assigned : ∀ before c after, chosen = before ++ c :: after →
    demand.assigned (Director.working r.director) before.length = some c.value
  reported : commits r.events = announced chosen
  score : summary.score = scoring.score (Director.working r.director)
  count : summary.assigned = (Demand.places units).length
  terminated : summary.terminated = false

variable {init : Initializer} {demand : Demand S E V Date T}
  {scoring : Scoring S Sc} {known : S → D → Prop} {s : S} {d : D}
  [LawfulRanked Sc] [LawfulPlanning S] [Std.TransOrd Date] [Std.TransOrd T]

/-- A construction comes to its end, and if it succeeds it has filled the
places of the units in order, each with the first best value at its time. -/
theorem construct_sequential (lawful : demand.Lawful)
    (steady : Steady init.descriptor init.name demand scoring known)
    (hknown : known s d) (empty : demand.entities s = [])
    (unlimited : init.terminations = [])
    (fits : (Demand.places (demand.ordered s)).length < Checked.countLimit)
    (elapsed : Nat) (raised : D → List Nat) :
    (construct init demand elapsed raised : Act (Run D V Sc) _).Leads
      False (Run.start d) fun result r => ∀ summary, result = .ok summary →
      ∃ units chosen,
        Sequential demand scoring s units chosen summary r := by
  refine (leads_construct (steady.working s d hknown) ?_).mono (fun _ _ h => h)
    (Nat.not_le_of_lt fits)
  refine ((underway_begun hknown).leads_buildAll steady lawful empty elapsed
    raised _).mono (fun ending r hended => ?_) False.elim
  cases ending with
  | failed e => exact Act.leads_pure fun summary h => (nomatch h)
  | stopped =>
      obtain ⟨_, _, _, _, hstops, _⟩ := hended
      rw [unlimited] at hstops
      cases hstops
  | complete =>
      obtain ⟨chosen, hplaces, hunderway⟩ := hended
      rw [List.nil_append] at hunderway
      have hlength := congrArg List.length hplaces
      rw [List.length_map] at hlength
      refine Act.leads_bind
        ((hunderway.leads_finish steady lawful empty false).mono ?_ False.elim)
      rintro summary r' ⟨rfl, hworking, hreported⟩
      refine Act.leads_pure fun summary h => ?_
      obtain rfl := Except.ok.inj h
      refine ⟨demand.ordered s, chosen, fun _ => lawful.inOrder_iff, hplaces,
        hunderway.greedy, hworking, ?_, ?_, hreported, ?_, hlength, rfl⟩
      · rw [hworking, lawful.entities_store, lawful.ids_filled empty, hlength]
      · rintro before c after rfl
        rw [hworking, lawful.assigned_store]
        exact lawful.assigned_filled empty before c after
      · rw [hworking, scoring.score_store]

/-- A late shift, an early one on the day after, and three employees. -/
def twoShifts : Roster :=
  ⟨[⟨"Ann", []⟩, ⟨"Beth", []⟩, ⟨"Cara", []⟩],
    [⟨2, .early, 1⟩, ⟨1, .late, 1⟩], [], none⟩

/-- Workloads count against a roster. The first employee is away: with her
in it nothing has a score. -/
def awayScoring : Scoring Roster HardSoft where
  rate s := if s.assignments.any fun a => a.employee == some 0
    then .error (.scoring "Ann is away")
    else .ok (HardSoft.of 0 (-Int64.ofNat s.squaredWorkloads))
  score s := HardSoft.of 0 (-Int64.ofNat s.squaredWorkloads)
  rate_store _ _ := rfl
  score_store _ _ := rfl

/-- The construction of the two shifts. -/
def twoShiftsConstruction :
    Act (Run (IncrementalDirector Roster HardSoft Roster) Nat HardSoft)
      (Except PlanError (Summary HardSoft)) :=
  plain.construct Roster.demand 0 fun _ => []

/-- The two shifts have two places. -/
theorem length_places_twoShifts :
    (Demand.places (Roster.demand.ordered twoShifts)).length = 2 := by
  rw [Demand.ordered, Weight.sort_eq_insertionSort]
  decide +kernel

theorem places_twoShifts_lt :
    (Demand.places (Roster.demand.ordered twoShifts)).length
      < Checked.countLimit := by
  rw [length_places_twoShifts]
  decide

/-- Two shifts, filled one after the other. -/
theorem construct_sequential_twoShifts : ∃ summary r,
    twoShiftsConstruction.run
      (.start (.start awayScoring.snapshot twoShifts twoShifts))
        = (.ok (.ok summary), r) ∧
    ∃ units chosen, Sequential Roster.demand awayScoring twoShifts units chosen
      summary r := by
  have hsucceeds : ((twoShiftsConstruction.run
      (.start (.start awayScoring.snapshot twoShifts
        twoShifts))).1.toOption.bind
        Except.toOption).isSome = true := by
    simp only [twoShiftsConstruction, construct, finish, Demand.ordered,
      Weight.sort_eq_insertionSort, Demand.mergeSort_id]
    decide +kernel
  have hleads := construct_sequential Roster.lawful_demand
    (awayScoring.steady plain.descriptor plain.name Roster.demand)
    (awayScoring.pictured_start twoShifts) rfl rfl places_twoShifts_lt 0
    fun _ => []
  obtain ⟨result, r, hrun, hpost⟩ := Act.Leads.exists_run hleads
  cases result with
  | error e =>
      rw [twoShiftsConstruction, hrun] at hsucceeds
      cases hsucceeds
  | ok summary => exact ⟨summary, r, hrun, hpost summary rfl⟩

end Initializer

end PlanSearch

/-
A construction that is stopped early has built a part of the full one.

Under limits on the number of entities a construction does what it does
without them until the least limit is reached: from the same state the two
do the same (`Act.both_self`), and once the one has been stopped nothing
that the other still does touches the entities built so far. A limit that
is reached with the last place stops nothing, and neither does one that an
entity fails before.
-/
import PlanSearch.Proofs.Construction.Sequential

namespace PlanSearch

variable {D S E V Date T Sc : Type}

namespace Initializer

-- ================================================================== limits

/-- The construction under limits on the number of entities. -/
def limitedTo (init : Initializer) (limits : List Nat) : Initializer :=
  { init with terminations := limits.map Termination.steps }

/-- Limits on steps stop where one of them is reached. -/
theorem anyStops_steps (p : Progress) (limits : List Nat) :
    Termination.anyStops p (limits.map Termination.steps) =
      limits.any fun limit => decide (limit ≤ p.steps) := by
  induction limits with
  | nil => rfl
  | cons limit rest ih =>
      show (decide (limit ≤ p.steps) ||
        Termination.anyStops p (rest.map Termination.steps)) = _
      rw [ih, List.any_cons]

/-- Only the least limit matters. -/
theorem anyStops_least {limits : List Nat} {least : Nat}
    (hleast : limits.min? = some least) (p : Progress) :
    Termination.anyStops p (limits.map Termination.steps)
      = decide (least ≤ p.steps) := by
  obtain ⟨hmem, hle⟩ := List.min?_eq_some_iff.mp hleast
  rw [anyStops_steps, Bool.eq_iff_iff, List.any_eq_true, decide_eq_true_iff]
  constructor
  · rintro ⟨limit, hlimit, hreached⟩
    exact (hle limit hlimit).trans (of_decide_eq_true hreached)
  · exact fun h => ⟨least, hmem, decide_eq_true h⟩

section

variable [Director D S Sc] [Ranked Sc]

/-- Candidates are tried alike under any limits. -/
theorem tryCandidates_limitedTo (init : Initializer)
    (demand : Demand S E V Date T) (limits : List Nat) (entity index : Nat)
    (values : List V) (best : Option V × Sc) :
    (tryCandidates (init.limitedTo limits) demand entity index values best :
      Act (Run D V Sc) _)
        = tryCandidates init demand entity index values best := by
  induction values generalizing best with
  | nil => rfl
  | cons value rest ih =>
      rw [tryCandidates, tryCandidates]
      simp only [ih]
      rfl

/-- Terminations are looked at between entities only. -/
theorem buildEntity_limitedTo (init : Initializer)
    (demand : Demand S E V Date T) (limits : List Nat) (unit : Nat) :
    (buildEntity (init.limitedTo limits) demand unit : Act (Run D V Sc) _) =
      buildEntity init demand unit := by
  rw [buildEntity, buildEntity]
  simp only [tryCandidates_limitedTo]
  rfl

end

-- =========================================================== the two loops

variable [Planning S Sc] [Ranked Sc] [Director D S Sc]

section

variable (init : Initializer) (demand : Demand S E V Date T)
  (scoring : Scoring S Sc)

/-- How the loops end, without limits and under limits with this least one:
both alike, before the limit stops the second, or not. -/
inductive Together (known : S → D → Prop) (s : S) (chosen : List (Choice V Sc))
    (elapsed : Nat) (raised : D → List Nat) (least : Nat) (units : List Nat) :
    Ending → Run D V Sc → Ending → Run D V Sc → Prop
  | complete (r : Run D V Sc) :
      Ended (init.limitedTo []) demand scoring known s chosen elapsed raised
        units .complete r →
      r.steps ≤ least →
        Together known s chosen elapsed raised least units
          .complete r .complete r
  | failed (r : Run D V Sc) (e : PlanError) :
      Ended (init.limitedTo []) demand scoring known s chosen elapsed raised
        units (.failed e) r →
      r.steps < least →
      Together known s chosen elapsed raised least units
        (.failed e) r (.failed e) r
  | stopped (upto : List (Choice V Sc)) (rest : List Nat) (ending : Ending)
      (r r' : Run D V Sc) :
      upto.map Choice.unit ++ rest = units → rest ≠ [] →
        (chosen ++ upto).length = least →
      Ended (init.limitedTo []) demand scoring known s (chosen ++ upto)
        elapsed raised rest
        ending r →
      Underway demand scoring known s (chosen ++ upto) r' →
      Together known s chosen elapsed raised least units ending r .stopped r'

end

variable {init : Initializer} {demand : Demand S E V Date T}
  {scoring : Scoring S Sc} {known : S → D → Prop} {s : S} {d : D}
  {chosen : List (Choice V Sc)} {elapsed : Nat} {raised : D → List Nat}
  {least : Nat} {limits : List Nat} {r : Run D V Sc}

omit [Director D S Sc] in
/-- One choice more at the head of both runs. -/
theorem Together.cons {c : Choice V Sc} {units : List Nat}
    {ending ending' : Ending} {r' : Run D V Sc}
    (h : Together init demand scoring known s (chosen ++ [c]) elapsed
      raised least units ending r ending' r') :
    Together init demand scoring known s chosen elapsed raised least
      (c.unit :: units) ending r ending' r' := by
  cases h with
  | complete _ hended hsteps => exact .complete _ hended.cons hsteps
  | failed _ e hended hsteps => exact .failed _ e hended.cons hsteps
  | stopped upto rest _ _ _ hunits hrest hleast hended hunderway =>
      rw [List.append_assoc] at hleast hended hunderway
      have hcons := congrArg (c.unit :: ·) hunits
      exact .stopped (c :: upto) rest _ _ _ hcons hrest hleast hended hunderway

variable [LawfulRanked Sc] [LawfulPlanning S]

variable (elapsed raised) in
/-- The loops do the same until the least limit is met. -/
theorem Underway.both_buildAll (lawful : demand.Lawful)
    (steady : Steady init.descriptor init.name demand scoring known)
    (empty : demand.entities s = []) (hleast : limits.min? = some least)
    (units : List Nat) (h : Underway demand scoring known s chosen r)
    (hle : chosen.length ≤ least) :
    Act.Both (buildAll (init.limitedTo []) demand elapsed raised units)
      (buildAll (init.limitedTo limits) demand elapsed raised units) r r
      (Together init demand scoring known s chosen elapsed raised
        least units) := by
  induction units generalizing chosen r with
  | nil =>
      refine Act.both_pure
        (.complete r ⟨[], rfl, ?_⟩ (h.reached.steps.trans_le hle))
      rwa [List.append_nil]
  | cons unit rest ih =>
      have hstops : Termination.anyStops ⟨0, r.steps, elapsed,
          raised r.director⟩
          (init.limitedTo limits).terminations = decide (least ≤ r.steps) :=
            anyStops_least hleast _
      by_cases hreached : least ≤ r.steps
      · -- what is left is done by the one alone
        have hsteady : Steady (init.limitedTo []).descriptor
            (init.limitedTo []).name demand scoring
            known := steady
        refine (h.leads_buildAll hsteady lawful empty elapsed raised
          (unit :: rest)).mono
          (fun ending r₁ hended => ?_) id
        refine Act.leads_bind (leads_isStopped ?_)
        rw [hstops, decide_eq_true hreached]
        have hsteps : least ≤ chosen.length := hreached.trans_eq h.reached.steps
        have hnone : chosen ++ [] = chosen := List.append_nil chosen
        refine Act.leads_pure
          (.stopped [] (unit :: rest) _ _ _ rfl (List.cons_ne_nil _ _) ?_ ?_ ?_)
        · rw [hnone]
          exact le_antisymm hle hsteps
        · rwa [hnone]
        · rwa [hnone]
      · refine Act.both_bind (leads_isStopped (leads_isStopped ?_))
        rw [hstops, decide_eq_false hreached]
        show Act.Both (buildEntity (init.limitedTo []) demand unit >>= _)
          (buildEntity (init.limitedTo limits) demand unit >>= _) r r _
        rw [buildEntity_limitedTo, buildEntity_limitedTo]
        have hbuilt :=
          Act.both_self (h.leads_buildEntity steady lawful empty unit)
        refine Act.both_bind (hbuilt.mono (fun answer r₁ answer' r' h' => ?_))
        obtain ⟨rfl, rfl, h'⟩ := h'
        have hsteps : chosen.length < least :=
          h.reached.steps ▸ Nat.lt_of_not_le hreached
        cases answer' with
        | ok _ =>
            obtain ⟨c, rfl, hunderway⟩ := h'
            refine (ih hunderway ?_).mono
              (fun _ _ _ _ htogether => htogether.cons)
            rw [List.length_append, List.length_singleton]
            exact hsteps
        | error e =>
            refine Act.both_pure (.failed _ e ⟨[], unit, rest, rfl, ?_⟩ ?_)
            · rwa [List.append_nil]
            · rw [h'.reached.steps]
              exact hsteps

-- ================================================================= results

/-- What a construction without limits leaves behind after some choices:
every place is taken, or an entity more has failed. -/
structure Full (demand : Demand S E V Date T) (s : S)
    (chosen : List (Choice V Sc)) (total : Nat)
    (result : Except PlanError (Summary Sc)) (r : Run D V Sc) : Prop where
  begins : demand.Begins (demand.filled s chosen) (Director.working r.director)
  reported : commits r.events = announced chosen
  result : (chosen.length = total ∧
      (demand.entities (Director.working r.director)).length = total ∧
      ∃ summary, result = .ok summary ∧ summary.terminated = false) ∨
    (chosen.length < total ∧
      (demand.entities (Director.working r.director)).length
        = chosen.length + 1 ∧
      ∃ e, result = .error e)

omit [LawfulRanked Sc] in
/-- However the building ends, the conclusion tells of the choices that were
made. -/
theorem Ended.leads_conclude (lawful : demand.Lawful)
    (steady : Steady init.descriptor init.name demand scoring known)
    (empty : demand.entities s = []) {units : List Nat} {ending : Ending}
    (h : Ended (init.limitedTo []) demand scoring known s chosen elapsed raised
      units ending r) :
    (conclude demand ending).Leads False r fun result r' => ∃ more,
      (chosen ++ more).length = r.steps ∧
      Full demand s (chosen ++ more) (chosen.length + units.length)
        result r' := by
  cases ending with
  | stopped =>
      obtain ⟨_, _, _, _, hstops, _⟩ := h
      cases hstops
  | complete =>
      obtain ⟨more, rfl, hunderway⟩ := h
      have htotal : (chosen ++ more).length
          = chosen.length + (more.map Choice.unit).length := by
        rw [List.length_append, List.length_map]
      refine Act.leads_bind
        ((hunderway.leads_finish steady lawful empty false).mono ?_ id)
      rintro summary r' ⟨rfl, hworking, hreported⟩
      have hbare : Planning.bare (Director.working r'.director) =
          Planning.bare (demand.filled s (chosen ++ more)) := by
        rw [hworking, Planning.bare_store]
      refine Act.leads_pure ⟨more, hunderway.reached.steps.symm,
        (Demand.Begins.refl _).of_bare lawful hbare, hreported,
          .inl ⟨htotal, ?_, _, rfl, rfl⟩⟩
      rw [Planning.congr_of_store lawful.entities_store hbare,
        lawful.length_filled empty, htotal]
  | failed e =>
      obtain ⟨more, unit, rest, rfl, hfailed⟩ := h
      have hbare := steady.bare_working hfailed.reached.standing
      refine Act.leads_pure ⟨more, hfailed.reached.steps.symm,
        (lawful.begins_attempt _ unit none).of_bare lawful hbare,
          hfailed.reached.reported,
        .inr ⟨?_, ?_, e, rfl⟩⟩
      · rw [List.length_append, List.length_append, List.length_map,
          List.length_cons]
        omega
      · rw [Planning.congr_of_store lawful.entities_store hbare,
          lawful.length_attempt, lawful.length_filled empty]

/-- How a construction under limits compares with the full one. -/
structure CutShort (demand : Demand S E V Date T) (scoring : Scoring S Sc)
    (least total : Nat) (full : Except PlanError (Summary Sc)) (r : Run D V Sc)
    (result : Except PlanError (Summary Sc)) (r' : Run D V Sc) : Prop where
  /-- The full one commits every place, or fails at the one after the last
  commit. -/
  unlimited : ((commits r.events).length = total ∧
      (demand.entities (Director.working r.director)).length = total ∧
      ∃ summary, full = .ok summary ∧ summary.terminated = false) ∨
    ((commits r.events).length < total ∧
      (demand.entities (Director.working r.director)).length
        = (commits r.events).length + 1 ∧
      ∃ e, full = .error e)
  /-- If it passes the least limit, the other one ends there. -/
  stopped : least < total → least ≤ (commits r.events).length → ∃ summary,
    result = .ok summary ∧ summary.terminated = true ∧
      summary.assigned = least ∧
    summary.score = scoring.score (Director.working r'.director) ∧
    Planning.stored (Director.working r'.director) = some summary.score ∧
    demand.entities (Director.working r'.director) =
      (demand.entities (Director.working r.director)).take least ∧
    (∀ i < least, demand.assigned (Director.working r'.director) i =
      demand.assigned (Director.working r.director) i) ∧
    commits r'.events = (commits r.events).take least
  /-- Otherwise they do the same. -/
  same : ¬ (least < total ∧ least ≤ (commits r.events).length) →
    result = full ∧ r' = r

section

variable {total : Nat} {full : Except PlanError (Summary Sc)}

omit [Planning S Sc] [Ranked Sc] [LawfulRanked Sc] [LawfulPlanning S] in
/-- A commit is reported for each choice. -/
theorem Full.commits_eq (h : Full demand s chosen total full r) :
    (commits r.events).length = chosen.length := by
  rw [h.reported, length_announced]

omit [Ranked Sc] [LawfulRanked Sc] [LawfulPlanning S] in
/-- The limit was not met. -/
theorem Full.same (h : Full demand s chosen total full r)
    (hleast : ¬ (least < total ∧ least ≤ chosen.length)) :
    CutShort demand scoring least total full r full r where
  unlimited := by
    rw [h.commits_eq]
    exact h.result
  stopped hlt hle := by
    rw [h.commits_eq] at hle
    exact absurd ⟨hlt, hle⟩ hleast
  same _ := ⟨rfl, rfl⟩

omit [Ranked Sc] [LawfulRanked Sc] in
/-- The limit was met after some of the choices. -/
theorem Full.stopped (lawful : demand.Lawful) (empty : demand.entities s = [])
    {upto more : List (Choice V Sc)}
    (h : Full demand s (upto ++ more) total full r) {r' : Run D V Sc}
    {skipped : Nat} (hlt : upto.length < total)
    (hworking : Director.working r'.director =
      Planning.store (some (scoring.score (demand.filled s upto)))
      (demand.filled s upto))
    (hreported : commits r'.events = announced upto) :
    CutShort demand scoring upto.length total full r
      (.ok ⟨upto.length, skipped, scoring.score (demand.filled s upto),
        true⟩) r' := by
  have hlength := lawful.length_filled empty upto
  have hbegins : demand.Begins (demand.filled s upto)
      (Director.working r.director) := by
    refine (lawful.begins_filled _ more).trans ?_
    rw [← Demand.filled_append]
    exact h.begins
  refine ⟨?_, fun _ _ => ⟨_, rfl, rfl, rfl, ?_, ?_, ?_, fun i hi => ?_, ?_⟩,
    fun hmet => ?_⟩
  · rw [h.commits_eq]
    exact h.result
  · rw [hworking, scoring.score_store]
  · rw [hworking, LawfulPlanning.stored_store]
  · rw [hworking, lawful.entities_store, ← hlength]
    exact List.prefix_iff_eq_take.mp hbegins.entities
  · rw [hworking, lawful.assigned_store,
      hbegins.assigned i (hi.trans_eq hlength.symm)]
  · rw [hreported, h.reported, announced_append, ← length_announced upto,
      List.take_left]
  · rw [h.commits_eq, List.length_append] at hmet
    exact absurd ⟨hlt, Nat.le_add_right _ _⟩ hmet

end

variable [Ord Date] [Ord T]

/-- A construction under limits does what the full one does until the least
limit is met; then it ends with the entities built so far. -/
theorem construct_limitedTo (lawful : demand.Lawful)
    (steady : Steady init.descriptor init.name demand scoring known)
    (hknown : known s d) (empty : demand.entities s = [])
    (hleast : limits.min? = some least) (elapsed : Nat)
    (raised : D → List Nat) :
    (construct (init.limitedTo []) demand elapsed raised :
      Act (Run D V Sc) _).Leads (Checked.countLimit
        ≤ (Demand.places (demand.ordered s)).length) (Run.start d)
      fun full r =>
        (construct (init.limitedTo limits) demand elapsed raised).Leads
          (Checked.countLimit ≤ (Demand.places (demand.ordered s)).length)
            (Run.start d)
        (CutShort demand scoring least
          (Demand.places (demand.ordered s)).length full r) := by
  have hworking := steady.working s d hknown
  have hbegun : Underway demand scoring known s [] (Run.begun demand s d) :=
    underway_begun hknown
  obtain ⟨ending, r₁, hrun, hlimited⟩ :=
    Act.Leads.exists_run (hbegun.both_buildAll elapsed raised
    lawful steady empty hleast (Demand.places (demand.ordered s))
      (Nat.zero_le _))
  obtain ⟨ending', r₂, hrun', htogether⟩ := hlimited.exists_run
  refine leads_construct hworking (Act.leads_of_run hrun ?_)
  cases htogether with
  | complete _ hended hsteps =>
      obtain ⟨full, r, hconclude, chosen, -, hfull⟩ :=
        (hended.leads_conclude lawful steady empty).exists_run
      refine Act.leads_of_run hconclude
        (leads_construct hworking (Act.leads_of_run hrun' ?_))
      rw [List.length_nil, Nat.zero_add] at hfull
      refine Act.leads_of_run hconclude (hfull.same fun hmet => ?_)
      obtain ⟨all, hall, hunderway⟩ := hended
      rw [← hall, List.length_map] at hmet
      exact absurd (hunderway.reached.steps.symm.trans_le hsteps)
        (Nat.not_le_of_lt hmet.1)
  | failed _ e hended hsteps =>
      obtain ⟨full, r, hconclude, chosen, hlength, hfull⟩ :=
        (hended.leads_conclude lawful steady empty).exists_run
      refine Act.leads_of_run hconclude
        (leads_construct hworking (Act.leads_of_run hrun' ?_))
      rw [List.length_nil, Nat.zero_add] at hfull
      refine Act.leads_of_run hconclude (hfull.same fun hmet => ?_)
      exact absurd (hmet.2.trans_eq hlength) (Nat.not_le_of_lt hsteps)
  | stopped upto rest _ _ _ hunits hrest hlength hended hunderway =>
      obtain ⟨full, r, hconclude, more, -, hfull⟩ :=
        (hended.leads_conclude lawful steady empty).exists_run
      refine Act.leads_of_run hconclude
        (leads_construct hworking (Act.leads_of_run hrun' ?_))
      refine Act.leads_bind
        ((hunderway.leads_finish steady lawful empty true).mono ?_ False.elim)
      rintro summary r' ⟨rfl, hworking', hreported⟩
      rw [List.nil_append] at hlength hfull hworking' hreported ⊢
      subst hlength
      have htotal : (Demand.places (demand.ordered s)).length
          = upto.length + rest.length := by
        rw [← hunits, List.length_append, List.length_map]
      rw [htotal]
      have hlt := Nat.lt_add_of_pos_right (n := upto.length)
        (List.length_pos_iff.mpr hrest)
      exact Act.leads_pure (hfull.stopped lawful empty hlt hworking' hreported)

/-- The construction of the two shifts under limits. -/
def twoShiftsLimitedTo (limits : List Nat) :
    Act (Run (IncrementalDirector Roster HardSoft Roster) Nat HardSoft)
      (Except PlanError (Summary HardSoft)) :=
  (plain.limitedTo limits).construct Roster.demand 0 fun _ => []

/-- Of two shifts the first is staffed before the limit. -/
theorem construct_limitedTo_twoShifts : ∃ full r summary r',
    (twoShiftsLimitedTo []).run
      (.start (.start awayScoring.snapshot twoShifts twoShifts))
        = (.ok full, r) ∧
    (twoShiftsLimitedTo [2, 1]).run
      (.start (.start awayScoring.snapshot twoShifts twoShifts))
        = (.ok (.ok summary), r') ∧
    summary.terminated = true ∧
    CutShort Roster.demand awayScoring 1 2 full r (.ok summary) r' := by
  have hcommits : (commits ((twoShiftsLimitedTo []).run
      (.start (.start awayScoring.snapshot twoShifts
        twoShifts))).2.events).length = 2 := by
    simp only [twoShiftsLimitedTo, construct, finish, Demand.ordered,
      Weight.sort_eq_insertionSort, Demand.mergeSort_id]
    decide +kernel
  have hlimited := construct_limitedTo Roster.lawful_demand
    (awayScoring.steady plain.descriptor plain.name Roster.demand)
    (awayScoring.pictured_start twoShifts) rfl
      (show [2, 1].min? = some 1 from rfl) 0 fun _ => []
  rw [length_places_twoShifts] at hlimited
  have hfits : ¬ Checked.countLimit ≤ 2 := by decide
  obtain ⟨full, r, hrun, hlimited⟩ :=
    (hlimited.mono (fun _ _ h => h) hfits).exists_run
  obtain ⟨result, r', hrun', hcut⟩ :=
    (hlimited.mono (fun _ _ h => h) hfits).exists_run
  rw [twoShiftsLimitedTo, hrun] at hcommits
  obtain ⟨summary, rfl, hterminated, -⟩ :=
    hcut.stopped (by decide) (by rw [hcommits]; decide)
  exact ⟨full, r, summary, r', hrun, hrun', hterminated, hcut⟩

end Initializer

end PlanSearch

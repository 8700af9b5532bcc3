/-
What a failed construction leaves behind.

An entity fails in the midst of its candidates, or after all of them. By
then others may have been built, and of its own candidates some may have been
skipped and one been the best so far. What it was tried with is taken back,
and what was built before it stays. The solution has the entities before it,
with the values they were reported with, and the failed one, which holds
nothing; the reports break off after the commits of those before (`Broken`).

Most of this is known of a run that has `Failed`, in terms of its choices.
What is added here is what it means for the solution and for the reports.
-/
import PlanSearch.Proofs.Construction.Sequential

namespace PlanSearch

variable {D S E V Date T Sc : Type}

-- ================================================================= reports

/-- The entities are reported by their numbers, in order. -/
theorem map_fst_announced (chosen : List (Choice V Sc)) :
    (announced chosen).map Prod.fst = List.range chosen.length := by
  unfold announced
  rw [List.map_map, List.range_eq_range', ← List.zipIdx_map_snd]
  rfl

/-- What is reported for an entity is the choice in its place. -/
theorem exists_choice_of_announced {chosen : List (Choice V Sc)}
    {entity : Nat} {value : V} {score : Sc}
    (h : (entity, value, score) ∈ announced chosen) :
    ∃ before c after, chosen = before ++ c :: after ∧ before.length = entity ∧
      c.value = value := by
  obtain ⟨⟨c, i⟩, hmem, hreport⟩ := List.mem_map.mp h
  cases hreport
  have hchoice : chosen[i]? = some c := List.mem_zipIdx_iff_getElem?.mp hmem
  obtain ⟨hi, rfl⟩ := List.getElem?_eq_some_iff.mp hchoice
  refine ⟨chosen.take i, chosen[i], chosen.drop (i + 1), ?_, ?_, rfl⟩
  · rw [List.getElem_cons_drop, List.take_append_drop]
  · rw [List.length_take, Nat.min_eq_left (Nat.le_of_lt hi)]

namespace Initializer

-- ================================================================= failure

variable [Planning S Sc] [Director D S Sc] [Ranked Sc]

/-- A construction that failed at a unit, for a reason, after some choices. -/
structure Broken [Ord Date] [Ord T] (demand : Demand S E V Date T)
    (scoring : Scoring S Sc) (s : S) (chosen : List (Choice V Sc)) (unit : Nat)
    (e : PlanError) (r : Run D V Sc) : Prop where
  /-- It is the place of this unit that was next. -/
  place : chosen.map Choice.unit ++ [unit] <+: Demand.places (demand.ordered s)
  greedy : demand.Greedy scoring s chosen
  refused : Refused demand scoring (demand.filled s chosen) chosen.length unit e
  working : Planning.bare (Director.working r.director) =
    Planning.bare (demand.attempt (demand.filled s chosen) unit none)
  ids : (demand.entities (Director.working r.director)).map demand.id =
    List.range (chosen.length + 1)
  reported : commits r.events = announced chosen
  numbered : (commits r.events).map Prod.fst = List.range chosen.length
  /-- Every entity that was committed holds the value it was reported with. -/
  kept : ∀ entity value score, (entity, value, score) ∈ commits r.events →
    demand.assigned (Director.working r.director) entity = some value
  /-- The one after them holds nothing. -/
  vacant : demand.assigned (Director.working r.director) chosen.length = none
  unended : ∀ event ∈ r.events, event.end? = none

variable {init : Initializer} {demand : Demand S E V Date T}
  {scoring : Scoring S Sc} {known : S → D → Prop} {s : S} {d : D}
  {chosen : List (Choice V Sc)} {unit : Nat} {e : PlanError} {r : Run D V Sc}
  [Ord Date] [Ord T]

/-- What is known of the choices, seen in the solution. -/
theorem Failed.broken (h : Failed demand scoring known s chosen unit e r)
    (steady : Steady init.descriptor init.name demand scoring known)
    (lawful : demand.Lawful) (empty : demand.entities s = [])
    (place : chosen.map Choice.unit ++
      [unit] <+: Demand.places (demand.ordered s)) :
    Broken demand scoring s chosen unit e r := by
  have hlength := lawful.length_filled empty chosen
  have hworking := steady.bare_working h.reached.standing
  have hbegins : demand.Begins (demand.filled s chosen)
      (Director.working r.director) :=
    (lawful.begins_attempt _ unit none).of_bare lawful hworking
  refine ⟨place, h.greedy, h.refused, hworking, ?_,
    h.reached.reported, ?_, ?_, ?_, h.reached.unended⟩
  · rw [Planning.congr_of_store lawful.entities_store hworking,
      lawful.ids_attempt, lawful.ids_filled empty, hlength, List.range_succ]
  · rw [h.reached.reported, map_fst_announced]
  · intro entity value score hcommit
    rw [h.reached.reported] at hcommit
    obtain ⟨before, c, after, rfl, rfl, rfl⟩ :=
      exists_choice_of_announced hcommit
    rw [hbegins.assigned, lawful.assigned_filled empty]
    rw [hlength, List.length_append, List.length_cons]
    omega
  · have hopen := lawful.assigned_attempt (demand.filled s chosen) unit none
    rw [hlength] at hopen
    exact (lawful.assigned_of_bare hworking _).trans hopen

variable [LawfulRanked Sc] [LawfulPlanning S]

/-- A construction that ends in an error has built the entities of some
choices and one more, and failed at that one. -/
theorem construct_failed (lawful : demand.Lawful)
    (steady : Steady init.descriptor init.name demand scoring known)
    (hknown : known s d) (empty : demand.entities s = []) (elapsed : Nat)
    (raised : D → List Nat) :
    (construct init demand elapsed raised : Act (Run D V Sc) _).Leads
      (Checked.countLimit ≤ (Demand.places (demand.ordered s)).length)
        (Run.start d)
      fun result r => ∀ e, result = .error e → ∃ chosen unit,
        Broken demand scoring s chosen unit e r := by
  refine leads_construct (steady.working s d hknown) ?_
  refine ((underway_begun hknown).leads_buildAll steady lawful empty elapsed
    raised _).mono (fun ending r hended => ?_) False.elim
  cases ending with
  | complete =>
      obtain ⟨chosen, -, hunderway⟩ := hended
      have hfinish := hunderway.leads_finish steady lawful empty false
      exact Act.leads_bind
        (hfinish.mono (fun _ _ _ => Act.leads_pure nofun) False.elim)
  | stopped =>
      obtain ⟨chosen, _, -, -, -, hunderway⟩ := hended
      have hfinish := hunderway.leads_finish steady lawful empty true
      exact Act.leads_bind
        (hfinish.mono (fun _ _ _ => Act.leads_pure nofun) False.elim)
  | failed e =>
      obtain ⟨chosen, unit, rest, hplaces, hfailed⟩ := hended
      rw [List.nil_append] at hfailed
      refine Act.leads_pure fun e' he => ?_
      obtain rfl := Except.error.inj he
      refine ⟨chosen, unit, hfailed.broken steady lawful empty ⟨rest, ?_⟩⟩
      rw [← hplaces, List.append_assoc, List.singleton_append]

/-- Ann is away, and it is said what the second shift comes to with each of
the others. -/
def secondScoring (beth cara : Except PlanError HardSoft) :
    Scoring Roster HardSoft where
  rate s := match s.assignments with
    | [_, second] => if second.employee = some 1 then beth
      else if second.employee = some 2 then cara else awayScoring.rate s
    | _ => awayScoring.rate s
  score := awayScoring.score
  rate_store _ _ := rfl
  score_store _ _ := rfl

/-- What the construction of the two shifts comes to. -/
def twoShiftsUnder (scoring : Scoring Roster HardSoft) :
    Except Fault (Except PlanError (Summary HardSoft)) ×
      Run (IncrementalDirector Roster HardSoft Roster) Nat HardSoft :=
  twoShiftsConstruction.run
    (.start (.start scoring.snapshot twoShifts twoShifts))

/-- The second shift fails while Beth would do, because Cara spoils it; and it
fails for want of anyone who would do. -/
theorem construct_failed_twoShifts :
    let spoilt := secondScoring (.ok (HardSoft.of 0 0)) (.error .cancelled)
    let unmatched :=
      secondScoring (.error (.scoring "Beth is ill")) (.ok Ranked.least)
    (∃ r chosen unit, twoShiftsUnder spoilt = (.ok (.error .cancelled), r) ∧
      (commits r.events).length = 1 ∧
      Broken Roster.demand spoilt twoShifts chosen unit .cancelled r) ∧
    ∃ r chosen unit,
      twoShiftsUnder unmatched = (.ok (.error (noCandidate 1 0)), r) ∧
      (commits r.events).length = 1 ∧
      Broken Roster.demand unmatched twoShifts chosen unit
          (noCandidate 1 0) r := by
  intro spoilt unmatched
  have hbroken : ∀ scoring e, (twoShiftsUnder scoring).1 = .ok (.error e) →
      ∃ chosen unit,
      Broken Roster.demand scoring twoShifts chosen unit e
          (twoShiftsUnder scoring).2 := by
    intro scoring e he
    have hleads := construct_failed Roster.lawful_demand
      (scoring.steady plain.descriptor plain.name Roster.demand)
      (scoring.pictured_start twoShifts) rfl 0 fun _ => []
    exact (hleads.mono (fun _ _ h => h)
      (Nat.not_le_of_lt places_twoShifts_lt)).of_run (Prod.ext he rfl) e rfl
  constructor
  · obtain ⟨hspoilt, hcommits⟩ :
        (twoShiftsUnder spoilt).1 = .ok (.error .cancelled) ∧
        (commits (twoShiftsUnder spoilt).2.events).length = 1 := by
      simp only [twoShiftsUnder, twoShiftsConstruction, construct, finish,
        Demand.ordered, Weight.sort_eq_insertionSort, Demand.mergeSort_id]
      decide +kernel
    obtain ⟨chosen, unit, h⟩ := hbroken spoilt _ hspoilt
    exact ⟨_, chosen, unit, Prod.ext hspoilt rfl, hcommits, h⟩
  · obtain ⟨hunmatched, hcommits⟩ :
        (twoShiftsUnder unmatched).1 = .ok (.error (noCandidate 1 0)) ∧
        (commits (twoShiftsUnder unmatched).2.events).length = 1 := by
      simp only [twoShiftsUnder, twoShiftsConstruction, construct, finish,
        Demand.ordered, Weight.sort_eq_insertionSort, Demand.mergeSort_id]
      decide +kernel
    obtain ⟨chosen, unit, h⟩ := hbroken unmatched _ hunmatched
    exact ⟨_, chosen, unit, Prod.ext hunmatched rfl, hcommits, h⟩

end Initializer

end PlanSearch

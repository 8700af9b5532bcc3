/-
First solutions under the limits that a configuration sets.

The construction that a configuration asks for is the one without limits,
broken off where the least of its limits is reached. Which limits are its own
is a matter of the configuration: those of the whole run, and those of the
first construction phase that sets any. A construction phase that sets none
is passed over, and the next one counts in its place.

# Scoring that breaks off

Only the outcome of the construction without limits is known, and that its
scoring broke off nowhere. One that is stopped in between scores a solution
that the other never asks for as such, but it is the one that the last
entity was given its value for: `Filled` says that there is a score.
-/
import PlanSearch.Construction.Setup
import PlanSearch.Proofs.Construction.Limits
import PlanSearch.Proofs.Roster

namespace PlanSearch

variable {S E V Date T Sc : Type} [Planning S Sc]

namespace Initializer

-- ================================================================= entities

/-- A run with scoring from scratch that has committed some entities, and
given out the ids before the next one. -/
structure Counted (demand : Demand S E V Date T) (rating : S → Except Fault Sc)
    (built next : Nat) (r : Run (FullDirector S Sc) V Sc) : Prop where
  rated : r.director.Rated rating
  steps : r.steps = built
  nextId : r.nextId = next
  ids : (demand.entities (Director.working r.director)).map demand.id
    = List.range next

/-- The run stands between two entities, and what it stands at has a score. -/
structure Filled (demand : Demand S E V Date T)
    (rating : S → Except Fault Sc) (built : Nat)
    (r : Run (FullDirector S Sc) V Sc) :
    Prop extends Counted demand rating built built r where
  scored : ∃ score, rating (Director.working r.director) = .ok score

/-- With the value that was found, if one was, there is a score. -/
def Keeps (demand : Demand S E V Date T)
    (rating : S → Except Fault Sc) (index : Nat) (found : Option V)
    (s : S) : Prop :=
  ∀ value, found = some value →
    ∃ score, rating (demand.assign index (some value) s) = .ok score

variable {init : Initializer} {demand : Demand S E V Date T}
  {rating : S → Except Fault Sc} {built next : Nat}
  {r : Run (FullDirector S Sc) V Sc} (lawful : demand.Lawful)

section

/-- What the director does is all that happens. -/
theorem Counted.leads_direct {α : Type} {excuse : Prop}
    {act : Act (FullDirector S Sc) α} (h : Counted demand rating built next r)
    (post : α → S → Prop) (hact : act.Leads excuse r.director fun a d =>
      post a d.working ∧ d.Rated rating ∧
        (demand.entities d.working).map demand.id = List.range next) :
    (direct act : Act (Run (FullDirector S Sc) V Sc) α).Leads excuse r
      fun a r' =>
      post a (Director.working r'.director) ∧
      Counted demand rating built next r' :=
  Act.leads_zoom (hact.mono
    (fun _ _ h' => ⟨h'.1, h'.2.1, h.steps, h.nextId, h'.2.2⟩) id)

/-- An edit that leaves the ids alone. -/
theorem Counted.leads_edit (h : Counted demand rating built next r)
    (write : S → S) (hids :
      (demand.entities (write (Director.working r.director))).map demand.id
        = List.range next) :
    (direct (Act.update (Director.edit write)) :
        Act (Run (FullDirector S Sc) V Sc) Unit).Leads
      False r fun _ r' => Director.working r'.director
        = write (Director.working r.director) ∧
        Counted demand rating built next r' :=
  h.leads_direct (fun _ s => s = write _)
    (Act.leads_update ⟨rfl,
      (FullDirector.announced_rated rating).edit write _ h.rated, hids⟩)

/-- A reset keeps the count. -/
theorem Counted.leads_reset (h : Counted demand rating built next r) :
    (direct Director.reset : Act (Run (FullDirector S Sc) V Sc)
      Unit).Leads False r fun _ r' => Director.working r'.director
        = Director.working r.director ∧ Counted demand rating built next r' :=
  h.leads_direct (fun _ s => s = Director.working r.director)
    (Act.leads_update ⟨rfl, ⟨h.rated.scoring, fun _ g => nomatch g⟩, h.ids⟩)

include lawful

/-- An assignment keeps the count. -/
theorem Counted.leads_assign
    (h : Counted demand rating built next r) (index : Nat) (value : Option V) :
    (assign init demand index value : Act (Run (FullDirector S Sc) V Sc)
      Unit).Leads False r fun _ r' =>
        Director.working r'.director
          = demand.assign index value (Director.working r.director) ∧
        Counted demand rating built next r' := by
  refine h.leads_direct (fun _ s => s = demand.assign index value _) ?_
  refine Act.leads_bind
    (Act.leads_update (Act.leads_bind (Act.leads_update ?_)))
  have hids :=
    (lawful.ids_assign index value (Director.working r.director)).trans h.ids
  exact Act.leads_update ⟨rfl, ⟨h.rated.scoring, fun _ g => nomatch g⟩, hids⟩

variable [LawfulPlanning S]
  (blind : ∀ stored s, rating (Planning.store stored s) = rating s)

include blind

/-- There is a score, or the scoring breaks off. -/
theorem Counted.leads_score (h : Counted demand rating built next r) :
    (FullDirector.score : Act (FullDirector S Sc) Sc).Leads
      (∃ f, rating (Director.working r.director) = .error f) r.director
        fun score d =>
        (rating (Director.working r.director) = .ok score ∧
          Planning.bare d.working
            = Planning.bare (Director.working r.director)) ∧
        d.Rated rating ∧ (demand.entities d.working).map demand.id
          = List.range next := by
  refine (h.rated.leads_score blind).mono ?_ id
  rintro score d ⟨hscore, hrated, hbare⟩
  have hentities := Planning.congr_of_store lawful.entities_store hbare
  exact ⟨⟨hscore, hbare⟩, hrated,
    (congrArg (List.map demand.id) hentities).trans h.ids⟩

/-- A score call keeps the count, and tells the score if there is one. -/
theorem Counted.leads_tryScore (h : Counted demand rating built next r) :
    (direct Director.tryScore : Act (Run (FullDirector S Sc) V Sc)
      (Except PlanError Sc)).Leads True r fun answer r' =>
      (∃ score, answer = .ok score ∧
          rating (Director.working r.director) = .ok score ∧
          Planning.bare (Director.working r'.director) =
            Planning.bare (Director.working r.director)) ∧
        Counted demand rating built next r' := by
  refine h.leads_direct (fun (answer : Except PlanError Sc) s => ∃ score,
    answer = .ok score ∧ rating (Director.working r.director) = .ok score ∧
      Planning.bare s = Planning.bare (Director.working r.director)) ?_
  refine Act.leads_bind ((h.leads_score lawful blind).mono ?_ fun _ => trivial)
  rintro score d ⟨⟨hscore, hbare⟩, h'⟩
  exact Act.leads_pure ⟨⟨score, rfl, hscore, hbare⟩, h'⟩

variable [Ranked Sc]

/-- Whatever candidate is kept in the end, it has been scored. -/
theorem Counted.leads_tryCandidates (entity index : Nat) (values : List V)
    (best : Option V × Sc) (h : Counted demand rating built next r)
    (hkeeps : Keeps demand rating index best.1 (Director.working r.director)) :
    (tryCandidates init demand entity index values best :
      Act (Run (FullDirector S Sc) V Sc) _).Leads True r
        fun answer r' => ∃ found, answer = .ok found ∧
        Keeps demand rating index found.1 (Director.working r'.director) ∧
        Counted demand rating built next r' := by
  induction values generalizing best r with
  | nil => exact Act.leads_pure ⟨best, rfl, hkeeps, h⟩
  | cons value rest ih =>
      refine Act.leads_bind
        ((h.leads_assign lawful index (some value)).mono ?_ False.elim)
      rintro - r₁ ⟨hworking, h₁⟩
      refine Act.leads_bind ((h₁.leads_tryScore lawful blind).mono ?_ id)
      rintro _ r₂ ⟨⟨score, rfl, hscore, hbare⟩, h₂⟩
      -- what an entity held before makes no difference, nor does the stored
      -- score
      have hagain : ∀ v,
          rating (demand.assign index v (Director.working r₂.director)) =
          rating (demand.assign index v (Director.working r.director)) := by
        intro v
        have hblind : ∀ stored t,
            rating (demand.assign index v (Planning.store stored t)) =
            rating (demand.assign index v t) := by
          intro stored t
          rw [lawful.assign_store, blind]
        have hstored := @Planning.congr_of_store S Sc (Except Fault Sc) _ _ _
          (fun t => rating (demand.assign index v t)) hblind hbare
        rw [hworking, lawful.assign_assign] at hstored
        exact hstored
      refine ih _ h₂ fun kept hkept => ?_
      rw [hagain]
      by_cases hbeats : Ranked.beats score best.2 = true
      · rw [if_pos hbeats] at hkept
        obtain rfl : value = kept := Option.some.inj hkept
        exact ⟨score, hworking ▸ hscore⟩
      · rw [if_neg hbeats] at hkept
        exact hkeeps kept hkept

/-- An entity that is built is one step, takes one id and leaves a solution
that has a score. -/
theorem Filled.leads_buildEntity (h : Filled demand rating built r)
    (unit : Nat) : (buildEntity init demand unit :
      Act (Run (FullDirector S Sc) V Sc) _).Leads True r fun answer r' => answer
        = .ok () → Filled demand rating (built + 1) r' := by
  refine Act.leads_bind (Act.leads_get (Act.leads_bind (Act.leads_modify ?_)))
  refine Act.leads_bind (Act.leads_bind (Act.leads_of_run rfl ?_))
  refine Act.leads_bind (Act.leads_zoom (Act.leads_update ?_))
  refine Act.leads_bind (Act.leads_zoom (Act.leads_update (Act.leads_pure ?_)))
  refine Act.leads_bind (Act.leads_of_run rfl ?_)
  have hminted : Counted demand rating built (built + 1)
      (⟨⟨r.director.scoring,
        demand.push (demand.mint (Director.working r.director) r.nextId unit)
        (Director.working r.director), none⟩, r.steps, r.skipped,
          r.nextId + 1, r.events⟩ :
          Run (FullDirector S Sc) V Sc) := by
    refine ⟨⟨h.rated.scoring, fun _ g => nomatch g⟩, h.steps,
      congrArg (· + 1) h.nextId, ?_⟩
    show (demand.entities (demand.push _ _)).map demand.id = _
    rw [lawful.entities_push, List.map_append, List.map_singleton,
      lawful.id_mint, h.ids, h.nextId, List.range_succ]
  refine Act.leads_bind
    ((hminted.leads_tryCandidates lawful blind _ _ _ (none, Ranked.least)
    (fun _ g => nomatch g)).mono ?_ id)
  rintro _ r₁ ⟨⟨found, best⟩, rfl, hkeeps, h₁⟩
  cases found with
  | none =>
      refine Act.leads_bind
        ((h₁.leads_assign lawful _ none).mono (fun _ _ _ => ?_) False.elim)
      exact Act.leads_pure fun g => nomatch g
  | some value =>
      refine Act.leads_bind
        ((h₁.leads_assign lawful _ (some value)).mono ?_ False.elim)
      rintro - r₂ ⟨hworking, h₂⟩
      refine Act.leads_bind
        (Act.leads_modify (Act.leads_bind (Act.leads_update ?_)))
      refine Act.leads_pure fun _ =>
        ⟨⟨h₂.rated, congrArg (· + 1) h₂.steps, h₂.nextId, h₂.ids⟩, ?_⟩
      obtain ⟨score, hscore⟩ := hkeeps value rfl
      exact ⟨score, hworking ▸ hscore⟩

omit [Ranked Sc] in
/-- What was built is left as it is, and can be scored. -/
theorem Filled.leads_finish (h : Filled demand rating built r)
    (terminated : Bool) :
    (finish demand terminated : Act (Run (FullDirector S Sc) V Sc)
      (Summary Sc)).Leads False r fun summary r' => summary.assigned = built ∧
      summary.terminated = terminated ∧
        (demand.entities (Director.working r'.director)).length = built := by
  obtain ⟨hcounted, score, hscore⟩ := h
  refine Act.leads_bind (Act.leads_of_run rfl ?_)
  dsimp only
  rw [demand.mergeSort_of_ids hcounted.ids]
  have hinstalled := lawful.install_entities (Director.working r.director)
  refine Act.leads_bind ((hcounted.leads_edit _ ?_).mono ?_ id)
  · rw [hinstalled]
    exact hcounted.ids
  rintro - r₁ ⟨hworking, h₁⟩
  rw [hinstalled] at hworking
  refine Act.leads_bind (h₁.leads_reset.mono ?_ id)
  rintro - r₂ ⟨hworking₂, h₂⟩
  rw [← hworking, ← hworking₂] at hscore
  refine Act.leads_bind ((h₂.leads_direct (fun final s =>
    rating (Director.working r₂.director) = .ok final ∧
      Planning.bare s = Planning.bare (Director.working r₂.director))
    (h₂.leads_score lawful blind)).mono ?_ ?_)
  · rintro final r₃ ⟨-, h₃⟩
    refine Act.leads_bind ((h₃.leads_edit _ ?_).mono ?_ id)
    · rw [lawful.entities_store]
      exact h₃.ids
    rintro - r₄ ⟨-, h₄⟩
    refine Act.leads_bind
      (Act.leads_get (Act.leads_bind (Act.leads_update (Act.leads_pure ?_))))
    refine ⟨h₄.steps, rfl, ?_⟩
    have hlength := congrArg List.length h₄.ids
    rwa [List.length_map, List.length_range] at hlength
  · rintro ⟨f, hf⟩
    rw [hscore] at hf
    cases hf

end

-- ================================================================== limits

/-- How far a construction of so many places gets under some limits. -/
def capped (limits : List Nat) (places : Nat) : Nat := limits.foldl min places

/-- No more steps than places. -/
theorem capped_le (limits : List Nat) (places : Nat) :
    capped limits places ≤ places := by
  induction limits generalizing places with
  | nil => exact le_rfl
  | cons limit rest ih =>
      exact (ih (min places limit)).trans (Nat.min_le_left _ _)

/-- No more steps than any of the limits. -/
theorem capped_le_of_mem {limits : List Nat} {limit : Nat} (h : limit ∈ limits)
    (places : Nat) : capped limits places ≤ limit := by
  induction limits generalizing places with
  | nil => cases h
  | cons first rest ih =>
      rcases List.mem_cons.mp h with rfl | h
      · exact (capped_le rest _).trans (Nat.min_le_right _ _)
      · exact ih h _

/-- As many steps as places and limits allow. -/
theorem le_capped {limits : List Nat} {places steps : Nat}
    (hplaces : steps ≤ places) (h : ∀ limit ∈ limits, steps ≤ limit) :
    steps ≤ capped limits places := by
  induction limits generalizing places with
  | nil => exact hplaces
  | cons limit rest ih =>
      obtain ⟨hlimit, hrest⟩ := List.forall_mem_cons.mp h
      exact ih (le_min hplaces hlimit) hrest

/-- The terminations stop a construction at some numbers of steps, and
nowhere else. -/
def StopsAt (init : Initializer) (limits : List Nat) : Prop :=
  ∀ p : Progress, Termination.anyStops p init.terminations = true ↔
    ∃ limit ∈ limits, limit ≤ p.steps

variable [LawfulPlanning S] [Ranked Sc] {limits : List Nat} {elapsed : Nat}
  {raised : FullDirector S Sc → List Nat}

include lawful in
/-- As long as the one without limits fails at no entity, one under limits
builds what they let it. -/
theorem Filled.leads_buildAll
    (blind : ∀ stored s, rating (Planning.store stored s) = rating s)
    (stops : init.StopsAt limits) (units : List Nat)
    (h : Filled demand rating built r) (below : ∀ limit ∈ limits, built ≤ limit)
    (full : (buildAll (init.limitedTo []) demand elapsed raised
      units).Leads False r fun ending _ => ∀ e, ending ≠ .failed e) :
    (buildAll init demand elapsed raised units).Leads False r fun ending r' =>
      (ending = if capped limits (built + units.length)
        < built + units.length then .stopped else .complete) ∧
      Filled demand rating (capped limits (built + units.length)) r' := by
  induction units generalizing built r with
  | nil =>
      have hcapped : capped limits built = built :=
        le_antisymm (capped_le limits built) (le_capped le_rfl below)
      refine Act.leads_pure ?_
      rw [List.length_nil, Nat.add_zero, hcapped, if_neg (Nat.lt_irrefl built)]
      exact ⟨rfl, h⟩
  | cons unit rest ih =>
      refine Act.leads_bind (leads_isStopped ?_)
      cases hstops : Termination.anyStops _ init.terminations with
      | true =>
          obtain ⟨limit, hmem, hreached⟩ := (stops _).mp hstops
          have hcapped : capped limits (built + (rest.length + 1)) = built := by
            refine le_antisymm ((capped_le_of_mem hmem _).trans ?_)
              (le_capped (by omega) below)
            exact hreached.trans_eq h.steps
          refine Act.leads_pure ?_
          rw [List.length_cons, hcapped, if_pos (by omega)]
          exact ⟨rfl, h⟩
      | false =>
          have hbelow : ∀ limit ∈ limits, built + 1 ≤ limit := by
            intro limit hmem
            by_contra hnot
            have hreached : limit ≤ r.steps :=
              h.steps ▸ Nat.le_of_lt_succ (Nat.lt_of_not_le hnot)
            rw [(stops _).mpr ⟨limit, hmem, hreached⟩] at hstops
            cases hstops
          have hfull := full.of_bind.of_run rfl
          have hbuild := buildEntity_limitedTo (D := FullDirector S Sc) init
            demand [] unit
          refine Act.leads_bind ?_
          rw [← hbuild]
          refine (hfull.of_bind.and
            (h.leads_buildEntity lawful blind unit)).mono ?_ id
          rintro answer r' ⟨hnext, hfilled⟩
          cases answer with
          | error e => exact absurd rfl (hnext.of_run rfl e)
          | ok _ =>
              have hlength : built + (unit :: rest).length
                  = built + 1 + rest.length := by
                rw [List.length_cons]
                omega
              rw [hlength]
              exact ih (hfilled rfl) hbelow hnext

/-- How a construction ends that builds some of its places. -/
structure Capped (demand : Demand S E V Date T) (places built : Nat)
    (result : Except PlanError (Summary Sc)) (t : S) : Prop where
  result : ∃ summary, result = .ok summary ∧ summary.assigned = built ∧
    (summary.terminated = true ↔ built < places)
  length : (demand.entities t).length = built

include lawful in
omit [Ranked Sc] in
/-- The end of a construction is stored with its score. -/
theorem Filled.leads_conclude
    (blind : ∀ stored s, rating (Planning.store stored s) = rating s)
    (h : Filled demand rating built r) (places : Nat) :
    (conclude demand (if built < places then .stopped
      else .complete)).Leads False r fun result r' =>
      Capped demand places built result (Director.working r'.director) := by
  by_cases hless : built < places
  · rw [if_pos hless]
    refine Act.leads_bind
      ((h.leads_finish lawful blind true).mono ?_ False.elim)
    rintro summary r' ⟨hassigned, hterminated, hlength⟩
    exact Act.leads_pure
      ⟨⟨summary, rfl, hassigned, iff_of_true hterminated hless⟩, hlength⟩
  · rw [if_neg hless]
    refine Act.leads_bind
      ((h.leads_finish lawful blind false).mono ?_ False.elim)
    rintro summary r' ⟨hassigned, hterminated, hlength⟩
    have hopen : summary.terminated ≠ true := Bool.eq_false_iff.mp hterminated
    exact Act.leads_pure
      ⟨⟨summary, rfl, hassigned, iff_of_false hopen hless⟩, hlength⟩

variable [Ord Date] [Ord T] {s : S}

include lawful in
/-- A construction that would succeed without limits goes as far as they
allow. -/
theorem leads_construct_capped
    (blind : ∀ stored s, rating (Planning.store stored s) = rating s)
    (stops : init.StopsAt limits) (empty : demand.entities s = [])
    (scored : ∃ score, rating s = .ok score)
    (full : (construct (init.limitedTo []) demand elapsed raised :
      Act (Run _ V Sc) _).Leads False (Run.start (.start rating s))
        fun result _ => ∃ total, result = .ok total) :
    (construct init demand elapsed raised : Act (Run _ V Sc) _).Leads False
      (Run.start (.start rating s)) fun result r =>
        Capped demand (Demand.places (demand.ordered s)).length
          (capped limits (Demand.places (demand.ordered s)).length) result
          (Director.working r.director) := by
  obtain ⟨hfits, hfull⟩ := of_construct rfl full
  refine (leads_construct rfl ?_).mono (fun _ _ h => h) (Nat.not_le_of_lt hfits)
  have hbegun : Filled demand rating 0
      (Run.begun demand s (.start rating s) : Run (FullDirector S Sc) V Sc) :=
    ⟨⟨FullDirector.rated_start rating s, rfl, rfl,
      congrArg (List.map demand.id) empty⟩, scored⟩
  have hbuilt := hbegun.leads_buildAll lawful blind stops
    (Demand.places (demand.ordered s))
    (fun _ _ => Nat.zero_le _) (hfull.mono (fun ending r h e hfailed => ?_) id)
  · refine hbuilt.mono ?_ False.elim
    rintro _ r ⟨rfl, hfilled⟩
    rw [Nat.zero_add] at hfilled ⊢
    exact (hfilled.leads_conclude lawful blind _).mono
      (fun _ _ h => h) False.elim
  · subst hfailed
    obtain ⟨total, htotal⟩ := h.of_run rfl
    cases htotal

end Initializer

-- ========================================================== configurations

/-- Whether a phase builds a first solution. -/
def PhaseConfig.isConstruction : PhaseConfig → Bool
  | construction _ => true
  | localSearch _ _ => false

namespace SolverConfig

/-- The limits that a first solution is built under. -/
def consulted (config : SolverConfig) : List TerminationLimits :=
  config.limits.toList ++ config.constructionLimits.toList

/-- Their step counts. -/
def stepLimits (config : SolverConfig) : List Nat :=
  config.consulted.filterMap TerminationLimits.steps

/-- None of them sets a time. -/
def CountsSteps (config : SolverConfig) : Prop :=
  ∀ limits ∈ config.consulted, limits.seconds = none ∧ limits.minutes = none

/-- What the first construction phase sets, if there is one. -/
def firstLimits (config : SolverConfig) : Option TerminationLimits :=
  (config.phases.find? PhaseConfig.isConstruction).bind PhaseConfig.limits

/-- Unless a later construction phase sets limits where the first one sets
none, it is the first one that counts. -/
theorem constructionLimits_eq_first {config : SolverConfig}
    (h : config.firstLimits = none → config.constructionLimits = none) :
    config.constructionLimits = config.firstLimits := by
  obtain ⟨environment, seed, limits, phases, templates⟩ := config
  induction phases with
  | nil => rfl
  | cons phase rest ih =>
      cases phase with
      | localSearch _ _ => exact ih h
      | construction limits =>
          cases limits with
          | none => exact h rfl
          | some limits => rfl

/-- Limits without a time are a limit on the steps. -/
theorem ofLimits_steps {limits : TerminationLimits}
    (h : limits.seconds = none ∧ limits.minutes = none) :
    Termination.ofLimits limits
      = .ok (limits.steps.map Termination.steps).toList := by
  obtain ⟨seconds, minutes, steps⟩ := limits
  obtain ⟨rfl, rfl⟩ := h
  rfl

/-- What step counts alone come to. -/
theorem mapM_ofLimits {all : List TerminationLimits}
    (h : ∀ limits ∈ all, limits.seconds = none ∧ limits.minutes = none) :
    (all.mapM fun limits => do
      return Termination.any (← Termination.ofLimits limits))
        = (.ok (all.map fun limits =>
        .any (limits.steps.map Termination.steps).toList) :
        Except Fault _) := by
  induction all with
  | nil => rfl
  | cons limits rest ih =>
      obtain ⟨hlimits, hrest⟩ := List.forall_mem_cons.mp h
      rw [List.mapM_cons, ofLimits_steps hlimits, ih hrest]
      rfl

/-- One of them stops a construction where one of the numbers is reached. -/
theorem anyStops_steps_each (p : Progress) (all : List TerminationLimits) :
    Termination.anyStops p
        (all.map fun limits => .any (limits.steps.map Termination.steps).toList)
          = true ↔
      ∃ limit ∈ all.filterMap TerminationLimits.steps, limit ≤ p.steps := by
  induction all with
  | nil =>
      refine iff_of_false Bool.false_ne_true ?_
      rintro ⟨_, hmem, -⟩
      exact List.not_mem_nil hmem
  | cons limits rest ih =>
      rw [List.map_cons, Termination.anyStops, Bool.or_eq_true, ih]
      cases hsteps : limits.steps with
      | none =>
          rw [List.filterMap_cons_none hsteps]
          exact or_iff_right Bool.false_ne_true
      | some limit =>
          rw [List.filterMap_cons_some hsteps, List.exists_mem_cons_iff]
          refine or_congr_left ?_
          show (decide (limit ≤ p.steps) || false) = true ↔ _
          rw [Bool.or_false, decide_eq_true_iff]

/-- A configuration that only counts steps has an initializer, and the
initializer stops at its limits. -/
theorem exists_initializer {config : SolverConfig} (h : config.CountsSteps) :
    ∃ init, config.initializer = .ok init ∧ init.StopsAt config.stepLimits ∧
      init.limitedTo [] = Initializer.plain := by
  have hinit : config.initializer =
      (config.consulted.mapM fun limits => do
        return Termination.any
            (← Termination.ofLimits limits)) >>= fun terminations =>
          .ok { Initializer.plain with terminations := terminations } := rfl
  rw [mapM_ofLimits h] at hinit
  exact ⟨_, hinit, fun p => anyStops_steps_each p config.consulted, rfl⟩

theorem initializer_plain : plain.initializer = .ok Initializer.plain := rfl

variable {demand : Demand S E V Date T} {score : S → Except Fault Sc} {s t : S}
  [Ranked Sc] [Ord Date] [Ord T] {config : SolverConfig} {summary : Summary Sc}
  {reports : List (ConstructionEvent V Sc)}

/-- What a construction leaves behind that scores from scratch, and never
looks at a clock or for a signal. -/
def constructed (init : Initializer) (demand : Demand S E V Date T)
    (score : S → Except Fault Sc) (s : S) :
    Except Fault (Except PlanError (Summary Sc)) ×
      Initializer.Run (FullDirector S Sc) V Sc :=
  (init.construct demand 0 fun _ => []).run (.start (.start score s))

/-- A first solution is what the construction that is asked for leaves
behind. -/
theorem firstSolution_eq_ok {init : Initializer}
    (hinit : config.initializer = .ok init) :
    config.firstSolution demand score s = .ok (.ok (t, summary), reports) ↔
      ∃ r, constructed init demand score s = (.ok (.ok summary), r) ∧
        Director.working r.director = t ∧ r.events.reverse = reports := by
  have hfirst : config.firstSolution demand score s = (do
      let result ← (constructed init demand score s).1
      let run := (constructed init demand score s).2
      return (result.map fun summary =>
        (Director.working run.director, summary), run.events.reverse)) := by
    unfold firstSolution
    rw [hinit]
    rfl
  rw [hfirst]
  obtain ⟨result, r⟩ := constructed init demand score s
  cases result with
  | error f => exact ⟨nofun, nofun⟩
  | ok result =>
      cases result with
      | error e => exact ⟨nofun, nofun⟩
      | ok summary' =>
          constructor
          · rintro h
            cases h
            exact ⟨r, rfl, rfl, rfl⟩
          · rintro ⟨_, h, rfl, rfl⟩
            cases h
            rfl

/-- A configuration whose limits count steps makes a first solution of as
many entities as the least of its limits lets it, and says so if that is
fewer than there would be without. Its limits are those of the whole run and
those of the first construction phase that sets any: this is the first
construction phase unless it sets none and a later one does. -/
theorem firstSolution_capped [LawfulPlanning S] (lawful : demand.Lawful)
    (blind : ∀ stored t, score (Planning.store stored t) = score t)
    (empty : demand.entities s = []) (scored : ∃ first, score s = .ok first)
    (counts : config.CountsSteps)
    (unlimited : plain.firstSolution demand score s
      = .ok (.ok (t, summary), reports)) :
    (∃ t' summary' reports',
      config.firstSolution demand score s = .ok (.ok (t', summary'), reports') ∧
      (demand.entities t').length =
        Initializer.capped config.stepLimits (demand.entities t).length ∧
      summary'.assigned = (demand.entities t').length ∧
      (summary'.terminated = true ↔
        (demand.entities t').length < (demand.entities t).length)) ∧
    ((config.firstLimits = none → config.constructionLimits = none) →
      config.constructionLimits = config.firstLimits) := by
  refine ⟨?_, constructionLimits_eq_first⟩
  obtain ⟨init, hinit, hstops, hplain⟩ := exists_initializer counts
  obtain ⟨r, hrun, rfl, -⟩ :=
    (firstSolution_eq_ok initializer_plain).mp unlimited
  have hfull : (Initializer.plain.construct demand 0 fun _ => [] :
      Act (Initializer.Run (FullDirector S Sc) V Sc) _).Leads False
        (.start (.start score s))
      fun result _ => ∃ total, result = .ok total :=
        Act.leads_of_run hrun ⟨summary, rfl⟩
  have hnone : Initializer.plain.StopsAt [] := fun _ => ⟨nofun, nofun⟩
  have hall :=
    (Initializer.leads_construct_capped lawful blind hnone empty scored
      hfull).of_run hrun
  obtain ⟨_, r', hrun', ⟨summary', rfl, hassigned, hterminated⟩, hlength⟩ :=
    (Initializer.leads_construct_capped lawful blind hstops empty scored
      (hplain.symm ▸ hfull)).exists_run
  refine ⟨_, summary', _,
    (firstSolution_eq_ok hinit).mpr ⟨r', hrun', rfl, rfl⟩, ?_⟩
  have hplaces : (demand.entities (Director.working r.director)).length =
      (Demand.places (demand.ordered s)).length := hall.length
  rw [hplaces, hlength]
  exact ⟨rfl, hassigned, hterminated⟩

/-- A configuration of phases that build a first solution, with these limits
on the number of entities. -/
def building (limits : List (Option Nat)) : SolverConfig :=
  { plain with phases := limits.map fun steps =>
      .construction (steps.map fun limit => ⟨none, none, some limit⟩) }

/-- How many places of the two shifts are filled by a first solution, and
whether it was broken off. -/
def twoShiftsFilled (config : SolverConfig) : Option (Nat × Bool) :=
  ((config.firstSolution Roster.demand Roster.score
    Initializer.twoShifts).toOption.bind
    fun reached => reached.1.toOption).map
      fun reached => (reached.1.assignments.length, reached.2.terminated)

theorem exists_of_twoShiftsFilled {filled : Nat} {terminated : Bool}
    (h : config.twoShiftsFilled = some (filled, terminated)) :
      ∃ t summary reports,
        config.firstSolution Roster.demand Roster.score Initializer.twoShifts
          = .ok (.ok (t, summary), reports) ∧
      t.assignments.length = filled ∧ summary.terminated = terminated := by
  unfold twoShiftsFilled at h
  cases hreached : config.firstSolution Roster.demand Roster.score
      Initializer.twoShifts with
  | error f =>
      rw [hreached] at h
      cases h
  | ok reached =>
      obtain ⟨result, reports⟩ := reached
      rw [hreached] at h
      cases result with
      | error e => cases h
      | ok reached =>
          obtain ⟨t, summary⟩ := reached
          cases h
          exact ⟨t, summary, reports, rfl, rfl, rfl⟩

/-- Without limits both shifts are staffed. -/
theorem twoShiftsFilled_plain : plain.twoShiftsFilled = some (2, false) := by
  simp only [twoShiftsFilled, firstSolution, Initializer.construct,
    Initializer.finish, Demand.ordered, Weight.sort_eq_insertionSort,
    Demand.mergeSort_id]
  decide +kernel

/-- Of the two shifts the first is staffed, as the later of two phases says. -/
theorem firstSolution_capped_later : ∃ t summary reports t' summary' reports',
    plain.firstSolution Roster.demand Roster.score Initializer.twoShifts =
      .ok (.ok (t, summary), reports) ∧
    t.assignments.length = 2 ∧ summary.terminated = false ∧
    (building [none, some 1, some 0]).firstSolution Roster.demand Roster.score
      Initializer.twoShifts = .ok (.ok (t', summary'), reports') ∧
    t'.assignments.length = 1 ∧ summary'.assigned = 1 ∧
    summary'.terminated = true := by
  obtain ⟨t, summary, reports, hunlimited, hfilled, hterminated⟩ :=
    exists_of_twoShiftsFilled twoShiftsFilled_plain
  have hcounts : (building [none, some 1, some 0]).CountsSteps := by
    intro limits hlimits
    cases List.mem_singleton.mp hlimits
    exact ⟨rfl, rfl⟩
  obtain ⟨⟨t', summary', reports', hrun, hlength, hassigned, hstopped⟩, -⟩ :=
    firstSolution_capped Roster.lawful_demand Roster.score_store rfl ⟨_,
      rfl⟩ hcounts hunlimited
  have hfilled' : t'.assignments.length = 1 := by
    show (Roster.demand.entities t').length = 1
    rw [hlength]
    show Initializer.capped [1] t.assignments.length = 1
    rw [hfilled]
    rfl
  refine ⟨t, summary, reports, t', summary', reports', hunlimited, hfilled,
    hterminated, hrun, hfilled', hassigned.trans hfilled', hstopped.mpr ?_⟩
  show t'.assignments.length < t.assignments.length
  omega

/-- The first phase sets no limit, and yet the construction is broken off. -/
theorem firstSolution_stops_at_later :
    (building [none, some 1]).CountsSteps ∧
    (building [none, some 1]).limits = none ∧
    (building [none, some 1]).firstLimits = none ∧ Roster.demand.Lawful ∧
    Roster.demand.entities Initializer.twoShifts = [] ∧ (∃ t summary reports,
      plain.firstSolution Roster.demand Roster.score Initializer.twoShifts =
        .ok (.ok (t, summary), reports) ∧ t.assignments.length = 2) ∧
    ∃ t summary reports,
      (building [none, some 1]).firstSolution Roster.demand Roster.score
        Initializer.twoShifts = .ok (.ok (t, summary), reports) ∧
      t.assignments.length = 1 ∧ summary.terminated = true := by
  have hcounts : (building [none, some 1]).CountsSteps := by
    intro limits hlimits
    cases List.mem_singleton.mp hlimits
    exact ⟨rfl, rfl⟩
  have hlater : (building [none, some 1]).twoShiftsFilled
    = some (1, true) := by
    simp only [twoShiftsFilled, firstSolution, Initializer.construct,
      Initializer.finish, Demand.ordered, Weight.sort_eq_insertionSort,
      Demand.mergeSort_id]
    decide +kernel
  obtain ⟨t, summary, reports, hunlimited, hfilled, -⟩ :=
    exists_of_twoShiftsFilled twoShiftsFilled_plain
  exact ⟨hcounts, rfl, rfl, Roster.lawful_demand, rfl,
    ⟨t, summary, reports, hunlimited, hfilled⟩,
    exists_of_twoShiftsFilled hlater⟩

end SolverConfig

end PlanSearch

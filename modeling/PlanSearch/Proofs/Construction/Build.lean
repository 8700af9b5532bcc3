/-
How a construction proceeds.

`At` says where a run stands: at a solution, after some choices, each of
which was reported. Every part of the construction is described by the
solutions it leads to. Between two entities the run is `Underway`: it stands
at what its choices, each of them the best, come to. A run that has `Failed`
stands one entity further, and there is a reason (`Refused`).

The loop over units and their places is one over a flat list of places
(`buildUnits_eq`), so what one entity adds is carried along by a single
induction (`Underway.leads_buildAll`).
-/
import PlanSearch.Proofs.Construction.Steady

namespace PlanSearch

variable {D S E V Date T Sc : Type}

-- ================================================================= reports

/-- The commit that is reported. -/
def ConstructionEvent.commit? : ConstructionEvent V Sc → Option (Nat × V × Sc)
  | .committed entity value score => some (entity, value, score)
  | _ => none

/-- The end that is reported. -/
def ConstructionEvent.end? : ConstructionEvent V Sc → Option (Summary Sc)
  | .ended summary => some summary
  | _ => none

/-- The commits among reports kept newest first, the first one at the head. -/
def commits (events : List (ConstructionEvent V Sc)) : List (Nat × V × Sc) :=
  (events.filterMap ConstructionEvent.commit?).reverse

/-- How choices are to be reported: every entity by its id, in order. -/
def announced (chosen : List (Choice V Sc)) : List (Nat × V × Sc) :=
  chosen.zipIdx.map fun c => (c.2, c.1.value, c.1.score)

/-- An event that is no commit adds none. -/
theorem commits_cons_of_none {event : ConstructionEvent V Sc}
    (h : event.commit? = none) (events : List (ConstructionEvent V Sc)) :
    commits (event :: events) = commits events := by
  unfold commits
  rw [List.filterMap_cons_none h]

/-- A commit adds one to those before. -/
theorem commits_committed (entity : Nat) (value : V) (score : Sc)
    (events : List (ConstructionEvent V Sc)) :
    commits (.committed entity value score :: events) =
      commits events ++ [(entity, value, score)] := by
  have hcommit : (ConstructionEvent.committed entity value score :
      ConstructionEvent V Sc).commit? =
      some (entity, value, score) := rfl
  unfold commits
  rw [List.filterMap_cons_some hcommit, List.reverse_cons]

theorem announced_append (chosen more : List (Choice V Sc)) :
    announced (chosen ++ more) = announced chosen ++
      (more.zipIdx chosen.length).map fun c => (c.2, c.1.value, c.1.score) := by
  unfold announced
  rw [List.zipIdx_append, List.map_append, Nat.zero_add]

theorem length_announced (chosen : List (Choice V Sc)) :
    (announced chosen).length = chosen.length := by
  unfold announced
  rw [List.length_map, List.length_zipIdx]

namespace Initializer

-- ============================================================== flat loop

section

variable [Director D S Sc] [Ranked Sc] (init : Initializer)
  (demand : Demand S E V Date T) (elapsed : Nat) (raised : D → List Nat)

/-- Builds an entity for each of some places, given by their units. -/
def buildAll : List Nat → Act (Run D V Sc) Ending
  | [] => return .complete
  | unit :: rest => do
    if ← isStopped init elapsed raised then return .stopped
    else
      match ← buildEntity init demand unit with
      | .error e => return .failed e
      | .ok () => buildAll rest

/-- Goes on after places that were all built. -/
def Ending.andThen (next : Act (Run D V Sc) Ending) :
    Ending → Act (Run D V Sc) Ending
  | .complete => next
  | .stopped => return .stopped
  | .failed e => return .failed e

/-- The places of a unit are built like any places. -/
theorem buildPlaces_eq (unit n : Nat) :
    buildPlaces init demand elapsed raised unit n
      = buildAll init demand elapsed raised (List.replicate n unit) := by
  induction n with
  | zero => rfl
  | succ n ih =>
      rw [List.replicate_succ, buildPlaces, buildAll]
      refine bind_congr fun stopped => ?_
      cases stopped with
      | true => rfl
      | false =>
          refine bind_congr fun built => ?_
          cases built with
          | error e => rfl
          | ok _ => exact ih

/-- Places are built one after the other until something breaks off. -/
theorem buildAll_append (first others : List Nat) :
    buildAll init demand elapsed raised (first ++ others) =
      buildAll init demand elapsed raised first >>=
        Ending.andThen (buildAll init demand elapsed raised others) := by
  induction first with
  | nil => exact (pure_bind _ _).symm
  | cons unit rest ih =>
      rw [List.cons_append, buildAll, buildAll, bind_assoc]
      refine bind_congr fun stopped => ?_
      cases stopped with
      | true => exact (pure_bind _ _).symm
      | false =>
          refine Eq.trans ?_ (bind_assoc _ _ _).symm
          refine bind_congr fun built => ?_
          cases built with
          | error e => exact (pure_bind _ _).symm
          | ok _ => exact ih

/-- The two nested loops are one over all places. -/
theorem buildUnits_eq (units : List (Weight Date T)) :
    buildUnits init demand elapsed raised units =
      buildAll init demand elapsed raised (Demand.places units) := by
  induction units with
  | nil => rfl
  | cons w rest ih =>
      show _ = buildAll init demand elapsed raised
        (List.replicate w.required w.index ++ _)
      rw [buildAll_append, ← buildPlaces_eq, buildUnits, ih]
      refine bind_congr fun ending => ?_
      cases ending <;> rfl

end

-- ========================================================== where a run is

/-- A look at the terminations changes nothing. -/
theorem leads_isStopped {init : Initializer} {elapsed : Nat}
    {raised : D → List Nat} {r : Run D V Sc} {excuse : Prop}
    {post : Bool → Run D V Sc → Prop}
    (h : post (Termination.anyStops ⟨0, r.steps, elapsed, raised r.director⟩
      init.terminations) r) :
    (isStopped init elapsed raised : Act (Run D V Sc) Bool).Leads
      excuse r post :=
  Act.leads_of_run rfl h

section

variable [Planning S Sc]

/-- The run stands at a solution, after some choices; `next` is the id of
the entity to come. -/
structure At (known : S → D → Prop) (s : S)
    (chosen : List (Choice V Sc)) (next : Nat) (r : Run D V Sc) : Prop where
  standing : Standing known s r.director
  steps : r.steps = chosen.length
  nextId : r.nextId = next
  reported : commits r.events = announced chosen
  unended : ∀ event ∈ r.events, event.end? = none

variable {known : S → D → Prop} {s t : S} {chosen : List (Choice V Sc)}
  {next : Nat} {r : Run D V Sc}

/-- What the director does is all that happens. -/
theorem At.leads_direct {α : Type} {act : Act D α} {post : α → Prop}
    (h : At known s chosen next r)
    (hact : act.Leads False r.director fun a d => post a ∧ Standing known t d) :
    (direct act : Act (Run D V Sc) α).Leads False r
      fun a r' => post a ∧ At known t chosen next r' :=
  Act.leads_zoom (hact.mono
    (fun _ _ h' => ⟨h'.1, h'.2, h.steps, h.nextId, h.reported, h.unended⟩) id)

/-- A report that is neither a commit nor the end. -/
theorem At.leads_report (h : At known s chosen next r)
    {event : ConstructionEvent V Sc} (hevent : event.commit? = none)
    (hend : event.end? = none) {excuse : Prop} :
    (report event : Act (Run D V Sc) Unit).Leads excuse r fun _ =>
    At known s chosen next :=
  Act.leads_update ⟨h.standing, h.steps, h.nextId,
    (commits_cons_of_none hevent _).trans h.reported,
    List.forall_mem_cons.mpr ⟨hend, h.unended⟩⟩

variable [Director D S Sc] {init : Initializer} {demand : Demand S E V Date T}
  {scoring : Scoring S Sc}
  (steady : Steady init.descriptor init.name demand scoring known)
  (lawful : demand.Lawful)

include steady lawful

/-- An assignment moves the run to where it is made. -/
theorem At.leads_assign (h : At known s chosen next r) (index : Nat)
    (value : Option V) :
    (assign init demand index value : Act (Run D V Sc) Unit).Leads False r
      fun _ => At known (demand.assign index value s) chosen next := by
  have hacts : (do
      Director.before init.descriptor index init.name
      Act.update (Director.edit (demand.assign index value))
      Director.after init.descriptor index init.name : Act D Unit).Leads
        False r.director
        fun _ d => True ∧ Standing known (demand.assign index value s) d := by
    refine Act.leads_bind
      ((steady.leads_assign lawful h.standing index value).mono ?_ id)
    exact fun _ _ h' =>
      Act.leads_bind (Act.leads_update (h'.mono (fun _ _ g => ⟨trivial, g⟩) id))
  exact (h.leads_direct hacts).mono (fun _ _ h' => h'.2) id

/-- The new entity stands last. -/
theorem At.leads_addEntity (h : At known s chosen next r) (unit : Nat) :
    (addEntity init demand (demand.entities s).length unit :
        Act (Run D V Sc) Nat).Leads False r
      fun index r' => index = (demand.entities s).length ∧
        At known (demand.opened s unit) chosen next r' := by
  have hentities : demand.entities (Director.working r.director)
      = demand.entities s :=
    Planning.congr_of_store lawful.entities_store
      (steady.bare_working h.standing)
  have hadded := steady.leads_append lawful h.standing unit
  refine Act.leads_bind
    (Act.leads_of_run (t := r) (a := Director.working r.director) rfl ?_)
  refine Act.leads_bind (Act.leads_zoom (Act.leads_update ?_))
  rw [hentities]
  refine Act.leads_bind (Act.leads_zoom (hadded.mono (fun _ _ h' => ?_) id))
  exact Act.leads_pure ⟨rfl, h', h.steps, h.nextId, h.reported, h.unended⟩

omit lawful in
/-- A score call leaves the run where it is. -/
theorem At.leads_tryScore [LawfulPlanning S] (h : At known s chosen next r) :
    (direct Director.tryScore : Act (Run D V Sc)
      (Except PlanError Sc)).Leads False r fun answer r' => answer
        = scoring.rate s ∧ At known s chosen next r' :=
  h.leads_direct (steady.leads_tryScore h.standing)

-- ============================================================== candidates

/-- The run stands where an entity for a unit was appended, whatever the
entity holds. -/
def Trying (known : S → D → Prop) (demand : Demand S E V Date T)
    (s : S) (unit : Nat) (chosen : List (Choice V Sc)) (next : Nat)
    (r : Run D V Sc) : Prop :=
  ∃ t, At known t chosen next r ∧
    ∀ value, demand.assign (demand.entities s).length value t
      = demand.attempt s unit value

/-- A value is tried on the new entity. -/
theorem Trying.leads_assign {unit : Nat}
    (h : Trying known demand s unit chosen next r) (value : Option V) :
    (assign init demand (demand.entities s).length value :
        Act (Run D V Sc) Unit).Leads False r
      fun _ => At known (demand.attempt s unit value) chosen next := by
  obtain ⟨t, hat, hassign⟩ := h
  rw [← hassign value]
  exact hat.leads_assign steady lawful _ value

omit [Director D S Sc] steady in
/-- A run at an attempt is trying values. -/
theorem At.trying {unit : Nat} {value : Option V}
    (h : At known (demand.attempt s unit value) chosen next r) :
    Trying known demand s unit chosen next r :=
  ⟨_, h, fun _ => lawful.assign_assign _ _ _ _⟩

variable [Ranked Sc]

/-- How the trying of candidates ends: with what is known after all of
them, or at an error, with an entity that holds nothing. -/
def Tried (known : S → D → Prop) (demand : Demand S E V Date T)
    (scoring : Scoring S Sc) (s : S) (unit : Nat) (chosen : List (Choice V Sc))
    (next : Nat) (offered : List V) : Except PlanError (Option V × Sc) →
    Run D V Sc → Prop
  | .ok found, r =>
      Sifted (fun v => scoring.rate (demand.attempt s unit (some v)))
        offered found ∧
      Trying known demand s unit chosen next r
  | .error e, r =>
      Spoilt (fun v => scoring.rate (demand.attempt s unit (some v)))
        offered e ∧
      At known (demand.attempt s unit none) chosen next r

variable [LawfulRanked Sc] [LawfulPlanning S]

/-- Trying candidates sifts them in their order. -/
theorem Trying.leads_tryCandidates {unit : Nat} (entity : Nat)
    (rest tried : List V) (found : Option V × Sc)
    (h : Trying known demand s unit chosen next r)
    (hsifted : Sifted (fun v => scoring.rate (demand.attempt s unit (some v)))
      tried found) :
    (tryCandidates init demand entity (demand.entities s).length rest found :
      Act (Run D V Sc) _).Leads False r
        (Tried known demand scoring s unit chosen next (tried ++ rest)) := by
  induction rest generalizing tried found r with
  | nil =>
      rw [List.append_nil]
      exact Act.leads_pure ⟨hsifted, h⟩
  | cons value rest ih =>
      rw [List.append_cons]
      have hassign := h.leads_assign steady lawful (some value)
      refine Act.leads_bind (hassign.mono (fun _ r₁ h₁ => ?_) id)
      refine Act.leads_bind
        ((h₁.leads_tryScore steady).mono (fun answer r₂ h₂ => ?_) id)
      obtain ⟨rfl, h₂⟩ := h₂
      cases hrate : scoring.rate (demand.attempt s unit (some value)) with
      | ok score => exact ih _ _ (h₂.trying lawful) (hsifted.score hrate)
      | error e =>
          show (if e.isTransient = true then _
            else _ : Act (Run D V Sc) _).Leads False r₂ _
          by_cases htransient : e.isTransient = true
          · rw [if_pos htransient]
            refine Act.leads_bind (Act.leads_modify ?_)
            have hskipped : At known _ chosen next
                { r₂ with skipped := r₂.skipped + 1 } :=
              ⟨h₂.standing, h₂.steps, h₂.nextId, h₂.reported, h₂.unended⟩
            refine Act.leads_bind
              ((hskipped.leads_report rfl rfl).mono (fun _ r₃ h₃ => ?_) id)
            exact ih _ _ (h₃.trying lawful) (hsifted.skip hrate htransient)
          · rw [if_neg htransient, List.append_assoc]
            have hspoilt :=
              hsifted.spoilt hrate (Bool.eq_false_iff.mpr htransient) rest
            refine Act.leads_bind
              (((h₂.trying lawful).leads_assign steady lawful none).mono ?_ id)
            exact fun _ _ h₃ => Act.leads_pure ⟨hspoilt, h₃⟩

-- ================================================================ entities

variable (demand scoring) in
/-- The run stands at what its choices came to, each of them the best. -/
structure Underway (known : S → D → Prop) (s : S) (chosen : List (Choice V Sc))
    (r : Run D V Sc) : Prop where
  greedy : demand.Greedy scoring s chosen
  reached : At known (demand.filled s chosen) chosen chosen.length r

variable (demand scoring) in
/-- Why an entity of a unit fails where it is appended: a candidate spoils
it, or none of them is good enough. -/
inductive Refused (s : S) (id unit : Nat) : PlanError → Prop
  | spoilt {e : PlanError} :
      Spoilt (fun v => scoring.rate (demand.attempt s unit (some v)))
      (demand.candidates (demand.opened s unit) unit) e → Refused s id unit e
  | unmatched : Unmatched
      (fun v => scoring.rate (demand.attempt s unit (some v)))
      (demand.candidates (demand.opened s unit) unit) →
        Refused s id unit (noCandidate id unit)

variable (demand scoring) in
/-- One more entity was appended, and holds nothing. -/
structure Failed (known : S → D → Prop) (s : S)
    (chosen : List (Choice V Sc)) (unit : Nat) (e : PlanError)
    (r : Run D V Sc) : Prop where
  greedy : demand.Greedy scoring s chosen
  refused : Refused demand scoring (demand.filled s chosen) chosen.length unit e
  reached : At known (demand.attempt (demand.filled s chosen) unit none) chosen
    (chosen.length + 1) r

variable (demand scoring) in
/-- How the building of an entity ends: one choice further, or not. -/
def Built (known : S → D → Prop) (s : S) (chosen : List (Choice V Sc))
    (unit : Nat) : Except PlanError Unit → Run D V Sc → Prop
  | .ok (), r => ∃ c : Choice V Sc, c.unit = unit ∧
      Underway demand scoring known s (chosen ++ [c]) r
  | .error e, r => Failed demand scoring known s chosen unit e r

omit [Director D S Sc] [LawfulRanked Sc] [LawfulPlanning S] steady lawful in
/-- A commit adds the best choice to those before it. -/
theorem At.committed {c : Choice V Sc}
    (h : At known (demand.attempt (demand.filled s chosen) c.unit
      (some c.value)) chosen (chosen.length + 1) r)
    (hgreedy : demand.Greedy scoring s chosen)
    (hbest : demand.IsBest scoring (demand.filled s chosen) c) :
    Underway demand scoring known s (chosen ++ [c])
      { r with
        steps := r.steps + 1
        events := .committed chosen.length c.value c.score :: r.events } := by
  have hlength : (chosen ++ [c]).length = chosen.length + 1 :=
    List.length_append
  refine ⟨hgreedy.concat hbest, ?_, ?_, ?_, ?_,
    List.forall_mem_cons.mpr ⟨rfl, h.unended⟩⟩
  · rw [Demand.filled_concat]
    exact h.standing
  · rw [hlength]
    exact congrArg (· + 1) h.steps
  · rw [hlength]
    exact h.nextId
  · rw [commits_committed, h.reported, announced_append]
    rfl

variable (empty : demand.entities s = [])

include empty

/-- A place is filled with the best choice, or the entity fails. -/
theorem Underway.leads_buildEntity
    (h : Underway demand scoring known s chosen r) (unit : Nat) :
    (buildEntity init demand unit : Act (Run D V Sc) _).Leads False r
      (Built demand scoring known s chosen unit) := by
  have hlength := lawful.length_filled empty chosen
  obtain ⟨hgreedy, hreached⟩ := h
  -- what the candidates are tried on
  generalize hs : demand.filled s chosen = t at hlength hreached
  refine Act.leads_bind (Act.leads_get ?_)
  rw [hreached.nextId, ← hlength]
  have hminted : At known t chosen (chosen.length + 1)
      { r with nextId := (demand.entities t).length + 1 } :=
    ⟨hreached.standing, hreached.steps, congrArg (· + 1) hlength,
      hreached.reported, hreached.unended⟩
  refine Act.leads_bind (Act.leads_modify ?_)
  refine Act.leads_bind
    ((hminted.leads_addEntity steady lawful unit).mono (fun _ r₁ h₁ => ?_) id)
  obtain ⟨rfl, h₁⟩ := h₁
  refine Act.leads_bind
    (Act.leads_of_run (t := r₁) (a := Director.working r₁.director) rfl ?_)
  have hcandidates : demand.candidates (Director.working r₁.director) unit =
      demand.candidates (demand.opened t unit) unit :=
    @Planning.congr_of_store S Sc (List V) _ _ _
      (fun t => demand.candidates t unit)
      (fun score t => lawful.candidates_store score t unit)
        (steady.bare_working h₁.standing)
  rw [hcandidates]
  have htrying : Trying known demand t unit chosen (chosen.length + 1) r₁ :=
    ⟨_, h₁, fun _ => rfl⟩
  have htried := htrying.leads_tryCandidates steady lawful
    (demand.entities t).length
    (demand.candidates (demand.opened t unit) unit) [] _ sifted_nil
  rw [List.nil_append] at htried
  refine Act.leads_bind (htried.mono (fun answer r₂ h₂ => ?_) id)
  have hfailed : ∀ e r',
      Refused demand scoring t (demand.entities t).length unit e →
      At known (demand.attempt t unit none) chosen (chosen.length + 1) r' →
      Failed demand scoring known s chosen unit e r' := by
    subst hs
    rw [hlength]
    exact fun _ _ hrefused h' => ⟨hgreedy, hrefused, h'⟩
  cases answer with
  | error e => exact Act.leads_pure (hfailed e _ (.spoilt h₂.1) h₂.2)
  | ok answer =>
      obtain ⟨hsifted, h₂⟩ := h₂
      rcases hsifted.best with ⟨rfl, hlowest⟩ | ⟨value, best, rfl, hbest⟩
      · refine Act.leads_bind
          ((h₂.leads_assign steady lawful none).mono (fun _ r₃ h₃ => ?_) id)
        exact Act.leads_pure
          (hfailed _ _ (.unmatched ⟨hsifted.transient, hlowest⟩) h₃)
      · have hassign := h₂.leads_assign steady lawful (some value)
        refine Act.leads_bind (hassign.mono (fun _ r₃ h₃ => ?_) id)
        refine Act.leads_bind (Act.leads_modify (Act.leads_bind ?_))
        refine Act.leads_update (Act.leads_pure ?_)
        subst hs
        rw [hlength]
        let c : Choice V Sc := ⟨unit, value, best⟩
        have hisBest : demand.IsBest scoring (demand.filled s chosen) c :=
          ⟨hsifted.transient, hbest⟩
        exact ⟨c, rfl, At.committed h₃ hgreedy hisBest⟩

-- ================================================================== places

variable (init demand scoring) in
/-- How the building of places ends: with a choice for each of them, or
short of that because a termination stopped it or an entity failed. -/
def Ended (known : S → D → Prop) (s : S) (chosen : List (Choice V Sc))
    (elapsed : Nat) (raised : D → List Nat) (units : List Nat) :
    Ending → Run D V Sc → Prop
  | .complete, r => ∃ more, more.map Choice.unit = units ∧
      Underway demand scoring known s (chosen ++ more) r
  | .stopped, r =>
      ∃ more rest, more.map Choice.unit ++ rest = units ∧ rest ≠ [] ∧
      Termination.anyStops ⟨0, r.steps, elapsed, raised r.director⟩
        init.terminations = true ∧
      Underway demand scoring known s (chosen ++ more) r
  | .failed e, r =>
      ∃ more unit rest, more.map Choice.unit ++ unit :: rest = units ∧
      Failed demand scoring known s (chosen ++ more) unit e r

omit [LawfulRanked Sc] [LawfulPlanning S]
    [Director D S Sc] steady lawful empty in
/-- One choice more at the head. -/
theorem Ended.cons {elapsed : Nat} {raised : D → List Nat} {units : List Nat}
    {c : Choice V Sc} {ending : Ending}
    (h : Ended init demand scoring known s (chosen ++ [c]) elapsed raised
      units ending r) :
    Ended init demand scoring known s chosen elapsed raised (c.unit :: units)
      ending r := by
  cases ending with
  | complete =>
      obtain ⟨more, rfl, hunderway⟩ := h
      rw [List.append_assoc] at hunderway
      exact ⟨c :: more, rfl, hunderway⟩
  | stopped =>
      obtain ⟨more, rest, rfl, hrest, hstops, hunderway⟩ := h
      rw [List.append_assoc] at hunderway
      exact ⟨c :: more, rest, rfl, hrest, hstops, hunderway⟩
  | failed e =>
      obtain ⟨more, unit, rest, rfl, hfailed⟩ := h
      rw [List.append_assoc] at hfailed
      exact ⟨c :: more, unit, rest, rfl, hfailed⟩

/-- Places are filled one after the other until something breaks off. -/
theorem Underway.leads_buildAll (elapsed : Nat) (raised : D → List Nat)
    (units : List Nat) (h : Underway demand scoring known s chosen r) :
    (buildAll init demand elapsed raised units :
        Act (Run D V Sc) Ending).Leads False r
      (Ended init demand scoring known s chosen elapsed raised units) := by
  induction units generalizing chosen r with
  | nil =>
      refine Act.leads_pure ⟨[], rfl, ?_⟩
      rwa [List.append_nil]
  | cons unit rest ih =>
      refine Act.leads_bind (leads_isStopped ?_)
      cases hstops : Termination.anyStops _ init.terminations with
      | true =>
          refine Act.leads_pure ⟨[], unit :: rest, rfl,
            List.cons_ne_nil _ _, hstops, ?_⟩
          rwa [List.append_nil]
      | false =>
          refine Act.leads_bind
            ((h.leads_buildEntity steady lawful empty unit).mono ?_ id)
          intro answer r' h'
          cases answer with
          | ok _ =>
              obtain ⟨c, rfl, hunderway⟩ := h'
              exact (ih hunderway).mono (fun _ _ hended => hended.cons) id
          | error e =>
              refine Act.leads_pure ⟨[], unit, rest, rfl, ?_⟩
              rwa [List.append_nil]

-- ================================================================== finish

omit [LawfulRanked Sc] in
/-- The finished solution is the one that was built, with its score. -/
theorem Underway.leads_finish (h : Underway demand scoring known s chosen r)
    (terminated : Bool) :
    (finish demand terminated : Act (Run D V Sc) (Summary Sc)).Leads False r
      fun summary r' =>
      summary = ⟨chosen.length, r.skipped,
        scoring.score (demand.filled s chosen), terminated⟩ ∧
      Director.working r'.director
        = Planning.store (some summary.score) (demand.filled s chosen) ∧
      commits r'.events = announced chosen := by
  obtain ⟨hgreedy, hreached⟩ := h
  refine Act.leads_bind
    (Act.leads_of_run (t := r) (a := Director.working r.director) rfl ?_)
  have hentities : demand.entities (Director.working r.director) =
      demand.entities (demand.filled s chosen) :=
    Planning.congr_of_store lawful.entities_store
      (steady.bare_working hreached.standing)
  have hids := lawful.ids_filled empty chosen
  rw [← hentities] at hids
  dsimp only
  rw [demand.mergeSort_of_ids hids]
  refine Act.leads_bind (Act.leads_zoom (Act.leads_update ?_))
  refine Act.leads_bind (Act.leads_zoom ?_)
  refine (steady.leads_install lawful hreached.standing).mono
    (fun _ d₁ h₁ => ?_) id
  refine Act.leads_bind (Act.leads_zoom ?_)
  refine (steady.leads_score h₁).mono (fun score d₂ h₂ => ?_) id
  obtain ⟨rfl, h₂⟩ := h₂
  refine Act.leads_bind (Act.leads_zoom (Act.leads_update ?_))
  refine Act.leads_bind
    (Act.leads_get (Act.leads_bind (Act.leads_update (Act.leads_pure ?_))))
  refine ⟨?_, steady.working_store h₂ _, ?_⟩
  · show Summary.mk r.steps _ _ _ = _
    rw [hreached.steps]
  · exact (commits_cons_of_none rfl _).trans hreached.reported

end

end Initializer

end PlanSearch

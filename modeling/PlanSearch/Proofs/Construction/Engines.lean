/-
Constructions that do not depend on how they score.

A construction sees of its director the answers of score calls and the
working solution, and nothing else. So two directors that keep the same
working solution and answer alike (`Tandem`) carry a construction through
the same states: the runs stay `Abreast`, at every call, to the same end
and with the same reports.

# Running totals

The directors compared here are the one that scores from scratch and the
one by running totals. The score is a tally: a sum over the entities, in
a commutative group, of shares that depend on the entity and on facts
that a construction leaves alone. All that is asked of a calculator is
that it keeps this sum when it is told of an entity that is there
(`Tally.KeptBy`), in whatever totals it likes. Between an announcement and
its answer the totals lack the share of one entity; the edit between them
changes this entity only, so the sum without it stays what it was
(`Tally.balance_assign`).
-/
import Mathlib.Algebra.Ring.Int.Defs
import PlanSearch.Proofs.Construction.Sequential

namespace PlanSearch

variable {D D' S E V Date T Sc : Type} [Planning S Sc]

theorem Demand.Lawful.length_assign {demand : Demand S E V Date T}
    (lawful : demand.Lawful) (index : Nat) (value : Option V) (s : S) :
    (demand.entities (demand.assign index value s)).length
      = (demand.entities s).length := by
  have hids := congrArg List.length (lawful.ids_assign index value s)
  rwa [List.length_map, List.length_map] at hids

/-- A stored score is not seen in the entities. -/
theorem Demand.Lawful.entities_scored {demand : Demand S E V Date T}
    (lawful : demand.Lawful) {s t : S} (h : ScoreStored s t) :
    demand.entities t = demand.entities s := by
  obtain rfl | ⟨score, rfl⟩ := h
  · rfl
  · exact lawful.entities_store score s

namespace Initializer

-- ================================================================== tandems

/-- Two directors that answer every call of a construction alike. An
assignment is only asked of an entity that is there. -/
structure Tandem [Director D S Sc] [Director D' S Sc] (descriptor : Nat)
    (name : String) (demand : Demand S E V Date T)
    (tied : S → D → D' → Prop) : Prop where
  working : ∀ {s d d'}, tied s d d' →
    Director.working d = s ∧ Director.working d' = s
  assign : ∀ {s d d'}, tied s d d' →
    ∀ index value, index < (demand.entities s).length →
    Act.Both (Director.before descriptor index name)
      (Director.before descriptor index name) d d'
      fun _ d _ d' => Act.Both
        (Director.after descriptor index name)
          (Director.after descriptor index name)
        (Director.edit (demand.assign index value) d)
        (Director.edit (demand.assign index value) d')
        fun _ d _ d' => tied (demand.assign index value s) d d'
  append : ∀ {s d d'}, tied s d d' → ∀ e, Act.Both
    (Director.added descriptor (demand.entities s).length)
    (Director.added descriptor (demand.entities s).length)
    (Director.edit (demand.push e) d) (Director.edit (demand.push e) d')
    fun _ d _ d' => tied (demand.push e s) d d'
  tryScore : ∀ {s d d'}, tied s d d' →
    Act.Both (Director.tryScore (D := D)) (Director.tryScore (D := D')) d d'
      fun a d b d' => b = a ∧ ∃ t, ScoreStored s t ∧ tied t d d'
  score : ∀ {s d d'}, tied s d d' →
    Act.Both (Director.score (D := D)) (Director.score (D := D')) d d'
      fun a d b d' => b = a ∧ ∃ t, ScoreStored s t ∧ tied t d d'
  install : ∀ {s d d'}, tied s d d' → ∀ entities, Act.Both
    (Director.reset (D := D)) (Director.reset (D := D'))
    (Director.edit (demand.install entities) d)
      (Director.edit (demand.install entities) d')
    fun _ d _ d' => tied (demand.install entities s) d d'
  store : ∀ {s d d'}, tied s d d' →
    ∀ stored : Option Sc, tied (Planning.store stored s)
    (Director.edit (Planning.store stored) d)
      (Director.edit (Planning.store stored) d')

/-- Two runs at the same point: the directors work on one solution, and all
else that is carried along is equal. -/
structure Abreast (tied : S → D → D' → Prop) (s : S) (r : Run D V Sc)
    (r' : Run D' V Sc) : Prop where
  directors : tied s r.director r'.director
  steps : r'.steps = r.steps
  skipped : r'.skipped = r.skipped
  nextId : r'.nextId = r.nextId
  events : r'.events = r.events

section

variable [Director D S Sc] [Director D' S Sc] {init : Initializer}
  {demand : Demand S E V Date T} {tied : S → D → D' → Prop} {s : S}
  {r : Run D V Sc} {r' : Run D' V Sc}

omit [Planning S Sc] [Director D S Sc] [Director D' S Sc] in
/-- What the directors do is all that happens. -/
theorem Abreast.both_direct {α β : Type} {act : Act D α} {act' : Act D' β}
    (h : Abreast tied s r r') (post : α → β → S → Prop)
    (hact : Act.Both act act' r.director r'.director
      fun a d b d' => ∃ t, post a b t ∧ tied t d d') :
    Act.Both (direct act : Act (Run D V Sc) α)
      (direct act' : Act (Run D' V Sc) β) r r' fun a r b r' => ∃ t, post a b t ∧
      Abreast tied t r r' := by
  refine Act.both_zoom (hact.mono fun a d b d' h' => ?_)
  obtain ⟨t, hpost, htied⟩ := h'
  exact ⟨t, hpost, htied, h.steps, h.skipped, h.nextId, h.events⟩

omit [Planning S Sc] [Director D S Sc] [Director D' S Sc] in
/-- Both runs report the same. -/
theorem Abreast.both_report (h : Abreast tied s r r')
    (event : ConstructionEvent V Sc) :
    Act.Both (report event : Act (Run D V Sc) Unit)
      (report event : Act (Run D' V Sc) Unit) r r' fun _ r _ r' =>
      Abreast tied s r r' :=
  Act.both_update ⟨h.directors, h.steps, h.skipped, h.nextId,
    congrArg _ h.events⟩

variable (tandem : Tandem init.descriptor init.name demand tied)

include tandem

/-- Both go on with the solution that they work on. -/
theorem Abreast.both_working {α β : Type} {next : S → Act (Run D V Sc) α}
    {next' : S → Act (Run D' V Sc) β}
    {post : α → Run D V Sc → β → Run D' V Sc → Prop} (h : Abreast tied s r r')
    (hnext : Act.Both (next s) (next' s) r r' post) :
    Act.Both (working >>= next) (working >>= next') r r' post := by
  obtain ⟨hleft, hright⟩ := tandem.working h.directors
  refine Act.both_bind (Act.leads_of_run rfl (Act.leads_of_run rfl ?_))
  rw [hleft, hright]
  exact hnext

/-- Both runs assign the same value. -/
theorem Abreast.both_assign (h : Abreast tied s r r') {index : Nat}
    (hindex : index < (demand.entities s).length) (value : Option V) :
    Act.Both (assign init demand index value : Act (Run D V Sc) Unit)
      (assign init demand index value : Act (Run D' V Sc) Unit) r r'
      fun _ r _ r' => Abreast tied (demand.assign index value s) r r' := by
  have hcalls := tandem.assign h.directors index value hindex
  refine (h.both_direct
    (fun _ _ t => t = demand.assign index value s) ?_).mono ?_
  · refine Act.both_bind (hcalls.mono fun _ _ _ _ h' => ?_)
    exact Act.both_bind (Act.both_update (h'.mono fun _ _ _ _ g => ⟨_, rfl, g⟩))
  · rintro _ _ _ _ ⟨_, rfl, h'⟩
    exact h'

/-- The new entity stands last in both. -/
theorem Abreast.both_addEntity (h : Abreast tied s r r') (id unit : Nat) :
    Act.Both (addEntity init demand id unit : Act (Run D V Sc) Nat)
      (addEntity init demand id unit : Act (Run D' V Sc) Nat) r r'
      fun a r b r' => a = (demand.entities s).length ∧ b = a ∧
        Abreast tied (demand.push (demand.mint s id unit) s) r r' := by
  have hadded := tandem.append h.directors (demand.mint s id unit)
  refine h.both_working tandem
    (Act.both_bind (Act.both_zoom (Act.both_update ?_)))
  refine Act.both_bind (Act.both_zoom (hadded.mono fun _ _ _ _ h' => ?_))
  exact Act.both_pure ⟨rfl, rfl, h', h.steps, h.skipped, h.nextId, h.events⟩

/-- Score calls answer alike. -/
theorem Abreast.both_tryScore (h : Abreast tied s r r') :
    Act.Both (direct Director.tryScore : Act (Run D V Sc) (Except PlanError Sc))
      (direct Director.tryScore : Act (Run D' V Sc) (Except PlanError Sc)) r r'
      fun a r b r' => ∃ t, (b = a ∧ ScoreStored s t) ∧ Abreast tied t r r' := by
  refine h.both_direct _ ((tandem.tryScore h.directors).mono
    fun a d b d' h' => ?_)
  obtain ⟨heq, t, hstored, htied⟩ := h'
  exact ⟨t, ⟨heq, hstored⟩, htied⟩

-- ================================================================ candidates

omit [Director D S Sc] [Director D' S Sc] tandem in
variable (demand tied) in
/-- Two runs at the same point of building an entity, which is there. -/
def AbreastAt (index : Nat) (r : Run D V Sc) (r' : Run D' V Sc) : Prop :=
  ∃ s, Abreast tied s r r' ∧ index < (demand.entities s).length

variable (lawful : demand.Lawful)

include lawful

/-- Both runs assign the same value to the entity at hand. -/
theorem AbreastAt.both_assign {index : Nat}
    (h : AbreastAt demand tied index r r') (value : Option V) :
    Act.Both (assign init demand index value : Act (Run D V Sc) Unit)
      (assign init demand index value : Act (Run D' V Sc) Unit) r r'
      fun _ r _ r' => AbreastAt demand tied index r r' := by
  obtain ⟨s, habreast, hindex⟩ := h
  refine (habreast.both_assign tandem hindex value).mono fun _ _ _ _ h' =>
    ⟨_, h', ?_⟩
  rw [lawful.length_assign]
  exact hindex

/-- Both runs are told the same score for the entity at hand. -/
theorem AbreastAt.both_tryScore {index : Nat}
    (h : AbreastAt demand tied index r r') :
    Act.Both (direct Director.tryScore : Act (Run D V Sc) (Except PlanError Sc))
      (direct Director.tryScore : Act (Run D' V Sc) (Except PlanError Sc)) r r'
      fun a r b r' => b = a ∧ AbreastAt demand tied index r r' := by
  obtain ⟨s, habreast, hindex⟩ := h
  refine (habreast.both_tryScore tandem).mono fun _ _ _ _ h' => ?_
  obtain ⟨t, ⟨heq, hstored⟩, h'⟩ := h'
  refine ⟨heq, t, h', ?_⟩
  rw [lawful.entities_scored hstored]
  exact hindex

variable [Ranked Sc]

/-- What is tried, found and skipped is the same in both. -/
theorem AbreastAt.both_tryCandidates {index : Nat} (entity : Nat)
    (values : List V) (best : Option V × Sc)
    (h : AbreastAt demand tied index r r') : Act.Both
      (tryCandidates init demand entity index values best : Act (Run D V Sc) _)
      (tryCandidates init demand entity index values best :
        Act (Run D' V Sc) _) r r'
      fun a r b r' => b = a ∧ AbreastAt demand tied index r r' := by
  induction values generalizing best r r' with
  | nil => exact Act.both_pure ⟨rfl, h⟩
  | cons value rest ih =>
    refine Act.both_bind ((h.both_assign tandem lawful (some value)).mono
      fun _ r₁ _ r₁' h₁ => ?_)
    refine Act.both_bind ((h₁.both_tryScore tandem lawful).mono
      fun _ r₂ answer r₂' h₂ => ?_)
    obtain ⟨rfl, h₂⟩ := h₂
    cases answer with
    | ok score => exact ih _ h₂
    | error e =>
      dsimp only
      by_cases htransient : e.isTransient = true
      · rw [if_pos htransient, if_pos htransient]
        obtain ⟨s, habreast, hindex⟩ := h₂
        refine Act.both_bind (Act.both_modify ?_)
        have hskipped : Abreast tied s { r₂ with skipped := r₂.skipped + 1 }
            { r₂' with skipped := r₂'.skipped + 1 } :=
          ⟨habreast.directors, habreast.steps,
            congrArg (· + 1) habreast.skipped, habreast.nextId, habreast.events⟩
        refine Act.both_bind
          ((hskipped.both_report _).mono fun _ r₃ _ r₃' h₃ => ?_)
        exact ih _ ⟨s, h₃, hindex⟩
      · rw [if_neg htransient, if_neg htransient]
        refine Act.both_bind ((h₂.both_assign tandem lawful none).mono
          fun _ _ _ _ h₃ => ?_)
        exact Act.both_pure ⟨rfl, h₃⟩

-- ================================================================== entities

/-- An entity is built alike, or fails alike. -/
theorem Abreast.both_buildEntity (h : Abreast tied s r r') (unit : Nat) :
    Act.Both (buildEntity init demand unit : Act (Run D V Sc) _)
      (buildEntity init demand unit : Act (Run D' V Sc) _) r r'
      fun a r b r' => b = a ∧ ∃ t, Abreast tied t r r' := by
  refine Act.both_bind (Act.both_get (Act.both_bind (Act.both_modify ?_)))
  rw [h.nextId]
  have hminted : Abreast tied s { r with nextId := r.nextId + 1 }
      { r' with nextId := r.nextId + 1 } :=
    ⟨h.directors, h.steps, h.skipped, rfl, h.events⟩
  refine Act.both_bind ((hminted.both_addEntity tandem r.nextId unit).mono
    fun _ r₂ _ r₂' h₂ => ?_)
  obtain ⟨rfl, rfl, h₂⟩ := h₂
  have hat : AbreastAt demand tied (demand.entities s).length r₂ r₂' := by
    refine ⟨_, h₂, ?_⟩
    rw [lawful.entities_push, List.length_append, List.length_singleton]
    exact Nat.lt_succ_self _
  refine h₂.both_working tandem (Act.both_bind ?_)
  refine (hat.both_tryCandidates tandem lawful r.nextId _ _).mono
    fun _ r₃ answer r₃' h₃ => ?_
  obtain ⟨rfl, h₃⟩ := h₃
  cases answer with
  | error e =>
    obtain ⟨t, h₃, -⟩ := h₃
    exact Act.both_pure ⟨rfl, t, h₃⟩
  | ok found =>
    obtain ⟨value, score⟩ := found
    cases value with
    | none =>
      refine Act.both_bind ((h₃.both_assign tandem lawful none).mono
        fun _ _ _ _ h₄ => ?_)
      obtain ⟨t, h₄, -⟩ := h₄
      exact Act.both_pure ⟨rfl, t, h₄⟩
    | some value =>
      refine Act.both_bind ((h₃.both_assign tandem lawful (some value)).mono
        fun _ r₄ _ r₄' h₄ => ?_)
      obtain ⟨t, h₄, -⟩ := h₄
      have hcommitted : Abreast tied t { r₄ with steps := r₄.steps + 1 }
          { r₄' with steps := r₄'.steps + 1 } :=
        ⟨h₄.directors, congrArg (· + 1) h₄.steps, h₄.skipped,
          h₄.nextId, h₄.events⟩
      refine Act.both_bind (Act.both_modify ?_)
      refine Act.both_bind ((hcommitted.both_report _).mono
        fun _ _ _ _ h₅ => ?_)
      exact Act.both_pure ⟨rfl, t, h₅⟩

variable {elapsed : Nat} {raised : D → List Nat} {raised' : D' → List Nat}
  (flags : ∀ {s d d'}, tied s d d' → raised' d' = raised d)

include flags

/-- Places are built alike up to the same end. -/
theorem Abreast.both_buildAll (units : List Nat) (h : Abreast tied s r r') :
    Act.Both (buildAll init demand elapsed raised units :
        Act (Run D V Sc) Ending)
      (buildAll init demand elapsed raised' units :
        Act (Run D' V Sc) Ending) r r'
      fun a r b r' => b = a ∧ ∃ t, Abreast tied t r r' := by
  induction units generalizing s r r' with
  | nil => exact Act.both_pure ⟨rfl, s, h⟩
  | cons unit rest ih =>
    refine Act.both_bind (leads_isStopped (leads_isStopped ?_))
    rw [h.steps, flags h.directors]
    cases Termination.anyStops ⟨0, r.steps, elapsed, raised r.director⟩
        init.terminations with
    | true => exact Act.both_pure ⟨rfl, s, h⟩
    | false =>
      refine Act.both_bind ((h.both_buildEntity tandem lawful unit).mono
        fun _ r₁ built r₁' h₁ => ?_)
      obtain ⟨rfl, t, h₁⟩ := h₁
      cases built with
      | error e => exact Act.both_pure ⟨rfl, t, h₁⟩
      | ok _ => exact ih h₁

omit [Ranked Sc] lawful flags in
/-- Both runs end with the same summary. -/
theorem Abreast.both_finish (h : Abreast tied s r r') (terminated : Bool) :
    Act.Both (finish demand terminated : Act (Run D V Sc) (Summary Sc))
      (finish demand terminated : Act (Run D' V Sc) (Summary Sc)) r r'
      fun a r b r' => b = a ∧ ∃ t, Abreast tied t r r' := by
  have hinstalled := tandem.install h.directors
    ((demand.entities s).mergeSort fun a b =>
      decide (demand.id a ≤ demand.id b))
  refine h.both_working tandem
    (Act.both_bind (Act.both_zoom (Act.both_update ?_)))
  refine Act.both_bind (Act.both_zoom (hinstalled.mono fun _ d₂ _ d₂' h₂ => ?_))
  refine Act.both_bind
    (Act.both_zoom ((tandem.score h₂).mono fun _ d₃ score d₃' h₃ => ?_))
  obtain ⟨rfl, t, -, h₃⟩ := h₃
  have hstored := tandem.store h₃ (some score)
  refine Act.both_bind (Act.both_zoom (Act.both_update ?_))
  refine Act.both_bind
    (Act.both_get (Act.both_bind (Act.both_update (Act.both_pure ?_))))
  have hsummary : Summary.mk r'.steps r'.skipped score terminated =
      Summary.mk r.steps r.skipped score terminated := by
    rw [h.steps, h.skipped]
  exact ⟨hsummary, _, hstored, h.steps, h.skipped, h.nextId,
    congrArg₂ (fun summary events => .ended summary :: events)
      hsummary h.events⟩

-- ============================================================== constructions

variable [Ord Date] [Ord T]

omit [Director D' S Sc] flags lawful tandem in
/-- More places than can be counted break a construction off at once. -/
theorem run_construct_of_overflow {d : D} (hworking : Director.working d = s)
    (hplaces : Checked.countLimit ≤ (Demand.places (demand.ordered s)).length) :
    (construct init demand elapsed raised : Act (Run D V Sc) _).run (.start d)
      = (.error .arithmetic, .start d) := by
  have hcount : Checked.countSum ((demand.ordered s).map Weight.required)
      = .error .arithmetic := by
    rw [Demand.countSum_required, Checked.count,
      if_neg (Nat.not_lt_of_le hplaces)]
  subst hworking
  rw [construct, Act.run_bind]
  show (Act.lift (Checked.countSum
    ((demand.ordered (Director.working d)).map Weight.required))
    >>= _ : Act (Run D V Sc) _).run _ = _
  rw [hcount, Act.run_bind]
  rfl

/-- Both constructions end alike if the places can be counted. -/
theorem Abreast.both_construct
    (h : Abreast tied s (r : Run D V Sc) (r' : Run D' V Sc))
    (hplaces : (Demand.places (demand.ordered s)).length < Checked.countLimit) :
    Act.Both (construct init demand elapsed raised : Act (Run D V Sc) _)
      (construct init demand elapsed raised' : Act (Run D' V Sc) _) r r'
      fun a r b r' => b = a ∧ ∃ t, Abreast tied t r r' := by
  have hcount : Checked.countSum ((demand.ordered s).map Weight.required)
      = .ok (Demand.places (demand.ordered s)).length := by
    rw [Demand.countSum_required, Checked.count, if_pos hplaces]
  refine h.both_working tandem ?_
  dsimp only
  rw [hcount, buildUnits_eq, buildUnits_eq]
  refine Act.both_bind (Act.leads_of_run rfl (Act.leads_of_run rfl ?_))
  refine Act.both_bind ((h.both_report _).mono fun _ _ _ _ h₁ => ?_)
  refine Act.both_bind ((h₁.both_buildAll tandem lawful flags _).mono
    fun _ _ ending _ h₂ => ?_)
  obtain ⟨rfl, t, h₂⟩ := h₂
  cases ending with
  | failed e => exact Act.both_pure ⟨rfl, t, h₂⟩
  | complete =>
    refine Act.both_bind ((h₂.both_finish tandem false).mono
      fun _ _ _ _ h₃ => ?_)
    exact Act.both_pure ⟨congrArg Except.ok h₃.1, h₃.2⟩
  | stopped =>
    refine Act.both_bind ((h₂.both_finish tandem true).mono
      fun _ _ _ _ h₃ => ?_)
    exact Act.both_pure ⟨congrArg Except.ok h₃.1, h₃.2⟩

/-- A construction comes to the same result with either director, leaves the
same working solution and makes the same reports, also where the places are
too many to be counted. -/
theorem Tandem.construct_eq {d : D} {d' : D'} (htied : tied s d d') :
    let first :=
  (construct init demand elapsed raised : Act (Run D V Sc) _).run (.start d)
    let second :=
      (construct init demand elapsed raised' : Act (Run D' V Sc) _).run
        (.start d')
    second.1 = first.1 ∧ Director.working second.2.director
      = Director.working first.2.director
      ∧ second.2.events = first.2.events := by
  obtain ⟨hleft, hright⟩ := tandem.working htied
  dsimp only
  by_cases hplaces : Checked.countLimit
    ≤ (Demand.places (demand.ordered s)).length
  · rw [run_construct_of_overflow hleft hplaces,
      run_construct_of_overflow hright hplaces]
    exact ⟨rfl, hright.trans hleft.symm, rfl⟩
  · have hstart : Abreast tied s (Run.start d : Run D V Sc) (Run.start d') :=
      ⟨htied, rfl, rfl, rfl, rfl⟩
    obtain ⟨a, r, hfirst, hother⟩ := Act.Leads.exists_run
      (hstart.both_construct tandem lawful flags (Nat.lt_of_not_le hplaces))
    obtain ⟨b, r', hsecond, heq, t, habreast⟩ := hother.exists_run
    obtain ⟨hleft, hright⟩ := tandem.working habreast.directors
    rw [hfirst, hsecond, heq]
    exact ⟨rfl, hright.trans hleft.symm, habreast.events⟩

end

end Initializer

-- ================================================================== tallies

/-- A score that is a sum over the entities of a solution: what an entity
contributes depends on the entity and on facts. -/
structure Tally (S E F G Sc : Type) where
  facts : S → F
  share : F → E → G
  grade : G → Sc

namespace Tally

variable {F G T' : Type} [AddCommGroup G] (tally : Tally S E F G Sc)
  (demand : Demand S E V Date T)

/-- What the entities contribute. -/
def shares (s : S) : List G :=
  (demand.entities s).map (tally.share (tally.facts s))

/-- The sum of all contributions. -/
def balance (s : S) : G := (tally.shares demand s).sum

/-- What the entity at an index contributes; nothing if there is none. -/
def entry (s : S) (index : Nat) : G := (tally.shares demand s)[index]?.getD 0

/-- The score of a solution, from scratch. -/
def score (s : S) : Sc := tally.grade (tally.balance demand s)

/-- A construction leaves the facts alone. -/
structure Lawful : Prop where
  push : ∀ e s, tally.facts (demand.push e s) = tally.facts s
  assign : ∀ index value s, tally.facts (demand.assign index value s)
    = tally.facts s
  store : ∀ (score : Option Sc) s, tally.facts (Planning.store score s)
    = tally.facts s

/-- A calculator keeps the sum, where `shows` says which totals show which
sum: a scan shows the sum of the solution, and an announcement of an entity
that is there takes its contribution out or puts it in. -/
structure KeptBy (descriptor : Nat) (calculator : Calculator S Sc T')
    (shows : T' → G → Prop) : Prop where
  reset : ∀ s totals, (calculator.reset s).Leads False totals
    fun _ totals => shows totals (tally.balance demand s)
  retract : ∀ s totals sum, shows totals sum →
    ∀ index < (demand.entities s).length,
    (calculator.retract s descriptor index).Leads False totals
      fun _ totals => shows totals (sum - tally.entry demand s index)
  insert : ∀ s totals sum, shows totals sum →
    ∀ index < (demand.entities s).length,
    (calculator.insert s descriptor index).Leads False totals
      fun _ totals => shows totals (sum + tally.entry demand s index)
  insertNew : ∀ s totals sum, shows totals sum →
    ∀ index < (demand.entities s).length,
    (calculator.insertNew s descriptor index).Leads False totals
      fun _ totals => shows totals (sum + tally.entry demand s index)
  total : ∀ totals sum, shows totals sum →
    calculator.total totals = .ok (tally.grade sum)
  tryTotal : ∀ totals sum, shows totals sum →
    calculator.tryTotal totals = .ok (.ok (tally.grade sum))

/-- The calculator whose totals are the sum itself. -/
def calculator : Calculator S Sc G where
  reset s := Act.update fun _ => tally.balance demand s
  retract s _ index := Act.update fun sum => sum - tally.entry demand s index
  insert s _ index := Act.update fun sum => sum + tally.entry demand s index
  insertNew s _ index := Act.update fun sum => sum + tally.entry demand s index
  total sum := .ok (tally.grade sum)
  tryTotal sum := .ok (.ok (tally.grade sum))

omit [Planning S Sc] in
theorem kept_calculator (descriptor : Nat) :
    tally.KeptBy demand descriptor (tally.calculator demand) Eq where
  reset _ _ := Act.leads_update rfl
  retract _ _ _ h _ _ := Act.leads_update (congrArg (· - _) h)
  insert _ _ _ h _ _ := Act.leads_update (congrArg (· + _) h)
  insertNew _ _ _ h _ _ := Act.leads_update (congrArg (· + _) h)
  total _ _ h := congrArg (fun sum => Except.ok (tally.grade sum)) h
  tryTotal _ _ h :=
    congrArg (fun sum => Except.ok (Except.ok (tally.grade sum))) h

section

variable {tally demand} {descriptor : Nat} {calculator : Calculator S Sc T'}
  {shows : T' → G → Prop} {s : S}

omit [Planning S Sc] [AddCommGroup G] in
theorem length_shares (s : S) :
    (tally.shares demand s).length = (demand.entities s).length :=
  List.length_map _

omit [AddCommGroup G] in
/-- A new entity adds its share to those before. -/
theorem shares_push (lawful : demand.Lawful) (facts : tally.Lawful demand)
    (e : E) (s : S) : tally.shares demand (demand.push e s) =
      tally.shares demand s ++ [tally.share (tally.facts s) e] := by
  simp [shares, lawful.entities_push, facts.push]

/-- An appended entity contributes its share. -/
theorem balance_push (lawful : demand.Lawful) (facts : tally.Lawful demand)
    (e : E) (s : S) :
    tally.balance demand s + tally.entry demand (demand.push e s)
      (demand.entities s).length = tally.balance demand (demand.push e s) := by
  have hlength : (tally.shares demand s).length = (demand.entities s).length :=
    length_shares s
  simp [balance, entry, shares_push lawful facts, ← hlength]

/-- An assignment changes what its entity contributes. -/
theorem shares_assign (lawful : demand.Lawful)
    (facts : tally.Lawful demand) {index : Nat}
    (hindex : index < (demand.entities s).length) (value : Option V) :
    tally.shares demand (demand.assign index value s)
      = (tally.shares demand s).set index
        (tally.entry demand (demand.assign index value s) index) := by
  refine List.ext_getElem? fun j => ?_
  rw [List.getElem?_set, length_shares]
  by_cases hj : index = j
  · subst hj
    have hthere : index
        < (tally.shares demand (demand.assign index value s)).length := by
      rw [length_shares, lawful.length_assign]
      exact hindex
    rw [if_pos rfl, if_pos hindex, entry, List.getElem?_eq_getElem hthere]
    rfl
  · rw [if_neg hj, shares, shares, List.getElem?_map, List.getElem?_map,
      lawful.entities_assign_of_ne _ _ _ _ (Ne.symm hj), facts.assign]

/-- Without its entity an assignment leaves the sum what it was. -/
theorem balance_assign (lawful : demand.Lawful)
    (facts : tally.Lawful demand) {index : Nat}
    (hindex : index < (demand.entities s).length) (value : Option V) :
    tally.balance demand s - tally.entry demand s index
        + tally.entry demand (demand.assign index value s) index
      = tally.balance demand (demand.assign index value s) := by
  have hthere : index < (tally.shares demand s).length := by rwa [length_shares]
  have hentry : tally.entry demand s index
      = (tally.shares demand s)[index] := by
    rw [entry, List.getElem?_eq_getElem hthere]
    rfl
  rw [hentry, balance, balance, shares_assign lawful facts hindex,
    List.sum_set', dif_pos hthere, sub_eq_add_neg, add_assoc]

/-- A stored score does not change the balance. -/
theorem balance_store (lawful : demand.Lawful) (facts : tally.Lawful demand)
    (score : Option Sc) (s : S) :
    tally.balance demand (Planning.store score s) = tally.balance demand s := by
  rw [balance, balance, shares, shares, lawful.entities_store, facts.store]

/-- A stored score does not change what the score is. -/
theorem score_store (lawful : demand.Lawful) (facts : tally.Lawful demand)
    (score : Option Sc) (s : S) :
    tally.score demand (Planning.store score s) = tally.score demand s := by
  rw [Tally.score, Tally.score, balance_store lawful facts]

-- =============================================================== directors

variable (calculator shows) in
/-- A director by running totals works on a solution, and shows a sum once it
has scanned. -/
structure Showing (sum : G) (s : S) (d : IncrementalDirector S Sc T') :
    Prop where
  calculator : d.calculator = calculator
  working : d.working = s
  totals : d.ready = true → shows d.totals sum

variable {d : IncrementalDirector S Sc T'} {sum sum' : G}

omit [Planning S Sc] [AddCommGroup G] in
/-- An announcement reaches the calculator if it has scanned. -/
theorem Showing.leads_pass (h : Showing calculator shows sum s d)
    {act : Calculator S Sc T' → S → Act T' Unit}
    (hact : ∀ totals, shows totals sum → (act calculator s).Leads False totals
      fun _ totals => shows totals sum') :
    (IncrementalDirector.pass act).Leads False d fun _ =>
    Showing calculator shows sum' s := by
  obtain ⟨rfl, rfl, htotals⟩ := h
  refine Act.leads_bind (Act.leads_get ?_)
  cases hready : d.ready with
  | false =>
    refine Act.leads_pure ⟨rfl, rfl, fun h => ?_⟩
    rw [hready] at h
    cases h
  | true =>
    refine Act.leads_bind (Act.leads_get (Act.leads_zoom ?_))
    exact (hact d.totals (htotals hready)).mono
      (fun _ _ h => ⟨rfl, rfl, fun _ => h⟩) id

omit [AddCommGroup G] in
theorem Showing.edit (h : Showing calculator shows sum s d) (write : S → S) :
    Showing calculator shows sum (write s) (Director.edit write d) :=
  ⟨h.calculator, congrArg write h.working, h.totals⟩

omit [AddCommGroup G] in
/-- After a reset there is no sum that could be wrong. -/
theorem Showing.leads_reset (h : Showing calculator shows sum s d)
    (write : S → S) :
    (Director.reset (D := IncrementalDirector S Sc T')).Leads False
      (Director.edit write d) fun _ =>
      Showing calculator shows sum' (write s) :=
  Act.leads_update ⟨h.calculator, congrArg write h.working,
    fun hready => (nomatch hready)⟩

variable (kept : tally.KeptBy demand descriptor calculator shows)

include kept

omit [Planning S Sc] in
/-- Once the totals are asked for they show the balance. -/
theorem Showing.leads_prepare
    (h : Showing calculator shows (tally.balance demand s) s d) :
    (IncrementalDirector.prepare : Act (IncrementalDirector S Sc T')
      Unit).Leads False d fun _ d =>
      Showing calculator shows (tally.balance demand s) s d
        ∧ shows d.totals (tally.balance demand s) := by
  obtain ⟨rfl, rfl, htotals⟩ := h
  refine Act.leads_bind (Act.leads_get ?_)
  cases hready : d.ready with
  | true => exact Act.leads_pure ⟨⟨rfl, rfl, htotals⟩, htotals hready⟩
  | false =>
    refine Act.leads_bind (Act.leads_bind (Act.leads_get (Act.leads_zoom ?_)))
    refine (kept.reset d.working d.totals).mono (fun _ totals h => ?_) id
    exact Act.leads_modify ⟨⟨rfl, rfl, fun _ => h⟩, h⟩

variable (lawful : demand.Lawful) (facts : tally.Lawful demand)

include lawful facts

/-- A score call answers the score of the solution and leaves it stored. -/
theorem Showing.leads_score
    (h : Showing calculator shows (tally.balance demand s) s d) :
    (Director.score (D := IncrementalDirector S Sc T')).Leads False d
      fun score d =>
      score = tally.score demand s ∧ Showing calculator shows
        (tally.balance demand (Planning.store (some (tally.score demand s)) s))
        (Planning.store (some (tally.score demand s)) s) d := by
  refine Act.leads_bind ((h.leads_prepare kept).mono (fun _ d₁ h₁ => ?_) id)
  obtain ⟨h₁, htotals⟩ := h₁
  refine Act.leads_bind
    (Act.leads_of_run (t := d₁) (a := tally.score demand s) ?_ ?_)
  · show (d₁.calculator.total d₁.totals, d₁) = _
    rw [h₁.calculator, kept.total _ _ htotals]
    rfl
  · rw [balance_store lawful facts]
    exact Act.leads_bind (Act.leads_update (Act.leads_pure ⟨rfl, h₁.edit _⟩))

theorem Showing.leads_tryScore
    (h : Showing calculator shows (tally.balance demand s) s d) :
    (Director.tryScore (D := IncrementalDirector S Sc T')).Leads False d
      fun answer d =>
      answer = .ok (tally.score demand s) ∧ Showing calculator shows
        (tally.balance demand (Planning.store (some (tally.score demand s)) s))
        (Planning.store (some (tally.score demand s)) s) d := by
  refine Act.leads_bind ((h.leads_prepare kept).mono (fun _ d₁ h₁ => ?_) id)
  obtain ⟨h₁, htotals⟩ := h₁
  refine Act.leads_bind
    (Act.leads_of_run (t := d₁) (a := .ok (tally.score demand s)) ?_ ?_)
  · show (d₁.calculator.tryTotal d₁.totals, d₁) = _
    rw [h₁.calculator, kept.tryTotal _ _ htotals]
    rfl
  · rw [balance_store lawful facts]
    exact Act.leads_bind (Act.leads_update (Act.leads_pure ⟨rfl, h₁.edit _⟩))

/-- The announcements around an assignment: what the entity contributed goes
out before, and what it contributes then goes in afterwards. -/
theorem Showing.leads_assign
    (h : Showing calculator shows (tally.balance demand s) s d) {index : Nat}
    (hindex : index < (demand.entities s).length) (value : Option V)
    (name : String) :
    (Director.before descriptor index name).Leads False d fun _ d =>
      (Director.after descriptor index name).Leads False
        (Director.edit (demand.assign index value) d) fun _ =>
          Showing calculator shows
            (tally.balance demand (demand.assign index value s))
              (demand.assign index value s) := by
  refine (h.leads_pass fun totals htotals =>
    kept.retract s totals _ htotals index hindex).mono
    (fun _ d₁ h₁ => ?_) id
  have hthere : index
      < (demand.entities (demand.assign index value s)).length := by
    rwa [lawful.length_assign]
  rw [← balance_assign lawful facts hindex value]
  exact (h₁.edit (demand.assign index value)).leads_pass fun totals htotals =>
    kept.insert _ totals _ htotals index hthere

/-- A pushed entity is added to the totals. -/
theorem Showing.leads_append
    (h : Showing calculator shows (tally.balance demand s) s d) (e : E) :
    (Director.added descriptor (demand.entities s).length).Leads False
      (Director.edit (demand.push e) d) fun _ => Showing calculator shows
        (tally.balance demand (demand.push e s)) (demand.push e s) := by
  have hthere : (demand.entities s).length
      < (demand.entities (demand.push e s)).length := by
    rw [lawful.entities_push, List.length_append, List.length_singleton]
    exact Nat.lt_succ_self _
  rw [← balance_push lawful facts]
  exact (h.edit (demand.push e)).leads_pass fun totals htotals =>
    kept.insertNew _ totals _ htotals _ hthere

variable [LawfulPlanning S]

/-- Scoring from scratch and by running totals go together. -/
theorem tandem (name : String) : Initializer.Tandem descriptor name demand
    (fun s (d : FullDirector S Sc) (d' : IncrementalDirector S Sc T') =>
      FullDirector.Settled (tally.score demand) s d
        ∧ Showing calculator shows (tally.balance demand s) s d') where
  working h := ⟨h.1.working, h.2.working⟩
  assign h index value hindex := by
    refine Act.both_of_leads h.1.leads_forget
      (h.2.leads_assign kept lawful facts hindex value name)
        fun _ d _ d' hd hd' => ?_
    exact Act.both_of_leads (hd.edit _).leads_forget hd' fun _ _ _ _ hd hd' =>
      ⟨hd, hd'⟩
  append h e := Act.both_of_leads (h.1.edit _).leads_forget
    (h.2.leads_append kept lawful facts e) fun _ _ _ _ hd hd' => ⟨hd, hd'⟩
  tryScore h := by
    refine Act.both_of_leads (h.1.leads_tryScore (score_store lawful facts))
      (h.2.leads_tryScore kept lawful facts) fun a d b d' hd hd' => ?_
    exact ⟨hd'.1.trans hd.1.symm, _, .inr ⟨_, rfl⟩, hd.2, hd'.2⟩
  score h := by
    refine Act.both_of_leads (h.1.leads_score (score_store lawful facts))
      (h.2.leads_score kept lawful facts) fun a d b d' hd hd' => ?_
    exact ⟨hd'.1.trans hd.1.symm, _, .inr ⟨_, rfl⟩, hd.2, hd'.2⟩
  install h entities :=
    Act.both_of_leads (h.1.edit _).leads_forget
      (h.2.leads_reset (demand.install entities))
      fun _ _ _ _ hd hd' => ⟨hd, hd'⟩
  store h stored := by
    refine ⟨h.1.edit _, ?_⟩
    rw [balance_store lawful facts]
    exact h.2.edit _

omit kept lawful facts in
/-- A construction does not depend on how the director comes to the score:
whatever the terminations, running totals that keep a sum over the entities
lead to the result, the working solution and the reports that scoring from
scratch leads to. -/
theorem construct_running_totals [Ranked Sc] [Ord Date] [Ord T]
    (init : Initializer) (lawful : demand.Lawful) (facts : tally.Lawful demand)
    (kept : tally.KeptBy demand init.descriptor calculator shows)
    (s : S) (totals : T') (elapsed : Nat) (flags : List Nat) :
    let full := (init.construct demand elapsed fun _ => flags).run
      (.start (FullDirector.start (fun s => .ok (tally.score demand s)) s))
    let running := (init.construct demand elapsed fun _ => flags).run
      (.start (IncrementalDirector.start calculator totals s))
    running.1 = full.1
      ∧ Director.working running.2.director = Director.working full.2.director
      ∧ running.2.events = full.2.events := by
  have htied : FullDirector.Settled (tally.score demand) s
      (FullDirector.start (fun s => .ok (tally.score demand s)) s)
        ∧ Showing calculator shows (tally.balance demand s) s
          (IncrementalDirector.start calculator totals s) :=
    ⟨FullDirector.settled_start _ s, rfl, rfl, fun h => (nomatch h)⟩
  exact (tandem kept lawful facts init.name).construct_eq lawful
    (fun _ => rfl) htied

end

-- ================================================================= a roster

/-- Open places count against a roster, and so do employees further down the
list. -/
def staffing : Tally Roster Assignment Unit (Int × Int) HardSoft where
  facts _ := ()
  share _ a := match a.employee with
    | none => (-1, 0)
    | some e => (0, -(e : Int))
  grade sum := HardSoft.of (Int64.ofInt sum.1) (Int64.ofInt sum.2)

/-- The construction of the two shifts stops after the first one, with either
director. -/
theorem construct_running_totals_twoShifts :
    let init : Initializer :=
  { Initializer.plain with terminations := [.steps 1] }
    let full := (init.construct Roster.demand 0 fun _ => []).run
      (.start (FullDirector.start
        (fun s => .ok (staffing.score Roster.demand s))
        Initializer.twoShifts))
    let running := (init.construct Roster.demand 0 fun _ => []).run
      (.start (IncrementalDirector.start (staffing.calculator Roster.demand) 0
        Initializer.twoShifts))
    staffing.Lawful Roster.demand
      ∧ running.1 = full.1
      ∧ Director.working running.2.director = Director.working full.2.director
      ∧ running.2.events = full.2.events
      ∧ full.1 = .ok (.ok ⟨1, 0, HardSoft.of 0 0, true⟩) := by
  have facts : staffing.Lawful Roster.demand :=
    ⟨fun _ _ => rfl, fun _ _ _ => rfl, fun _ _ => rfl⟩
  obtain ⟨hresult, hworking, hevents⟩ := construct_running_totals
    { Initializer.plain with terminations := [.steps 1] }
      Roster.lawful_demand facts
    (staffing.kept_calculator Roster.demand 0) Initializer.twoShifts 0 0 []
  refine ⟨facts, hresult, hworking, hevents, ?_⟩
  simp only [Initializer.construct, Initializer.finish, Demand.ordered,
    Weight.sort_eq_insertionSort, Demand.mergeSort_id]
  decide +kernel

end Tally

end PlanSearch

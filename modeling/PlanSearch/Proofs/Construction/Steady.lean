/-
Directors that a construction counts on.

Under `Steady` the calls of a construction never fault, and the score they
answer is the one that a scoring gives to the solution. Which solution the
director works on is said by a relation of its own (`known`), since every
director has its own idea of what else must hold, such as what its totals
are worth. Whatever a score call stores, it is forgotten again: a director
that `known` relates to a solution up to the stored score is `Standing` at
it, and remains there while it is asked.

A director that scores from scratch is steady, and so is one by running
totals that takes a new picture of the solution after each change
(`Scoring.snapshot`). The second also refuses to score what the scoring
refuses, so every scoring has a steady director.
-/
import PlanSearch.Proofs.Construction.Greedy
import PlanSearch.Proofs.Ledger.Directors

namespace PlanSearch

variable {D S E V Date T Sc : Type} [Planning S Sc]

namespace Initializer

-- ================================================================== steady

/-- The director answers every call of a construction, for a variable with
this descriptor and name, by what the scoring says of the solution. -/
structure Steady [Director D S Sc] (descriptor : Nat) (name : String)
    (demand : Demand S E V Date T) (scoring : Scoring S Sc)
    (known : S → D → Prop) : Prop where
  working : ∀ s d, known s d → Director.working d = s
  assign : ∀ index value s d, known s d →
    (Director.before descriptor index name).Leads False d fun _ d =>
      (Director.after descriptor index name).Leads False
        (Director.edit (demand.assign index value) d) fun _ =>
          known (demand.assign index value s)
  append : ∀ unit s d, known s d →
    (Director.added descriptor (demand.entities s).length).Leads False
      (Director.edit (demand.push
        (demand.mint s (demand.entities s).length unit)) d)
      fun _ => known (demand.opened s unit)
  tryScore : ∀ s d, known s d →
      (Director.tryScore (D := D)).Leads False d fun answer d =>
    answer = scoring.rate s ∧ ∃ t, ScoreStored s t ∧ known t d
  score : ∀ s d, known s d →
      (Director.score (D := D)).Leads False d fun answer d =>
    answer = scoring.score s ∧ ∃ t, ScoreStored s t ∧ known t d
  install : ∀ entities s d, known s d →
    (Director.reset (D := D)).Leads False
      (Director.edit (demand.install entities) d)
      fun _ => known (demand.install entities s)
  store : ∀ (stored : Option Sc) s d, known s d →
    known (Planning.store stored s) (Director.edit (Planning.store stored) d)

/-- The director works on a solution that differs in the stored score only. -/
def Standing (known : S → D → Prop) (s : S) (d : D) : Prop :=
  ∃ t, Planning.bare t = Planning.bare s ∧ known t d

namespace Steady

variable [Director D S Sc] {descriptor : Nat} {name : String}
  {demand : Demand S E V Date T} {scoring : Scoring S Sc} {known : S → D → Prop}
  {s : S} {d : D}

/-- The director works on the solution, up to a stored score. -/
theorem bare_working (steady : Steady descriptor name demand scoring known)
    (h : Standing known s d) :
    Planning.bare (Director.working d) = Planning.bare s := by
  obtain ⟨t, ht, hknown⟩ := h
  rw [steady.working t d hknown, ht]

/-- An announced assignment keeps the director standing. -/
theorem leads_assign (steady : Steady descriptor name demand scoring known)
    (lawful : demand.Lawful) (h : Standing known s d) (index : Nat)
    (value : Option V) :
    (Director.before descriptor index name).Leads False d fun _ d =>
      (Director.after descriptor index name).Leads False
        (Director.edit (demand.assign index value) d)
        fun _ => Standing known (demand.assign index value s) := by
  obtain ⟨t, ht, hknown⟩ := h
  have hassigned : Planning.bare (demand.assign index value t) =
      Planning.bare (demand.assign index value s) :=
    Planning.bare_congr
      (fun score s => lawful.assign_store score index value s) ht
  refine (steady.assign index value t d hknown).mono
    (fun _ d' h' => h'.mono ?_ id) id
  exact fun _ _ h'' => ⟨_, hassigned, h''⟩

/-- A pushed entity keeps the director standing. -/
theorem leads_append (steady : Steady descriptor name demand scoring known)
    (lawful : demand.Lawful) (h : Standing known s d) (unit : Nat) :
    (Director.added descriptor (demand.entities s).length).Leads False
      (Director.edit
        (demand.push (demand.mint (Director.working d)
          (demand.entities s).length unit)) d)
      fun _ => Standing known (demand.opened s unit) := by
  obtain ⟨t, ht, hknown⟩ := h
  have hentities : demand.entities t = demand.entities s :=
    Planning.congr_of_store lawful.entities_store ht
  have hopened : Planning.bare (demand.opened t unit)
      = Planning.bare (demand.opened s unit) :=
    @Planning.bare_congr S Sc _ t s (fun u => demand.opened u unit)
      (fun score u => lawful.opened_store score u unit) ht
  rw [steady.working t d hknown, ← hentities]
  exact (steady.append unit t d hknown).mono (fun _ _ h' => ⟨_, hopened, h'⟩) id

/-- Entities put where they are change nothing. -/
theorem leads_install (steady : Steady descriptor name demand scoring known)
    (lawful : demand.Lawful) (h : Standing known s d) :
    (Director.reset (D := D)).Leads False
      (Director.edit (demand.install (demand.entities (Director.working d))) d)
      fun _ => Standing known s := by
  obtain ⟨t, ht, hknown⟩ := h
  have hinstalled := steady.install (demand.entities t) t d hknown
  rw [lawful.install_entities] at hinstalled
  rw [steady.working t d hknown]
  exact hinstalled.mono (fun _ _ h' => ⟨t, ht, h'⟩) id

variable [LawfulPlanning S]

/-- A score call leaves the director where it stands. -/
theorem leads_tryScore (steady : Steady descriptor name demand scoring known)
    (h : Standing known s d) :
    (Director.tryScore (D := D)).Leads False d fun answer d =>
      answer = scoring.rate s ∧ Standing known s d := by
  obtain ⟨t, ht, hknown⟩ := h
  refine (steady.tryScore t d hknown).mono (fun answer d' h' => ?_) id
  obtain ⟨rfl, u, hstored, hu⟩ := h'
  exact ⟨Planning.congr_of_store scoring.rate_store ht, u,
    hstored.bare_eq.trans ht, hu⟩

theorem leads_score (steady : Steady descriptor name demand scoring known)
    (h : Standing known s d) :
    (Director.score (D := D)).Leads False d fun answer d =>
      answer = scoring.score s ∧ Standing known s d := by
  obtain ⟨t, ht, hknown⟩ := h
  refine (steady.score t d hknown).mono (fun answer d' h' => ?_) id
  obtain ⟨rfl, u, hstored, hu⟩ := h'
  exact ⟨Planning.congr_of_store scoring.score_store ht, u,
    hstored.bare_eq.trans ht, hu⟩

/-- A score that is stored settles what else there was to know. -/
theorem working_store (steady : Steady descriptor name demand scoring known)
    (h : Standing known s d) (stored : Option Sc) :
    Director.working (Director.edit (Planning.store stored) d)
      = Planning.store stored s := by
  obtain ⟨t, ht, hknown⟩ := h
  rw [steady.working _ _ (steady.store stored t d hknown)]
  exact Planning.store_congr ht stored

end Steady

end Initializer

-- =============================================================== directors

/-- A scoring that scores everything. -/
def Scoring.total (score : S → Sc)
    (blind : ∀ (stored : Option Sc) s,
      score (Planning.store stored s) = score s) :
    Scoring S Sc where
  rate s := .ok (score s)
  score := score
  rate_store stored s := congrArg Except.ok (blind stored s)
  score_store := blind

/-- Scoring from scratch is steady. -/
theorem FullDirector.steady [LawfulPlanning S] (descriptor : Nat)
    (name : String) (demand : Demand S E V Date T) (score : S → Sc)
    (blind : ∀ (stored : Option Sc) s,
      score (Planning.store stored s) = score s) :
    Initializer.Steady descriptor name demand (.total score blind)
      (Settled score) where
  working _ _ h := h.working
  assign _ _ _ _ h :=
    h.leads_forget.mono (fun _ _ h' => (h'.edit _).leads_forget) id
  append unit s d h := by
    have hedit :=
      (h.edit (demand.push (demand.mint s (demand.entities s).length unit)))
    exact hedit.leads_forget
  tryScore s d h := by
    refine (h.leads_tryScore blind).mono (fun _ _ h' => ?_) id
    exact ⟨h'.1, _, .inr ⟨_, rfl⟩, h'.2⟩
  score s d h := by
    refine (h.leads_score blind).mono (fun _ _ h' => ?_) id
    exact ⟨h'.1, _, .inr ⟨_, rfl⟩, h'.2⟩
  install _ _ _ h := (h.edit _).leads_forget
  store _ _ _ h := h.edit _

namespace Scoring

/-- A calculator whose total is a picture of the solution, taken again
after each change. -/
def snapshot (scoring : Scoring S Sc) : Calculator S Sc S where
  reset s := Act.update fun _ => s
  retract _ _ _ := Act.update id
  insert s _ _ := Act.update fun _ => s
  insertNew s _ _ := Act.update fun _ => s
  total s := .ok (scoring.score s)
  tryTotal s := .ok (scoring.rate s)

/-- The picture shows the solution, but for the stored score. -/
structure Pictured (scoring : Scoring S Sc) (s : S)
    (d : IncrementalDirector S Sc S) : Prop where
  calculator : d.calculator = scoring.snapshot
  working : d.working = s
  totals : d.ready = true → Planning.bare d.totals = Planning.bare s

variable {scoring : Scoring S Sc} {s : S} {d : IncrementalDirector S Sc S}

theorem pictured_start (scoring : Scoring S Sc) (s : S) :
    scoring.Pictured s (.start scoring.snapshot s s) :=
  ⟨rfl, rfl, fun h => (nomatch h)⟩

/-- A new picture of an edited solution. -/
theorem leads_picture (hcalculator : d.calculator = scoring.snapshot)
    (hworking : d.working = s) {act : Calculator S Sc S → S → Act S Unit}
    (hact : act scoring.snapshot s = Act.update fun _ => s) :
    (IncrementalDirector.pass act).Leads False d fun _ =>
    scoring.Pictured s := by
  refine IncrementalDirector.leads_pass_update (fun _ => s) ?_
    (fun _ => ⟨hcalculator, hworking, fun _ => rfl⟩)
    fun hidle => ⟨hcalculator, hworking, fun hready => ?_⟩
  · rw [hcalculator, hworking, hact]
  · rw [hidle] at hready
    cases hready

/-- After the first scan the totals are the solution itself. -/
theorem Pictured.leads_prepare (h : scoring.Pictured s d) :
    (IncrementalDirector.prepare : Act (IncrementalDirector S Sc S)
      Unit).Leads False d fun _ d' => scoring.Pictured s d' ∧
      Planning.bare d'.totals = Planning.bare s := by
  refine Act.leads_bind (Act.leads_get ?_)
  cases hready : d.ready with
  | true => exact Act.leads_pure ⟨h, h.totals hready⟩
  | false =>
      refine Act.leads_bind (Act.leads_bind (Act.leads_get (Act.leads_zoom ?_)))
      rw [h.calculator, h.working]
      exact Act.leads_update (Act.leads_modify ⟨⟨rfl, rfl, fun _ => rfl⟩, rfl⟩)

/-- A stored score keeps the picture. -/
theorem Pictured.store [LawfulPlanning S] (h : scoring.Pictured s d)
    (stored : Option Sc) :
    scoring.Pictured (Planning.store stored s)
      (Director.edit (Planning.store stored) d) :=
  ⟨h.calculator, congrArg (Planning.store stored) h.working, fun hready =>
    (h.totals hready).trans (Planning.bare_store stored s).symm⟩

/-- Pictures are steady, whatever the scoring. -/
theorem steady [LawfulPlanning S] (scoring : Scoring S Sc) (descriptor : Nat)
    (name : String) (demand : Demand S E V Date T) :
    Initializer.Steady descriptor name demand scoring scoring.Pictured where
  working _ _ h := h.working
  assign index value s d h := by
    have hbefore : (Director.before descriptor index name).Leads False d
        fun _ => scoring.Pictured s := by
      refine IncrementalDirector.leads_pass_update id ?_ (fun _ => h) fun _ => h
      rw [h.calculator]
      rfl
    refine hbefore.mono (fun _ d' h' => ?_) id
    let write := demand.assign index value
    exact leads_picture (d := Director.edit write d') h'.calculator
      (congrArg write h'.working) rfl
  append unit s d h := by
    let write := demand.push (demand.mint s (demand.entities s).length unit)
    exact leads_picture (d := Director.edit write d) h.calculator
      (congrArg write h.working) rfl
  tryScore s d h := by
    refine Act.leads_bind (h.leads_prepare.mono (fun _ d' h' => ?_) id)
    obtain ⟨hpictured, htotals⟩ := h'
    refine Act.leads_bind
      (Act.leads_of_run (t := d') (a := scoring.rate s) ?_ ?_)
    · show (d'.calculator.tryTotal d'.totals, d') = _
      rw [hpictured.calculator,
        ← Planning.congr_of_store scoring.rate_store htotals]
      rfl
    · cases hrate : scoring.rate s with
      | error e => exact Act.leads_pure ⟨rfl, s, .inl rfl, hpictured⟩
      | ok score =>
          refine Act.leads_bind (Act.leads_update (Act.leads_pure ?_))
          exact ⟨rfl, _, .inr ⟨some score, rfl⟩, hpictured.store (some score)⟩
  score s d h := by
    refine Act.leads_bind (h.leads_prepare.mono (fun _ d' h' => ?_) id)
    obtain ⟨hpictured, htotals⟩ := h'
    refine Act.leads_bind
      (Act.leads_of_run (t := d') (a := scoring.score s) ?_ ?_)
    · show (d'.calculator.total d'.totals, d') = _
      rw [hpictured.calculator,
        ← Planning.congr_of_store scoring.score_store htotals]
      rfl
    · refine Act.leads_bind (Act.leads_update (Act.leads_pure ?_))
      exact ⟨rfl, _, .inr ⟨some _, rfl⟩, hpictured.store (some _)⟩
  install entities s d h :=
    Act.leads_update ⟨h.calculator,
      congrArg (demand.install entities) h.working, fun hready =>
      (nomatch hready)⟩
  store stored s d h := h.store stored

end Scoring

end PlanSearch

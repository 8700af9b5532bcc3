/-
Incremental and full scoring agree.

A run is a list of turns, each in keeping with the protocol of directors:
batches that are announced, moves, appended entities, edits followed by a
reset, trials on a recording, and score calls wherever one likes. What a
run answers is told with the solution of the moment, so that an answer can
be held against it.

One turn keeps two directors in step (`DirectorTurn.both_run`; a trial puts
recordings before them, and is the induction), hence so does a run. A
director by running totals thus answers what one that scores from scratch
answers, call by call, and both answer the truth.
-/
import PlanSearch.Proofs.Ledger.Directors
import PlanSearch.Proofs.Ledger.Steps
import PlanSearch.Proofs.Ledger.Worlds

namespace PlanSearch

variable {S V F G Sc : Type}

-- ================================================================= turns

/-- What becomes of a recorded trial. -/
inductive TrialEnd
  | undone
  | kept

/-- What is done with a director, at one go. -/
inductive DirectorTurn (S V : Type)
  /-- A change that is announced, and perhaps how to take it back. -/
  | batch (slots : List (Nat × Nat)) (name : String) (write : S →
    S) (undo : Option (S → S))
  | move (m : Move S V)
  /-- An entity that is appended and announced; where depends on the
  solution. -/
  | push (write : S → S) (slot : S → Nat × Nat)
  /-- An edit that is not announced, and a reset. -/
  | rewrite (write : S → S)
  /-- Turns on a recording, which are taken back in the end or kept. -/
  | trial (turns : List (DirectorTurn S V)) (ending : TrialEnd)
  | score
  | tryScore

/-- Takes back what was recorded, or forgets the recording. -/
def TrialEnd.run {D : Type} [Director D S Sc] :
    TrialEnd → Act (Recording D S) Unit
  | undone => Recording.undoChanges
  | kept => Recording.clear

namespace DirectorTurn

/-- The announced change of a batch. -/
def change {D : Type} [Director D S Sc] (slots : List (Nat × Nat))
    (name : String) (write : S → S) : Option (S → S) → Act D PUnit
  | none => do
    slots.forM fun t => Director.before t.1 t.2 name
    Act.update (Director.edit write)
    slots.forM fun t => Director.after t.1 t.2 name
  | some undo => do
    slots.forM fun t => Director.before t.1 t.2 name
    Act.update (Director.edit write)
    slots.forM fun t => Director.after t.1 t.2 name
    Director.keepUndo undo

mutual

/-- Takes a turn. Every score is told with the solution that has it. -/
def run (turn : DirectorTurn S V) {D : Type} [Director D S Sc] :
    Act D (List (Sc × S)) :=
  match turn with
  | batch slots name write undo => do
    change slots name write undo
    return []
  | move m => do
    m.run
    return []
  | push write slot => do
    let s := Director.working (← get)
    Act.update (Director.edit write)
    Director.added (slot s).1 (slot s).2
    return []
  | rewrite write => do
    Act.update (Director.edit write)
    Director.reset
    return []
  | trial turns ending =>
    Act.zoom Recording.start (fun _ r => r.inner) do
      let seen ← runAll turns
      ending.run
      return seen
  | score => do
    let answer ← Director.score
    return [(answer, Director.working (← get))]
  | tryScore => do
    match ← Director.tryScore with
    | .ok answer => return [(answer, Director.working (← get))]
    | .error _ => return []

/-- Takes turns one after the other. -/
def runAll (turns : List (DirectorTurn S V)) {D : Type} [Director D S Sc] :
    Act D (List (Sc × S)) :=
  match turns with
  | [] => return []
  | turn :: rest => do
    let seen ← run turn
    let more ← runAll rest
    return seen ++ more

end

mutual

/-- The turn keeps to the protocol: what changes is announced once, and an
undo touches nothing else. -/
def Fair (L : Ledger S V F G Sc) : DirectorTurn S V → Prop
  | batch slots _ write undo =>
    (∀ s, L.Covers slots s (write s)) ∧ ∀ u ∈ undo, ∀ s, L.Within slots s (u s)
  | move m => m.Over L.family ∧ ∀ t ∈ m.steps, t.Distinct
  | push write slot => ∀ s, L.Grows (slot s) s (write s)
  | trial turns _ => FairAll L turns
  | rewrite _ | score | tryScore => True

def FairAll (L : Ledger S V F G Sc) : List (DirectorTurn S V) → Prop
  | [] => True
  | turn :: rest => turn.Fair L ∧ FairAll L rest

end

end DirectorTurn

-- ======================================================== turns in step

variable [Planning S Sc] {L : Ledger S V F G Sc} {D E : Type} [Director D S Sc]
  [Director E S Sc] {tied : Multiset (Nat × Nat) → S → D → E → Prop} {d : D}
  {e : E} {s : S}

/-- Every score is the one of the solution it is told with, and stored there. -/
def Ledger.Truthful [AddCommGroup G] (L : Ledger S V F G Sc)
    (seen : List (Sc × S)) : Prop :=
  ∀ call ∈ seen, call.1 = L.score call.2 ∧ Planning.stored call.2 = some call.1

namespace Ledger.InStep

variable [AddCommGroup G] (step : L.InStep tied)

include step

/-- A batch that is accounted for. -/
theorem both_change {slots : List (Nat × Nat)} {write : S → S} (name : String)
    (undo : Option (S → S)) (covers : L.Covers slots s (write s))
    (within : ∀ u ∈ undo, ∀ s, L.Within slots s (u s)) (h : tied 0 s d e) :
    Act.Both (DirectorTurn.change slots name write undo)
      (DirectorTurn.change slots name write undo) d e fun _ d' _ e' =>
      tied 0 (write s) d' e' := by
  have opened := step.both_before slots name h
  rw [add_zero] at opened
  cases undo with
  | none =>
      refine Act.both_bind
        (opened.mono fun _ _ _ _ g => Act.both_bind (Act.both_update ?_))
      refine step.both_after slots name ?_
      rw [add_zero]
      exact step.edit g write covers
  | some undo =>
      refine Act.both_bind
        (opened.mono fun _ _ _ _ g => Act.both_bind (Act.both_update ?_))
      exact step.close (step.edit g write covers) name undo (within undo rfl)

/-- A step does what it comes to in the solution that both have. -/
theorem both_step (lawful : L.Lawful) {t : Step S V} (scope : t.Over L.family)
    (distinct : t.Distinct) (h : tied 0 s d e) :
    Act.Both t.run t.run d e fun _ d' _ e' => tied 0 (t.apply s) d' e' := by
  obtain ⟨hd, he⟩ := step.working h
  refine Act.both_bind (Act.both_get ?_)
  rw [hd, he]
  unfold Step.apply
  cases hb : t.batch? s with
  | none => exact Act.both_pure h
  | some b =>
      have accounts := Step.accounts lawful scope distinct hb
      have hchange := step.both_change b.name (some b.restore) accounts.write
        (fun u hu => Option.some.inj hu ▸ accounts.restore) h
      simp only [DirectorTurn.change, Batch.slots, forM_classSlots] at hchange
      exact hchange

/-- A move keeps both directors tied, step by step. -/
theorem both_move (lawful : L.Lawful) (ts : List (Step S V))
    (scope : ∀ t ∈ ts, t.Over L.family) (distinct : ∀ t ∈ ts, t.Distinct)
    (h : tied 0 s d e) : Act.Both (ts.forM Step.run) (ts.forM Step.run) d e
      fun _ d' _ e' => tied 0 (Step.applyAll ts s) d' e' := by
  induction ts generalizing s d e with
  | nil => exact Act.both_pure h
  | cons t rest ih =>
      refine Act.both_bind
        ((step.both_step lawful (scope t (List.mem_cons_self ..))
        (distinct t (List.mem_cons_self ..)) h).mono fun _ _ _ _ g => ?_)
      exact ih (fun u hu => scope u (List.mem_cons_of_mem _ hu))
        (fun u hu => distinct u (List.mem_cons_of_mem _ hu)) g

end Ledger.InStep

namespace DirectorTurn

variable [AddCommGroup G]

/-- Two directors have answered alike, and the truth, and are still in step. -/
def Agreed (L : Ledger S V F G Sc)
    (tied : Multiset (Nat × Nat) → S → D → E → Prop) (seen : List (Sc × S))
    (d : D) (other : List (Sc × S)) (e : E) : Prop :=
  seen = other ∧ L.Truthful seen ∧ ∃ s, tied 0 s d e

omit [Director D S Sc] [Director E S Sc] in
theorem agreed_nil (h : tied 0 s d e) : Agreed L tied [] d [] e :=
  ⟨rfl, fun _ hmem => (nomatch hmem), s, h⟩

/-- What both answer and have stored. -/
theorem agreed_score [LawfulPlanning S] (lawful : L.Lawful)
    (step : L.InStep tied)
    (h : tied 0 (Planning.store (some (L.score s)) s) d e) :
    Agreed L tied [(L.score s, Director.working d)] d
      [(L.score s, Director.working e)] e := by
  obtain ⟨hd, he⟩ := step.working h
  rw [hd, he]
  refine ⟨rfl, fun call hmem => ?_, _, h⟩
  rw [List.mem_singleton.mp hmem]
  exact ⟨(lawful.score_store _ _).symm, LawfulPlanning.stored_store _ _⟩

mutual

/-- A turn keeps two directors in step. -/
theorem both_run [LawfulPlanning S] (lawful : L.Lawful) :
    ∀ (turn : DirectorTurn S V) {D E : Type} [Director D S Sc] [Director E S Sc]
    {tied : Multiset (Nat × Nat) → S → D → E → Prop} {s : S} {d : D} {e : E},
    turn.Fair L → L.InStep tied → tied 0 s d e →
    Act.Both turn.run turn.run d e (Agreed L tied)
  | batch slots name write undo, _, _, _, _, _, s, _, _, fair, step, h => by
    refine Act.both_bind ((step.both_change name undo (fair.1 s) fair.2 h).mono
      fun _ _ _ _ g => ?_)
    exact Act.both_pure (agreed_nil g)
  | move m, _, _, _, _, _, _, _, _, fair, step, h => by
    refine Act.both_bind ((step.both_move lawful m.steps fair.1 fair.2 h).mono
      fun _ _ _ _ g => ?_)
    exact Act.both_pure (agreed_nil g)
  | push write slot, _, _, _, _, _, s, _, _, fair, step, h => by
    obtain ⟨hd, he⟩ := step.working h
    refine Act.both_bind (Act.both_get (Act.both_bind (Act.both_update ?_)))
    rw [hd, he]
    refine Act.both_bind ((step.added h write (fair s)).mono
      fun _ _ _ _ g => ?_)
    exact Act.both_pure (agreed_nil g)
  | rewrite write, _, _, _, _, _, _, _, _, _, step, h => by
    refine Act.both_bind
      (Act.both_update (Act.both_bind ((step.reset h write).mono ?_)))
    exact fun _ _ _ _ g => Act.both_pure (agreed_nil g)
  | trial turns ending, _, _, _, _, _, _, _, _, fair, step, h => by
    -- on recordings the same holds, and what is left of them is the
    -- directors before
    refine Act.both_zoom
      (Act.both_bind ((both_runAll lawful turns fair step.recording
      (Ledger.recorded_start h)).mono fun seen r other q g => ?_))
    obtain ⟨hsame, truthful, s', hr⟩ := g
    refine Act.both_bind ?_
    cases ending with
    | undone =>
        refine (step.both_undoChanges hr).mono fun _ _ _ _ g => Act.both_pure ?_
        obtain ⟨s'', hinner⟩ := g
        exact ⟨hsame, truthful, s'', hinner.inner⟩
    | kept =>
        exact Act.both_update (Act.both_pure ⟨hsame, truthful, s', hr.inner⟩)
  | score, _, _, _, _, _, _, _, _, _, step, h => by
    refine Act.both_bind ((step.score h).mono fun _ _ _ _ g =>
      Act.both_bind (Act.both_get ?_))
    obtain ⟨rfl, rfl, hscored⟩ := g
    exact Act.both_pure (agreed_score lawful step hscored)
  | tryScore, _, _, _, _, _, _, _, _, _, step, h => by
    refine Act.both_bind ((step.tryScore h).mono fun _ _ _ _ g => ?_)
    obtain ⟨rfl, rfl, hscored⟩ := g
    exact Act.both_bind
      (Act.both_get (Act.both_pure (agreed_score lawful step hscored)))

/-- Two directors in step stay so along any fair turns. -/
theorem both_runAll [LawfulPlanning S] (lawful : L.Lawful) :
    ∀ (turns : List (DirectorTurn S V)) {D E : Type} [Director D S Sc]
        [Director E S Sc]
    {tied : Multiset (Nat × Nat) → S → D → E → Prop} {s : S} {d : D} {e : E},
    FairAll L turns → L.InStep tied → tied 0 s d e →
    Act.Both (runAll turns) (runAll turns) d e (Agreed L tied)
  | [], _, _, _, _, _, _, _, _, _, _, h => Act.both_pure (agreed_nil h)
  | turn :: rest, _, _, _, _, _, _, _, _, fair, step, h => by
    refine Act.both_bind ((both_run lawful turn fair.1 step h).mono
      fun seen _ other _ g => ?_)
    obtain ⟨rfl, truthful, _, hnext⟩ := g
    refine Act.both_bind ((both_runAll lawful rest fair.2 step hnext).mono
      fun more _ _ _ g => ?_)
    obtain ⟨rfl, htruthful, s', hlast⟩ := g
    refine Act.both_pure ⟨rfl, fun call hmem => ?_, s', hlast⟩
    rcases List.mem_append.mp hmem with hmem | hmem
    · exact truthful call hmem
    · exact htruthful call hmem

end

omit [Planning S Sc] [AddCommGroup G] in
/-- A move of a single step. -/
theorem fair_step {t : Step S V} (scope : t.Over L.family)
    (distinct : t.Distinct) : (move (.step t) : DirectorTurn S V).Fair L := by
  constructor
  · intro u hu
    rw [List.mem_singleton.mp hu]
    exact scope
  · intro u hu
    rw [List.mem_singleton.mp hu]
    exact distinct

omit [Planning S Sc] [AddCommGroup G] in
/-- A step that some solution admits keeps to the protocol, unless it
restores links: those are not looked at. -/
theorem fair_of_make? [BEq V] [Shown V] {t u : Step S V}
    (scope : t.Over L.family) (made : t.make? s = .ok u)
    (unrestored : ∀ x links, t ≠ .restore x links) :
    (move (.step t) : DirectorTurn S V).Fair L :=
  fair_step scope (Step.distinct_of_make? made fun x links h =>
    absurd h (unrestored x links))

/-- On every run in keeping with the protocol a director by running totals
and one that scores from scratch give the same answers, each of them is the
score of the solution at the time, and it is stored there. -/
theorem scores_agree [LawfulPlanning S] (lawful : L.Lawful)
    (turns : List (DirectorTurn S V)) (fair : FairAll L turns)
    (totals : G) (s : S) :
    Act.Both (runAll turns) (runAll turns)
      (IncrementalDirector.start L.calculator totals s)
        (FullDirector.start (fun s => .ok (L.score s)) s) fun seen d other e =>
        seen = other ∧ Director.working d = Director.working e ∧
          ∀ call ∈ seen, call.1 = L.score call.2 ∧ Planning.stored call.2
            = some call.1 := by
  refine (both_runAll lawful turns fair lawful.inStep_tied
    (L.tied_start totals s)).mono ?_
  intro seen d other e h
  obtain ⟨hsame, truthful, s', htied⟩ := h
  obtain ⟨hd, he⟩ := lawful.inStep_tied.working htied
  exact ⟨hsame, hd.trans he.symm, truthful⟩

/-- A run with everything in it: scores before and after the first scan, a
trial within a trial, an entity pushed in the midst of one, and an edit that
nobody was told of. -/
theorem scores_agree_nested :
    let x := Mixed.basic "x" 0 Mixed.ax fun s c => { s with ax := c }
    let prev := Mixed.chainedOver "prev" 4 Mixed.prev fun s t =>
      { s with prev := t }
    let s : Mixed :=
      ⟨⟨[some 1, none], [1, 2]⟩, ⟨[], []⟩, ⟨[], []⟩, ⟨[], []⟩,
        ⟨[some (.anchor 0), some (.entity 0), none], 2⟩, ⟨[], 0⟩, none⟩
    let turns : List (DirectorTurn Mixed Int) := [
      .move (.step (.change x 1 (some 2))), .score,
      .trial [
        .move (.composite [.step (.swap x 0 0),
          .step (.tailSwap prev 1 (.anchor 1))]),
        .trial [.move (.step (.pillarChange x [0, 1] none)), .tryScore] .undone,
        .push (fun s =>
            { s with ax := { s.ax with held := s.ax.held ++ [some 3] } })
          fun s => (0, s.ax.held.length),
        .score] .undone,
      .batch [(0, 1)] "x" (fun s => x.set s 1 (some 5))
        (some fun s => x.set s 1 none),
      .rewrite (fun s => { s with prev := ⟨[none], 1⟩ }), .score, .score]
    (Mixed.ledger.Lawful ∧ FairAll Mixed.ledger turns) ∧
    Act.Both (runAll turns) (runAll turns)
      (IncrementalDirector.start Mixed.ledger.calculator (0, 0) s)
      (FullDirector.start (fun s => .ok (Mixed.ledger.score s)) s)
          fun seen d other e =>
        seen = other ∧ Director.working d = Director.working e ∧
          ∀ call ∈ seen, call.1 = Mixed.ledger.score call.2 ∧
            Planning.stored call.2 = some call.1 := by
  intro x prev s turns
  have hx : x ∈ Mixed.ledger.family.basics := List.mem_cons_self ..
  have hprev : prev ∈ Mixed.ledger.family.chained := List.mem_cons_self ..
  have within : ∀ (value : Option Int) (s : Mixed),
      Mixed.ledger.Within [(0, 1)] s (x.set s 1 value) :=
    fun value s => Mixed.lawful_ledger.within_setAll hx [(1, value)] s
  have pillar : (move (.step (.pillarChange x [0, 1] none))).Fair
      Mixed.ledger :=
    -- it is one where both entities hold what the first one does here
    fair_of_make? (s := x.set s 1 (some 1)) hx rfl fun _ _ => nofun
  have fair : FairAll Mixed.ledger turns := by
    refine ⟨fair_step hx trivial, trivial,
      ⟨⟨?_, ?_⟩, ⟨pillar, trivial, trivial⟩, ?_, trivial, trivial⟩, ⟨?_, ?_⟩,
      trivial, trivial, trivial, trivial⟩
    · intro t ht
      rcases List.mem_cons.mp ht with rfl | ht
      · exact hx
      · rw [List.mem_singleton.mp ht]
        exact hprev
    · intro t ht
      rcases List.mem_cons.mp ht with rfl | ht
      · trivial
      · rw [List.mem_singleton.mp ht]
        trivial
    · exact fun s => Mixed.grows_append (some 3) s
    · exact fun s => (within (some 5) s).covers (by decide)
    · intro undo hundo s
      cases hundo
      exact within none s
  exact ⟨⟨Mixed.lawful_ledger, fair⟩,
    scores_agree Mixed.lawful_ledger turns fair (0, 0) s⟩

/-- A restore that names an entity twice: its entry is taken out twice, and
the new one is put in twice. -/
theorem scores_drift_repeated :
    let prev := Mixed.chainedOver "prev" 4 Mixed.prev fun s t =>
      { s with prev := t }
    let m : Move Mixed Int :=
      .step (.restore prev [(0, some (.anchor 0)), (0, some (.anchor 0))])
    let s : Mixed :=
      ⟨⟨[], []⟩, ⟨[], []⟩, ⟨[], []⟩, ⟨[], []⟩, ⟨[none], 1⟩, ⟨[], 0⟩, none⟩
    let turns : List (DirectorTurn Mixed Int) := [.score, .move m, .score]
    let totals := (runAll turns).run
      (IncrementalDirector.start Mixed.ledger.calculator (0, 0) s)
    let scratch := (runAll turns).run
      (FullDirector.start (fun s => .ok (Mixed.ledger.score s)) s)
    (Mixed.ledger.Lawful ∧ m.Over Mixed.ledger.family) ∧
      totals.1.map (List.map Prod.fst)
        = .ok [HardSoft.of (-1) 0, HardSoft.of 1 (-20)] ∧
      scratch.1.map (List.map Prod.fst)
          = .ok [HardSoft.of (-1) 0, HardSoft.of 0 (-10)] := by
  intro prev m s turns totals scratch
  have hprev : prev ∈ Mixed.ledger.family.chained := List.mem_cons_self ..
  refine ⟨⟨Mixed.lawful_ledger, fun t ht => ?_⟩, by decide +kernel, by
    decide +kernel⟩
  rw [List.mem_singleton.mp ht]
  exact hprev

end DirectorTurn

end PlanSearch

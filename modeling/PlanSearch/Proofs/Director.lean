/-
Directors as their callers count on them.

A director may do what it likes with its totals and its cached score, but
the working solution is the caller's: an edit reaches it as it is,
announcements and undos handed over leave it alone, and a score call at
most stores a score on it. `LawfulDirector` says so; the directors here
are lawful, and a recording is as lawful as the one it stands before.

# Faults

A director may fault, and nothing is promised about a run it breaks off.
`Quiet d` says that no sequence of announcements and edits makes `d`
fault, `Sound d` that no sequence of score calls among them does either.
Both are stated through an invariant of the calls (`Announced`, `Asked`),
which is also what the proofs about runs carry along: with the excuse
`¬ Quiet d`, a run that breaks off has met a director that is not quiet.
-/
import PlanSearch.Director.Full
import PlanSearch.Director.Incremental
import PlanSearch.Director.Recording
import PlanSearch.Proofs.Act
import PlanSearch.Proofs.Variables

namespace PlanSearch

/-- What a score call may do to the working solution: nothing, or store a
score on it. -/
def ScoreStored {S Sc : Type} [Planning S Sc] (s s' : S) : Prop :=
  s' = s ∨ ∃ score : Option Sc, s' = Planning.store score s

/-- A solution remembers the score stored last, and nothing of those before. -/
class LawfulPlanning (S : Type) {Sc : Type} [Planning S Sc] : Prop where
  stored_store : ∀ (score : Option Sc) (s : S),
    Planning.stored (Planning.store score s) = score
  store_store : ∀ (first second : Option Sc) (s : S),
    Planning.store second (Planning.store first s) = Planning.store second s

namespace Planning

variable {S Sc α : Type} [Planning S Sc] [LawfulPlanning S] {s t : S}

/-- The solution without the score it stores. -/
def bare (s : S) : S := store none s

theorem bare_store (score : Option Sc) (s : S) :
    bare (store score s) = bare s :=
  LawfulPlanning.store_store _ _ _

/-- Solutions that differ in the stored score only agree once it is replaced. -/
theorem store_congr (h : bare s = bare t) (score : Option Sc) :
    store score s = store score t := by
  rw [← LawfulPlanning.store_store none score s,
    ← LawfulPlanning.store_store none score t]
  exact congrArg (store score) h

omit [LawfulPlanning S] in
/-- They agree in what does not look at the stored score. -/
theorem congr_of_store {read : S → α}
    (blind : ∀ (score : Option Sc) s, read (store score s) = read s)
    (h : bare s = bare t) : read s = read t := by
  rw [← blind none s, ← blind none t]
  exact congrArg read h

omit [LawfulPlanning S] in
/-- They go on agreeing after a change that does not. -/
theorem bare_congr {write : S → S}
    (blind : ∀ (score : Option Sc) s,
      write (store score s) = store score (write s))
    (h : bare s = bare t) : bare (write s) = bare (write t) := by
  unfold bare at h ⊢
  rw [← blind none s, ← blind none t, h]

end Planning

/-- Solutions that differ by a stored score are the same otherwise. -/
theorem ScoreStored.bare_eq {S Sc : Type} [Planning S Sc]
    [LawfulPlanning S] {s t : S} (h : ScoreStored s t) :
    Planning.bare t = Planning.bare s := by
  obtain rfl | ⟨score, rfl⟩ := h
  · rfl
  · exact Planning.bare_store score s

/-- A director that touches the working solution only as it is told to. -/
class LawfulDirector (D : Type) {S Sc : Type} [Planning S Sc]
    [Director D S Sc] : Prop where
  working_edit : ∀ (f : S → S) (d : D), Director.working (Director.edit f d)
    = f (Director.working d)
  working_before : ∀ (descriptor entity : Nat) (name : String) (d : D),
    (Director.before descriptor entity name).Leads True d
      fun _ d' => Director.working d' = Director.working d
  working_after : ∀ (descriptor entity : Nat) (name : String) (d : D),
    (Director.after descriptor entity name).Leads True d
      fun _ d' => Director.working d' = Director.working d
  working_keepUndo : ∀ (undo : S → S) (d : D),
    (Director.keepUndo undo).Leads True d
      fun _ d' => Director.working d' = Director.working d
  working_score : ∀ d : D, (Director.score (D := D)).Leads True d
    fun _ d' => ScoreStored (Director.working d) (Director.working d')
  working_tryScore : ∀ d : D, (Director.tryScore (D := D)).Leads True d
    fun _ d' => ScoreStored (Director.working d) (Director.working d')

namespace Director

variable {D S Sc : Type} [Director D S Sc] {excuse : Prop} {inv : D → Prop}

-- ====================================================== invariants of calls

/-- An invariant of announcements, edits and undos handed over. -/
structure Announced (excuse : Prop) (inv : D → Prop) : Prop where
  edit : ∀ (f : S → S) (d : D), inv d → inv (Director.edit f d)
  before : ∀ (descriptor entity : Nat) (name : String),
    (Director.before descriptor entity name).Preserves excuse inv
  after : ∀ (descriptor entity : Nat) (name : String),
    (Director.after descriptor entity name).Preserves excuse inv
  keepUndo : ∀ undo : S → S, (Director.keepUndo undo).Preserves excuse inv

/-- An invariant of score calls as well. -/
structure Asked (excuse : Prop) (inv : D → Prop) :
    Prop extends Announced excuse inv where
  score : (Director.score (D := D)).Preserves excuse inv
  tryScore : (Director.tryScore (D := D)).Preserves excuse inv

/-- No sequence of announcements and edits makes the director fault. -/
def Quiet (d : D) : Prop := ∃ inv : D → Prop, inv d ∧ Announced False inv

/-- No sequence of announcements, edits and score calls does. -/
def Sound (d : D) : Prop := ∃ inv : D → Prop, inv d ∧ Asked False inv

/-- A director keeps an invariant as long as it is quiet, and where it is
not, that excuses a fault. -/
theorem exists_announced (d : D) :
    ∃ inv : D → Prop, inv d ∧ Announced (¬ Quiet d) inv := by
  by_cases hd : Quiet d
  · obtain ⟨inv, hinv, calls⟩ := hd
    exact ⟨inv, hinv, calls.edit,
      fun k e name => (calls.before k e name).excused, fun k e name =>
      (calls.after k e name).excused, fun undo => (calls.keepUndo undo).excused⟩
  · exact ⟨fun _ => True, trivial, fun _ _ _ => trivial,
      fun _ _ _ => Act.preserves_of_excuse hd _, fun _ _ _ =>
        Act.preserves_of_excuse hd _,
      fun _ => Act.preserves_of_excuse hd _⟩

/-- The same for score calls. -/
theorem exists_asked (d : D) :
    ∃ inv : D → Prop, inv d ∧ Asked (¬ Sound d) inv := by
  by_cases hd : Sound d
  · obtain ⟨inv, hinv, calls⟩ := hd
    exact ⟨inv, hinv,
      ⟨calls.edit, fun k e name => (calls.before k e name).excused,
      fun k e name => (calls.after k e name).excused, fun undo =>
      (calls.keepUndo undo).excused⟩, calls.score.excused,
      calls.tryScore.excused⟩
  · exact ⟨fun _ => True, trivial, ⟨fun _ _ _ => trivial,
      fun _ _ _ => Act.preserves_of_excuse hd _, fun _ _ _ =>
        Act.preserves_of_excuse hd _,
      fun _ => Act.preserves_of_excuse hd _⟩, Act.preserves_of_excuse hd _,
      Act.preserves_of_excuse hd _⟩

/-- A call that leaves the working solution alone leaves it as it is known. -/
theorem preserves_working {α : Type} {act : Act D α}
    (h : act.Preserves excuse inv)
    (working : ∀ d, act.Leads True d fun _ d' => Director.working d'
      = Director.working d)
    (s : S) : act.Preserves excuse fun d => inv d ∧ Director.working d = s := by
  intro d g
  obtain ⟨hd, rfl⟩ := g
  exact (h d hd).and (working d)

end Director

-- ============================================================ the directors

variable {D S Sc T : Type} [Planning S Sc]

namespace FullDirector

/-- A score that is kept needs no call, and a fresh one is stored. -/
theorem leads_score (d : FullDirector S Sc) :
    (score : Act (FullDirector S Sc) Sc).Leads True d
      fun _ d' => ScoreStored d.working d'.working := by
  refine Act.leads_bind (Act.leads_get ?_)
  cases hcached : d.cached with
  | some kept => exact Act.leads_pure (.inl rfl)
  | none =>
      refine Act.leads_bind (Act.leads_lift fun fresh _ => ?_)
      exact Act.leads_bind
        (Act.leads_set (Act.leads_pure (.inr ⟨some fresh, rfl⟩)))

instance : LawfulDirector (FullDirector S Sc) where
  working_edit _ _ := rfl
  working_before _ _ _ _ := Act.leads_update rfl
  working_after _ _ _ _ := Act.leads_update rfl
  working_keepUndo _ _ := Act.leads_pure rfl
  working_score := leads_score
  working_tryScore d :=
    Act.leads_bind ((leads_score d).mono (fun _ _ h => Act.leads_pure h) id)

/-- Only scoring can fault. -/
theorem quiet (d : FullDirector S Sc) : Director.Quiet d :=
  ⟨fun _ => True, trivial, fun _ _ _ => trivial,
    fun _ _ _ _ _ => Act.leads_update trivial, fun _ _ _ _ _ =>
    Act.leads_update trivial, fun _ _ _ => Act.leads_pure trivial⟩

/-- The director scores by a function, and a score that it keeps is the one
of its solution, stored there. -/
structure Settled (score : S → Sc) (s : S) (d : FullDirector S Sc) : Prop where
  scoring : d.scoring = fun s => .ok (score s)
  working : d.working = s
  cached : ∀ kept, d.cached = some kept →
    kept = score s ∧ Planning.store (some kept) s = s

variable {rating : S → Sc} {s : S} {d : FullDirector S Sc}

theorem settled_start (rating : S → Sc) (s : S) :
    Settled rating s (start (fun s => .ok (rating s)) s) :=
  ⟨rfl, rfl, fun _ h => (nomatch h)⟩

theorem Settled.edit (h : Settled rating s d) (write : S → S) :
    Settled rating (write s) (Director.edit write d) :=
  ⟨h.scoring, congrArg write h.working, fun _ g => (nomatch g)⟩

/-- Forgetting the kept result leaves the director settled. -/
theorem Settled.leads_forget (h : Settled rating s d) {excuse : Prop} :
    (forget : Act (FullDirector S Sc) Unit).Leads excuse d fun _ =>
    Settled rating s :=
  Act.leads_update ⟨h.scoring, h.working, fun _ g => (nomatch g)⟩

/-- A score call answers the score and leaves it stored. -/
theorem Settled.leads_score [LawfulPlanning S]
    (stored : ∀ score s, rating (Planning.store score s) = rating s)
    (h : Settled rating s d) :
    (FullDirector.score : Act (FullDirector S Sc) Sc).Leads False d
      fun score d' =>
      score = rating s ∧
      Settled rating (Planning.store (some (rating s)) s) d' := by
  refine Act.leads_bind (Act.leads_get ?_)
  cases hcached : d.cached with
  | some kept =>
      obtain ⟨rfl, hstore⟩ := h.cached kept hcached
      exact Act.leads_pure ⟨rfl, hstore.symm ▸ h⟩
  | none =>
      refine Act.leads_bind (Act.leads_of_run (t := d) (a := rating s) ?_ ?_)
      · show (d.scoring d.working, d) = _
        rw [h.scoring, h.working]
      · refine Act.leads_bind
          (Act.leads_set (Act.leads_pure ⟨rfl, h.scoring, ?_, ?_⟩))
        · show Planning.store _ d.working = _
          rw [h.working]
        · intro kept g
          obtain rfl : rating s = kept := Option.some.inj g
          exact ⟨(stored _ _).symm, LawfulPlanning.store_store _ _ _⟩

theorem Settled.leads_tryScore [LawfulPlanning S]
    (stored : ∀ score s, rating (Planning.store score s) = rating s)
    (h : Settled rating s d) :
    (Director.tryScore (D := FullDirector S Sc)).Leads False d fun answer d' =>
      answer = .ok (rating s) ∧
      Settled rating (Planning.store (some (rating s)) s) d' := by
  refine Act.leads_bind ((h.leads_score stored).mono (fun score d' g => ?_) id)
  obtain ⟨rfl, hd'⟩ := g
  exact Act.leads_pure ⟨rfl, hd'⟩

/-- The director scores by a function that may break off, and a score that it
keeps is the one of its solution. -/
structure Rated (rating : S → Except Fault Sc)
    (d : FullDirector S Sc) : Prop where
  scoring : d.scoring = rating
  cached : ∀ kept, d.cached = some kept → rating d.working = .ok kept

omit [Planning S Sc] in
theorem rated_start (rating : S → Except Fault Sc) (s : S) :
    Rated rating (start rating s) :=
  ⟨rfl, fun _ h => nomatch h⟩

/-- Whatever is done to the director, it goes on so. -/
theorem announced_rated (rating : S → Except Fault Sc) :
    Director.Announced False (Rated (S := S) rating) where
  edit _ _ h := ⟨h.scoring, fun _ g => nomatch g⟩
  before _ _ _ _ h := Act.leads_update ⟨h.scoring, fun _ g => nomatch g⟩
  after _ _ _ _ h := Act.leads_update ⟨h.scoring, fun _ g => nomatch g⟩
  keepUndo _ _ h := Act.leads_pure h

/-- A score call answers the score, if there is one, and changes nothing
else. -/
theorem Rated.leads_score [LawfulPlanning S] {rating : S → Except Fault Sc}
    (stored : ∀ score s, rating (Planning.store score s) = rating s)
    (h : Rated rating d) :
    (score : Act (FullDirector S Sc) Sc).Leads
      (∃ f, rating d.working = .error f) d fun score d' =>
      rating d.working = .ok score ∧ Rated rating d' ∧
        Planning.bare d'.working = Planning.bare d.working := by
  refine Act.leads_bind (Act.leads_get ?_)
  cases hcached : d.cached with
  | some kept => exact Act.leads_pure ⟨h.cached kept hcached, h, rfl⟩
  | none =>
      refine Act.leads_bind (Act.leads_lift_or (fun fresh hfresh => ?_)
        fun f hf => ⟨f, ?_⟩)
      · rw [h.scoring] at hfresh
        refine Act.leads_bind
          (Act.leads_set (Act.leads_pure ⟨hfresh, ⟨h.scoring, ?_⟩, ?_⟩))
        · intro kept g
          cases g
          exact (stored _ _).trans hfresh
        · exact Planning.bare_store _ _
      · rw [h.scoring] at hf
        exact hf

end FullDirector

namespace IncrementalDirector

omit [Planning S Sc] in
/-- Totals are all that a calculator works on. -/
theorem leads_calculate {α : Type} (act : Calculator S Sc T → S → Act T α)
    (d : IncrementalDirector S Sc T) :
    (calculate act).Leads True d fun _ d' => d'.working = d.working := by
  refine Act.leads_bind (Act.leads_get (Act.leads_zoom ?_))
  unfold Act.Leads
  cases (act d.calculator d.working).run d.totals with
  | mk result totals => cases result <;> trivial

omit [Planning S Sc] in
/-- The calculator works on totals, not on the solution. -/
theorem leads_pass (act : Calculator S Sc T → S → Act T Unit)
    (d : IncrementalDirector S Sc T) :
    (pass act).Leads True d fun _ d' => d'.working = d.working := by
  refine Act.leads_bind (Act.leads_get ?_)
  cases hready : d.ready with
  | true => exact leads_calculate act d
  | false => exact Act.leads_pure rfl

omit [Planning S Sc] in
/-- The first scan leaves the solution alone. -/
theorem leads_prepare (d : IncrementalDirector S Sc T) :
    (prepare : Act (IncrementalDirector S Sc T) Unit).Leads True d
      fun _ d' => d'.working = d.working := by
  refine Act.leads_bind (Act.leads_get ?_)
  cases hready : d.ready with
  | true => exact Act.leads_pure rfl
  | false =>
      refine Act.leads_bind ((leads_calculate _ d).mono (fun _ d' h => ?_) id)
      exact Act.leads_modify h

instance : LawfulDirector (IncrementalDirector S Sc T) where
  working_edit _ _ := rfl
  working_before _ _ _ := leads_pass _
  working_after _ _ _ := leads_pass _
  working_keepUndo _ _ := Act.leads_pure rfl
  working_score d := by
    refine Act.leads_bind ((leads_prepare d).mono (fun _ d' h => ?_) id)
    refine Act.leads_bind (Act.leads_look fun total _ => ?_)
    refine Act.leads_bind
      (Act.leads_update (Act.leads_pure (.inr ⟨some total, ?_⟩)))
    show Planning.store (some total) d'.working = _
    rw [h]
    rfl
  working_tryScore d := by
    refine Act.leads_bind ((leads_prepare d).mono (fun _ d' h => ?_) id)
    refine Act.leads_bind (Act.leads_look fun total _ => ?_)
    cases total with
    | error e => exact Act.leads_pure (.inl h)
    | ok total =>
        refine Act.leads_bind
          (Act.leads_update (Act.leads_pure (.inr ⟨some total, ?_⟩)))
        show Planning.store (some total) d'.working = _
        rw [h]
        rfl

end IncrementalDirector

namespace Recording

variable [Director D S Sc]

instance [LawfulDirector D] : LawfulDirector (Recording D S) where
  working_edit f r := LawfulDirector.working_edit f r.inner
  working_before k e name r := by
    show (inside (Director.before k e name)).Leads True r _
    exact Act.leads_zoom (LawfulDirector.working_before k e name r.inner)
  working_after k e name r := by
    refine Act.leads_bind (Act.leads_zoom ?_)
    refine (LawfulDirector.working_after k e name r.inner).mono
      (fun _ d' h => ?_) id
    refine Act.leads_update ?_
    split <;> exact h
  working_keepUndo _ _ := Act.leads_update rfl
  working_score r := by
    show (inside (Director.score (D := D))).Leads True r _
    exact Act.leads_zoom (LawfulDirector.working_score r.inner)
  working_tryScore r := by
    show (inside (Director.tryScore (D := D))).Leads True r _
    exact Act.leads_zoom (LawfulDirector.working_tryScore r.inner)

end Recording

end PlanSearch

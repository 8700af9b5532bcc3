/-
The ward's climb never loses ground and reports the truth.

The ward searches with trees about one variable, who holds an assignment.
Each move of such a tree is a row of writes with a way back
(`Step.Fits.exists_rewrites`), and what is held is all of a roster that a
write can reach (`SameFrame`, `bare_eq`). So every trial leaves the roster
as it found it but for the score stored there, which neither the moves
nor the rules look at: the moves are steady, and the theory of climbs
applies.

# What is left to break off

The moves of a pass give employees of the roster or exchange what is
held, so whoever holds an assignment goes on existing, and no day moves.
The one fault that remains is a score that overflows in the course of the
climb; `Overflows` names it, and rosters of up to `mostAssignments`
assignments do not.
-/
import PlanSearch.Proofs.Demand
import PlanSearch.Proofs.Problems
import PlanSearch.Proofs.Search.Climb
import PlanSearch.Proofs.Selector.Single
import PlanSearch.Proofs.Ward.Rules
import PlanSearch.Ward

namespace PlanSearch

namespace Roster

open Planning

variable {s t u : Roster} {name : String}

-- ================================================================= holders

/-- Who holds which assignment, by index. -/
def holders : Cells Roster Nat :=
  ⟨fun s => s.assignments.length, employeeAt, assign⟩

/-- Who holds the assignments is a column of the roster. -/
theorem columnar_holders :
    holders.Columnar fun s => s.assignments.map Assignment.employee where
  count s := (List.length_map ..).symm
  get s e := by
    rw [List.getElem?_map]
    show (s.assignments[e]?).bind Assignment.employee
      = ((s.assignments[e]?).map Assignment.employee).join
    cases s.assignments[e]? with
    | none => rfl
    | some a => rfl

theorem lawful_holders : holders.Lawful := by
  refine columnar_holders.lawful fun s e holder => ?_
  show (s.assignments.modify e fun a => { a with employee := holder }).map
    Assignment.employee = _
  exact Cells.map_modify s.assignments e fun _ => rfl

theorem get_eq (s : Roster) (e : Nat) :
    (variableNamed name).get s e = (s.employeeAt e).map fun n : Nat =>
    (n : Int) := by
  unfold variableNamed
  dsimp only
  cases s.employeeAt e <;> rfl

/-- The variable writes holders. Its values are numbers of employees, and it
takes any other integer for one. -/
theorem setAll_eq (s : Roster) (changes : List (Nat × Option Int)) :
    (variableNamed name).setAll s changes
      = holders.setAll s (changes.map fun c => (c.1, c.2.map Int.toNat)) := by
  unfold Cells.setAll
  rw [List.foldl_map]
  rfl

-- =================================================================== frame

/-- The assignments apart from who holds them. -/
def places (s : Roster) : List (Nat × Nat) :=
  s.assignments.map fun a => (a.id, a.shift)

/-- Rosters that differ in who holds their assignments, and in the stored
score, at most. -/
structure SameFrame (s t : Roster) : Prop where
  employees : s.employees = t.employees
  shifts : s.shifts = t.shifts
  places : s.places = t.places

theorem SameFrame.trans (h : SameFrame s t) (g : SameFrame t u) :
    SameFrame s u :=
  ⟨h.employees.trans g.employees, h.shifts.trans g.shifts,
    h.places.trans g.places⟩

/-- Rosters that differ in their stored score at most. -/
theorem eq_store_of_bare (h : bare t = bare s) :
    ∃ score, t = store score s := by
  obtain ⟨employees, shifts, assignments, stored⟩ := t
  obtain ⟨employees', shifts', assignments', stored'⟩ := s
  cases h
  exact ⟨stored, rfl⟩

theorem sameFrame_of_bare (h : bare t = bare s) : SameFrame t s := by
  obtain ⟨score, rfl⟩ := eq_store_of_bare h
  exact ⟨rfl, rfl, rfl⟩

/-- A stored score does not change who holds what. -/
theorem agree_of_bare (h : bare t = bare s) : holders.Agree Eq t s := by
  obtain ⟨score, rfl⟩ := eq_store_of_bare h
  exact ⟨rfl, fun _ _ => rfl⟩

/-- Whoever holds an assignment, it stays where it is. -/
theorem places_set (s : Roster) (e : Nat) (holder : Option Nat) :
    (holders.set s e holder).places = s.places := by
  show (s.assignments.modify e fun a => { a with employee := holder }).map _ = _
  exact Cells.map_modify_of_keeps s.assignments e fun _ => rfl

/-- Changes of who holds what keep the frame. -/
theorem sameFrame_setAll (s : Roster) (changes : List (Nat × Option Int)) :
    SameFrame ((variableNamed name).setAll s changes) s := by
  rw [setAll_eq]
  exact ⟨Cells.setAll_keeps (fun _ _ _ => rfl) _ s,
    Cells.setAll_keeps (fun _ _ _ => rfl) _ s,
    Cells.setAll_keeps places_set _ s⟩

/-- Assignments are known by their id, their shift and their holder. -/
theorem eq_of_parts {a b : Assignment} (id : a.id = b.id)
    (shift : a.shift = b.shift) (employee : a.employee = b.employee) :
    a = b := by
  obtain ⟨i, k, holder⟩ := a
  obtain rfl : i = b.id := id
  obtain rfl : k = b.shift := shift
  obtain rfl : holder = b.employee := employee
  rfl

/-- The frame and the holders are all there is, but for the stored score. -/
theorem bare_eq (frame : SameFrame s t) (h : holders.Agree Eq s t) :
    bare s = bare t := by
  obtain ⟨hemployees, hshifts, hplaces⟩ := frame
  have hassignments : s.assignments = t.assignments := by
    refine List.ext_getElem h.count fun i hs ht => ?_
    have hholder : (s.assignments[i]?).bind Assignment.employee
        = (t.assignments[i]?).bind Assignment.employee := h.get i ht
    rw [List.getElem?_eq_getElem hs, List.getElem?_eq_getElem ht] at hholder
    have hplace : (s.assignments.map fun a => (a.id, a.shift))[i]?
        = (t.assignments.map fun a => (a.id, a.shift))[i]? :=
          congrArg (·[i]?) hplaces
    rw [List.getElem?_map, List.getElem?_map, List.getElem?_eq_getElem hs,
      List.getElem?_eq_getElem ht] at hplace
    obtain ⟨hid, hshift⟩ := Prod.mk.inj (Option.some.inj hplace)
    exact eq_of_parts hid hshift hholder
  obtain ⟨employees, shifts, assignments, stored⟩ := s
  obtain rfl : employees = t.employees := hemployees
  obtain rfl : shifts = t.shifts := hshifts
  obtain rfl : assignments = t.assignments := hassignments
  rfl

-- =================================================================== moves

/-- Nurses are known if every assignment is held by one of the roster or by
no one. -/
theorem knowsNurses_iff :
    s.KnowsNurses ↔ ∀ e nurse, s.employeeAt e = some nurse →
    nurse < s.employees.length := by
  constructor
  · intro h e nurse hholder
    obtain ⟨a, ha, hnurse⟩ := Option.bind_eq_some_iff.mp hholder
    exact h a (List.mem_of_getElem? ha) nurse hnurse
  · intro h a ha nurse hnurse
    obtain ⟨e, he⟩ := List.getElem?_of_mem ha
    exact h e nurse (Option.bind_eq_some_iff.mpr ⟨a, he, hnurse⟩)

/-- Writing known nurses keeps them known. -/
theorem KnowsNurses.setAll (h : s.KnowsNurses)
    {changes : List (Nat × Option Int)}
    (given : ∀ change ∈ changes, ∀ v, change.2 = some v →
      v.toNat < s.employees.length) :
    ((variableNamed name).setAll s changes).KnowsNurses := by
  rw [knowsNurses_iff] at h ⊢
  intro e nurse hholder
  rw [(sameFrame_setAll s changes).employees]
  rw [setAll_eq] at hholder
  obtain ⟨a, ha, -⟩ := Option.bind_eq_some_iff.mp hholder
  have he : e < holders.count (holders.setAll s _) :=
    (List.getElem?_eq_some_iff.mp ha).1
  rw [lawful_holders.count_setAll] at he
  refine lawful_holders.get_setAll_of_held
    (fun holder => ∀ nurse, holder = some nurse →
      nurse < s.employees.length) _ he (h e)
    (fun change hchange _ nurse hnurse => ?_) nurse hholder
  obtain ⟨c, hc, rfl⟩ := List.mem_map.mp hchange
  obtain ⟨v, hv, rfl⟩ := Option.map_eq_some_iff.mp hnurse
  exact given c hc v hv

variable {m : Move Roster Int}

/-- A move that fits gives known nurses only. -/
theorem KnowsNurses.apply (h : s.KnowsNurses)
    (hm : m.Fits (variableNamed name) s) : (m.apply s).KnowsNurses := by
  obtain ⟨step, rfl, hstep⟩ := hm
  obtain ⟨old, new, hrewrites⟩ := hstep.exists_rewrites
  show (step.apply s).KnowsNurses
  rw [hrewrites.apply_eq]
  refine h.setAll fun change hchange v hv => ?_
  rcases hrewrites.given change hchange with ⟨w, hw, hvalue⟩ | ⟨e, hheld⟩
  · obtain rfl : v = w := Option.some.inj (hv.symm.trans hvalue)
    obtain ⟨nurse, hnurse, rfl⟩ := List.mem_map.mp hw
    exact List.mem_range.mp hnurse
  · rw [hheld, get_eq] at hv
    obtain ⟨nurse, hnurse, rfl⟩ := Option.map_eq_some_iff.mp hv
    exact knowsNurses_iff.mp h e nurse hnurse

/-- A move that fits the variable keeps the frame. -/
theorem sameFrame_apply (hm : m.Fits (variableNamed name) s) :
    SameFrame (m.apply s) s := by
  obtain ⟨step, rfl, hstep⟩ := hm
  obtain ⟨old, new, hrewrites⟩ := hstep.exists_rewrites
  show SameFrame (step.apply s) s
  rw [hrewrites.apply_eq]
  exact sameFrame_setAll s new

/-- The writes of a step do not depend on the stored score. -/
theorem rewrites_store {step : Step Roster Int}
    (hstep : step.Fits (variableNamed name) s)
    {old new : List (Nat × Option Int)}
    (h : step.Rewrites (variableNamed name) s old new)
    (score : Option HardSoft) :
    step.Rewrites (variableNamed name) (store score s) old new where
  batch := by
    rw [← h.batch]
    cases hstep <;> rfl
  entities := h.entities
  found := h.found
  given := h.given

/-- A stored score stays where it is while holders change. -/
theorem setAll_store (score : Option HardSoft) (s : Roster)
    (changes : List (Nat × Option Int)) :
    (variableNamed name).setAll (store score s) changes
      = store score ((variableNamed name).setAll s changes) := by
  induction changes generalizing s with
  | nil => rfl
  | cons change rest ih =>
      exact ih ((variableNamed name).set s change.1 change.2)

/-- The way back of a step leads back from whatever it led to. -/
theorem bare_setAll_back {step : Step Roster Int}
    {old new : List (Nat × Option Int)}
    (h : step.Rewrites (variableNamed name) s old new)
    (hu : bare u = bare ((variableNamed name).setAll s new)) :
    bare ((variableNamed name).setAll u old) = bare s := by
  refine bare_eq ?_ ?_
  · exact (sameFrame_setAll u old).trans
      ((sameFrame_of_bare hu).trans (sameFrame_setAll s new))
  · rw [setAll_eq] at hu ⊢
    refine lawful_holders.agree_setAll_back ?_ (fun change hchange => ?_)
      (agree_of_bare hu)
    · rw [List.map_map, List.map_map]
      exact h.entities
    · obtain ⟨c, hc, rfl⟩ := List.mem_map.mp hchange
      rw [h.found c hc, get_eq]
      show ((s.employeeAt c.1).map fun n : Nat => (n : Int)).map Int.toNat
        = s.employeeAt c.1
      cases s.employeeAt c.1 <;> rfl

/-- A move that fits is steady. -/
theorem steady_of_fits (hm : m.Fits (variableNamed name) s) : m.Steady s := by
  obtain ⟨step, rfl, hstep⟩ := hm
  obtain ⟨old, new, hrewrites⟩ := hstep.exists_rewrites
  refine ⟨fun t ht => ?_, fun t ht => ?_, fun t ht u hu => ?_⟩
  · obtain ⟨score, rfl⟩ := eq_store_of_bare ht
    have hdoable : step.isDoable (store score s) = step.isDoable s := by
      cases hstep <;> rfl
    show ([step].any fun t => t.isDoable (store score s)) = [step].any
      fun t => t.isDoable s
    rw [List.any_cons, List.any_cons, hdoable]
    rfl
  · obtain ⟨score, rfl⟩ := eq_store_of_bare ht
    show bare (step.apply (store score s)) = bare (step.apply s)
    rw [(rewrites_store hstep hrewrites score).apply_eq,
      hrewrites.apply_eq, setAll_store, bare_store]
  · obtain ⟨score, rfl⟩ := eq_store_of_bare ht
    have hu' : bare u = bare (step.apply s) := hu
    rw [hrewrites.apply_eq] at hu'
    show bare (playBack (Step.waysBack [step] (store score s)) u) = bare s
    rw [(rewrites_store hstep hrewrites score).waysBack_eq]
    exact bare_setAll_back hrewrites hu'

-- =================================================================== climb

/-- Some roster in the frame, with known nurses only, has a score that
overflows. -/
def Overflows (s : Roster) : Prop :=
  ∃ t, SameFrame t s ∧ t.KnowsNurses ∧ t.wardScore = .error .arithmetic

/-- Rosters that are not too long never do. -/
theorem not_overflows (days : HasTomorrow s.shifts)
    (h : s.assignments.length ≤ mostAssignments) : ¬ s.Overflows := by
  intro g
  obtain ⟨t, frame, known, hscore⟩ := g
  have hlength : t.assignments.length = s.assignments.length := by
    have hplaces := congrArg List.length frame.places
    unfold places at hplaces
    rwa [List.length_map, List.length_map] at hplaces
  obtain ⟨score, hok⟩ :=
    exists_wardScore known (frame.shifts ▸ days) (hlength ▸ h)
  rw [hok] at hscore
  cases hscore

/-- What the ward's climbs stand on: the frame of the first roster, and
known nurses. -/
theorem ground_of_draws {P : Type} {selector : Selector Roster Int}
    {supply : Roster → Act P (List (Move Roster Int))}
    (about : selector.About (variableNamed name))
    (draws : selector.Draws supply) (days : HasTomorrow s.shifts) :
    Climb.Ground wardScore supply s.Overflows fun t => SameFrame t s ∧
    t.KnowsNurses where
  stored _ _ := rfl
  kept hbare g := by
    obtain ⟨frame, known⟩ := g
    obtain ⟨score, rfl⟩ := eq_store_of_bare hbare
    exact ⟨⟨frame.employees, frame.shifts, frame.places⟩, known⟩
  total {t} g f hf := by
    obtain ⟨frame, known⟩ := g
    obtain rfl := eq_arithmetic_of_wardScore known (frame.shifts ▸ days) hf
    exact ⟨t, frame, known, hf⟩
  offers {t} g p := by
    obtain ⟨frame, known⟩ := g
    refine (draws t p).mono (fun moves _ hmoves m hm => ?_) False.elim
    have hfits := about.fits (hmoves m hm)
    exact ⟨steady_of_fits hfits, (sameFrame_apply hfits).trans frame,
      known.apply hfits⟩

end Roster

namespace Ward

/-- The ward's climb never loses ground and reports the truth, with any tree
without products and factories of moves, under every seed, and whatever is
drawn. Only a score that overflows makes it break off, and no roster of up
to `mostAssignments` assignments has one. -/
theorem climb_never_loses {config : SelectorConfig}
    {c : SelectorContext Roster Int}
    (hbasics : c.basics = Roster.wardWorld.basics) (hchained : c.chained = [])
    (simple : config.Simple) {outside : UInt64}
    {built : BuiltSelector Roster Int}
    (hbuild : config.build c outside = .ok built)
    {d : FullDirector Roster HardSoft} (hd : d.Rated Roster.wardScore)
    (known : d.working.KnowsNurses) (days : Roster.HasTomorrow d.working.shifts)
    (rounds : Nat) : (∀ take, (Climb.fromStart built.selector take rounds :
        Act (FullDirector Roster HardSoft) HardSoft).Leads d.working.Overflows d
      fun final d' => ∃ passes, Climbed Roster.wardScore
        (fun s => built.selector.offered s take) rounds d.working
          [] final d'.working passes) ∧
    (∀ (P : Type) (supply : Roster → Act P (List (Move Roster Int))) (p : P),
      built.selector.Draws supply →
      (Climb.start supply rounds : Act (Climb (FullDirector Roster HardSoft) P)
        HardSoft).Leads d.working.Overflows ⟨d, p⟩ fun final climb =>
        Climbed Roster.wardScore supply rounds
          d.working p final climb.director.working climb.passes) ∧
    (d.working.assignments.length ≤ Roster.mostAssignments →
      ¬ d.working.Overflows) := by
  have about := SelectorConfig.about_build hbasics hchained simple hbuild
  have inv : Roster.SameFrame d.working d.working ∧ d.working.KnowsNurses :=
    ⟨⟨rfl, rfl, rfl⟩, known⟩
  refine ⟨fun take => ?_, fun P supply p draws => ?_, Roster.not_overflows days⟩
  · exact (Roster.ground_of_draws about (about.draws_offered take)
      days).leads_fromStart
      rounds hd inv
  · exact (Roster.ground_of_draws about draws days).leads_start rounds p hd inv

/-- The ward's own tree, with its reference resolved. Ann works twice on her
day off, and a place is open. -/
theorem climb_never_loses_open_place :
    let unset := CommonSettings.unset
    let config : SelectorConfig := .union { unset with order := some .random }
      [.leaf { unset with order := some .random }
        (.change (some "Assignment") (some "nurse")),
        .leaf unset (.swap (some "Assignment") []),
        .leaf { unset with limit := some 50 }
          (.pillarChange none (some ⟨some true, none, some 2⟩) (some "nurse"))]
      (some "favour_swaps")
    let s : Roster := {
      employees := [⟨"Ann", [1]⟩, ⟨"Beth", [2]⟩]
      shifts := [⟨1, .early, 1⟩, ⟨1, .night, 1⟩, ⟨2, .early, 1⟩]
      assignments := [⟨0, 0, some 0⟩, ⟨1, 1, some 0⟩, ⟨2, 2, none⟩]
      stored := none }
    let d := FullDirector.start Roster.wardScore s
    (config.Simple ∧ d.Rated Roster.wardScore ∧ s.KnowsNurses ∧
      Roster.HasTomorrow s.shifts) ∧
    ∃ built, config.build context 0 = .ok built ∧
      (Climb.fromStart built.selector movesPerRound rounds :
          Act (FullDirector Roster HardSoft) HardSoft).Leads False d
        (fun final d' => ∃ passes, Climbed Roster.wardScore
          (fun s => built.selector.offered s movesPerRound) rounds s
            [] final d'.working
          passes) ∧
      ∀ (P : Type) (supply : Roster → Act P (List (Move Roster Int))) (p : P),
        built.selector.Draws supply →
        (Climb.start supply rounds :
          Act (Climb (FullDirector Roster HardSoft) P) HardSoft).Leads
          False ⟨d, p⟩ fun final climb =>
            Climbed Roster.wardScore supply rounds s p final
            climb.director.working climb.passes := by
  intro unset config s d
  have simple : config.Simple := by
    refine .union fun child hchild => ?_
    simp only [List.mem_cons, List.not_mem_nil, or_false] at hchild
    rcases hchild with rfl | rfl | rfl <;> exact .leaf rfl
  have hd : d.Rated Roster.wardScore :=
    FullDirector.rated_start Roster.wardScore s
  have known : s.KnowsNurses := by decide
  have days : Roster.HasTomorrow s.shifts := by decide
  have hbuild : ∃ built, config.build context 0 = .ok built := ⟨_, rfl⟩
  obtain ⟨built, hbuild⟩ := hbuild
  obtain ⟨own, drawn, short⟩ :=
    climb_never_loses rfl rfl simple hbuild hd known days rounds
  have hfits : ¬ s.Overflows := short (by decide)
  exact ⟨⟨simple, hd, known, days⟩, built, hbuild,
    (own movesPerRound).mono (fun _ _ h => h) hfits,
    fun P supply p draws =>
      (drawn P supply p draws).mono (fun _ _ h => h) hfits⟩

end Ward

end PlanSearch

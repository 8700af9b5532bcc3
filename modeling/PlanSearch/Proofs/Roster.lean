/-
What the plain rules of a roster come to.

The rules walk through the assignments and keep the employees and dates
they have met; what they charge for an assignment depends on those before
it. The sum does not: a list of employees and dates repeats itself as
often as it is longer than the set of its members (`hardPenalties_add`),
and that is a matter of counting (`sum_extras`). So the score is a formula
of counts (`score_eq`), and no count sees the order of the assignments.
-/
import Mathlib.Algebra.BigOperators.Group.Finset.Basic
import Mathlib.Algebra.BigOperators.Group.Finset.Sigma
import Mathlib.Data.Multiset.Count
import PlanSearch.Proofs.Ward.Rules

namespace PlanSearch.Roster

open Finset

variable {s : Roster}

-- ============================================================ vocabulary

/-- Every assignment is a place of a shift there is. -/
def KnowsShifts (s : Roster) : Prop :=
  ∀ a ∈ s.assignments, a.shift < s.shifts.length

instance (s : Roster) : Decidable s.KnowsShifts :=
  inferInstanceAs (Decidable (∀ a ∈ s.assignments, a.shift < s.shifts.length))

/-- Places that nobody holds. -/
def openPlaces (s : Roster) : Nat :=
  s.assignments.countP fun a => a.employee.isNone

/-- Whether an assignment is held by someone who has its date off. -/
def isWorkedOff (s : Roster) (a : Assignment) : Bool :=
  a.employee.any fun e => s.isOff e (s.dateOf a.shift)

/-- Assignments on a day off of whoever holds them. -/
def daysOffWorked (s : Roster) : Nat := s.assignments.countP s.isWorkedOff

/-- The employee and the date of an assignment that is held. -/
def place (s : Roster) (a : Assignment) : Option (Nat × Nat) :=
  a.employee.map fun e => (e, s.dateOf a.shift)

/-- The employees and dates of the assignments that are held. -/
def heldPlaces (s : Roster) : List (Nat × Nat) :=
  s.assignments.filterMap s.place

/-- The assignments of an employee on a date. -/
def placesOn (s : Roster) (employee date : Nat) : Nat :=
  s.assignments.countP fun a => a.employee == some employee &&
    s.dateOf a.shift == date

/-- The dates there are shifts on. -/
def dates (s : Roster) : Finset Nat := (s.shifts.map Shift.date).toFinset

/-- For every employee and date the assignments beyond the first. -/
def extraPlaces (s : Roster) : Nat :=
  ∑ e ∈ range s.employees.length, ∑ d ∈ s.dates, (s.placesOn e d - 1)

/-- The soft points: the squares of the workloads. -/
def squares (s : Roster) : Nat :=
  ∑ e ∈ range s.employees.length, s.workload e ^ 2

-- ============================================================== the walk

/-- A walk charges for what is open, for what is worked off, and for every
place that it met before or meets again. -/
theorem hardPenalties_add (seen : List (Nat × Nat)) (as : List Assignment) :
    s.hardPenalties seen as
      + ((as.filterMap s.place).toFinset \ seen.toFinset).card
        = as.countP (fun a => a.employee.isNone) + as.countP s.isWorkedOff
          + (as.filterMap s.place).length := by
  induction as generalizing seen with
  | nil => simp [hardPenalties]
  | cons a rest ih =>
      rw [hardPenalties, List.countP_cons, List.countP_cons,
        List.filterMap_cons]
      cases hemployee : a.employee with
      | none =>
          have hoff : s.isWorkedOff a = false := by
            rw [isWorkedOff, hemployee]; rfl
          have hplace : s.place a = none := by rw [place, hemployee]; rfl
          have hrest := ih seen
          simp only [hoff, hplace, Option.isNone_none, if_true,
            Bool.false_eq_true, if_false]
          omega
      | some e =>
          have hoff : s.isWorkedOff a = s.isOff e (s.dateOf a.shift) := by
            rw [isWorkedOff, hemployee]; rfl
          have hplace : s.place a = some (e, s.dateOf a.shift) := by
            rw [place, hemployee]; rfl
          simp only [hoff, hplace, Option.isNone_some,
            Bool.false_eq_true, if_false, List.toFinset_cons, List.length_cons]
          by_cases hseen : (e, s.dateOf a.shift) ∈ seen
          · have hrest := ih seen
            rw [if_pos (List.contains_iff_mem.mpr hseen),
              insert_sdiff_of_mem _ (List.mem_toFinset.mpr hseen)]
            omega
          · -- the place is new, and no longer so for the rest of the walk
            have hrest := ih ((e, s.dateOf a.shift) :: seen)
            rw [List.toFinset_cons, sdiff_insert] at hrest
            rw [if_neg (fun h => hseen (List.contains_iff_mem.mp h)),
              insert_sdiff_of_notMem _
                (fun h => hseen (List.mem_toFinset.mp h))]
            have hcard :=
              card_erase_add_one (mem_insert_self (e, s.dateOf a.shift)
              ((rest.filterMap s.place).toFinset \ seen.toFinset))
            rw [erase_insert_eq_erase] at hcard
            omega

/-- A list is as long as it has members, and repeats. -/
theorem sum_extras {α : Type} [BEq α] [LawfulBEq α] [DecidableEq α]
    (l : List α) : ∑ a ∈ l.toFinset, (l.count a - 1) + l.toFinset.card
      = l.length := by
  have hcounts : ∑ a ∈ l.toFinset, l.count a = l.length := by
    rw [← List.sum_toFinset_count_eq_length]
    exact sum_congr rfl fun a _ => List.countP_congr fun b _ => by
      simp only [beq_iff_eq]
  rw [card_eq_sum_ones, ← sum_add_distrib, ← hcounts]
  refine sum_congr rfl fun a ha => ?_
  have hcount := List.count_pos_iff.mpr (List.mem_toFinset.mp ha)
  omega

/-- The hard penalties are open places, days off worked, and places that a
nurse holds beyond the first of a day. -/
theorem hardPenalties_eq (s : Roster) :
    s.hardPenalties [] s.assignments
      = s.openPlaces + s.daysOffWorked +
        ∑ p ∈ s.heldPlaces.toFinset, (s.heldPlaces.count p - 1) := by
  have hwalk := s.hardPenalties_add [] s.assignments
  have hrepeats := sum_extras s.heldPlaces
  rw [List.toFinset_nil, sdiff_empty] at hwalk
  unfold openPlaces daysOffWorked
  unfold heldPlaces at hrepeats ⊢
  omega

-- ============================================================== the sums

/-- Places of a nurse on a day, counted among all that are held. -/
theorem count_heldPlaces (s : Roster) (employee date : Nat) :
    s.heldPlaces.count (employee, date) = s.placesOn employee date := by
  unfold heldPlaces placesOn
  rw [List.count_filterMap]
  refine List.countP_congr fun a _ => ?_
  unfold place
  cases a.employee with
  | none => simp
  | some e => simp [Prod.ext_iff]

/-- A shift of the roster has one of its dates. -/
theorem mem_dates {a : Assignment} (h : a.shift < s.shifts.length) :
    s.dateOf a.shift ∈ s.dates := by
  unfold dates dateOf
  rw [List.getElem?_eq_getElem h]
  exact List.mem_toFinset.mpr (List.mem_map_of_mem (List.getElem_mem h))

/-- All that repeats is of an employee and a date there are. -/
theorem sum_heldPlaces (nurses : s.KnowsNurses) (shifts : s.KnowsShifts) :
    ∑ p ∈ s.heldPlaces.toFinset,
    (s.heldPlaces.count p - 1) = s.extraPlaces := by
  unfold extraPlaces
  rw [← sum_product']
  have hwithin : s.heldPlaces.toFinset
      ⊆ range s.employees.length ×ˢ s.dates := by
    intro p hp
    obtain ⟨a, ha, hplace⟩ := List.mem_filterMap.mp (List.mem_toFinset.mp hp)
    obtain ⟨e, hemployee, rfl⟩ := Option.map_eq_some_iff.mp hplace
    exact mem_product.mpr ⟨mem_range.mpr (nurses a ha e hemployee),
      mem_dates (shifts a ha)⟩
  rw [sum_subset hwithin fun p _ hp => ?_]
  · exact sum_congr rfl fun p _ => by rw [s.count_heldPlaces p.1 p.2]
  · exact congrArg (· - 1) (List.count_eq_zero.mpr fun h =>
      hp (List.mem_toFinset.mpr h))

/-- The workloads are squared nurse by nurse. -/
theorem squaredWorkloads_eq (s : Roster) : s.squaredWorkloads = s.squares := by
  unfold squaredWorkloads squares
  rw [total_eq_sum]
  simp only [pow_two]
  rfl

/-- The score is a formula of counts. -/
theorem score_eq (nurses : s.KnowsNurses) (shifts : s.KnowsShifts) :
    s.score = Score.ofInts .hardSoft
      [-((s.openPlaces + s.daysOffWorked + s.extraPlaces : Nat) : Int),
        -(s.squares : Int)]
      rfl := by
  unfold score
  simp only [hardPenalties_eq, sum_heldPlaces nurses shifts,
    squaredWorkloads_eq]

-- ============================================================= the order

/-- The counts do not see the order of the assignments. -/
theorem score_perm {others : List Assignment} (h : others.Perm s.assignments) :
    ({ s with assignments := others } : Roster).score = s.score := by
  have hplaces : ({ s with assignments := others } : Roster).heldPlaces.Perm
      s.heldPlaces :=
    h.filterMap s.place
  have hhard : ({ s with assignments := others } : Roster).hardPenalties
      [] others
      = s.hardPenalties [] s.assignments := by
    rw [hardPenalties_eq, hardPenalties_eq,
      List.toFinset_eq_of_perm _ _ hplaces]
    refine congrArg₂ (· + ·)
      (congrArg₂ (· + ·) (h.countP_eq _) (h.countP_eq _)) ?_
    exact sum_congr rfl fun p _ => by rw [hplaces.count_eq]
  have hsoft : ({ s with assignments := others } : Roster).squaredWorkloads
      = s.squaredWorkloads :=
    congrArg total (List.map_congr_left fun e _ => by
      unfold workload
      rw [(h.filter _).length_eq])
  unfold score
  simp only [hhard, hsoft]

/-- Nor do they see the score that is stored. -/
theorem score_store (stored : Option HardSoft) (s : Roster) :
    (Planning.store stored s).score = s.score := by
  have hhard : ({ s with stored := stored } : Roster).hardPenalties
      [] s.assignments
      = s.hardPenalties [] s.assignments := by
    rw [hardPenalties_eq, hardPenalties_eq]
    rfl
  show ({ s with stored := stored } : Roster).score = s.score
  unfold score
  simp only [hhard]
  rfl

-- ============================================================== the size

/-- Each assignment is work for one nurse at most. -/
theorem sum_workload_le (s : Roster) (nurses : Nat) :
    ((List.range nurses).map s.workload).sum ≤ s.assignments.length := by
  unfold workload
  simp only [← List.countP_eq_length_filter]
  induction s.assignments with
  | nil => simp
  | cons a rest ih =>
      simp only [List.countP_cons, List.sum_map_add, beq_iff_eq,
        List.length_cons]
      rw [sum_holders]
      split <;> omega

/-- No assignment is charged for more than three times. -/
theorem hardPenalties_le (s : Roster) :
    s.hardPenalties [] s.assignments ≤ 3 * s.assignments.length := by
  have hopen : s.openPlaces ≤ _ := List.countP_le_length
  have hoff : s.daysOffWorked ≤ _ := List.countP_le_length
  have hplaces : s.heldPlaces.length ≤ _ :=
    List.length_filterMap_le s.place s.assignments
  have hextras := sum_extras s.heldPlaces
  rw [hardPenalties_eq]
  omega

/-- The squares add up to the square of the assignments at most. -/
theorem squaredWorkloads_le (s : Roster) :
    s.squaredWorkloads ≤ s.assignments.length * s.assignments.length := by
  have hsquares :=
    sum_squares_le ((List.range s.employees.length).map s.workload)
  have hworked := s.sum_workload_le s.employees.length
  rw [List.map_map] at hsquares
  exact hsquares.trans (Nat.mul_le_mul hworked hworked)

/-- No roster of up to as many assignments overflows. -/
theorem exists_score (h : s.assignments.length ≤ mostAssignments) :
    ∃ score, s.score = .ok score := by
  have hhard := s.hardPenalties_le
  have hsoft := s.squaredWorkloads_le.trans (Nat.mul_le_mul h h)
  unfold score Score.ofInts
  refine ⟨_, if_pos ?_⟩
  unfold mostAssignments at h hsoft
  simp only [List.all_cons, List.all_nil, Bool.and_true, Bool.and_eq_true,
    Checked.fitsLevel, decide_eq_true_eq]
  omega

-- ============================================================== the score

/-- The score of a roster of known employees and shifts: on the hard level
what is open, what is worked on a day off and what goes beyond one
assignment of an employee on a date; on the soft level the squares of the
workloads. The order of the assignments is free, so a construction may
put them in the order of their ids. -/
theorem score_counts (s : Roster) (nurses : s.KnowsNurses)
    (shifts : s.KnowsShifts) : s.score = Score.ofInts .hardSoft
        [-((s.openPlaces + s.daysOffWorked + s.extraPlaces : Nat) : Int),
          -(s.squares : Int)] rfl ∧
      (s.assignments.length ≤ mostAssignments → ∃ score, s.score = .ok score) ∧
      (∀ others : List Assignment, others.Perm s.assignments →
        ({ s with assignments := others } : Roster).score = s.score) ∧
      (demand.install ((demand.entities s).mergeSort fun a b =>
        decide (demand.id a ≤ demand.id b)) s).score = s.score :=
  ⟨score_eq nurses shifts, exists_score, fun _ h => score_perm h,
    score_perm (List.mergeSort_perm ..)⟩

/-- Two employees and three shifts, two of them on one date. The first
employee holds both of these and a place of the third, on a day off. -/
def crowded : Roster where
  employees := [⟨"Ann", [2]⟩, ⟨"Beth", []⟩]
  shifts := [⟨1, .early, 1⟩, ⟨1, .late, 2⟩, ⟨2, .early, 2⟩]
  assignments := [⟨7, 1, some 0⟩, ⟨3, 0, some 0⟩, ⟨5, 2, none⟩, ⟨1, 2, some 0⟩,
    ⟨4, 1, some 1⟩]
  stored := none

/-- An open place, a day off worked and a day with two places, in either
order of the assignments. -/
theorem score_crowded :
    crowded.KnowsNurses ∧ crowded.KnowsShifts ∧
      crowded.openPlaces = 1 ∧ crowded.daysOffWorked = 1 ∧
      crowded.extraPlaces = 1 ∧ crowded.score = .ok (HardSoft.of (-3) (-10)) ∧
      ({ crowded with assignments := crowded.assignments.reverse } :
          Roster).score
        = .ok (HardSoft.of (-3) (-10)) := by
  have hnurses : crowded.KnowsNurses := by decide
  have hshifts : crowded.KnowsShifts := by decide
  obtain ⟨hscore, -, horder, -⟩ := score_counts crowded hnurses hshifts
  have hopen : crowded.openPlaces = 1 := by decide
  have hoff : crowded.daysOffWorked = 1 := by decide
  have hextra : crowded.extraPlaces = 1 := by decide
  have hsquares : crowded.squares = 10 := by decide
  rw [hopen, hoff, hextra, hsquares] at hscore
  refine ⟨hnurses, hshifts, hopen, hoff, hextra, hscore, ?_⟩
  rw [horder _ (List.reverse_perm _)]
  exact hscore

end PlanSearch.Roster

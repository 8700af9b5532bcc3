/-
What the ward's rules come to.

The rules break off for three reasons: an assignment that names no nurse,
a night on the last day there is, and a score that does not fit its
levels. Without the first two they are a formula (`wardScore_eq`): open
places and the penalties of each nurse on the hard level, the squares of
the workloads on the soft one.

Both levels are bounded by the number of assignments alone. No assignment
counts for two nurses, so the workloads add up to no more than there are
assignments, and their squares to no more than its square. So a roster
has to be very long before its score overflows (`exists_wardScore`).
-/
import Mathlib.Algebra.BigOperators.Ring.List
import Mathlib.Algebra.Order.BigOperators.Group.List
import Mathlib.Algebra.Order.Ring.Nat
import PlanSearch.Problem.Roster
import PlanSearch.Proofs.Act

namespace PlanSearch.Roster

variable {s : Roster}

-- ============================================================ vocabulary

/-- Whoever holds an assignment exists. -/
def KnowsNurses (s : Roster) : Prop :=
  ∀ a ∈ s.assignments, ∀ nurse, a.employee = some nurse →
    nurse < s.employees.length

/-- Every day has a day after it. -/
def HasTomorrow (shifts : List Shift) : Prop :=
  ∀ shift ∈ shifts, shift.date < lastDay

instance (s : Roster) : Decidable s.KnowsNurses :=
  inferInstanceAs (Decidable (∀ a ∈ s.assignments, ∀ nurse ∈ a.employee,
    nurse < s.employees.length))

instance (shifts : List Shift) : Decidable (HasTomorrow shifts) :=
  inferInstanceAs (Decidable (∀ shift ∈ shifts, shift.date < lastDay))

/-- A night shift that an early shift follows on the next day. -/
def isShortRest (worked : List Shift) (night : Shift) : Bool :=
  decide (night.kind = .night) &&
    worked.any fun e => e.date == night.date + 1 && e.kind == .early

/-- The hard penalties of a nurse, where none of the days is the last. -/
def penaltiesOf (s : Roster) (nurse : Nat) : Nat :=
  let worked := s.shiftsOf nurse
  let sorted := worked.mergeSort inTime
  (worked.filter fun shift => s.isOff nurse shift.date).length
    + sameDayPairs sorted +
    sorted.countP (isShortRest sorted)

/-- The hard points: a place that nobody holds is one of them. -/
def hardPoints (s : Roster) : Nat :=
  (s.assignments.filter fun a => a.employee.isNone).length +
    total ((List.range s.employees.length).map s.penaltiesOf)

/-- The soft points: the squares of the workloads. -/
def softPoints (s : Roster) : Nat :=
  total ((List.range s.employees.length).map fun n =>
    (s.shiftsOf n).length * (s.shiftsOf n).length)

-- ================================================================ formula

/-- A roster that knows its nurses names none beyond them. -/
theorem namesKnownNurses_of_knows (h : s.KnowsNurses) :
    s.namesKnownNurses = true := by
  unfold namesKnownNurses
  rw [List.all_eq_true]
  intro a ha
  cases hemployee : a.employee with
  | none => rfl
  | some nurse =>
      cases s.shifts[a.shift]? with
      | none => rfl
      | some shift => exact decide_eq_true (h a ha nurse hemployee)

/-- Short rests are counted night by night. -/
theorem shortRests_eq {worked : List Shift} (h : HasTomorrow worked) :
    shortRests worked = .ok (worked.countP (isShortRest worked)) := by
  suffices hfrom : ∀ nights : List Shift, HasTomorrow nights → ∀ count,
      nights.foldlM (fun count night =>
        if night.kind = .night then
          if lastDay ≤ night.date then .error .arithmetic
          else if worked.any fun e => e.date == night.date + 1 &&
              e.kind == .early then
            .ok (count + 1)
          else .ok count
        else .ok count) count
        = (.ok (count + nights.countP (isShortRest worked)) :
            Except Fault Nat) by
    have hall := hfrom worked h 0
    rwa [Nat.zero_add] at hall
  intro nights hnights
  induction nights with
  | nil => exact fun _ => rfl
  | cons night rest ih =>
      intro count
      obtain ⟨hnight, hrest⟩ := List.forall_mem_cons.mp hnights
      rw [List.foldlM_cons, List.countP_cons, Nat.add_comm _ (ite _ _ _),
        ← Nat.add_assoc, ← ih hrest]
      by_cases hkind : night.kind = .night
      · rw [if_pos hkind, if_neg (Nat.not_le.mpr hnight)]
        unfold isShortRest
        rw [decide_eq_true hkind, Bool.true_and]
        split <;> rfl
      · rw [if_neg hkind, isShortRest, decide_eq_false hkind]
        rfl

/-- The shifts of a nurse have a day after them if all shifts do. -/
theorem hasTomorrow_shiftsOf (h : HasTomorrow s.shifts) (nurse : Nat) :
    HasTomorrow (s.shiftsOf nurse) := by
  intro shift hshift
  obtain ⟨a, -, ha⟩ := List.mem_filterMap.mp hshift
  split at ha
  · exact h shift (List.mem_of_getElem? ha)
  · cases ha

/-- The penalties of a nurse are worked out without a fault. -/
theorem nursePenalties_eq (h : HasTomorrow s.shifts) (nurse : Nat) :
    s.nursePenalties nurse = .ok (s.penaltiesOf nurse) := by
  have hsorted : HasTomorrow ((s.shiftsOf nurse).mergeSort inTime) :=
    fun shift hshift =>
      hasTomorrow_shiftsOf h nurse shift (List.mem_mergeSort.mp hshift)
  unfold nursePenalties
  dsimp only
  rw [shortRests_eq hsorted]
  rfl

/-- Without unknown nurses and last days the rules are a formula. -/
theorem wardScore_eq (known : s.KnowsNurses) (days : HasTomorrow s.shifts) :
    s.wardScore = Score.ofInts .hardSoft [-(s.hardPoints : Int),
      -(s.softPoints : Int)] rfl := by
  have hpenalties : (List.range s.employees.length).mapM s.nursePenalties
      = .ok ((List.range s.employees.length).map s.penaltiesOf) := by
    rw [funext (nursePenalties_eq days)]
    exact List.mapM_pure
  unfold wardScore
  rw [if_pos (namesKnownNurses_of_knows known)]
  dsimp only
  rw [hpenalties]
  rfl

/-- All that is left to break off is an overflow. -/
theorem eq_arithmetic_of_wardScore (known : s.KnowsNurses)
    (days : HasTomorrow s.shifts) {f : Fault} (h : s.wardScore = .error f) :
    f = .arithmetic := by
  rw [wardScore_eq known days] at h
  unfold Score.ofInts at h
  split at h
  · cases h
  · cases h
    rfl

-- ================================================================= bounds

theorem total_eq_sum (counts : List Nat) : total counts = counts.sum := rfl

/-- One nurse at most holds an assignment. -/
theorem sum_holders (holder : Option Nat) (nurses : Nat) :
    ((List.range nurses).map fun n => if holder = some n then 1 else 0).sum
      = if holder.any (decide <| · < nurses) then 1 else 0 := by
  induction nurses with
  | zero => cases holder <;> rfl
  | succ nurses ih =>
      rw [List.range_succ, List.map_append, List.sum_append, ih]
      cases holder with
      | none => rfl
      | some n =>
          simp only [Option.any_some, decide_eq_true_eq,
            List.map_cons, List.map_nil, List.sum_cons, List.sum_nil,
            Option.some.injEq]
          split <;> split <;> split <;> omega

/-- No assignment counts for two nurses. -/
theorem sum_workloads_le (s : Roster) (nurses : Nat) :
    ((List.range nurses).map fun n => (s.shiftsOf n).length).sum
      ≤ s.assignments.length := by
  unfold shiftsOf
  induction s.assignments with
  | nil => simp
  | cons a rest ih =>
      have hone : ∀ n, ((a :: rest).filterMap fun a =>
          if a.employee = some n then s.shifts[a.shift]? else none).length
          ≤ (if a.employee = some n then 1 else 0) + (rest.filterMap fun a =>
            if a.employee = some n then s.shifts[a.shift]?
                else none).length := by
        intro n
        rw [List.filterMap_cons]
        split
        · exact Nat.le_add_left ..
        · rename_i hshift
          split at hshift
          · rename_i hholder
            rw [List.length_cons, Nat.add_comm, if_pos hholder]
          · cases hshift
      refine (List.sum_le_sum fun n _ => hone n).trans ?_
      rw [List.sum_map_add, sum_holders, List.length_cons]
      split <;> omega

/-- The squares of some numbers add up to no more than the square of their
sum. -/
theorem sum_squares_le (counts : List Nat) :
    (counts.map fun n => n * n).sum ≤ counts.sum * counts.sum := by
  induction counts with
  | nil => exact Nat.le_refl 0
  | cons n rest ih =>
      rw [List.map_cons, List.sum_cons, List.sum_cons, Nat.add_mul,
        Nat.mul_add, Nat.mul_add]
      omega

/-- Fewer shifts share a day with the one before than there are shifts. -/
theorem sameDayPairs_le (shifts : List Shift) :
    sameDayPairs shifts ≤ shifts.length := by
  induction shifts with
  | nil => exact Nat.le_refl 0
  | cons a rest ih =>
      cases rest with
      | nil => exact Nat.zero_le 1
      | cons b rest =>
          rw [sameDayPairs, List.length_cons]
          split <;> omega

/-- No shift of a nurse is counted more than three times. -/
theorem penaltiesOf_le (s : Roster) (nurse : Nat) :
    s.penaltiesOf nurse ≤ 3 * (s.shiftsOf nurse).length := by
  unfold penaltiesOf
  dsimp only
  have hoff := List.length_filter_le (fun shift => s.isOff nurse shift.date)
    (s.shiftsOf nurse)
  have hlength : ((s.shiftsOf nurse).mergeSort inTime).length
      = (s.shiftsOf nurse).length :=
    List.length_mergeSort _
  have hpairs := sameDayPairs_le ((s.shiftsOf nurse).mergeSort inTime)
  have hrests : ((s.shiftsOf nurse).mergeSort inTime).countP
      (isShortRest ((s.shiftsOf nurse).mergeSort inTime)) ≤ _ :=
        List.countP_le_length
  omega

/-- Four hard points at most for each assignment. -/
theorem hardPoints_le (s : Roster) :
    s.hardPoints ≤ 4 * s.assignments.length := by
  have hopen := List.length_filter_le
    (fun a : Assignment => a.employee.isNone) s.assignments
  have hworked := sum_workloads_le s s.employees.length
  have hpenalties : ((List.range s.employees.length).map s.penaltiesOf).sum
      ≤ ((List.range s.employees.length).map fun n =>
          3 * (s.shiftsOf n).length).sum :=
    List.sum_le_sum fun n _ => s.penaltiesOf_le n
  rw [List.sum_map_mul_left] at hpenalties
  unfold hardPoints
  rw [total_eq_sum]
  omega

/-- The soft points are at most the square of the assignments. -/
theorem softPoints_le (s : Roster) :
    s.softPoints ≤ s.assignments.length * s.assignments.length := by
  have hsquares := sum_squares_le
    ((List.range s.employees.length).map fun n => (s.shiftsOf n).length)
  have hworked := sum_workloads_le s s.employees.length
  rw [List.map_map] at hsquares
  exact hsquares.trans (Nat.mul_le_mul hworked hworked)

/-- The most assignments whose square is a level. -/
def mostAssignments : Nat := 3037000499

/-- No roster of up to as many assignments overflows. -/
theorem exists_wardScore (known : s.KnowsNurses) (days : HasTomorrow s.shifts)
    (h : s.assignments.length ≤ mostAssignments) :
    ∃ score, s.wardScore = .ok score := by
  have hhard := s.hardPoints_le
  have hsoft := s.softPoints_le.trans (Nat.mul_le_mul h h)
  rw [wardScore_eq known days]
  unfold Score.ofInts
  refine ⟨_, if_pos ?_⟩
  unfold mostAssignments at h hsoft
  simp only [List.all_cons, List.all_nil, Bool.and_true, Bool.and_eq_true,
    Checked.fitsLevel, decide_eq_true_eq]
  omega

end PlanSearch.Roster

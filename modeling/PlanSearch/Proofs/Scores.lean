/-
Scores are ranked in a line.

The order of level lists is the lexicographic one, so it is total, and two
scores that tie are the same score. `LawfulRanked` is what is left of this
for whoever only asks whether one score beats another.
-/
import PlanSearch.Construction.Initializer
import PlanSearch.Score.Basic

namespace PlanSearch

-- ================================================================== levels

namespace Score

variable {shape : Shape}

/-- Levels are compared from the front. -/
theorem compareLevels_eq_compareLex (as bs : List Int64) :
    compareLevels as bs = List.compareLex compare as bs := by
  induction as generalizing bs with
  | nil => cases bs <;> rfl
  | cons a as ih =>
      cases bs with
      | nil => rfl
      | cons b bs =>
          rw [List.compareLex_cons_cons, ← ih bs]
          rfl

/-- The order of scores is that of their level lists. -/
theorem compare_eq_levels (a b : Score shape) :
    compare a b = compare a.levels b.levels :=
  compareLevels_eq_compareLex a.levels b.levels

instance : Std.TransOrd (Score shape) where
  eq_swap {a b} := by
    rw [compare_eq_levels, compare_eq_levels]
    exact Std.OrientedOrd.eq_swap
  isLE_trans {a b c} hab hbc := by
    rw [compare_eq_levels] at hab hbc ⊢
    exact Std.TransOrd.isLE_trans hab hbc

instance : Std.LawfulEqOrd (Score shape) where
  compare_self {a} := by
    rw [compare_eq_levels]
    exact Std.ReflOrd.compare_self
  eq_of_compare {a b} h := by
    rw [compare_eq_levels] at h
    exact ext_levels (Std.LawfulEqOrd.eq_of_compare h)

/-- A score beats another if it is above it. -/
theorem beats_iff {a b : Score shape} : Ranked.beats a b = true ↔
    compare b a = .lt :=
  beq_iff_eq.trans Std.OrientedCmp.gt_iff_lt

end Score

-- ================================================================= ranking

/-- Scores in a line, the better ones beating the worse. -/
class LawfulRanked (Sc : Type) [Ranked Sc] : Prop where
  irrefl : ∀ a : Sc, Ranked.beats a a = false
  trans : ∀ a b c : Sc, Ranked.beats a b = true → Ranked.beats b c = true →
    Ranked.beats a c = true
  tie : ∀ a b : Sc, Ranked.beats a b = false → Ranked.beats b a = false → a = b

instance {shape : Shape} : LawfulRanked (Score shape) where
  irrefl a := by
    refine Bool.eq_false_iff.mpr fun h => ?_
    rw [Score.beats_iff, Std.ReflOrd.compare_self] at h
    cases h
  trans a b c hab hbc := by
    rw [Score.beats_iff] at hab hbc ⊢
    exact Std.TransCmp.lt_trans hbc hab
  tie a b hab hba := by
    rw [Bool.eq_false_iff, Ne, Score.beats_iff] at hab hba
    cases h : compare a b with
    | lt => exact absurd h hba
    | eq => exact Std.LawfulEqOrd.eq_of_compare h
    | gt => exact absurd (Std.OrientedCmp.gt_iff_lt.mp h) hab

namespace Ranked

variable {Sc : Type} [Ranked Sc] [LawfulRanked Sc] {a b c : Sc}

/-- What beats something beats all that does not beat it. -/
theorem beats_of_not_beats (hab : beats a b = true) (hcb : beats c b = false) :
    beats a c = true := by
  cases hac : beats a c with
  | true => rfl
  | false =>
      cases hca : beats c a with
      | true => rw [LawfulRanked.trans c a b hca hab] at hcb; cases hcb
      | false =>
          obtain rfl := LawfulRanked.tie a c hac hca
          rw [hab] at hcb
          cases hcb

/-- What does not beat something beats nothing that does. -/
theorem not_beats_of_beats (hab : beats a b = true) (hcb : beats c b = false) :
    beats c a = false := by
  cases hca : beats c a with
  | false => rfl
  | true => rw [LawfulRanked.trans c a b hca hab] at hcb; cases hcb

end Ranked

end PlanSearch

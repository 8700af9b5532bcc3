/-
What the equality of values is good for.

Values bring an equality of their own, and a value need not equal itself: a
weight that is no number does not. What can be counted on is that equality
goes both ways and carries over, and that goes for values that may be
missing and for lists of values as well. Where a change is to be ruled out,
this is not enough by itself, since a value left alone may be one of those;
so `alike` puts sameness beside it, which makes it an equivalence.
-/
import Mathlib.Data.Bool.Basic
import PlanSearch.Decimal.Binary64

namespace PlanSearch

-- ================================================================== numbers

theorem Binary64.same_self {x : Binary64} (h : x.isNaN = false) :
    (x == x) = true := by
  show x.same x = true
  simp [Binary64.same, h]

instance : PartialEquivBEq Binary64 where
  symm {x y} h := by
    change x.same y = true at h
    show y.same x = true
    simp only [Binary64.same, Bool.and_eq_true, Bool.or_eq_true,
      beq_iff_eq] at h ⊢
    obtain ⟨⟨hx, hy⟩, hxy⟩ := h
    exact ⟨⟨hy, hx⟩, hxy.imp Eq.symm And.symm⟩
  trans {x y z} hxy hyz := by
    change x.same y = true at hxy
    change y.same z = true at hyz
    show x.same z = true
    have isZero_congr {a b : Binary64} (h : a.bits = b.bits) : a.isZero
        = b.isZero := by
      rw [show a = b from congrArg Binary64.mk h]
    simp only [Binary64.same, Bool.and_eq_true, Bool.or_eq_true, beq_iff_eq]
      at hxy hyz ⊢
    obtain ⟨⟨hx, -⟩, hxy⟩ := hxy
    obtain ⟨⟨-, hz⟩, hyz⟩ := hyz
    refine ⟨⟨hx, hz⟩, ?_⟩
    rcases hxy with hxy | ⟨hx0, hy0⟩ <;> rcases hyz with hyz | ⟨hy0', hz0⟩
    · exact .inl (hxy.trans hyz)
    · exact .inr ⟨(isZero_congr hxy).trans hy0', hz0⟩
    · exact .inr ⟨hx0, (isZero_congr hyz).symm.trans hy0⟩
    · exact .inr ⟨hx0, hz0⟩

-- ================================================ missing values and lists

section

variable {V : Type} [BEq V] [PartialEquivBEq V]

/-- Equality of what may be missing is as good as equality of what is there. -/
instance partialEquivBEq_option : PartialEquivBEq (Option V) where
  symm {a b} h := match a, b, h with
    | none, none, _ => rfl
    | some _, some _, h => PartialEquivBEq.symm (α := V) h
  trans {a b c} h g := match a, b, c, h, g with
    | none, none, none, _, _ => rfl
    | some _, some _, some _, h, g => PartialEquivBEq.trans (α := V) h g

/-- And so is equality of lists. -/
instance partialEquivBEq_list : PartialEquivBEq (List V) where
  symm {k l} h := by
    induction k generalizing l with
    | nil => cases l with
      | nil => rfl
      | cons _ _ => cases h
    | cons v k ih => cases l with
      | nil => cases h
      | cons w l =>
          rw [List.cons_beq_cons, Bool.and_eq_true] at h ⊢
          exact ⟨BEq.symm h.1, ih h.2⟩
  trans {k l m} hkl hlm := by
    induction k generalizing l m with
    | nil => cases l with
      | nil => exact hlm
      | cons _ _ => cases hkl
    | cons v k ih => cases l with
      | nil => cases hkl
      | cons w l => cases m with
        | nil => cases hlm
        | cons u m =>
            rw [List.cons_beq_cons, Bool.and_eq_true] at hkl hlm ⊢
            exact ⟨BEq.trans hkl.1 hlm.1, ih hkl.2 hlm.2⟩

/-- Values that are the same or are found equal. -/
def alike (V : Type) [BEq V] [PartialEquivBEq V] : Setoid (Option V) where
  r a b := a = b ∨ (a == b) = true
  iseqv := {
    refl := fun _ => .inl rfl
    symm := fun h => h.imp Eq.symm PartialEquivBEq.symm
    trans := by
      rintro a b c (rfl | h) (rfl | g)
      · exact .inl rfl
      · exact .inr g
      · exact .inr h
      · exact .inr (PartialEquivBEq.trans h g) }

/-- What is equal is alike. -/
theorem alike_of_beq {a b : Option V} (h : (a == b) = true) :
    (alike V).r a b := .inr h

theorem alike_of_bne_eq_false {a b : Option V} (h : (a != b) = false) :
    (alike V).r a b :=
  alike_of_beq (Bool.eq_true_of_not_eq_false' h)

end

end PlanSearch

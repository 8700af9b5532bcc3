/-
Levels that fit their words, and counts worked out step by step.

A number that fits a level is read back from it.

For counts the way matters too: checked arithmetic is refused at the
first number on its way that is no count, whether or not the result
would have been one. `reckon` says this at once: a result that is worked
out through some numbers is there if all of them are counts. Sums pass
only through what they add up to, products through each of their partial
products, and a later factor of zero does not take back a partial product
that was too large.
-/
import Mathlib.Algebra.GroupWithZero.Nat
import PlanSearch.Checked

namespace PlanSearch.Checked

variable {α β : Type}

/-- A number that fits is read back. -/
theorem toInt_ofInt_of_fits {n : Int} (h : fitsLevel n = true) :
    (Int64.ofInt n).toInt = n := by
  simp only [fitsLevel, decide_eq_true_eq] at h
  exact Int64.toInt_ofInt_of_le (by omega) (by omega)

/-- Every level fits. -/
theorem fitsLevel_toInt (n : Int64) : fitsLevel n.toInt = true := by
  have hlow := n.le_toInt
  have hhigh := n.toInt_lt
  simp only [fitsLevel, decide_eq_true_eq]
  omega

/-- A result worked out through some numbers. -/
def reckon (through : List Nat) (result : α) : Except Fault α :=
  if ∀ n ∈ through, n < countLimit then .ok result else .error .arithmetic

theorem reckon_nil (a : α) : reckon [] a = .ok a := if_pos fun _ h => nomatch h

/-- What is worked out from a result passes through the numbers of both. -/
theorem reckon_bind {first more : List Nat} {a : α} {b : β}
    {next : α → Except Fault β} (h : next a = reckon more b) :
    reckon first a >>= next = reckon (first ++ more) b := by
  unfold reckon at h ⊢
  by_cases hfirst : ∀ n ∈ first, n < countLimit
  · rw [if_pos hfirst]
    show next a = _
    rw [h]
    have hiff : (∀ n ∈ first ++ more, n < countLimit) ↔
        ∀ n ∈ more, n < countLimit := by
      rw [List.forall_mem_append]
      exact and_iff_right hfirst
    simp only [hiff]
  · rw [if_neg hfirst, if_neg fun hall => hfirst fun n hn =>
      hall n (List.mem_append_left _ hn)]
    rfl

/-- What is made of a result passes through no further number. -/
theorem reckon_bind_pure (through : List Nat) (a : α) (f : α → β) :
    (reckon through a >>= fun a => pure (f a)) = reckon through (f a) := by
  unfold reckon
  split <;> rfl

/-- What is made of a result passes through the same numbers. -/
theorem reckon_map (through : List Nat) (a : α) (f : α → β) :
    (reckon through a).map f = reckon through (f a) := by
  unfold reckon
  split <;> rfl

theorem count_eq (n : Nat) : count n = reckon [n] n := by
  simp only [count, reckon, List.forall_mem_singleton]

/-- Partial sums only grow, so the sum is a count if any of them matters. -/
theorem countSum_eq (counts : List Nat) :
    countSum counts = count counts.sum := by
  suffices hsum : ∀ total < countLimit,
      counts.foldlM (fun total n => count (total + n)) total
          = count (total + counts.sum) by
    have hzero := hsum 0 (by decide)
    rwa [Nat.zero_add] at hzero
  induction counts with
  | nil => exact fun total htotal => (if_pos htotal).symm
  | cons n rest ih =>
      intro total htotal
      rw [List.foldlM_cons, List.sum_cons, ← Nat.add_assoc]
      by_cases hfits : total + n < countLimit
      · rw [count, if_pos hfits]
        exact ih (total + n) hfits
      · rw [count, count, if_neg hfits, if_neg (by omega)]
        rfl

/-- A product passes through all its partial products. -/
theorem countProduct_eq (counts : List Nat) :
    countProduct counts = reckon (counts.scanl (· * ·) 1) counts.prod := by
  suffices hprod : ∀ total < countLimit,
      counts.foldlM (fun total n => count (total * n)) total =
        reckon (counts.scanl (· * ·) total) (total * counts.prod) by
    have hone := hprod 1 (by decide)
    rwa [Nat.one_mul] at hone
  induction counts with
  | nil =>
      intro total htotal
      rw [List.scanl_nil, List.prod_nil, Nat.mul_one, ← count_eq]
      exact (if_pos htotal).symm
  | cons n rest ih =>
      intro total htotal
      rw [List.foldlM_cons, List.scanl_cons, List.prod_cons, ← Nat.mul_assoc]
      have hrest : reckon (total :: rest.scanl (· * ·) (total * n))
          (total * n * rest.prod)
          = reckon (rest.scanl (· * ·) (total * n))
              (total * n * rest.prod) := by
        simp only [reckon, List.forall_mem_cons, htotal, true_and]
      rw [hrest]
      by_cases hfits : total * n < countLimit
      · rw [count, if_pos hfits]
        exact ih (total * n) hfits
      · rw [count, if_neg hfits, reckon, if_neg]
        · rfl
        · intro hall
          refine hfits (hall _ ?_)
          cases rest <;> simp

end PlanSearch.Checked

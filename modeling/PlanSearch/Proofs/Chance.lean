/-
What a stream answers, chance admits.

A draw of a range is the high half of word times range width, plus a carry
that a second word decides on. The carry is asked for only where the low
half is close to wrapping, and there the high half is not yet the last
number of the range (`carry_lt`), so no draw leaves its range. With it,
whatever a computation makes of the answers of a stream is among its
possible outcomes: what is shown of `Chance.Yields` holds of every run.
-/
import PlanSearch.Random.Stream

namespace PlanSearch

-- =================================================================== draws

/-- The high half of a word times a range lies in the range. -/
theorem high_lt {word range width : Nat} (hrange : 0 < range)
    (hword : word < width) : word * range / width < range := by
  rw [Nat.div_lt_iff_lt_mul (by omega), Nat.mul_comm range width]
  exact Nat.mul_lt_mul_of_pos_right hword hrange

/-- Where the low half is so large that a carry is possible, the high half
is at least two short of the range. -/
theorem carry_lt {word range width : Nat} (hword : word < width)
    (hlow : width - range < word * range % width) :
    word * range / width + 1 < range := by
  have hsplit := Nat.div_add_mod (word * range) width
  have hword' : word * range + range ≤ width * range := by
    have hmul := Nat.mul_le_mul_right range hword
    rw [Nat.succ_mul] at hmul
    exact hmul
  refine Nat.lt_of_not_le fun hhigh => ?_
  have hmul := Nat.mul_le_mul_left width hhigh
  rw [Nat.mul_add, Nat.mul_one] at hmul
  omega

namespace Stream

/-- The number of values of a draw. -/
def width (wide : Bool) : Nat :=
  if wide then 18446744073709551616 else 4294967296

/-- A draw is a number of its width. -/
theorem draw_lt (wide : Bool) (s : Stream) : (s.draw wide).1 < width wide := by
  unfold draw width
  cases wide with
  | true => exact UInt64.toNat_lt _
  | false => exact UInt32.toNat_lt _

/-- The number drawn, by whether a second word is asked for. -/
theorem inRange_fst (wide : Bool) (low range : Nat) (s : Stream) :
    (s.inRange wide low range).1 =
      if range = 0 then low + (s.draw wide).1
      else
        low + (s.draw wide).1 * range / width wide +
          if width wide - range < (s.draw wide).1 * range % width wide ∧
            width wide ≤ (s.draw wide).1 * range % width wide +
              ((s.draw wide).2.draw wide).1 * range / width wide
          then 1 else 0 := by
  unfold inRange width
  generalize (if wide then 18446744073709551616 else 4294967296) = all
  by_cases hrange : range = 0
  · simp only [hrange, ite_true]
  · simp only [hrange, ite_false]
    by_cases hlow : all - range < (s.draw wide).1 * range % all
    · rw [if_pos hlow]
      simp only [hlow, true_and]
    · rw [if_neg hlow]
      simp only [hlow, false_and, ite_false, Nat.add_zero]

/-- A draw of a range stays in it. -/
theorem inRange_mem (wide : Bool) (low : Nat) {range : Nat} (hrange : 0 < range)
    (s : Stream) : low ≤ (s.inRange wide low range).1 ∧
    (s.inRange wide low range).1 < low + range := by
  have hfirst := draw_lt wide s
  have hhigh := high_lt hrange hfirst
  rw [inRange_fst, if_neg (Nat.ne_of_gt hrange)]
  split
  · rename_i hcarry
    have hnext := carry_lt hfirst hcarry.1
    generalize (s.draw wide).1 * range / width wide = high at hnext
    omega
  · generalize (s.draw wide).1 * range / width wide = high at hhigh
    omega

/-- All of the words are asked for. -/
theorem inRange_zero (wide : Bool) (low : Nat) (s : Stream) :
    low ≤ (s.inRange wide low 0).1 ∧ (s.inRange wide low 0).1
      < low + width wide := by
  have hfirst := draw_lt wide s
  rw [inRange_fst, if_pos rfl]
  omega

/-- A number drawn below another is below it. -/
theorem below_lt {n k : Nat} {s t : Stream}
    (h : s.below n = .ok (k, t)) : k < n := by
  unfold below at h
  split at h
  · cases h
  · rename_i hn
    have hmem := inRange_mem (4294967295 < n) 0 (Nat.pos_of_ne_zero hn) s
    rw [Except.ok.inj h] at hmem
    omega

/-- A number drawn between two others is between them. -/
theorem between_mem {low high k : Nat} {s t : Stream}
    (h : s.between low high = .ok (k, t)) : low ≤ k ∧ k ≤ high := by
  unfold between at h
  split at h
  · cases h
  · rename_i hle
    have hwidth : 4294967296 ≤ width (decide (4294967295 < high)) := by
      unfold width
      split <;> decide
    have hk : k = (s.inRange (decide (4294967295 < high)) low
        ((high - low + 1) % width (decide (4294967295 < high)))).1 :=
      (congrArg Prod.fst (Except.ok.inj h)).symm
    have hmod := Nat.mod_le (high - low + 1)
      (width (decide (4294967295 < high)))
    have hsplit := Nat.div_add_mod (high - low + 1)
      (width (decide (4294967295 < high)))
    by_cases hzero : (high - low + 1) % width (decide (4294967295 < high)) = 0
    · -- the range is a multiple of all words, so every word lies in it
      have hle := Nat.le_of_dvd (Nat.succ_pos _) (Nat.dvd_of_mod_eq_zero hzero)
      have hmem := inRange_zero (decide (4294967295 < high)) low s
      rw [hzero] at hk
      omega
    · have hmem := inRange_mem (decide (4294967295 < high)) low
        (Nat.pos_of_ne_zero hzero) s
      omega

end Stream

namespace Chance

variable {α β : Type}

/-- What a stream answers is a possible outcome. -/
theorem yields_of_run {c : Chance α} {s t : Stream} {a : α}
    (h : c.run s = .ok (a, t)) : c.Yields a := by
  induction c generalizing s with
  | pure b =>
      cases h
      exact .pure a
  | index n next ih =>
      unfold run at h
      cases hdraw : s.below n with
      | error f =>
          rw [hdraw] at h
          cases h
      | ok answer =>
          rw [hdraw] at h
          exact .index (Stream.below_lt hdraw) (ih answer.1 h)
  | between low high next ih =>
      unfold run at h
      cases hdraw : s.between low high with
      | error f =>
          rw [hdraw] at h
          cases h
      | ok answer =>
          rw [hdraw] at h
          obtain ⟨hlow, hhigh⟩ := Stream.between_mem hdraw
          exact .between hlow hhigh (ih answer.1 h)
  | coin next ih => exact .coin _ (ih _ h)
  | fraction top next ih => exact .fraction _ (ih _ h)

-- ================================================================ outcomes

theorem yields_pure {a b : α} (h : (Pure.pure a : Chance α).Yields b) :
    a = b := by
  cases h
  rfl

/-- An outcome of a sequence comes from one of its first part. -/
theorem yields_bind {c : Chance α} {f : α → Chance β} {b : β}
    (h : (c >>= f).Yields b) : ∃ a, c.Yields a ∧ (f a).Yields b := by
  induction c with
  | pure a => exact ⟨a, .pure a, h⟩
  | index n next ih =>
      cases h with
      | index hk hnext =>
          obtain ⟨a, ha, hb⟩ := ih _ hnext
          exact ⟨a, .index hk ha, hb⟩
  | between low high next ih =>
      cases h with
      | between hlow hhigh hnext =>
          obtain ⟨a, ha, hb⟩ := ih _ hnext
          exact ⟨a, .between hlow hhigh ha, hb⟩
  | coin next ih =>
      cases h with
      | coin toss hnext =>
          obtain ⟨a, ha, hb⟩ := ih _ hnext
          exact ⟨a, .coin toss ha, hb⟩
  | fraction top next ih =>
      cases h with
      | fraction x hnext =>
          obtain ⟨a, ha, hb⟩ := ih _ hnext
          exact ⟨a, .fraction x ha, hb⟩

/-- An outcome of the first part and one of what it leads to. -/
theorem Yields.bind {c : Chance α} {f : α → Chance β} {a : α} {b : β}
    (h : c.Yields a) (g : (f a).Yields b) : (c >>= f).Yields b := by
  induction h with
  | pure a => exact g
  | index hlt _ ih => exact .index hlt (ih g)
  | between hlow hhigh _ ih => exact .between hlow hhigh (ih g)
  | coin toss _ ih => exact .coin toss (ih g)
  | fraction x _ ih => exact .fraction x (ih g)

/-- Below a number each one before it can be drawn. -/
theorem yields_drawBelow {n k : Nat} : (drawBelow n).Yields k ↔ k < n := by
  refine ⟨fun h => ?_, fun h => .index h (.pure k)⟩
  cases h with
  | index hlt hpure =>
      cases hpure
      exact hlt

/-- Between two numbers each one can be drawn. -/
theorem yields_drawBetween {low high k : Nat} :
    (drawBetween low high).Yields k ↔ low ≤ k ∧ k ≤ high := by
  refine ⟨fun h => ?_, fun h => .between h.1 h.2 (.pure k)⟩
  cases h with
  | between hlow hhigh hpure =>
      cases hpure
      exact ⟨hlow, hhigh⟩

/-- A pick is an item. -/
theorem mem_of_yields_pick {items : List α} {a : α}
    (h : (pick items).Yields (some a)) : a ∈ items := by
  obtain ⟨k, -, hk⟩ := yields_bind h
  exact List.mem_of_getElem? (yields_pure hk)

/-- And there is one. -/
theorem isSome_of_yields_pick {items : List α} {found : Option α}
    (h : (pick items).Yields found) : found.isSome := by
  obtain ⟨k, hk, hfound⟩ := yields_bind h
  rw [← yields_pure hfound, List.getElem?_eq_getElem (yields_drawBelow.mp hk)]
  rfl

/-- Every item can be picked. -/
theorem yields_pick_of_mem {items : List α} {a : α} (h : a ∈ items) :
    (pick items).Yields (some a) := by
  obtain ⟨k, hk, rfl⟩ := List.getElem_of_mem h
  refine (yields_drawBelow.mpr hk).bind ?_
  rw [List.getElem?_eq_getElem hk]
  exact .pure _

-- ================================================================== safety

theorem safe_pure (a : α) : (Pure.pure a : Chance α).Safe := .pure a

/-- A sequence asks from no empty range if its parts do not, the second one
for what the first can yield. -/
theorem safe_bind {c : Chance α} {f : α → Chance β} (h : c.Safe)
    (hf : ∀ a, c.Yields a → (f a).Safe) : (c >>= f).Safe := by
  induction h with
  | pure a => exact hf a (.pure a)
  | index hn _ ih =>
      exact .index hn fun k hk => ih k hk fun a ha => hf a (.index hk ha)
  | between hle _ ih =>
      refine .between hle fun k hlow hhigh => ih k hlow hhigh fun a ha => ?_
      exact hf a (.between hlow hhigh ha)
  | coin _ ih => exact .coin fun b => ih b fun a ha => hf a (.coin b ha)
  | fraction _ ih =>
      exact .fraction fun x => ih x fun a ha => hf a (.fraction x ha)

/-- Drawing below a number above zero asks for nothing impossible. -/
theorem safe_drawBelow {n : Nat} (h : 0 < n) : (drawBelow n).Safe :=
  .index h fun k _ => .pure k

/-- Drawing between two numbers in order asks for nothing impossible. -/
theorem safe_drawBetween {low high : Nat} (h : low ≤ high) :
    (drawBetween low high).Safe :=
  .between h fun k _ _ => .pure k

/-- Picking from something asks for nothing impossible. -/
theorem safe_pick {items : List α} (h : items ≠ []) : (pick items).Safe :=
  safe_bind (safe_drawBelow (List.length_pos_iff.mpr h)) fun _ _ => safe_pure _

/-- Where no draw is from an empty range, every stream has an answer. -/
theorem Safe.exists_run {c : Chance α} (h : c.Safe) (s : Stream) :
    ∃ a t, c.run s = .ok (a, t) := by
  induction h generalizing s with
  | pure a => exact ⟨a, s, rfl⟩
  | @index n next hn _ ih =>
      have hdraw : s.below n = .ok (s.inRange (4294967295 < n) 0 n) := by
        rw [Stream.below, if_neg (Nat.ne_of_gt hn)]
      rw [run, hdraw]
      exact ih _ (Stream.below_lt hdraw) _
  | @between low high next hle _ ih =>
      have hdraw : ∃ answer, s.between low high = .ok answer := by
        rw [Stream.between, if_neg (Nat.not_lt.mpr hle)]
        exact ⟨_, rfl⟩
      obtain ⟨answer, hdraw⟩ := hdraw
      obtain ⟨hlow, hhigh⟩ := Stream.between_mem hdraw
      rw [run, hdraw]
      exact ih _ hlow hhigh _
  | coin _ ih => exact ih _ _
  | fraction _ ih => exact ih _ _

end Chance

end PlanSearch

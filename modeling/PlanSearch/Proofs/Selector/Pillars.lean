/-
What a pillar is.

A pillar is a run of a group whose length is asked for, and the runs of a
group are told apart by start and size, so each of them is listed once
(`Pillar.nodup_ofGroup`). Before a move is made of a pillar, the move looks
for a flaw in it. Entities that are distinct, known and assigned and hold
equal values have none (`Pillar.pillarFlaw_eq_none_iff`).

A pillar of several variables is counted along the first of them. Its
entities are known to another one if that variable is open for all entities
that it does not have itself (`BasicVariable.OpenFor`).
-/
import PlanSearch.Proofs.Selector.Runs
import PlanSearch.Proofs.Values
import PlanSearch.Selector.Leaf

namespace PlanSearch

variable {S V : Type}

/-- The variable is open for the entities of another one that it does not
have itself. -/
def BasicVariable.OpenFor (x y : BasicVariable S V) (s : S) : Prop :=
  ∀ e < y.count s, x.count s ≤ e → x.get s e = none

/-- A variable has all its entities itself. -/
theorem BasicVariable.openFor_self (x : BasicVariable S V) (s : S) :
    x.OpenFor x s :=
  fun _ hlt hle => absurd hlt (Nat.not_lt.mpr hle)

-- ==================================================================== sizes

/-- Sizes are at least the minimum and at most the group. -/
theorem SubPillars.sizes_bounds {p : SubPillars} {length low high : Nat}
    (h : p.sizes length = some (low, high)) :
    p.minimum ≤ low ∧ high ≤ length := by
  unfold sizes at h
  dsimp only at h
  split at h
  · split at h
    · cases h
      omega
    · cases h
  · split at h
    · cases h
      omega
    · cases h

/-- There is a size to choose. -/
theorem SubPillars.sizes_le {p : SubPillars} {length low high : Nat}
    (h : p.sizes length = some (low, high)) : low ≤ high := by
  unfold sizes at h
  dsimp only at h
  split at h
  · split at h
    · cases h
      assumption
    · cases h
  · split at h
    · cases h
      exact Nat.le_refl _
    · cases h

/-- A pillar of the size may be taken from a group of the length. -/
def SubPillars.Allows (p : SubPillars) (length size : Nat) : Prop :=
  if p.enabled then p.minimum ≤ size ∧ size ≤ p.maximum ∧ size ≤ length
  else size = length ∧ p.minimum ≤ length

/-- A size is allowed if it lies between the bounds for the group. -/
theorem SubPillars.allows_iff {p : SubPillars} {length size : Nat} :
    p.Allows length size ↔
      ∃ low high, p.sizes length = some (low, high) ∧ low ≤ size ∧
        size ≤ high := by
  unfold Allows sizes
  dsimp only
  cases p.enabled with
  | true =>
      rw [if_pos rfl, if_pos rfl]
      constructor
      · rintro ⟨hmin, hmax, hlength⟩
        exact ⟨p.minimum, min p.maximum length, if_pos (by omega),
          hmin, by omega⟩
      · rintro ⟨low, high, hsizes, hlow, hhigh⟩
        split at hsizes
        · cases hsizes
          omega
        · cases hsizes
  | false =>
      rw [if_neg Bool.false_ne_true, if_neg Bool.false_ne_true]
      constructor
      · rintro ⟨rfl, hmin⟩
        exact ⟨size, size, if_pos hmin, Nat.le_refl _, Nat.le_refl _⟩
      · rintro ⟨low, high, hsizes, hlow, hhigh⟩
        split at hsizes
        · cases hsizes
          omega
        · cases hsizes

theorem SubPillars.exists_allows_iff {p : SubPillars} {length : Nat} :
    (∃ size, p.Allows length size) ↔ (p.sizes length).isSome = true := by
  simp only [allows_iff]
  constructor
  · rintro ⟨size, low, high, hsizes, -⟩
    rw [hsizes]
    rfl
  · intro h
    obtain ⟨⟨low, high⟩, hsizes⟩ := Option.isSome_iff_exists.mp h
    exact ⟨low, low, high, hsizes, Nat.le_refl _, sizes_le hsizes⟩

namespace Pillar

-- ===================================================================== runs

/-- The pillars of a group are its runs of an allowed size. -/
theorem mem_ofGroup {sub : SubPillars} {number : Nat} {group : List Nat}
    {p : Pillar} : p ∈ ofGroup sub number group ↔
      p.group = number ∧ p.entities <:+: group ∧
      sub.Allows group.length p.entities.length := by
  unfold ofGroup
  rw [SubPillars.allows_iff, isInfix_iff_runOf]
  cases hsizes : sub.sizes group.length with
  | none => simp
  | some bounds =>
      obtain ⟨low, high⟩ := bounds
      obtain ⟨-, hhigh⟩ := SubPillars.sizes_bounds hsizes
      simp only [List.mem_flatMap, List.mem_map, mem_upTo]
      constructor
      · rintro ⟨size, ⟨hlow, hle⟩, start, ⟨-, hstart⟩, rfl⟩
        have hlength : (runOf group start size).length = size :=
          length_runOf (by omega)
        dsimp only
        rw [hlength]
        exact ⟨rfl, ⟨start, by omega, rfl⟩, low, high, rfl, hlow, hle⟩
      · rintro ⟨rfl, ⟨start, hstart, hrun⟩, low', high', hsame, hlow, hle⟩
        cases hsame
        exact ⟨p.entities.length, ⟨hlow, hle⟩, start, ⟨Nat.zero_le _, by omega⟩,
          by rw [hrun]⟩

/-- A run of distinct entities is cut out in one way only. -/
theorem nodup_ofGroup {sub : SubPillars} (least : 1 ≤ sub.minimum)
    (number : Nat) {group : List Nat} (nodup : group.Nodup) :
    (ofGroup sub number group).Nodup := by
  unfold ofGroup
  cases hsizes : sub.sizes group.length with
  | none => exact List.nodup_nil
  | some bounds =>
      obtain ⟨low, high⟩ := bounds
      obtain ⟨hlow, hhigh⟩ := SubPillars.sizes_bounds hsizes
      let spans := (upTo low high).flatMap fun size =>
        (upTo 0 (group.length - size)).map (Prod.mk size)
      have hspans : spans.Nodup :=
        nodup_flatMap_pair List.nodup_range' fun _ _ => List.nodup_range'
      have hmem : ∀ span ∈ spans, 1 ≤ span.1 ∧
          span.1 ≤ group.length - span.2 := by
        intro span hspan
        obtain ⟨hsize, hstart⟩ := mem_flatMap_pair.mp hspan
        rw [mem_upTo] at hsize hstart
        omega
      have hmap : ((upTo low high).flatMap fun size =>
          (upTo 0 (group.length - size)).map fun start =>
            (⟨number, runOf group start size⟩ : Pillar))
            = spans.map fun span => ⟨number, runOf group span.2 span.1⟩ := by
        simp only [spans, List.map_flatMap, List.map_map]
        rfl
      dsimp only
      rw [hmap]
      refine hspans.map_on fun a ha b hb h => ?_
      obtain ⟨hstart, hsize⟩ :=
        runOf_inj nodup (hmem a ha) (hmem b hb) (congrArg Pillar.entities h)
      exact Prod.ext hsize hstart

-- ===================================================================== keys

variable {vars : List (BasicVariable S V)} {s : S}

/-- Key by key: the value of one variable, and those of the others. -/
theorem key_cons {x : BasicVariable S V} {e : Nat} {k : List V} :
    key (x :: vars) s e = some k ↔
      ∃ v rest, x.get s e = some v ∧ key vars s e = some rest ∧
        k = v :: rest := by
  unfold key
  rw [List.mapM_cons]
  cases x.get s e with
  | none => simp
  | some v =>
      cases vars.mapM fun x => x.get s e with
      | none => simp
      | some rest => simp [eq_comm]

-- ==================================================================== flaws

/-- Distinct entities have no repeat. -/
theorem firstRepeat_of_nodup {before entities : List Nat}
    (nodup : entities.Nodup) (apart : ∀ e ∈ entities, e ∉ before) :
    firstRepeat before entities = none := by
  induction entities generalizing before with
  | nil => rfl
  | cons e rest ih =>
      obtain ⟨hnew, hrest⟩ := List.nodup_cons.mp nodup
      obtain ⟨he, hbefore⟩ := List.forall_mem_cons.mp apart
      unfold firstRepeat
      rw [if_neg fun h => he (List.contains_iff_mem.mp h)]
      refine ih hrest fun d hd hmem => ?_
      rcases List.mem_cons.mp hmem with rfl | hmem
      · exact hnew hd
      · exact hbefore d hd hmem

variable [BEq V]

/-- Distinct, known, assigned entities are a pillar if what they hold is equal,
also to itself. -/
theorem pillarFlaw_eq_none_iff [PartialEquivBEq V] {x : BasicVariable S V}
    {pillar : List Nat} (nonempty : pillar ≠ [])
    (known : ∀ e ∈ pillar, e < x.count s) (nodup : pillar.Nodup)
    (assigned : ∀ e ∈ pillar, (x.get s e).isSome = true) :
    pillarFlaw x s pillar = none ↔
      ∀ d ∈ pillar, ∀ e ∈ pillar, (x.get s d == x.get s e) = true := by
  cases pillar with
  | nil => exact absurd rfl nonempty
  | cons first rest =>
      have hfirst : first ∈ first :: rest := List.mem_cons_self ..
      have hknown : ((first :: rest).any fun e => decide (x.count s ≤ e))
          = false := by
        rw [List.any_eq_false]
        intro e he hle
        exact absurd (known e he) (Nat.not_lt.mpr (of_decide_eq_true hle))
      have hopen : (x.get s first).isNone = false := by
        rw [Option.isNone_eq_false_iff]
        exact assigned first hfirst
      have hflaw : pillarFlaw x s (first :: rest) = none ↔
          ∀ e ∈ first :: rest, (x.get s e == x.get s first) = true := by
        unfold pillarFlaw
        dsimp only
        rw [hknown, firstRepeat_of_nodup nodup (fun _ _ => List.not_mem_nil)]
        dsimp only
        rw [hopen, if_neg Bool.false_ne_true, if_neg Bool.false_ne_true,
          Option.map_eq_none_iff, List.find?_eq_none]
        simp only [bne, Bool.not_eq_true', Bool.not_eq_false]
      rw [hflaw]
      refine ⟨fun h d hd e he => ?_, fun h e he => h e he first hfirst⟩
      exact PartialEquivBEq.trans (h d hd) (PartialEquivBEq.symm (h e he))

end Pillar

-- ==================================================================== steps

namespace Step

variable [BEq V] [Shown V] {x : BasicVariable S V} {s : S}

/-- A pillar is given another value if it has no flaw. -/
theorem make?_pillarChange {pillar : List Nat} {value : Option V} :
    (Step.pillarChange x pillar value).make? s
      = .ok (.pillarChange x pillar value) ↔ pillarFlaw x s pillar = none := by
  unfold make?
  dsimp only
  cases pillarFlaw x s pillar with
  | none => simp
  | some flaw => simp

/-- Two pillars are exchanged if they have no flaw together. -/
theorem make?_pillarSwap {left right : List Nat} :
    (Step.pillarSwap x left right).make? s = .ok (.pillarSwap x left right) ↔
      pillarPairFlaw x s left right = none := by
  unfold make?
  dsimp only
  cases pillarPairFlaw x s left right with
  | none => simp
  | some flaw => simp

end Step

end PlanSearch

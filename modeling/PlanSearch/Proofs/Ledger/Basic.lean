/-
Scores that are sums.

In a ledger every entity has an entry of its own: a share in a commutative
group, which depends on what the entity holds and on facts that no variable
can change. The balance is the sum of the entries, and the score grades it.
A calculator that keeps the balance takes an entry out before its entity
changes and puts it in again afterwards.

# When announcements account for a change

A calculator believes what it is told: an entity that is announced twice is
taken out twice. If both times the entry is the same before and after, this
comes out even. If it changes, it does not, and the balance is off from
then on. So announcements account for a change (`Covers`) if an entity that
is not announced, or more than once, holds what it held before.
-/
import Mathlib.Algebra.BigOperators.Group.Finset.Basic
import PlanSearch.Director.Incremental
import PlanSearch.Proofs.Variables

namespace PlanSearch

variable {S V F G Sc : Type}

-- =============================================================== holdings

/-- What an entity holds: the value or the link of each variable of its
class. -/
structure Holding (V : Type) where
  values : List (Option V)
  links : List (Option Link)

/-- What the entity at an index of a class holds. -/
def Variables.holding (vs : Variables S V) (s : S) (slot : Nat × Nat) :
    Holding V where
  values := (vs.basics.filter fun x => x.descriptor == slot.1).map fun x =>
    x.get s slot.2
  links := (vs.chained.filter fun x => x.descriptor == slot.1).map fun x =>
    x.get s slot.2

/-- What is held at a slot depends on the variables of its class only. -/
theorem Variables.holding_congr {vs : Variables S V} {s s' : S}
    {slot : Nat × Nat} (values : ∀ x ∈ vs.basics, x.descriptor = slot.1 →
      x.get s' slot.2 = x.get s slot.2)
    (links : ∀ x ∈ vs.chained, x.descriptor = slot.1 →
      x.get s' slot.2 = x.get s slot.2) :
    vs.holding s' slot = vs.holding s slot := by
  unfold holding
  congr 1
  · refine List.map_congr_left fun x hx => ?_
    obtain ⟨hmem, hclass⟩ := List.mem_filter.mp hx
    exact values x hmem (eq_of_beq hclass)
  · refine List.map_congr_left fun x hx => ?_
    obtain ⟨hmem, hclass⟩ := List.mem_filter.mp hx
    exact links x hmem (eq_of_beq hclass)

-- ================================================================ ledgers

/-- A score in which every entity has an entry of its own. -/
structure Ledger (S V F G Sc : Type) where
  family : Variables S V
  /-- The entities, by class and index. -/
  slots : S → List (Nat × Nat)
  facts : S → F
  /-- What an entity contributes. -/
  share : F → Nat × Nat → Holding V → G
  grade : G → Sc

namespace Ledger

variable (L : Ledger S V F G Sc)

/-- What is to be expected of entities and facts. Variables that read and
write the same belong to one class, an entity of a class is known to all of
its variables, and what the variables hold is all that they change. -/
structure Lawful [Planning S Sc] : Prop where
  accessors : L.family.Lawful
  class_eq : ∀ x ∈ L.family.basics, ∀ y ∈ L.family.basics,
    x.cells = y.cells → x.descriptor = y.descriptor
  class_eq_links : ∀ x ∈ L.family.chained, ∀ y ∈ L.family.chained,
    x.cells = y.cells → x.descriptor = y.descriptor
  nodup : ∀ s, (L.slots s).Nodup
  known : ∀ s, ∀ slot ∈ L.slots s,
    (∀ x ∈ L.family.basics, x.descriptor = slot.1 → slot.2 < x.count s) ∧
      ∀ x ∈ L.family.chained, x.descriptor = slot.1 → slot.2 < x.count s
  set : ∀ x ∈ L.family.basics, ∀ s e v,
    L.slots (x.set s e v) = L.slots s ∧ L.facts (x.set s e v) = L.facts s
  set_link : ∀ x ∈ L.family.chained, ∀ s e link,
    L.slots (x.set s e link) = L.slots s ∧ L.facts (x.set s e link) = L.facts s
  store : ∀ (score : Option Sc) (s : S),
    L.slots (Planning.store score s) = L.slots s ∧
    L.facts (Planning.store score s) = L.facts s

-- ================================================================ changes

/-- From one solution to another nothing changes but what some entities hold. -/
structure Within (touched : List (Nat × Nat)) (s s' : S) : Prop where
  slots : L.slots s' = L.slots s
  facts : L.facts s' = L.facts s
  holding : ∀ slot ∈ L.slots s, slot ∉ touched →
    L.family.holding s' slot = L.family.holding s slot

/-- Announcements account for a change: what an entity holds changes only if
it is announced, and not more than once. -/
structure Covers (announced : Multiset (Nat × Nat)) (s s' : S) : Prop where
  slots : L.slots s' = L.slots s
  facts : L.facts s' = L.facts s
  holding : ∀ slot ∈ L.slots s, announced.count slot ≠ 1 →
    L.family.holding s' slot = L.family.holding s slot

/-- An entity is appended, and nothing else happens. -/
structure Grows (slot : Nat × Nat) (s s' : S) : Prop where
  slots : (L.slots s').Perm (slot :: L.slots s)
  facts : L.facts s' = L.facts s
  holding : ∀ slot ∈ L.slots s,
    L.family.holding s' slot = L.family.holding s slot

variable {L} {touched : List (Nat × Nat)} {announced : Multiset (Nat × Nat)}
  {slot : Nat × Nat} {s s' s'' : S}

theorem Within.mono {wider : List (Nat × Nat)} (h : L.Within touched s s')
    (hsub : ∀ slot ∈ touched, slot ∈ wider) : L.Within wider s s' where
  slots := h.slots
  facts := h.facts
  holding slot hslot huntouched :=
    h.holding slot hslot fun g => huntouched (hsub slot g)

/-- Entities announced once each account for whatever they hold. -/
theorem Within.covers (h : L.Within touched s s') (nodup : touched.Nodup) :
    L.Covers touched s s' where
  slots := h.slots
  facts := h.facts
  holding slot hslot hcount := by
    refine h.holding slot hslot fun hmem => hcount ?_
    exact Multiset.count_eq_one_of_mem (Multiset.coe_nodup.mpr nodup)
      (Multiset.mem_coe.mpr hmem)

/-- Where nothing changes, any announcements do. -/
theorem Within.covers_any (h : L.Within [] s s') : L.Covers announced s s' where
  slots := h.slots
  facts := h.facts
  holding slot hslot _ := h.holding slot hslot (List.not_mem_nil)

/-- A stored score changes nothing that is held. -/
theorem Lawful.within_store [Planning S Sc] (lawful : L.Lawful)
    (score : Option Sc) (s : S) : L.Within [] s (Planning.store score s) where
  slots := (lawful.store score s).1
  facts := (lawful.store score s).2
  holding slot hslot _ := by
    obtain ⟨values, links⟩ := lawful.known s slot hslot
    have same := lawful.accessors.stored score s
    exact Variables.holding_congr
      (fun x hx hclass => (same.values x hx).get slot.2 (values x hx hclass))
      fun x hx hclass => (same.links x hx).get slot.2 (links x hx hclass)

-- ================================================================ entries

variable [AddCommGroup G]

variable (L) in
/-- What an entity contributes; nothing if there is no such entity. -/
def entry (s : S) (slot : Nat × Nat) : G :=
  if slot ∈ L.slots s then L.share (L.facts s) slot (L.family.holding s slot)
  else 0

variable (L) in
/-- The sum of all entries. -/
def balance (s : S) : G := ((L.slots s).map (L.entry s)).sum

variable (L) in
/-- The entries of the announced entities, each as often as it is announced. -/
def owed (s : S) (announced : Multiset (Nat × Nat)) : G :=
  (announced.map (L.entry s)).sum

variable (L) in
/-- The score of a solution, from scratch. -/
def score (s : S) : Sc := L.grade (L.balance s)

variable (L) in
/-- The calculator that keeps the balance. -/
def calculator : Calculator S Sc G where
  reset s := Act.update fun _ => L.balance s
  retract s descriptor e :=
    Act.update fun total => total - L.entry s (descriptor, e)
  insert s descriptor e :=
    Act.update fun total => total + L.entry s (descriptor, e)
  insertNew s descriptor e :=
    Act.update fun total => total + L.entry s (descriptor, e)
  total total := .ok (L.grade total)
  tryTotal total := .ok (.ok (L.grade total))

/-- A slot that the solution does not have counts for nothing. -/
theorem entry_of_notMem (h : slot ∉ L.slots s) : L.entry s slot = 0 := if_neg h

/-- An entry depends on the facts and on what its slot holds. -/
theorem entry_congr (slots : slot ∈ L.slots s' ↔ slot ∈ L.slots s)
    (facts : L.facts s' = L.facts s) (holding : slot ∈ L.slots s →
      L.family.holding s' slot = L.family.holding s slot) :
    L.entry s' slot = L.entry s slot := by
  unfold entry
  by_cases h : slot ∈ L.slots s
  · rw [if_pos (slots.mpr h), if_pos h, facts, holding h]
  · rw [if_neg (mt slots.mp h), if_neg h]

@[simp] theorem owed_zero (s : S) : L.owed s 0 = 0 := by simp [owed]

@[simp] theorem owed_cons (s : S) (slot : Nat × Nat)
    (announced : Multiset (Nat × Nat)) :
    L.owed s (slot ::ₘ announced) = L.entry s slot + L.owed s announced := by
  simp [owed]

/-- What is not announced once keeps its entry. -/
theorem Covers.entry_eq (h : L.Covers announced s s')
    (hcount : announced.count slot ≠ 1) : L.entry s' slot = L.entry s slot :=
  entry_congr (by rw [h.slots]) h.facts fun hslot => h.holding slot hslot hcount

/-- What the announced entities contribute more than before is what the
balance grows by. -/
theorem Covers.balance_eq (h : L.Covers announced s s')
    (nodup : (L.slots s).Nodup) :
    L.balance s' - L.owed s' announced = L.balance s - L.owed s announced := by
  let gain (slot : Nat × Nat) : G := L.entry s' slot - L.entry s slot
  have hbalance : L.balance s' - L.balance s = ∑ slot ∈ (L.slots s).toFinset,
      gain slot := by
    unfold balance
    rw [h.slots, ← List.sum_toFinset _ nodup, ← List.sum_toFinset _ nodup,
      ← Finset.sum_sub_distrib]
  have howed : L.owed s' announced - L.owed s announced
      = ∑ slot ∈ announced.toFinset, announced.count slot • gain slot := by
    unfold owed
    rw [← Multiset.sum_map_sub]
    exact Finset.sum_multiset_map_count announced gain
  -- an entity that gains is there, and it is announced once
  have heven : ∀ slot, announced.count slot • gain slot = gain slot := by
    intro slot
    by_cases hcount : announced.count slot = 1
    · rw [hcount, one_nsmul]
    · rw [show gain slot = 0 from sub_eq_zero.mpr (h.entry_eq hcount),
        nsmul_zero]
  have hsum : ∑ slot ∈ announced.toFinset, announced.count slot • gain slot
      = ∑ slot ∈ (L.slots s).toFinset, gain slot := by
    calc ∑ slot ∈ announced.toFinset, announced.count slot • gain slot
        = ∑ slot ∈ announced.toFinset ∪ (L.slots s).toFinset,
            announced.count slot • gain slot := by
          refine Finset.sum_subset Finset.subset_union_left
            fun slot _ hslot => ?_
          rw [Multiset.mem_toFinset] at hslot
          rw [Multiset.count_eq_zero_of_notMem hslot, zero_nsmul]
      _ = ∑ slot ∈ announced.toFinset ∪ (L.slots s).toFinset, gain slot :=
          Finset.sum_congr rfl fun slot _ => heven slot
      _ = ∑ slot ∈ (L.slots s).toFinset, gain slot := by
          refine (Finset.sum_subset Finset.subset_union_right
            fun slot _ hslot => ?_).symm
          rw [List.mem_toFinset] at hslot
          show L.entry s' slot - L.entry s slot = 0
          rw [entry_of_notMem hslot,
            entry_of_notMem (h.slots ▸ hslot), sub_self]
  have heq := hbalance.trans (hsum.symm.trans howed.symm)
  rw [sub_eq_sub_iff_sub_eq_sub] at heq
  exact heq

/-- An appended entity contributes its entry. -/
theorem Grows.balance_eq (h : L.Grows slot s s') :
    L.balance s' = L.balance s + L.entry s' slot := by
  have hkept : ∀ other ∈ L.slots s, L.entry s' other = L.entry s other := by
    intro other hother
    refine entry_congr ?_ h.facts fun hslot => h.holding other hslot
    exact iff_of_true
      (h.slots.mem_iff.mpr (List.mem_cons_of_mem _ hother)) hother
  calc L.balance s' = ((slot :: L.slots s).map (L.entry s')).sum :=
        (h.slots.map _).sum_eq
    _ = L.entry s' slot + ((L.slots s).map (L.entry s')).sum := by
        rw [List.map_cons, List.sum_cons]
    _ = L.entry s' slot + L.balance s := by rw [List.map_congr_left hkept]; rfl
    _ = L.balance s + L.entry s' slot := add_comm _ _

/-- A stored score does not change the balance. -/
theorem Lawful.balance_store [Planning S Sc] (lawful : L.Lawful)
    (score : Option Sc) (s : S) :
    L.balance (Planning.store score s) = L.balance s := by
  have covers : L.Covers 0 s (Planning.store score s) :=
    (lawful.within_store score s).covers_any
  simpa using covers.balance_eq (lawful.nodup s)

/-- A stored score does not change what the score is. -/
theorem Lawful.score_store [Planning S Sc] (lawful : L.Lawful)
    (score : Option Sc) (s : S) :
    L.score (Planning.store score s) = L.score s :=
  congrArg L.grade (lawful.balance_store score s)

end Ledger

end PlanSearch

/-
Steps in a ledger.

A step announces the entities it names and writes to no others, so all of
its writes are accounted for as long as it names none of them twice. For
most steps this is so by construction: the plan of a chain step is a diff,
in which every entity of the chains has one place at most. A swap of an
entity with itself names it twice and changes nothing. Only pillars and
restored links are taken as they are given (`Step.Distinct`); a pillar step
that a solution admits is about distinct entities.
-/
import PlanSearch.Proofs.Ledger.Basic
import PlanSearch.Proofs.Move.Chains

namespace PlanSearch

variable {S V F G Sc : Type} {L : Ledger S V F G Sc} {s s' : S} {e : Nat}

-- ================================================================ writes

/-- Entities of one class. -/
def classSlots (descriptor : Nat) (entities : List Nat) : List (Nat × Nat) :=
  entities.map fun e => (descriptor, e)

/-- A slot of the class with one of the entities. -/
theorem mem_classSlots {descriptor : Nat} {entities : List Nat}
    {slot : Nat × Nat} : slot ∈ classSlots descriptor entities ↔
    slot.1 = descriptor ∧ slot.2 ∈ entities := by
  unfold classSlots
  rw [List.mem_map]
  constructor
  · intro h
    obtain ⟨e, he, rfl⟩ := h
    exact ⟨rfl, he⟩
  · intro h
    obtain ⟨rfl, he⟩ := h
    exact ⟨slot.2, he, rfl⟩

theorem nodup_classSlots {descriptor : Nat} {entities : List Nat}
    (h : entities.Nodup) : (classSlots descriptor entities).Nodup :=
  h.map fun _ _ heq => (Prod.mk.inj heq).2

/-- What is done for each slot is done for each entity. -/
theorem forM_classSlots {m : Type → Type} [Monad m] (descriptor : Nat)
    (entities : List Nat) (act : Nat × Nat → m PUnit) :
    (classSlots descriptor entities).forM act = entities.forM fun e =>
    act (descriptor, e) := by
  induction entities with
  | nil => rfl
  | cons e rest ih => exact congrArg (act (descriptor, e) >>= fun _ => ·) ih

/-- The entities that a batch announces. -/
def Batch.slots (b : Batch S) : List (Nat × Nat) :=
  classSlots b.descriptor b.entities

namespace Ledger

variable [Planning S Sc]

/-- Writes to a variable are seen by its entities only. -/
theorem Lawful.within_setAll (lawful : L.Lawful) {x : BasicVariable S V}
    (hx : x ∈ L.family.basics) (changes : List (Nat × Option V)) (s : S) :
    L.Within (classSlots x.descriptor (changes.map Prod.fst)) s
      (x.setAll s changes) := by
  refine ⟨Cells.setAll_keeps (c := x.cells)
    (fun s e v => (lawful.set x hx s e v).1) changes s,
    Cells.setAll_keeps (c := x.cells)
      (fun s e v => (lawful.set x hx s e v).2) changes s,
    fun slot hslot huntouched => ?_⟩
  obtain ⟨values, links⟩ := lawful.known s slot hslot
  refine Variables.holding_congr (fun y hy hclass => ?_) fun y hy hclass => ?_
  · refine Cells.get_setAll_frame (lawful.accessors.values x hx)
      (lawful.accessors.values_apart x hx y hy) changes (values y hy hclass) ?_
    intro hcells hmem
    refine huntouched (mem_classSlots.mpr ⟨?_, hmem⟩)
    rw [lawful.class_eq x hx y hy hcells]
    exact hclass.symm
  · exact (lawful.accessors.kinds_apart x hx y hy).1.get_setAll changes
      (links y hy hclass)

/-- The same for links. -/
theorem Lawful.within_setAllLinks (lawful : L.Lawful) {x : ChainedVariable S}
    (hx : x ∈ L.family.chained) (changes : LinkChanges) (s : S) :
    L.Within (classSlots x.descriptor (changes.map Prod.fst)) s
      (x.setAll s changes) := by
  refine ⟨Cells.setAll_keeps (c := x.cells)
    (fun s e v => (lawful.set_link x hx s e v).1) changes s,
    Cells.setAll_keeps (c := x.cells)
      (fun s e v => (lawful.set_link x hx s e v).2) changes s,
    fun slot hslot huntouched => ?_⟩
  obtain ⟨values, links⟩ := lawful.known s slot hslot
  refine Variables.holding_congr (fun y hy hclass => ?_) fun y hy hclass => ?_
  · exact (lawful.accessors.kinds_apart y hy x hx).2.get_setAll changes
      (values y hy hclass)
  · refine Cells.get_setAll_frame (lawful.accessors.links x hx)
      (lawful.accessors.links_apart x hx y hy) changes (links y hy hclass) ?_
    intro hcells hmem
    refine huntouched (mem_classSlots.mpr ⟨?_, hmem⟩)
    rw [lawful.class_eq_links x hx y hy hcells]
    exact hclass.symm

/-- Writing to an entity what it holds changes nothing. -/
theorem Lawful.within_setAll_held (lawful : L.Lawful) {x : BasicVariable S V}
    (hx : x ∈ L.family.basics) (changes : List (Nat × Option V)) (s : S)
    (held : ∀ change ∈ changes, change.2 = x.get s change.1) :
    L.Within [] s (x.setAll s changes) := by
  have own := lawful.accessors.values x hx
  have hsame : ∀ d < x.cells.count s, x.cells.get (x.cells.setAll s changes) d
      = x.get s d := by
    intro d hd
    refine own.get_setAll_of_held (· = x.get s d) changes hd rfl
      fun change hchange hfst => ?_
    rw [held change hchange, hfst]
  obtain ⟨hslots, hfacts, -⟩ := lawful.within_setAll hx changes s
  refine ⟨hslots, hfacts, fun slot hslot _ => ?_⟩
  obtain ⟨values, links⟩ := lawful.known s slot hslot
  have same : L.family.Same (literal (Option V)) (x.setAll s changes) s :=
    lawful.accessors.same_setAll hx changes hsame
  exact Variables.holding_congr
    (fun y hy hclass => (same.values y hy).get slot.2 (values y hy hclass))
    fun y hy hclass => (same.links y hy).get slot.2 (links y hy hclass)

-- ================================================================= steps

variable (L) in
/-- In a solution a batch announces what it writes, once, and what it would
write back it has announced. -/
structure Accounts (b : Batch S) (s : S) : Prop where
  write : L.Covers b.slots s (b.write s)
  restore : ∀ s', L.Within b.slots s' (b.restore s')

/-- A batch of values for distinct entities. -/
theorem Lawful.accounts_batch (lawful : L.Lawful) {x : BasicVariable S V}
    (hx : x ∈ L.family.basics) {old new : List (Nat × Option V)}
    (nodup : (new.map Prod.fst).Nodup)
    (sub : ∀ e ∈ old.map Prod.fst, e ∈ new.map Prod.fst) (s : S) :
    L.Accounts (x.batch old new) s where
  write := (lawful.within_setAll hx new s).covers (nodup_classSlots nodup)
  restore s' := (lawful.within_setAll hx old s').mono fun slot hslot => by
    obtain ⟨hclass, hmem⟩ := mem_classSlots.mp hslot
    exact mem_classSlots.mpr ⟨hclass, sub slot.2 hmem⟩

/-- A batch of links for distinct entities. -/
theorem Lawful.accounts_linkBatch (lawful : L.Lawful) {x : ChainedVariable S}
    (hx : x ∈ L.family.chained) {changes : LinkChanges}
    (nodup : (changes.map Prod.fst).Nodup) {b : Batch S}
    (h : x.batch? s changes = some b) : L.Accounts b s := by
  unfold ChainedVariable.batch? at h
  split at h
  case isTrue => cases h
  case isFalse =>
    cases h
    refine ⟨(lawful.within_setAllLinks hx changes s).covers
      (nodup_classSlots nodup), fun s' => ?_⟩
    have hold := lawful.within_setAllLinks hx
      (x.held s (changes.map Prod.fst)) s'
    rw [ChainedVariable.map_fst_held] at hold
    exact hold

end Ledger

namespace Step

/-- Pillars and restored links are about distinct entities. -/
def Distinct : Step S V → Prop
  | pillarChange _ pillar _ => pillar.Nodup
  | pillarSwap _ left right => (left ++ right).Nodup
  | restore _ links => (links.map Prod.fst).Nodup
  | _ => True

/-- Entities without a repeat are distinct, and apart from those before. -/
theorem nodup_of_firstRepeat {before entities : List Nat}
    (h : firstRepeat before entities = none) :
    entities.Nodup ∧ ∀ e ∈ entities, e ∉ before := by
  induction entities generalizing before with
  | nil => exact ⟨List.nodup_nil, fun _ hmem => (nomatch hmem)⟩
  | cons e rest ih =>
      unfold firstRepeat at h
      split at h
      case isTrue => cases h
      case isFalse hnew =>
        obtain ⟨nodup, apart⟩ := ih h
        refine ⟨List.nodup_cons.mpr ⟨fun hmem => ?_, nodup⟩, fun d hmem => ?_⟩
        · exact apart e hmem (List.mem_cons_self ..)
        · rcases List.mem_cons.mp hmem with rfl | hmem
          · exact fun hbefore => hnew (List.contains_iff_mem.mpr hbefore)
          · exact fun hbefore => apart d hmem (List.mem_cons_of_mem _ hbefore)

/-- A pillar without a flaw has distinct entities. -/
theorem nodup_of_pillarFlaw [BEq V] {x : BasicVariable S V} {pillar : List Nat}
    (h : pillarFlaw x s pillar = none) : pillar.Nodup := by
  cases pillar with
  | nil => exact List.nodup_nil
  | cons first rest =>
      simp only [pillarFlaw] at h
      split at h
      case isTrue => cases h
      case isFalse =>
        cases hrepeat : firstRepeat [] (first :: rest) with
        | none => exact (nodup_of_firstRepeat hrepeat).1
        | some e =>
            rw [hrepeat] at h
            cases h

/-- Whatever a solution admits, restored links apart, is about distinct
entities. -/
theorem distinct_of_make? [BEq V] [Shown V] {t u : Step S V}
    (h : t.make? s = .ok u) (restored : ∀ x links, t = restore x links →
      (links.map Prod.fst).Nodup) : t.Distinct := by
  cases t with
  | pillarChange x pillar value =>
      unfold make? at h
      cases hflaw : pillarFlaw x s pillar with
      | none => exact nodup_of_pillarFlaw hflaw
      | some flaw =>
          simp only [hflaw] at h
          cases h
  | pillarSwap x left right =>
      unfold make? at h
      cases hflaw : pillarPairFlaw x s left right with
      | none =>
          obtain ⟨hleft, hflaw⟩ := Option.or_eq_none_iff.mp hflaw
          obtain ⟨hright, hfind⟩ := Option.or_eq_none_iff.mp hflaw
          refine List.Nodup.append (nodup_of_pillarFlaw hleft)
            (nodup_of_pillarFlaw hright) ?_
          intro e hmem hother
          have hapart :=
            List.find?_eq_none.mp (Option.map_eq_none_iff.mp hfind) e hmem
          exact hapart (List.contains_iff_mem.mpr hother)
      | some flaw =>
          simp only [hflaw] at h
          cases h
  | restore x links => exact restored x links rfl
  | change | swap | segmentChange | segmentSwap | tailSwap => trivial

variable [Planning S Sc] {t : Step S V} {b : Batch S}

/-- A plan names no entity twice. -/
theorem Rearranges.nodup_linkChanges {vs : Variables S V}
    (h : t.Rearranges vs) (s : S) : ((t.linkChanges s).map Prod.fst).Nodup := by
  obtain ⟨x, -, -, hplan⟩ := h.apply_eq
  cases hplanned : t.linkPlan s with
  | error flaw =>
      rw [linkChanges_of_error hplanned]
      exact List.nodup_nil
  | ok changes =>
      obtain ⟨index, chains, hindex, rearranged, rfl⟩ :=
        hplan s changes hplanned
      rw [linkChanges_of_ok hplanned]
      have htraces := (ChainedVariable.traces_of_index hindex).2
      exact index.nodup_keys_diff (rearranged.nodup htraces.nodup)

/-- What a step does is accounted for. -/
theorem accounts (lawful : L.Lawful) (scope : t.Over L.family)
    (distinct : t.Distinct) (h : t.batch? s = some b) : L.Accounts b s := by
  cases t with
  | change x d value =>
      cases h
      refine lawful.accounts_batch scope ?_ ?_ s
      · exact List.nodup_singleton d
      · exact fun _ hmem => hmem
  | swap x left right =>
      cases h
      by_cases hne : left = right
      · -- the entity is announced twice, and keeps what it holds
        subst hne
        refine ⟨(lawful.within_setAll_held scope _ s fun change hmem =>
          ?_).covers_any, lawful.within_setAll scope _⟩
        simp only [List.mem_cons, List.not_mem_nil, or_false, or_self] at hmem
        rw [hmem]
      · refine lawful.accounts_batch scope ?_ ?_ s
        · show [left, right].Nodup
          simpa using hne
        · exact fun _ hmem => hmem
  | pillarChange x pillar value =>
      cases h
      have nodup : pillar.Nodup := distinct
      refine lawful.accounts_batch scope ?_ ?_ s
      · simpa [Function.comp_def] using nodup
      · intro d hmem
        simpa [BasicVariable.held, Function.comp_def] using hmem
  | pillarSwap x left right =>
      have nodup : (left ++ right).Nodup := distinct
      cases left with
      | nil => cases h
      | cons l ls =>
          cases right with
          | nil => cases h
          | cons r rs =>
              cases h
              refine lawful.accounts_batch scope ?_ ?_ s
              · simpa [Function.comp_def] using nodup
              · intro d hmem
                simpa [Function.comp_def] using hmem
  | segmentChange x segment link reversing =>
      have rearranges : (segmentChange x segment link reversing).Rearranges
        L.family := scope
      exact lawful.accounts_linkBatch scope (rearranges.nodup_linkChanges s) h
  | segmentSwap x left right reversing =>
      have rearranges : (segmentSwap x left right reversing).Rearranges
        L.family := scope
      exact lawful.accounts_linkBatch scope (rearranges.nodup_linkChanges s) h
  | tailSwap x d link =>
      have rearranges : (tailSwap x d link).Rearranges L.family := scope
      exact lawful.accounts_linkBatch scope (rearranges.nodup_linkChanges s) h
  | restore x links => exact lawful.accounts_linkBatch scope distinct h

end Step

end PlanSearch

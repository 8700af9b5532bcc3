/-
What it says about a step that it is doable.

Whether a step is doable is decided before it is executed, and for each
kind of step in its own way: two values are compared, or the values of a
pillar among each other, or chains are rearranged on the side and
compared link by link. Executing the step then reads the solution anew.
That the two agree is the content here: a doable step changes something
(`differ_of_isDoable`), and one that is not changes nothing
(`same_of_not_isDoable`).

# Values

Values are compared by their own `==`, of which only symmetry and
transitivity are known; a value need not equal itself. So "changed" means
that `==` tells the value from the one before, and "unchanged" that it is
the very same or at least equal (`alike`).

# Chains

For a rearrangement the point is that a diff is never vain: what is in it
differs from the link held, each entity is written once, and so the
write shows. A step that does not fit the chains it finds, or finds none,
has an empty diff.
-/
import PlanSearch.Proofs.Move.Effects
import PlanSearch.Proofs.Values

namespace PlanSearch

variable {D S V Sc : Type} [BEq V] {vs : Variables S V} {s t : S}

-- ============================================================ vocabulary

/-- Some entity of some variable holds another value, or follows another
link. -/
def Variables.Differ (vs : Variables S V) (s t : S) : Prop :=
  (∃ x ∈ vs.basics, ∃ e < x.count s, (x.get s e != x.get t e) = true) ∨
    ∃ x ∈ vs.chained, ∃ e < x.count s, x.get s e ≠ x.get t e

omit [BEq V] in
/-- Writing what is held does nothing. -/
theorem Variables.Lawful.same_held [Planning S Sc] {same : Setoid (Option V)}
    (lawful : vs.Lawful) {x : BasicVariable S V} (hx : x ∈ vs.basics)
    {changes : List (Nat × Option V)}
    (held : ∀ change ∈ changes, change.1 < x.count s →
      same.r change.2 (x.get s change.1)) :
    vs.Same same (x.setAll s changes) s :=
  lawful.same_restore hx [] changes s (fun _ h => nomatch h) held

namespace Step

/-- The entities that the step names exist, and links to be restored are
named once each. A rearrangement may name anything: it finds its entities
in the chains. -/
def Aims : Step S V → S → Prop
  | restore x links, s =>
    (∀ change ∈ links, change.1 < x.count s) ∧ (links.map Prod.fst).Nodup
  | t, s => t.InRange s

/-- All entities of a pillar hold one value. -/
def HoldsOne (x : BasicVariable S V) (s : S) (pillar : List Nat) : Prop :=
  ∃ value, ∀ e ∈ pillar, (x.get s e == value) = true

/-- Each pillar of the step holds one value. -/
def PillarsHoldOne : Step S V → S → Prop
  | pillarChange x pillar _, s => HoldsOne x s pillar
  | pillarSwap x left right, s => HoldsOne x s left ∧ HoldsOne x s right
  | _, _ => True

-- =================================================================== pillars

/-- A value that a pillar is found to share is that of its first entity. -/
theorem exists_of_sharedValue {x : BasicVariable S V} {pillar : List Nat}
    {value : Option V} (h : sharedValue x s pillar = some value) :
    ∃ head rest, pillar = head :: rest ∧ value = x.get s head := by
  cases pillar with
  | nil => cases h
  | cons head rest =>
      obtain ⟨-, hvalue⟩ := Option.ite_none_right_eq_some.mp h
      exact ⟨head, rest, rfl, (Option.some_inj.mp hvalue).symm⟩

/-- A pillar that holds one value is found to share it. -/
theorem HoldsOne.sharedValue_eq [PartialEquivBEq V]
    {x : BasicVariable S V} {head : Nat} {rest : List Nat}
    (h : HoldsOne x s (head :: rest)) :
    sharedValue x s (head :: rest) = some (x.get s head) := by
  obtain ⟨value, hvalue⟩ := h
  have hhead := hvalue head (List.mem_cons_self ..)
  refine if_pos (List.all_eq_true.mpr fun e he => ?_)
  exact PartialEquivBEq.trans (hvalue e (List.mem_cons_of_mem _ he))
    (PartialEquivBEq.symm hhead)

/-- Entities that hold one value hold that of the first. -/
theorem HoldsOne.alike_head [PartialEquivBEq V]
    {x : BasicVariable S V} {head : Nat} {rest : List Nat}
    (h : HoldsOne x s (head :: rest)) :
    ∀ e ∈ head :: rest, (alike V).r (x.get s e) (x.get s head) := by
  obtain ⟨value, hvalue⟩ := h
  have hhead := hvalue head (List.mem_cons_self ..)
  exact fun e he =>
    alike_of_beq (PartialEquivBEq.trans (hvalue e he)
      (PartialEquivBEq.symm hhead))

variable [Planning S Sc]

-- ==================================================================== chains

omit [BEq V] in
/-- A diff is never vain: an entity in it follows another link once the
changes are written. -/
theorem exists_get_diff_ne {x : ChainedVariable S} (own : x.cells.Lawful)
    {index : ChainIndex} (hindex : x.index s = .ok index)
    {chains : List (List Nat)}
    (rearranged : ChainIndex.Rearranged index.chains chains)
    (h : index.diff chains ≠ []) :
    ∃ e < x.count s, x.get s e ≠ x.get (x.setAll s (index.diff chains)) e := by
  obtain ⟨⟨e, held⟩, hchange⟩ := List.exists_mem_of_ne_nil _ h
  obtain ⟨link, rfl, hlink, hne⟩ := ChainIndex.mem_diff.mp hchange
  have hflat :=
    rearranged.perm.mem_iff.mp (ChainIndex.mem_flatten_of_mem_linksOf hlink)
  have he : e < x.count s :=
    ((ChainedVariable.mem_flatten_of_index hindex).mp hflat).1
  refine ⟨e, he, ?_⟩
  rw [ChainedVariable.get_diff_of_mem own hindex rearranged hlink]
  -- the link held is the previous one in the index, which the diff leaves out
  rw [← ChainedVariable.previousLink_eq_get hindex he]
  exact hne

/-- A rearranging step that has links to write changes one. -/
theorem Rearranges.differ {u : Step S V} (ht : u.Rearranges vs)
    (lawful : vs.Lawful) (h : u.linkChanges s ≠ []) :
    vs.Differ s (u.apply s) := by
  obtain ⟨x, hx, happly, hplan⟩ := ht.apply_eq
  cases hplanned : u.linkPlan s with
  | error flaw => exact absurd (linkChanges_of_error hplanned) h
  | ok changes =>
      obtain ⟨index, chains, hindex, rearranged, rfl⟩ :=
        hplan s changes hplanned
      rw [happly]
      rw [linkChanges_of_ok hplanned] at h ⊢
      exact .inr ⟨x, hx,
        exists_get_diff_ne (lawful.links x hx) hindex rearranged h⟩

-- ================================================================= exactness

/-- A doable step changes a variable. -/
theorem differ_of_isDoable [PartialEquivBEq V] (lawful : vs.Lawful)
    {u : Step S V} (scope : u.Over vs) (aims : u.Aims s)
    (h : u.isDoable s = true) : vs.Differ s (u.apply s) := by
  cases u with
  | change x e value =>
      have he : e < x.count s := aims e (List.mem_cons_self ..)
      have hget : x.get ((change x e value).apply s) e = value :=
        (lawful.values x scope).get_set s e value he
      refine .inl ⟨x, scope, e, he, ?_⟩
      rw [hget]
      exact h
  | swap x l r =>
      obtain ⟨-, hne⟩ := Bool.and_eq_true_iff.mp h
      have hl : l < x.count s := aims l (List.mem_cons_self ..)
      refine .inl ⟨x, scope, l, hl, ?_⟩
      rw [get_swap_left lawful scope hl]
      exact hne
  | pillarChange x pillar value =>
      cases hshared : sharedValue x s pillar with
      | none => simp only [isDoable, hshared, Bool.false_eq_true] at h
      | some shared =>
          obtain ⟨head, rest, rfl, rfl⟩ := exists_of_sharedValue hshared
          have hhead : head < x.count s := aims head (List.mem_cons_self ..)
          have hget : x.get ((pillarChange x (head :: rest) value).apply s) head
              = value :=
            (lawful.values x scope).get_setAll_map (fun _ => value) hhead
              (List.mem_cons_self ..)
          refine .inl ⟨x, scope, head, hhead, ?_⟩
          rw [hget]
          simpa only [isDoable, hshared] using h
  | pillarSwap x left right =>
      cases hleft : sharedValue x s left with
      | none => simp only [isDoable, hleft, Bool.false_eq_true] at h
      | some leftValue =>
          cases hright : sharedValue x s right with
          | none => simp only [isDoable, hleft, hright, Bool.false_eq_true] at h
          | some rightValue =>
              obtain ⟨l, ls, rfl, rfl⟩ := exists_of_sharedValue hleft
              obtain ⟨r, rs, rfl, rfl⟩ := exists_of_sharedValue hright
              have hrange : ∀ e ∈ r :: rs, e < x.count s :=
                fun e he => aims e (List.mem_append_right _ he)
              have hr := List.mem_cons_self (a := r) (l := rs)
              -- the right side is written last, so it shows even where the
              -- pillars overlap
              refine .inl ⟨x, scope, r, hrange r hr, ?_⟩
              rw [get_pillarSwap_right lawful scope hrange r hr, bne_comm]
              simpa only [isDoable, hleft, hright] using h
  | segmentChange | segmentSwap | tailSwap =>
      exact Rearranges.differ scope lawful fun hnil => by
        simp [isDoable, hnil] at h
  | restore x links =>
      obtain ⟨change, hchange, hne⟩ := List.any_eq_true.mp h
      obtain ⟨hrange, nodup⟩ := aims
      have own := lawful.links x scope
      refine .inr ⟨x, scope, change.1, hrange change hchange, ?_⟩
      have hget : x.get (x.setAll s links) change.1 = change.2 := by
        refine own.get_setAll_of_mem (· = change.2) links
          (hrange change hchange)
          (List.mem_map_of_mem hchange) fun other hother hfst => ?_
        exact congrArg Prod.snd
          (List.inj_on_of_nodup_map nodup hother hchange hfst)
      rw [apply_eq_setAllLinks (x := x) rfl]
      show x.get s change.1 ≠ x.get (x.setAll s links) change.1
      rw [hget]
      exact bne_iff_ne.mp hne

/-- A step that is not doable changes none. -/
theorem same_of_not_isDoable [PartialEquivBEq V] (lawful : vs.Lawful)
    {u : Step S V} (scope : u.Over vs) (agree : u.PillarsHoldOne s)
    (h : u.isDoable s = false) : vs.Same (alike V) (u.apply s) s := by
  cases u with
  | change x e value =>
      refine lawful.same_held scope fun change hchange _ => ?_
      rw [List.mem_singleton.mp hchange]
      exact (alike V).symm (alike_of_bne_eq_false h)
  | swap x l r =>
      have hsame : (alike V).r (x.get s l) (x.get s r) := by
        rcases Bool.and_eq_false_iff.mp h with h | h
        · exact related_of_eq (congrArg (x.get s) (bne_eq_false_iff_eq.mp h))
        · exact alike_of_bne_eq_false h
      refine lawful.same_held scope fun change hchange _ => ?_
      rcases List.mem_cons.mp hchange with rfl | hchange
      · exact (alike V).symm hsame
      · rw [List.mem_singleton.mp hchange]
        exact hsame
  | pillarChange x pillar value =>
      cases pillar with
      | nil => exact Variables.Same.refl s
      | cons head rest =>
          have halike := agree.alike_head
          have hvalue : (alike V).r (x.get s head) value := by
            refine alike_of_bne_eq_false ?_
            simpa only [isDoable, agree.sharedValue_eq] using h
          refine lawful.same_held scope fun change hchange _ => ?_
          obtain ⟨e, he, rfl⟩ := List.mem_map.mp hchange
          exact (alike V).symm ((alike V).trans (halike e he) hvalue)
  | pillarSwap x left right =>
      cases left with
      | nil => exact Variables.Same.refl s
      | cons l ls =>
          cases right with
          | nil => exact Variables.Same.refl s
          | cons r rs =>
              obtain ⟨hleft, hright⟩ := agree
              have hheads : (alike V).r (x.get s l) (x.get s r) := by
                refine alike_of_bne_eq_false ?_
                simpa only [isDoable, hleft.sharedValue_eq,
                  hright.sharedValue_eq] using h
              refine lawful.same_held scope fun change hchange _ => ?_
              rcases List.mem_append.mp hchange with hchange | hchange
              · obtain ⟨e, he, rfl⟩ := List.mem_map.mp hchange
                exact (alike V).symm
                  ((alike V).trans (hleft.alike_head e he) hheads)
              · obtain ⟨e, he, rfl⟩ := List.mem_map.mp hchange
                exact (alike V).symm
                  ((alike V).trans (hright.alike_head e he)
                    ((alike V).symm hheads))
  | segmentChange x _ _ _ | segmentSwap x _ _ _ | tailSwap x _ _ =>
      have hnil := List.isEmpty_iff.mp (Bool.eq_true_of_not_eq_false' h)
      rw [apply_eq_setAllLinks (x := x) rfl, hnil]
      exact Variables.Same.refl s
  | restore x links =>
      rw [apply_eq_setAllLinks (x := x) rfl]
      refine lawful.same_setAllLinks scope links fun e he => ?_
      refine (lawful.links x scope).get_setAll_of_held
        (· = x.get s e) links he rfl ?_
      intro change hchange hfst
      subst hfst
      have hheld := List.any_eq_false.mp h change hchange
      exact (bne_eq_false_iff_eq.mp (Bool.eq_false_iff.mpr hheld)).symm

/-- Whether a step is doable says whether it changes anything, in any state,
be its chains as they may. Pillars have to hold one value each for a step
that is not doable to leave them alone: if they do not, it evens them out. -/
theorem isDoable_exact [PartialEquivBEq V] [Director D S Sc] [LawfulDirector D]
    (lawful : vs.Lawful) (u : Step S V) (d : D) (scope : u.Over vs)
    (aims : u.Aims (Director.working d)) :
    (u.run : Act D Unit).Leads (¬ Director.Quiet d) d fun _ done =>
      (u.isDoable (Director.working d) = true →
        vs.Differ (Director.working d) (Director.working done)) ∧
      (u.isDoable (Director.working d) = false →
          u.PillarsHoldOne (Director.working d) →
        vs.Same (alike V) (Director.working done) (Director.working d)) := by
  obtain ⟨inv, hd, calls⟩ := Director.exists_announced d
  refine (u.leads_run calls hd).mono (fun _ done h => ?_) id
  obtain ⟨-, hworking⟩ := h
  rw [hworking]
  exact ⟨differ_of_isDoable lawful scope aims,
    fun hnot agree => same_of_not_isDoable lawful scope agree hnot⟩

/-- A tail that goes to the other track, and a segment that would go behind
an entity of no track. -/
theorem isDoable_exact_tracks :
    let d := Mixed.twoTracks
    let tail : Step Mixed Int := .tailSwap Mixed.previous 1 (.anchor 1)
    let stray : Step Mixed Int :=
      .segmentChange Mixed.previous [1, 2] (.entity 6) true
    (Mixed.world.variables.Lawful ∧ tail.Over Mixed.world.variables ∧
      stray.Over Mixed.world.variables ∧ tail.Aims d.working ∧
        stray.Aims d.working ∧
      tail.isDoable d.working = true ∧ stray.isDoable d.working = false ∧
      stray.PillarsHoldOne d.working ∧ Director.Quiet d) ∧
    (tail.run : Act (FullDirector Mixed HardSoft) Unit).Leads
      (¬ Director.Quiet d) d
      (fun _ done => Mixed.world.variables.Differ d.working done.working) ∧
    (stray.run : Act (FullDirector Mixed HardSoft) Unit).Leads
      (¬ Director.Quiet d) d
      fun _ done => Mixed.world.variables.Same (alike Int) done.working
          d.working := by
  intro d tail stray
  have doable : tail.isDoable d.working = true := rfl
  have idle : stray.isDoable d.working = false := rfl
  have htail := isDoable_exact Mixed.lawful tail d Mixed.previous_mem trivial
  have hstray := isDoable_exact Mixed.lawful stray d Mixed.previous_mem trivial
  exact ⟨⟨Mixed.lawful, Mixed.previous_mem, Mixed.previous_mem, trivial,
      trivial, doable, idle, trivial, FullDirector.quiet d⟩,
    htail.mono (fun _ _ h => h.1 doable) id,
      hstray.mono (fun _ _ h => h.2 idle trivial) id⟩

end Step

end PlanSearch

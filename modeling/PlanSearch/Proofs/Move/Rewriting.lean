/-
Chains realised through a few links.

A rearrangement is thought of as chains and carried out as links: the new
chains are compared with the old ones, and only the links that differ are
written. Nothing checks afterwards that the one is the other, and it is,
for any chains whatever and not just those that one of the steps comes up
with: as long as there is one for each anchor and they hold the entities
of the old ones, each once (`Plans`), building an index of the solution
finds them again (`Rewritten`).

What is written is exactly what must be (`mem_keys_diff_iff`), and what is
handed over as the way back covers exactly what was written, so it brings
the old links back in every solution that holds the new ones
(`agree_held`).
-/
import PlanSearch.Proofs.Move.Effects
import PlanSearch.Proofs.Move.Trial

namespace PlanSearch

variable {D S V Sc : Type} {x : ChainedVariable S} {s : S} {index : ChainIndex}
  {chains : List (List Nat)} {changes : LinkChanges} {e : Nat}

-- ============================================================ vocabulary

namespace ChainedVariable

/-- Chains that may be asked for in place of the present ones. -/
structure Plans (x : ChainedVariable S) (s : S) (index : ChainIndex)
    (chains : List (List Nat)) : Prop where
  /-- There is one for each anchor, -/
  length : chains.length = x.anchors s
  /-- and they hold no entity twice -/
  nodup : chains.flatten.Nodup
  /-- and the entities that are on chains now. -/
  mem_iff : ∀ e, e ∈ chains.flatten ↔ e ∈ index.chains.flatten

/-- The chains are those asked for, of the same entities, and what the
changes do not mention follows what it followed before. -/
structure Rewritten (x : ChainedVariable S) (s : S) (changes : LinkChanges)
    (chains : List (List Nat)) (done : S) : Prop where
  index : x.index done = .ok (.ofChains (x.count s) chains)
  count : x.count done = x.count s
  kept : ∀ e < x.count s, e ∉ changes.map Prod.fst → x.get done e = x.get s e

end ChainedVariable

-- ============================================================== the diff

namespace ChainIndex

/-- Off the chains nothing stands before an entity. -/
theorem previousLink_eq_none_iff (tabled : index.Tabled) :
    index.previousLink e = none ↔ e ∉ index.chains.flatten := by
  rw [Option.eq_none_iff_forall_ne_some]
  constructor
  · intro h hmem
    obtain ⟨a, p, hstands⟩ := mem_flatten_iff.mp hmem
    obtain ⟨link, hlink⟩ := exists_mem_linksOf hstands
    exact h link ((previousLink_iff tabled).mpr hlink)
  · intro hoff link hlink
    exact hoff (mem_flatten_of_mem_linksOf ((previousLink_iff tabled).mp hlink))

/-- The diff mentions those entities that stand behind something else. -/
theorem mem_keys_diff_iff {other : ChainIndex} (tabled : index.Tabled)
    (tabled' : other.Tabled)
    (rearranged : Rearranged index.chains other.chains) :
    e ∈ (index.diff other.chains).map Prod.fst ↔
      index.previousLink e ≠ other.previousLink e := by
  rw [mem_keys_diff]
  cases hlink : other.previousLink e with
  | none =>
      -- on no chain, so on none before either
      have hoff := (previousLink_eq_none_iff tabled').mp hlink
      have hold : e ∉ index.chains.flatten := fun h =>
        hoff (rearranged.perm.mem_iff.mpr h)
      refine iff_of_false (fun h => ?_) fun hne =>
        hne ((previousLink_eq_none_iff tabled).mpr hold)
      obtain ⟨link, hmem, -⟩ := h
      exact hoff (mem_flatten_of_mem_linksOf hmem)
  | some link =>
      have hmem := (previousLink_iff tabled').mp hlink
      constructor
      · intro h
        obtain ⟨next, hnext, hne⟩ := h
        rwa [link_unique tabled'.nodup hnext hmem] at hne
      · exact fun hne => ⟨link, hmem, hne⟩

end ChainIndex

namespace ChainedVariable

/-- Planned chains are a rearrangement of the present ones. -/
theorem Plans.rearranged (h : x.Plans s index chains)
    (hindex : x.index s = .ok index) :
    ChainIndex.Rearranged index.chains chains where
  length := h.length.trans (traces_of_index hindex).2.length.symm
  perm :=
    (List.perm_ext_iff_of_nodup h.nodup (nodup_of_index hindex)).mpr h.mem_iff

variable (own : x.cells.Lawful)

include own in
/-- Written as its diff, a rearrangement is carried out. -/
theorem rewritten_diff
    (anchors : ∀ s e link, x.anchors (x.set s e link) = x.anchors s)
    (hindex : x.index s = .ok index)
    (rearranged : ChainIndex.Rearranged index.chains chains) :
    x.Rewritten s (index.diff chains) chains
      (x.setAll s (index.diff chains)) where
  index := index_diff own hindex rearranged
    (Cells.setAll_keeps (c := x.cells) anchors _ s)
  count := count_setAll own _
  kept _ he hkey := own.get_setAll_of_notMem _ he hkey

include own in
/-- What was held before some changes takes them back. -/
theorem agree_held {u : S} (h : x.cells.Agree Eq u (x.setAll s changes)) :
    x.cells.Agree Eq (x.setAll u (x.held s (changes.map Prod.fst))) s := by
  refine own.agree_setAll_back (map_fst_held x s _) (fun change hchange => ?_) h
  obtain ⟨e, -, rfl⟩ := List.mem_map.mp hchange
  rfl

end ChainedVariable

-- =========================================================== on directors

namespace Step

/-- The way back of a chain step that writes something. -/
theorem wayBack_eq_held {t : Step S V} (h : t.batch? s = x.batch? s changes)
    (hne : changes ≠ []) :
    t.wayBack s = [fun u => x.setAll u (x.held s (changes.map Prod.fst))] := by
  unfold wayBack
  rw [h]
  unfold ChainedVariable.batch?
  cases changes with
  | nil => exact absurd rfl hne
  | cons change rest => rfl

variable [Director D S Sc]

/-- Without links to restore the director is left alone. -/
theorem leads_restore_nil (x : ChainedVariable S) (d : D) :
    ((restore x [] : Step S V).run : Act D Unit).Leads False d
      fun _ done => done = d :=
  Act.leads_bind (Act.leads_get (Act.leads_pure rfl))

variable [Planning S Sc] [LawfulDirector D]

/-- Links written through a recording, whatever they are, leave one more way
back there, and it takes them back in every solution that holds them. -/
theorem leads_restore_recorded {excuse : Prop} {inv : D → Prop}
    (calls : Director.Announced excuse inv) (own : x.cells.Lawful)
    (changes : LinkChanges) {r : Recording D S} (hr : inv r.inner) :
    ((restore x changes : Step S V).run : Act (Recording D S) Unit).Leads excuse
      r fun _ done =>
      Director.working done = x.setAll (Director.working r) changes ∧
      (changes = [] → done = r) ∧
      (changes ≠ [] → ∃ undo, done.undos = undo :: r.undos ∧
        ∀ u, x.cells.Agree Eq u (Director.working done) →
          x.cells.Agree Eq (undo u) (Director.working r)) := by
  by_cases hnil : changes = []
  · subst hnil
    refine (leads_restore_nil x r).mono (fun _ done hdone => ?_) False.elim
    subst hdone
    exact ⟨rfl, fun _ => rfl, fun hne => absurd rfl hne⟩
  · have hat : Recording.At inv (Director.working r) r.undos r := ⟨hr, rfl, rfl⟩
    refine (Recording.leads_step calls (restore x changes : Step S V)
      hat).mono ?_ id
    intro _ done hdone
    have hworking : Director.working done
        = x.setAll (Director.working r) changes :=
      hdone.working.trans (apply_eq_setAllLinks rfl)
    have hundos : done.undos =
        (fun u => x.setAll u (x.held (Director.working r)
            (changes.map Prod.fst))) :: r.undos := by
      rw [hdone.undos, wayBack_eq_held (x := x) rfl hnil]
      rfl
    refine ⟨hworking, fun h => absurd h hnil,
      fun _ => ⟨_, hundos, fun u hu => ?_⟩⟩
    rw [hworking] at hu
    exact ChainedVariable.agree_held own hu

/-- Writing the diff to planned chains makes the chains of a solution the
planned ones. The diff mentions no entity twice, and those only that come
to stand behind something else. A recording is left with one more way
back, which brings back the old links, unless there was nothing to write. -/
theorem restore_diff_realises (own : x.cells.Lawful)
    (anchors : ∀ s e link, x.anchors (x.set s e link) = x.anchors s)
    (r : Recording D S) (hindex : x.index (Director.working r) = .ok index)
    (planned : x.Plans (Director.working r) index chains) :
    let s := Director.working r
    let changes := index.diff chains
    let write : Step S V := .restore x changes
    (changes.map Prod.fst).Nodup ∧
    (∀ e, e ∈ changes.map Prod.fst ↔
      index.previousLink e ≠
        (ChainIndex.ofChains (x.count s) chains).previousLink e) ∧
    (write.run : Act D Unit).Leads (¬ Director.Quiet r.inner) r.inner
      (fun _ done => x.Rewritten s changes chains (Director.working done)) ∧
    (write.run : Act (Recording D S) Unit).Leads (¬ Director.Quiet r.inner) r
        fun _ done =>
      x.Rewritten s changes chains (Director.working done) ∧
      (changes = [] → done = r) ∧
      (changes ≠ [] → ∃ undo, done.undos = undo :: r.undos ∧
        ∀ u, x.cells.Agree Eq u (Director.working done) →
            x.cells.Agree Eq (undo u) s) := by
  intro s changes write
  have rearranged := planned.rearranged hindex
  have hrewritten : x.Rewritten s changes chains (x.setAll s changes) :=
    ChainedVariable.rewritten_diff own anchors hindex rearranged
  obtain ⟨inv, hd, calls⟩ := Director.exists_announced r.inner
  refine ⟨ChainIndex.nodup_keys_diff index planned.nodup,
    fun e => ChainIndex.mem_keys_diff_iff
      (ChainedVariable.tabled_of_index hindex)
      (ChainedVariable.tabled_of_index hrewritten.index) rearranged,
    ?director, ?recording⟩
  case director =>
    refine (Step.leads_run calls write hd).mono (fun _ done h => ?_) id
    have hworking : Director.working done = x.setAll s changes :=
      h.2.trans (apply_eq_setAllLinks rfl)
    rw [hworking]
    exact hrewritten
  case recording =>
    refine (leads_restore_recorded calls own changes hd).mono
      (fun _ done h => ?_) id
    obtain ⟨hworking, hundo⟩ := h
    exact ⟨by rw [hworking]; exact hrewritten, hundo⟩

/-- Two tracks drawn together on the second one, and the first left empty:
entity 1 stands behind entity 0 as before and is not written, and entity 6
stays on no track. -/
theorem restore_diff_realises_tracks :
    let x := Mixed.previous
    let index := ChainIndex.ofChains 7 [[0, 1, 2, 3], [4, 5]]
    let chains := [[], [3, 2, 4, 0, 1, 5]]
    let changes : LinkChanges := [(3, some (.anchor 1)), (2, some (.entity 3)),
      (4, some (.entity 2)), (0, some (.entity 4)), (5, some (.entity 1))]
    let write : Step Mixed Int := .restore x changes
    let r := Recording.start Mixed.twoTracks
    let s := Mixed.twoTracks.working
    (x.cells.Lawful ∧ (∀ s e link, x.anchors (x.set s e link) = x.anchors s) ∧
      x.index s = .ok index ∧ x.Plans s index chains ∧
      Director.Quiet r.inner) ∧
    index.diff chains = changes ∧
    (changes.map Prod.fst).Nodup ∧
    (∀ e, e ∈ changes.map Prod.fst ↔
      index.previousLink e ≠
        (ChainIndex.ofChains 7 chains).previousLink e) ∧
    (write.run : Act (FullDirector Mixed HardSoft) Unit).Leads
      (¬ Director.Quiet r.inner) r.inner
      (fun _ done => x.Rewritten s changes chains done.working) ∧
    (write.run : Act (Recording (FullDirector Mixed HardSoft) Mixed) Unit).Leads
      (¬ Director.Quiet r.inner) r fun _ done =>
        x.Rewritten s changes chains (Director.working done) ∧
        (changes = [] → done = r) ∧
        (changes ≠ [] → ∃ undo, done.undos = [undo] ∧
          ∀ u, x.cells.Agree Eq u (Director.working done) →
              x.cells.Agree Eq (undo u) s) := by
  intro x index chains changes write r s
  have own : x.cells.Lawful := Mixed.lawful.links x Mixed.previous_mem
  have anchors : ∀ s e link, x.anchors (x.set s e link) = x.anchors s :=
    (Mixed.lawful.anchors x Mixed.previous_mem).2 x Mixed.previous_mem
  have hperm : chains.flatten.Perm [[0, 1, 2, 3], [4, 5]].flatten := by decide
  have hindex : x.index s = .ok index := Mixed.index_twoTracks
  have planned : x.Plans s index chains :=
    ⟨rfl, by decide, fun e => hperm.mem_iff⟩
  have hdiff : index.diff chains = changes := by decide
  have hwritten := restore_diff_realises (V := Int) own anchors r hindex planned
  simp only [hdiff] at hwritten
  exact ⟨⟨own, anchors, hindex, planned, FullDirector.quiet r.inner⟩, hdiff,
    hwritten⟩

end Step

end PlanSearch

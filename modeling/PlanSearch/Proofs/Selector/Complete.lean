/-
Complete passes.

`Reading.Reads` says which moves a reading hands out until it ends, from
the counters given. It is asked for one move after the other, so what it
opens on the way, and how often that was opened before, is part of it. But
only the counters at and below its own root matter (`Reads.alike`), so a
pass may be read in turns with others and hands out the same.

# Up to counters

The counters are kept in a list, in the order in which selectors were first
opened, and that order depends on what else is opened. So an act is said to
reach an answer and counters, not a list (`Act.Reaches`): whatever list the
counters are in, what comes after goes the same way.
-/
import PlanSearch.Proofs.Selector.Passes
import PlanSearch.Proofs.Selector.Zones

namespace PlanSearch

-- ========================================================== up to counters

namespace Act

variable {α β : Type} {zone : List Nat → Prop} {act : Nat → Act Passes α}
  {kept : α → Prop} {passes others after : Passes} {a : α}

/-- From some patience on the act comes to the answer and leaves the
counters as they are after it, whatever list they are kept in. -/
def Reaches (act : Nat → Act Passes α) (passes : Passes) (a : α)
    (after : Passes) : Prop :=
  ∃ n, ∀ fuel, n ≤ fuel → ∃ t, (act fuel).run passes = (.ok a, t) ∧
    t.Alike (fun _ => True) after

/-- A run that is known is reached. -/
theorem reaches_of_run (h : ∀ fuel, (act fuel).run passes = (.ok a, after)) :
    Reaches act passes a after :=
  ⟨0, fun fuel _ => ⟨after, h fuel, Passes.Alike.refl _ after⟩⟩

/-- An answer that comes whatever was counted is reached. -/
theorem Comes.reaches (h : Comes act a) (passes : Passes) :
    Reaches act passes a passes := by
  obtain ⟨n, hrun⟩ := h
  exact ⟨n, fun fuel hfuel => ⟨passes, hrun fuel hfuel passes,
    Passes.Alike.refl _ passes⟩⟩

/-- What is reached with less patience is reached with more. -/
theorem Reaches.later
    (h : Reaches (fun fuel => act (fuel + 1)) passes a after) :
    Reaches act passes a after := by
  obtain ⟨n, hrun⟩ := h
  refine ⟨n + 1, fun fuel hfuel => ?_⟩
  obtain ⟨k, rfl⟩ : ∃ k, fuel = k + 1 := ⟨fuel - 1, by omega⟩
  exact hrun k (by omega)

/-- An act that keeps to a zone comes to the same wherever the zone is
alike, and leaves the zone alike. -/
theorem Reaches.alike (h : Reaches act passes a after)
    (hwithin : ∀ fuel, (act fuel).Within zone kept)
    (halike : passes.Alike zone others) :
    ∃ later, Reaches act others a later ∧ after.Alike zone later := by
  obtain ⟨n, hrun⟩ := h
  have hsame : ∀ fuel, n ≤ fuel → ((act fuel).run others).1 = .ok a ∧
      after.Alike zone ((act fuel).run others).2 := by
    intro fuel hfuel
    obtain ⟨t, ht, hafter⟩ := hrun fuel hfuel
    obtain ⟨hanswer, hzone⟩ := (hwithin fuel).same passes others halike
    rw [ht] at hanswer hzone
    exact ⟨hanswer.symm, (hafter.symm.mono fun _ _ => trivial).trans hzone⟩
  refine ⟨((act n).run others).2, ⟨n, fun fuel hfuel => ?_⟩,
    (hsame n (Nat.le_refl n)).2⟩
  refine ⟨((act fuel).run others).2, Prod.ext (hsame fuel hfuel).1 rfl,
    fun path _ => ?_⟩
  by_cases hpath : zone path
  · rw [← (hsame fuel hfuel).2 path hpath,
      (hsame n (Nat.le_refl n)).2 path hpath]
  · rw [(hwithin fuel).apart others path hpath,
      (hwithin n).apart others path hpath]

/-- The rest it leaves as it is. -/
theorem Reaches.apart (h : Reaches act passes a after)
    (hwithin : ∀ fuel, (act fuel).Within zone kept) :
    kept a ∧ after.Alike (fun path => ¬ zone path) passes := by
  obtain ⟨n, hrun⟩ := h
  obtain ⟨t, ht, hafter⟩ := hrun n (Nat.le_refl n)
  have hapart := (hwithin n).apart passes
  have hkept := (hwithin n).post passes
  rw [ht] at hapart hkept
  exact ⟨hkept a rfl, (hafter.symm.mono fun _ _ => trivial).trans hapart⟩

/-- Answers are reached one after the other. -/
theorem Reaches.bind {next : Nat → α → Act Passes β} {kept : β → Prop} {b : β}
    {final : Passes} (h : Reaches act passes a after)
    (hwithin : ∀ fuel, (next fuel a).Within zone kept)
    (hnext : Reaches (fun fuel => next fuel a) after b final) :
    Reaches (fun fuel => act fuel >>= next fuel) passes b final := by
  obtain ⟨n, hrun⟩ := h
  obtain ⟨k, hnext⟩ := hnext
  refine ⟨max n k, fun fuel hfuel => ?_⟩
  obtain ⟨t, ht, hafter⟩ := hrun fuel (by omega)
  obtain ⟨u, hu, hfinal⟩ := hnext fuel (by omega)
  obtain ⟨hanswer, hzone⟩ :=
    (hwithin fuel).same t after (hafter.mono fun _ _ => trivial)
  have hapart := (hwithin fuel).apart t
  have hothers := (hwithin fuel).apart after
  rw [hu] at hanswer hzone hothers
  refine ⟨((next fuel a).run t).2, ?_, fun path _ => ?_⟩
  · rw [run_bind, ht]
    exact Prod.ext hanswer rfl
  · by_cases hpath : zone path
    · rw [hzone path hpath, hfinal path trivial]
    · rw [hapart path hpath, hafter path trivial, ← hothers path hpath,
        hfinal path trivial]

theorem Reaches.bind_pure {next : Nat → α → Act Passes β} {b : β}
    (h : Reaches act passes a after) (hnext : ∀ fuel, next fuel a = pure b) :
    Reaches (fun fuel => act fuel >>= next fuel) passes b after := by
  have hwithin : ∀ fuel, (next fuel a).Within (fun _ => True)
      fun _ => True := by
    intro fuel
    rw [hnext fuel]
    exact within_pure trivial
  refine h.bind hwithin (reaches_of_run fun fuel => ?_)
  rw [hnext fuel]
  rfl

/-- Two acts in a row, and what follows whatever the second one answers. -/
theorem Reaches.bind_bind {γ : Type} {second : Nat → α → Act Passes β}
    {next : Nat → β → Act Passes γ} {b : β} {c : γ} {later final : Passes}
    (h : Reaches act passes a after)
    (hsecond : Reaches (fun fuel => second fuel a) after b later)
    (hwithin : ∀ fuel, (second fuel a).Within zone fun _ => True)
    (hfollows : ∀ fuel b, (next fuel b).Within zone fun _ => True)
    (hnext : Reaches (fun fuel => next fuel b) later c final) :
    Reaches (fun fuel => act fuel >>= fun a => second fuel a >>= next fuel)
      passes c final :=
  h.bind (fun fuel => (hwithin fuel).bind fun b _ => hfollows fuel b)
    (hsecond.bind (fun fuel => hfollows fuel b) hnext)

end Act

-- ========================================================= complete passes

variable {S V : Type} [BEq V] {s : S}

/-- From the counters given, the reading hands out these moves, one after
the other, and ends. -/
inductive Reading.Reads (s : S) : Reading S V → Passes → List (Move S V) → Prop
  | ended {reading later : Reading S V} {passes after : Passes} :
      Act.Reaches (fun fuel => Reading.next s fuel reading) passes (.ended,
        later) after →
      Reads s reading passes []
  | move {reading later : Reading S V} {passes after : Passes} {m : Move S V}
      {moves : List (Move S V)} :
      Act.Reaches (fun fuel => Reading.next s fuel reading) passes (.move m,
        later) after →
      Reads s later after moves → Reads s reading passes (m :: moves)

/-- From the counters given, a pass of the selector at a place has these
moves. -/
def Selector.Reads (s : S) (selector : Selector S V) (path : List Nat)
    (passes : Passes) (moves : List (Move S V)) : Prop :=
  ∃ reading after,
    Act.Reaches (fun fuel => Reading.openOn s fuel selector path) passes reading
    after ∧ reading.Reads s after moves

/-- Only the counters at and below the root matter for it. -/
theorem Reading.Reads.alike {reading : Reading S V} {passes others : Passes}
    {root : List Nat} {moves : List (Move S V)}
    (h : reading.Reads s passes moves) (hrooted : reading.Rooted root)
    (halike : passes.Alike (root <+: ·) others) :
    reading.Reads s others moves := by
  induction h generalizing others with
  | ended hended =>
      obtain ⟨_, hreaches, -⟩ :=
        hended.alike (fun fuel =>
          (Reading.zoned s root fuel).next _ hrooted) halike
      exact .ended hreaches
  | move hmove _ ih =>
      have hwithin := fun fuel => (Reading.zoned s root fuel).next _ hrooted
      obtain ⟨_, hreaches, hafter⟩ := hmove.alike hwithin halike
      exact .move hreaches (ih (hmove.apart hwithin).1 hafter)

/-- A pass reads the same where the counters below its root are alike. -/
theorem Selector.Reads.alike {selector : Selector S V} {passes others : Passes}
    {root : List Nat} {moves : List (Move S V)}
    (h : selector.Reads s root passes moves)
    (halike : passes.Alike (root <+: ·) others) :
    selector.Reads s root others moves := by
  obtain ⟨reading, after, hopen, hreads⟩ := h
  have hwithin := fun fuel =>
    (Reading.zoned s root fuel).openOn selector root (List.prefix_refl root)
  obtain ⟨later, hreaches, hafter⟩ := hopen.alike hwithin halike
  exact ⟨reading, later, hreaches, hreads.alike (hopen.apart hwithin).1 hafter⟩

/-- A reading that answers like another reads the same moves. -/
theorem Reading.Reads.of_reaches {reading other : Reading S V}
    {passes others : Passes} {moves : List (Move S V)}
    (hreads : other.Reads s others moves)
    (h : ∀ answer after,
      Act.Reaches (fun fuel => Reading.next s fuel other) others answer after →
      Act.Reaches (fun fuel => Reading.next s fuel reading) passes
        answer after) :
    reading.Reads s passes moves := by
  cases hreads with
  | ended hended => exact .ended (h _ _ hended)
  | move hmove hlater => exact .move (h _ _ hmove) hlater

/-- A pass that lists its moves whatever the counters hands them out. -/
theorem Reading.Lists.reads {reading : Reading S V} {moves : List (Move S V)}
    (h : reading.Lists s moves) (passes : Passes) :
    reading.Reads s passes moves := by
  induction h with
  | ended hturn => exact .ended (hturn.reaches _)
  | move hturn _ ih => exact .move (hturn.reaches _) ih

/-- What is offered is read. -/
theorem Selector.Offers.reads {selector : Selector S V}
    {moves : List (Move S V)} (h : selector.Offers s moves) (path : List Nat)
    (passes : Passes) : selector.Reads s path passes moves := by
  obtain ⟨reading, hopened, hlists⟩ := h path
  exact ⟨reading, passes, hopened.reaches passes, hlists.reads passes⟩

/-- Reading to the end collects the moves of a complete pass. -/
theorem Reading.Reads.drain {reading : Reading S V} {passes : Passes}
    {root : List Nat} {moves : List (Move S V)}
    (h : reading.Reads s passes moves) (hrooted : reading.Rooted root)
    (done : List (Move S V)) :
    ∃ after, Act.Reaches (fun fuel => Reading.drain s fuel reading done) passes
      (some (done.reverse ++ moves)) after := by
  induction h generalizing done with
  | @ended _ later _ after hended =>
      refine ⟨after, Act.Reaches.later ?_⟩
      rw [List.append_nil]
      simp only [Reading.drain]
      exact hended.bind_pure fun _ => rfl
  | @move _ later _ _ m moves hmove _ ih =>
      have hlater :=
        (hmove.apart fun fuel => (Reading.zoned s root fuel).next _ hrooted).1
      obtain ⟨after, hdrain⟩ := ih hlater (m :: done)
      rw [List.reverse_cons, List.append_assoc] at hdrain
      refine ⟨after, Act.Reaches.later ?_⟩
      simp only [Reading.drain]
      exact hmove.bind
        (fun fuel => (Reading.zoned s root fuel).drain later _ hlater) hdrain

end PlanSearch

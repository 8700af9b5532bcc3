/-
A pass counts within its own part of the tree.

How often each selector was opened is kept in one list for the whole tree,
so a pass read in turns with others finds counters that the others have
moved. It does not look at them: a pass of the selector at `root` reads
and moves the counters at and below `root` only. Two states that agree
there give it the same answers, and whatever lies elsewhere it leaves as
it is.

# The judgement

`Act.Within` says so of an act, for any zone of the tree, and composes
along `bind`. A reading keeps to the zone in which the places it was
opened at lie (`Reading.Rooted`). As in `Kept`, all functions of a pass are
taken together, in one induction on the patience.
-/
import PlanSearch.Proofs.Selector.Supply

namespace PlanSearch

-- ================================================================= counters

namespace Passes

/-- How often the selector at a place was opened. -/
def count (path : List Nat) : Passes → Nat
  | [] => 0
  | p :: rest => if p.1 = path then p.2 else count path rest

/-- A pass is numbered by how often its path was opened before. -/
theorem open_fst (passes : Passes) (path : List Nat) :
    (passes.open path).1 = count path passes := by
  induction passes with
  | nil => rfl
  | cons p rest ih =>
      rw [Passes.open, count]
      split
      · rfl
      · exact ih

/-- Opening a path counts for that path alone. -/
theorem count_open (passes : Passes) (path other : List Nat) :
    count other (passes.open path).2 =
      if path = other then count path passes + 1 else count other passes := by
  induction passes with
  | nil =>
      rw [Passes.open, count]
      rfl
  | cons p rest ih =>
      rw [Passes.open]
      by_cases hp : p.1 = path
      · subst hp
        rw [if_pos rfl]
        by_cases hother : p.1 = other <;> simp [count, hother]
      · rw [if_neg hp]
        simp only [count, hp, if_false, ih]
        by_cases hother : p.1 = other
        · rw [if_pos hother, if_pos hother,
            if_neg fun h => hp (hother.trans h.symm)]
        · rw [if_neg hother, if_neg hother]

/-- The two agree on the counters of a zone. -/
def Alike (zone : List Nat → Prop) (passes others : Passes) : Prop :=
  ∀ path, zone path → count path passes = count path others

variable {zone : List Nat → Prop} {passes others further : Passes}

theorem Alike.refl (zone : List Nat → Prop) (passes : Passes) :
    passes.Alike zone passes :=
  fun _ _ => rfl

theorem Alike.symm (h : passes.Alike zone others) : others.Alike zone passes :=
  fun path hpath => (h path hpath).symm

theorem Alike.trans (h : passes.Alike zone others)
    (g : others.Alike zone further) : passes.Alike zone further :=
  fun path hpath => (h path hpath).trans (g path hpath)

theorem Alike.mono {narrower : List Nat → Prop} (h : passes.Alike zone others)
    (hzone : ∀ path, narrower path → zone path) :
    passes.Alike narrower others :=
  fun path hpath => h path (hzone path hpath)

end Passes

/-- The children of one selector have no place in common. -/
theorem child_unique {path other : List Nat} {i j : Nat}
    (hi : path ++ [i] <+: other) (hj : path ++ [j] <+: other) : i = j := by
  obtain ⟨rest, rfl⟩ := hi
  rw [List.append_assoc, List.prefix_append_right_inj] at hj
  exact (List.cons_prefix_cons.mp hj).1.symm

/-- A child is not above its parent. -/
theorem child_not_above {path : List Nat} {i : Nat} :
    ¬ path ++ [i] <+: path := by
  intro hbelow
  have hle := hbelow.length_le
  rw [List.length_append, List.length_singleton] at hle
  exact absurd hle (Nat.not_succ_le_self _)

-- ============================================================ the judgement

namespace Act

variable {α β : Type} {zone : List Nat → Prop}

/-- The act looks at the counters of the zone only and moves no others, and
its answers are as `post` says. -/
structure Within (zone : List Nat → Prop) (act : Act Passes α)
    (post : α → Prop) : Prop where
  same : ∀ passes others, passes.Alike zone others →
    (act.run passes).1 = (act.run others).1 ∧
      (act.run passes).2.Alike zone (act.run others).2
  apart : ∀ passes, (act.run passes).2.Alike (fun path => ¬ zone path) passes
  post : ∀ passes a, (act.run passes).1 = .ok a → post a

/-- An answer stays within any zone. -/
theorem within_pure {a : α} {post : α → Prop} (h : post a) :
    (pure a : Act Passes α).Within zone post where
  same _ _ halike := ⟨rfl, halike⟩
  apart passes := Passes.Alike.refl _ passes
  post _ _ ha := Except.ok.inj ha ▸ h

/-- What does not look at the passes stays within any zone. -/
theorem within_lift {result : Except Fault α} {post : α → Prop}
    (h : ∀ a, result = .ok a → post a) :
    (lift result : Act Passes α).Within zone post where
  same _ _ halike := ⟨rfl, halike⟩
  apart passes := Passes.Alike.refl _ passes
  post _ a ha := h a ha

/-- What stays within a zone step by step stays within it. -/
theorem Within.bind {act : Act Passes α} {next : α → Act Passes β}
    {mid : α → Prop} {post : β → Prop} (h : act.Within zone mid)
    (hnext : ∀ a, mid a → (next a).Within zone post) :
    (act >>= next).Within zone post where
  same passes others halike := by
    obtain ⟨hanswer, hafter⟩ := h.same passes others halike
    have hmid := h.post passes
    rw [run_bind, run_bind]
    generalize act.run passes = first at hanswer hafter hmid ⊢
    generalize act.run others = second at hanswer hafter ⊢
    obtain ⟨answer, after⟩ := first
    obtain ⟨_, later⟩ := second
    cases hanswer
    cases answer with
    | ok a => exact (hnext a (hmid a rfl)).same after later hafter
    | error f => exact ⟨rfl, hafter⟩
  apart passes := by
    have hapart := h.apart passes
    have hmid := h.post passes
    rw [run_bind]
    generalize act.run passes = first at hapart hmid ⊢
    obtain ⟨answer, after⟩ := first
    cases answer with
    | ok a => exact ((hnext a (hmid a rfl)).apart after).trans hapart
    | error f => exact hapart
  post passes b hb := by
    have hmid := h.post passes
    rw [run_bind] at hb
    generalize act.run passes = first at hmid hb
    obtain ⟨answer, after⟩ := first
    cases answer with
    | ok a => exact (hnext a (hmid a rfl)).post after b hb
    | error f => cases hb

/-- Looking at the counters and leaving them. -/
theorem within_kept {a : α} {post : α → Prop} (h : post a) :
    Within zone (do
      let passes ← (get : Act Passes Passes)
      set passes
      return a) post :=
  within_pure h

/-- Counting a selector of the zone: the answer depends on how often it was
opened before. -/
theorem within_open {path : List Nat} (hpath : zone path) (answer : Nat → α)
    {post : α → Prop} (h : ∀ n, post (answer n)) :
    Within zone (do
      let passes ← (get : Act Passes Passes)
      set (passes.open path).2
      return answer (passes.open path).1) post where
  same passes others halike := by
    have hcount := halike path hpath
    refine ⟨?_, ?_⟩
    · show Except.ok (answer (passes.open path).1)
        = Except.ok (answer (others.open path).1)
      rw [Passes.open_fst, Passes.open_fst, hcount]
    · intro other hother
      show (passes.open path).2.count other = (others.open path).2.count other
      rw [Passes.count_open, Passes.count_open, hcount, halike other hother]
  apart passes := by
    intro other hother
    show (passes.open path).2.count other = passes.count other
    have hne : path ≠ other := fun heq => hother (heq ▸ hpath)
    rw [Passes.count_open, if_neg hne]
  post passes a ha := Except.ok.inj ha ▸ h _

end Act

-- ================================================================== readings

variable {S V : Type}

/-- Whatever the reading has still to open lies at or below the root. -/
inductive Reading.Rooted (root : List Nat) : Reading S V → Prop
  | listed {moves : List (Move S V)} : Rooted root (.listed moves)
  | drawn {sampler : Sampler S V} {held : List Nat} {stream : Stream} :
      Rooted root (.drawn sampler held stream)
  | joined {current : Reading S V} {rest : List (Nat × Selector S V)}
      {path : List Nat} :
      root <+: path → Rooted root current →
        Rooted root (.joined current rest path)
  | weighted {live : List (Float × Reading S V)} {stream : Stream} :
      (∀ l ∈ live, Rooted root l.2) → Rooted root (.weighted live stream)
  | combined {wheels : Option (List (Wheel S V))} : Rooted root
    (.combined wheels)
  | zipped {children : List (Reading S V)} {ignoreEmpty : Bool} :
      (∀ r ∈ children, Rooted root r) →
        Rooted root (.zipped children ignoreEmpty)
  | limited {left : Nat} {inner : Reading S V} :
      Rooted root inner → Rooted root (.limited left inner)
  | stalled : Rooted root .stalled

theorem Reading.Rooted.mono {reading : Reading S V} {root below : List Nat}
    (h : reading.Rooted below) (hroot : root <+: below) :
    reading.Rooted root := by
  induction h with
  | listed => exact .listed
  | drawn => exact .drawn
  | joined hpath _ ih => exact .joined (hroot.trans hpath) ih
  | weighted _ ih => exact .weighted ih
  | combined => exact .combined
  | zipped _ ih => exact .zipped ih
  | limited _ ih => exact .limited ih
  | stalled => exact .stalled

namespace Reading

variable [BEq V] {s : S} {root : List Nat}

/-- What is shown of all functions of a pass at once, for one patience. -/
structure Zoned (s : S) (root : List Nat) (fuel : Nat) : Prop where
  openOn : ∀ (selector : Selector S V) path, root <+: path →
    (openOn s fuel selector path).Within (root <+: ·) (Rooted root)
  openAll : ∀ (children : List (Selector S V × Nat)) path, root <+: path →
    (openAll s fuel children path).Within (root <+: ·) fun readings =>
      ∀ r ∈ readings, r.Rooted root
  openWeighted : ∀ (children : List ((Selector S V × Float) × Nat)) path,
    root <+: path →
    (openWeighted s fuel children path).Within (root <+: ·) fun live =>
      ∀ l ∈ live, l.2.Rooted root
  drainAll : ∀ (children : List (Selector S V × Nat)) path, root <+: path →
    (drainAll s fuel children path).Within (root <+: ·) fun _ => True
  drain : ∀ (reading : Reading S V) done, reading.Rooted root →
    (drain s fuel reading done).Within (root <+: ·) fun _ => True
  next : ∀ reading : Reading S V, reading.Rooted root →
    (next s fuel reading).Within (root <+: ·) fun answer => answer.2.Rooted root
  nextOfEach : ∀ ignoreEmpty (children : List (Reading S V)),
    (∀ r ∈ children, r.Rooted root) →
    (nextOfEach s fuel ignoreEmpty children).Within (root <+: ·)
      fun answer => ∀ r ∈ answer.2, r.Rooted root

/-- Opening a leaf touches passes below its path only. -/
theorem zoned_openLeaf {l : Leaf S V} {order : Order} {seed : UInt64}
    {path : List Nat} (hpath : root <+: path) :
    Act.Within (root <+: ·) (do
      let passes ← (get : Act Passes Passes)
      set (openLeaf l order seed s path passes).2
      return (openLeaf l order seed s path passes).1) (Rooted root) := by
  cases order with
  | given => exact Act.within_kept .listed
  | random =>
      unfold openLeaf
      cases l.sampler s with
      | none => exact Act.within_kept .listed
      | some sampler =>
          exact Act.within_open hpath
            (fun n => Reading.drawn sampler [] (Seed.stream seed n))
            fun _ => Rooted.drawn

/-- Opening a tree touches passes below its root only. -/
theorem zoned_openOn {fuel : Nat} (ih : Zoned (V := V) s root fuel)
    (selector : Selector S V) (path : List Nat) (hpath : root <+: path) :
    (Reading.openOn s (fuel + 1) selector path).Within (root <+: ·)
      (Rooted root) := by
  cases selector with
  | leaf l order seed =>
      rw [Reading.openOn]
      exact zoned_openLeaf hpath
  | union children weights order seed =>
      cases order with
      | given =>
          rw [Reading.openOn]
          exact Act.within_pure (.joined hpath .listed)
      | random =>
          rw [Reading.openOn]
          refine (ih.openWeighted _ path hpath).bind fun live hlive => ?_
          exact Act.within_open hpath
            (fun n => Reading.weighted live (Seed.stream seed n))
            fun _ => Rooted.weighted hlive
  | product children ignoreEmpty order =>
      cases order with
      | given =>
          rw [Reading.openOn]
          refine (ih.drainAll _ path hpath).bind fun pools _ => ?_
          cases pools with
          | none => exact Act.within_pure .stalled
          | some pools => exact Act.within_pure .combined
      | random =>
          rw [Reading.openOn]
          refine (ih.openAll _ path hpath).bind fun readings hreadings => ?_
          exact Act.within_pure (.zipped hreadings)
  | limited limit inner =>
      rw [Reading.openOn]
      refine (ih.openOn inner _
        (hpath.trans (List.prefix_append path [0]))).bind ?_
      exact fun reading hreading => Act.within_pure (.limited hreading)

/-- Opening children touches passes below their parent only. -/
theorem zoned_openAll {fuel : Nat} (ih : Zoned (V := V) s root fuel)
    (children : List (Selector S V × Nat)) (path : List Nat)
    (hpath : root <+: path) :
    (Reading.openAll s (fuel + 1) children path).Within (root <+: ·)
      fun readings => ∀ r ∈ readings, r.Rooted root := by
  cases children with
  | nil =>
      rw [Reading.openAll]
      exact Act.within_pure (List.forall_mem_nil _)
  | cons c rest =>
      rw [Reading.openAll]
      refine (ih.openOn c.1 _
        (hpath.trans (List.prefix_append path [c.2]))).bind ?_
      intro reading hreading
      refine (ih.openAll rest path hpath).bind fun readings hreadings => ?_
      exact Act.within_pure (List.forall_mem_cons.mpr ⟨hreading, hreadings⟩)

/-- Opening weighted children touches passes below their parent only. -/
theorem zoned_openWeighted {fuel : Nat} (ih : Zoned (V := V) s root fuel)
    (children : List ((Selector S V × Float) × Nat)) (path : List Nat)
    (hpath : root <+: path) :
    (Reading.openWeighted s (fuel + 1) children path).Within (root <+: ·)
      fun live => ∀ l ∈ live, l.2.Rooted root := by
  cases children with
  | nil =>
      rw [Reading.openWeighted]
      exact Act.within_pure (List.forall_mem_nil _)
  | cons c rest =>
      rw [Reading.openWeighted]
      split
      · refine (ih.openOn c.1.1 _
          (hpath.trans (List.prefix_append path [c.2]))).bind ?_
        intro reading hreading
        refine (ih.openWeighted rest path hpath).bind fun live hlive => ?_
        exact Act.within_pure (List.forall_mem_cons.mpr ⟨hreading, hlive⟩)
      · exact ih.openWeighted rest path hpath

/-- Draining children touches passes below their parent only. -/
theorem zoned_drainAll {fuel : Nat} (ih : Zoned (V := V) s root fuel)
    (children : List (Selector S V × Nat)) (path : List Nat)
    (hpath : root <+: path) :
    (Reading.drainAll s (fuel + 1) children path).Within (root <+: ·)
      fun _ => True := by
  cases children with
  | nil =>
      rw [Reading.drainAll]
      exact Act.within_pure trivial
  | cons c rest =>
      rw [Reading.drainAll]
      refine (ih.openOn c.1 _
        (hpath.trans (List.prefix_append path [c.2]))).bind ?_
      intro reading hreading
      refine (ih.drain reading [] hreading).bind fun pool _ => ?_
      cases pool with
      | none => exact Act.within_pure trivial
      | some pool =>
          refine (ih.drainAll rest path hpath).bind fun pools _ => ?_
          cases pools with
          | none => exact Act.within_pure trivial
          | some pools => exact Act.within_pure trivial

/-- Draining a reading touches passes below its root only. -/
theorem zoned_drain {fuel : Nat} (ih : Zoned (V := V) s root fuel)
    (reading : Reading S V) (done : List (Move S V)) (h : reading.Rooted root) :
    (Reading.drain s (fuel + 1) reading done).Within (root <+: ·)
      fun _ => True := by
  rw [Reading.drain]
  refine (ih.next reading h).bind ?_
  rintro ⟨turn, later⟩ hlater
  cases turn with
  | move m => exact ih.drain later (m :: done) hlater
  | ended => exact Act.within_pure trivial
  | stuck => exact Act.within_pure trivial

/-- Asking each child for a move touches passes below their parent only. -/
theorem zoned_nextOfEach {fuel : Nat} (ih : Zoned (V := V) s root fuel)
    (ignoreEmpty : Bool) (children : List (Reading S V))
    (h : ∀ r ∈ children, r.Rooted root) :
    (Reading.nextOfEach s (fuel + 1) ignoreEmpty children).Within (root <+: ·)
      fun answer => ∀ r ∈ answer.2, r.Rooted root := by
  cases children with
  | nil =>
      rw [Reading.nextOfEach]
      exact Act.within_pure h
  | cons child rest =>
      obtain ⟨hchild, hrest⟩ := List.forall_mem_cons.mp h
      rw [Reading.nextOfEach]
      refine (ih.next child hchild).bind ?_
      rintro ⟨turn, later⟩ hlater
      have hcons : ∀ others : List (Reading S V),
          (∀ r ∈ others, r.Rooted root) →
          ∀ r ∈ later :: others, r.Rooted root :=
        fun others hothers => List.forall_mem_cons.mpr ⟨hlater, hothers⟩
      cases turn with
      | stuck => exact Act.within_pure (hcons rest hrest)
      | move m =>
          refine (ih.nextOfEach ignoreEmpty rest hrest).bind ?_
          rintro ⟨round, others⟩ hothers
          cases round with
          | moves moves => exact Act.within_pure (hcons others hothers)
          | ended => exact Act.within_pure (hcons others hothers)
          | stuck => exact Act.within_pure (hcons others hothers)
      | ended =>
          cases ignoreEmpty with
          | false => exact Act.within_pure (hcons rest hrest)
          | true =>
              refine (ih.nextOfEach true rest hrest).bind ?_
              rintro ⟨round, others⟩ hothers
              exact Act.within_pure (hcons others hothers)

omit [BEq V] in
/-- Draws leave draws behind. -/
theorem exists_drawn_of_drawNext {sampler : Sampler S V} (fuel : Nat)
    (held : List Nat) (stream : Stream) {answer : Turn S V × Reading S V}
    (h : drawNext fuel sampler held stream = .ok answer) :
    ∃ kept after, answer.2 = .drawn sampler kept after := by
  induction fuel generalizing held stream with
  | zero =>
      cases h
      exact ⟨held, stream, rfl⟩
  | succ fuel ih =>
      unfold drawNext at h
      cases hattempt : attempt sampler held stream with
      | error f =>
          rw [hattempt] at h
          cases h
      | ok drawn =>
          rw [hattempt] at h
          obtain ⟨drawn, after⟩ := drawn
          cases drawn with
          | take m =>
              cases h
              exact ⟨[], after, rfl⟩
          | again kept => exact ih kept after h
          | stop =>
              cases h
              exact ⟨[], after, rfl⟩

/-- Reading children one after the other touches passes below their parent
only. -/
theorem zoned_joined {fuel : Nat} (ih : Zoned (V := V) s root fuel)
    (current : Reading S V) (rest : List (Nat × Selector S V)) (path : List Nat)
    (hpath : root <+: path) (h : current.Rooted root) :
    (Reading.next s (fuel + 1) (.joined current rest path)).Within (root <+: ·)
      fun answer => answer.2.Rooted root := by
  rw [Reading.next]
  refine (ih.next current h).bind ?_
  rintro ⟨turn, later⟩ hlater
  cases turn with
  | move m => exact Act.within_pure (.joined hpath hlater)
  | stuck => exact Act.within_pure (.joined hpath hlater)
  | ended =>
      cases rest with
      | nil => exact Act.within_pure (.joined hpath hlater)
      | cons c others =>
          refine (ih.openOn c.2 _
            (hpath.trans (List.prefix_append path [c.1]))).bind ?_
          exact fun opened hopened => ih.next _ (.joined hpath hopened)

/-- Reading weighted children touches passes below their parent only. -/
theorem zoned_weighted {fuel : Nat} (ih : Zoned (V := V) s root fuel)
    (live : List (Float × Reading S V)) (stream : Stream)
    (h : ∀ l ∈ live, l.2.Rooted root) :
    (Reading.next s (fuel + 1) (.weighted live stream)).Within (root <+: ·)
      fun answer => answer.2.Rooted root := by
  rw [Reading.next]
  split
  · exact Act.within_pure (.weighted h)
  · split
    rename_i pick later _
    split
    · exact ih.next _ (.weighted h)
    · dsimp only
      split
      · exact Act.within_pure (.weighted h)
      · rename_i weight child hchosen
        refine (ih.next child (h _ (List.mem_of_getElem? hchosen))).bind ?_
        rintro ⟨turn, left⟩ hleft
        have hset : ∀ l ∈ live.set (place live pick) (weight, left),
            l.2.Rooted root := by
          intro l hl
          obtain hl | rfl := List.mem_or_eq_of_mem_set hl
          · exact h l hl
          · exact hleft
        cases turn with
        | move m => exact Act.within_pure (.weighted hset)
        | stuck => exact Act.within_pure (.weighted hset)
        | ended =>
            exact ih.next _ (.weighted fun l hl =>
              h l (List.mem_of_mem_eraseIdx hl))

/-- Asking for a move touches passes below the root only. -/
theorem zoned_next {fuel : Nat} (ih : Zoned (V := V) s root fuel)
    (reading : Reading S V) (h : reading.Rooted root) :
    (Reading.next s (fuel + 1) reading).Within (root <+: ·)
      fun answer => answer.2.Rooted root := by
  cases h with
  | @listed moves =>
      cases moves with
      | nil =>
          rw [Reading.next]
          exact Act.within_pure .listed
      | cons m rest =>
          rw [Reading.next]
          exact Act.within_pure .listed
  | drawn =>
      rw [Reading.next]
      refine Act.within_lift fun answer hanswer => ?_
      obtain ⟨kept, after, hdrawn⟩ := exists_drawn_of_drawNext _ _ _ hanswer
      rw [hdrawn]
      exact .drawn
  | joined hpath hcurrent => exact zoned_joined ih _ _ _ hpath hcurrent
  | weighted hlive => exact zoned_weighted ih _ _ hlive
  | @combined wheels =>
      cases wheels with
      | none =>
          rw [Reading.next]
          exact Act.within_pure .combined
      | some wheels =>
          rw [Reading.next]
          exact Act.within_pure .combined
  | @zipped children ignoreEmpty hchildren =>
      rw [Reading.next]
      refine (ih.nextOfEach ignoreEmpty children hchildren).bind ?_
      rintro ⟨round, later⟩ hlater
      cases round with
      | moves moves => cases moves <;> exact Act.within_pure (.zipped hlater)
      | ended => exact Act.within_pure (.zipped hlater)
      | stuck => exact Act.within_pure (.zipped hlater)
  | @limited left inner hinner =>
      cases left with
      | zero =>
          rw [Reading.next]
          exact Act.within_pure (.limited hinner)
      | succ left =>
          rw [Reading.next]
          refine (ih.next inner hinner).bind ?_
          rintro ⟨turn, later⟩ hlater
          cases turn <;> exact Act.within_pure (.limited hlater)
  | stalled =>
      rw [Reading.next]
      exact Act.within_pure .stalled

/-- Whatever the patience, a pass keeps to its part of the tree. -/
theorem zoned (s : S) (root : List Nat) (fuel : Nat) :
    Zoned (V := V) s root fuel := by
  induction fuel with
  | zero =>
      refine ⟨?_, ?_, ?_, ?_, ?_, ?_, ?_⟩
      · intro selector path _
        rw [Reading.openOn]
        exact Act.within_pure .stalled
      · intro children path _
        rw [Reading.openAll]
        refine Act.within_pure fun r hr => ?_
        obtain ⟨_, _, rfl⟩ := List.mem_map.mp hr
        exact .stalled
      · intro children path _
        rw [Reading.openWeighted]
        refine Act.within_pure fun l hl => ?_
        obtain ⟨_, _, rfl⟩ := List.mem_map.mp hl
        exact .stalled
      · intro children path _
        rw [Reading.drainAll]
        exact Act.within_pure trivial
      · intro reading done _
        rw [Reading.drain]
        exact Act.within_pure trivial
      · intro reading h
        rw [Reading.next]
        exact Act.within_pure h
      · intro ignoreEmpty children h
        rw [Reading.nextOfEach]
        exact Act.within_pure h
  | succ fuel ih =>
      exact ⟨zoned_openOn ih, zoned_openAll ih, zoned_openWeighted ih,
        zoned_drainAll ih, zoned_drain ih, zoned_next ih, zoned_nextOfEach ih⟩

end Reading

end PlanSearch

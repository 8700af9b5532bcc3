/-
What a pass owes to the passes before it.

Passes differ because selectors in random order count how often they were
opened, and nothing else is kept from one pass to the next. So two histories
that leave the same counters are followed by the same pass
(`Selector.firstMoves_congr`). Whether they leave the same counters when they
differ only in how far each pass was read depends on when a pass opens what
it counts.

# Opened at once, or on the way

Most selectors open all that they will ever read when they are opened
themselves. A product in the given order even reads it to the end. Only a
union in the given order waits: each child is opened when the one before has
ended, and the first when the first move is asked for. If such a union has a
child that counts anything, then how often that child is opened is up to the
reader (`SelectorConfig.second_pass_differs`). `Selector.Prompt` leaves these
unions out, and then a pass has counted all that it counts before its first
move: what is under way counts nothing (`Reading.Uncounted`).
-/
import PlanSearch.Proofs.Move.Turn
import PlanSearch.Proofs.Selector.Interleaved

namespace PlanSearch

variable {S V : Type} [BEq V] {s : S}

-- ================================================================= vocabulary

namespace Selector

/-- Nothing in the tree is ever counted in the solution. -/
inductive Uncounted (s : S) : Selector S V → Prop
  | listed {l : Leaf S V} {seed : UInt64} : Uncounted s (.leaf l .given seed)
  | bare {l : Leaf S V} {seed : UInt64} : l.sampler s = none →
    Uncounted s (.leaf l .random seed)
  | joined {children : List (Selector S V)} {weights : Weights S}
      {seed : UInt64} :
      (∀ c ∈ children, Uncounted s c) →
        Uncounted s (.union children weights .given seed)
  | product {children : List (Selector S V)} {ignoreEmpty : Bool}
      {order : Order} :
      (∀ c ∈ children, Uncounted s c) →
        Uncounted s (.product children ignoreEmpty order)
  | limited {limit : Nat} {inner : Selector S V} :
      Uncounted s inner → Uncounted s (.limited limit inner)

/-- All that a pass of the tree over the solution counts is counted before
its first move. -/
inductive Prompt (s : S) : Selector S V → Prop
  | leaf {l : Leaf S V} {order : Order} {seed : UInt64} : Prompt s
    (.leaf l order seed)
  | joined {children : List (Selector S V)} {weights : Weights S}
      {seed : UInt64} :
      (∀ c ∈ children, c.Uncounted s) →
        Prompt s (.union children weights .given seed)
  | weighted {children : List (Selector S V)} {weights : Weights S}
      {seed : UInt64} :
      (∀ c ∈ weighed s children weights, Prompt s c.1.1) →
      Prompt s (.union children weights .random seed)
  | drained {children : List (Selector S V)} {ignoreEmpty : Bool} :
      Prompt s (.product children ignoreEmpty .given)
  | zipped {children : List (Selector S V)} {ignoreEmpty : Bool} :
      (∀ c ∈ children, Prompt s c) →
        Prompt s (.product children ignoreEmpty .random)
  | limited {limit : Nat} {inner : Selector S V} :
      Prompt s inner → Prompt s (.limited limit inner)
  /-- What is cut off at once is opened, but not read. -/
  | cutOff {inner : Selector S V} : Prompt s (.limited 0 inner)

/-- The counters after some passes over one solution, given how many moves
are taken from each of them. -/
def afterPasses (tree : Selector S V) (s : S) : List Nat → Passes → Passes
  | [], passes => passes
  | take :: rest, passes =>
      afterPasses tree s rest ((tree.firstMoves s take).run passes).2

end Selector

/-- Nothing that the reading still opens is ever counted. -/
inductive Reading.Uncounted (s : S) : Reading S V → Prop
  | listed {moves : List (Move S V)} : Uncounted s (.listed moves)
  | drawn {sampler : Sampler S V} {held : List Nat} {stream : Stream} :
      Uncounted s (.drawn sampler held stream)
  | joined {current : Reading S V} {rest : List (Nat × Selector S V)}
      {path : List Nat} :
      Uncounted s current → (∀ c ∈ rest, c.2.Uncounted s) →
      Uncounted s (.joined current rest path)
  | weighted {live : List (Float × Reading S V)} {stream : Stream} :
      (∀ l ∈ live, Uncounted s l.2) → Uncounted s (.weighted live stream)
  | combined {wheels : Option (List (Wheel S V))} : Uncounted s
    (.combined wheels)
  | zipped {children : List (Reading S V)} {ignoreEmpty : Bool} :
      (∀ r ∈ children, Uncounted s r) →
        Uncounted s (.zipped children ignoreEmpty)
  | limited {left : Nat} {inner : Reading S V} :
      Uncounted s inner → Uncounted s (.limited left inner)
  | cutOff {inner : Reading S V} : Uncounted s (.limited 0 inner)
  | stalled : Uncounted s .stalled

/-- The zone without any place: an act within it neither looks at a counter
nor moves one. -/
def nowhere (_ : List Nat) : Prop := False

-- ======================================================== counting no more

namespace Reading

/-- What is shown of all functions of a pass at once, for one patience. -/
structure Idle (s : S) (fuel : Nat) : Prop where
  openOn : ∀ (selector : Selector S V) path, selector.Uncounted s →
    (openOn s fuel selector path).Within nowhere (Uncounted s)
  openAll : ∀ (children : List (Selector S V × Nat)) path,
    (∀ c ∈ children, c.1.Uncounted s) →
    (openAll s fuel children path).Within nowhere fun readings =>
      ∀ r ∈ readings, r.Uncounted s
  drainAll : ∀ (children : List (Selector S V × Nat)) path,
    (∀ c ∈ children, c.1.Uncounted s) →
    (drainAll s fuel children path).Within nowhere fun _ => True
  drain : ∀ (reading : Reading S V) done, reading.Uncounted s →
    (drain s fuel reading done).Within nowhere fun _ => True
  next : ∀ reading : Reading S V, reading.Uncounted s →
    (next s fuel reading).Within nowhere fun answer => answer.2.Uncounted s
  nextOfEach : ∀ ignoreEmpty (children : List (Reading S V)),
    (∀ r ∈ children, r.Uncounted s) →
    (nextOfEach s fuel ignoreEmpty children).Within nowhere
      fun answer => ∀ r ∈ answer.2, r.Uncounted s

/-- Opening a tree that counts nothing counts nothing. -/
theorem idle_openOn {fuel : Nat} (ih : Idle (V := V) s fuel)
    (selector : Selector S V) (path : List Nat) (h : selector.Uncounted s) :
    (Reading.openOn s (fuel + 1) selector path).Within nowhere
      (Uncounted s) := by
  have hplaced : ∀ {children : List (Selector S V)},
      (∀ c ∈ children, c.Uncounted s) →
      ∀ c ∈ children.zipIdx, c.1.Uncounted s :=
    fun hchildren c hc => hchildren c.1 (List.fst_mem_of_mem_zipIdx hc)
  cases h with
  | @listed l seed =>
      rw [Reading.openOn]
      exact Act.within_kept .listed
  | @bare l seed hnone =>
      rw [Reading.openOn]
      unfold openLeaf
      rw [hnone]
      exact Act.within_kept .listed
  | @joined children weights seed hchildren =>
      rw [Reading.openOn]
      refine Act.within_pure (.joined .listed fun c hc => ?_)
      obtain ⟨d, hd, rfl⟩ := List.mem_map.mp hc
      exact hplaced hchildren d hd
  | @product children ignoreEmpty order hchildren =>
      cases order with
      | given =>
          rw [Reading.openOn]
          refine (ih.drainAll _ path (hplaced hchildren)).bind fun pools _ => ?_
          cases pools with
          | none => exact Act.within_pure .stalled
          | some pools => exact Act.within_pure .combined
      | random =>
          rw [Reading.openOn]
          refine (ih.openAll _ path (hplaced hchildren)).bind
            fun readings hreadings => ?_
          exact Act.within_pure (.zipped hreadings)
  | limited hinner =>
      rw [Reading.openOn]
      refine (ih.openOn _ _ hinner).bind fun reading hreading => ?_
      exact Act.within_pure (.limited hreading)

/-- Opening children that count nothing counts nothing. -/
theorem idle_openAll {fuel : Nat} (ih : Idle (V := V) s fuel)
    (children : List (Selector S V × Nat)) (path : List Nat)
    (h : ∀ c ∈ children, c.1.Uncounted s) :
    (Reading.openAll s (fuel + 1) children path).Within nowhere
      fun readings => ∀ r ∈ readings, r.Uncounted s := by
  cases children with
  | nil =>
      rw [Reading.openAll]
      exact Act.within_pure (List.forall_mem_nil _)
  | cons c rest =>
      obtain ⟨hc, hrest⟩ := List.forall_mem_cons.mp h
      rw [Reading.openAll]
      refine (ih.openOn c.1 _ hc).bind fun reading hreading => ?_
      refine (ih.openAll rest path hrest).bind fun readings hreadings => ?_
      exact Act.within_pure (List.forall_mem_cons.mpr ⟨hreading, hreadings⟩)

/-- Draining children that count nothing counts nothing. -/
theorem idle_drainAll {fuel : Nat} (ih : Idle (V := V) s fuel)
    (children : List (Selector S V × Nat)) (path : List Nat)
    (h : ∀ c ∈ children, c.1.Uncounted s) :
    (Reading.drainAll s (fuel + 1) children path).Within nowhere
      fun _ => True := by
  cases children with
  | nil =>
      rw [Reading.drainAll]
      exact Act.within_pure trivial
  | cons c rest =>
      obtain ⟨hc, hrest⟩ := List.forall_mem_cons.mp h
      rw [Reading.drainAll]
      refine (ih.openOn c.1 _ hc).bind fun reading hreading => ?_
      refine (ih.drain reading [] hreading).bind fun pool _ => ?_
      cases pool with
      | none => exact Act.within_pure trivial
      | some pool =>
          refine (ih.drainAll rest path hrest).bind fun pools _ => ?_
          cases pools with
          | none => exact Act.within_pure trivial
          | some pools => exact Act.within_pure trivial

/-- Draining a reading that counts nothing counts nothing. -/
theorem idle_drain {fuel : Nat} (ih : Idle (V := V) s fuel)
    (reading : Reading S V) (done : List (Move S V)) (h : reading.Uncounted s) :
    (Reading.drain s (fuel + 1) reading done).Within nowhere fun _ => True := by
  rw [Reading.drain]
  refine (ih.next reading h).bind ?_
  intro answer hlater
  rcases answer with ⟨turn, later⟩
  cases turn with
  | move m => exact ih.drain later (m :: done) hlater
  | ended => exact Act.within_pure trivial
  | stuck => exact Act.within_pure trivial

/-- Asking each of such children for a move counts nothing. -/
theorem idle_nextOfEach {fuel : Nat} (ih : Idle (V := V) s fuel)
    (ignoreEmpty : Bool) (children : List (Reading S V))
    (h : ∀ r ∈ children, r.Uncounted s) :
    (Reading.nextOfEach s (fuel + 1) ignoreEmpty children).Within nowhere
      fun answer => ∀ r ∈ answer.2, r.Uncounted s := by
  cases children with
  | nil =>
      rw [Reading.nextOfEach]
      exact Act.within_pure h
  | cons child rest =>
      obtain ⟨hchild, hrest⟩ := List.forall_mem_cons.mp h
      rw [Reading.nextOfEach]
      refine (ih.next child hchild).bind ?_
      intro answer hlater
      rcases answer with ⟨turn, later⟩
      have hcons : ∀ others : List (Reading S V),
          (∀ r ∈ others, r.Uncounted s) →
          ∀ r ∈ later :: others, r.Uncounted s :=
        fun others hothers => List.forall_mem_cons.mpr ⟨hlater, hothers⟩
      cases turn with
      | stuck => exact Act.within_pure (hcons rest hrest)
      | move m =>
          refine (ih.nextOfEach ignoreEmpty rest hrest).bind ?_
          intro answer hothers
          rcases answer with ⟨round, others⟩
          cases round <;> exact Act.within_pure (hcons others hothers)
      | ended =>
          cases ignoreEmpty with
          | false => exact Act.within_pure (hcons rest hrest)
          | true =>
              refine (ih.nextOfEach true rest hrest).bind ?_
              intro answer hothers
              rcases answer with ⟨round, others⟩
              exact Act.within_pure (hcons others hothers)

/-- Reading such children one after the other counts nothing. -/
theorem idle_joined {fuel : Nat} (ih : Idle (V := V) s fuel)
    (current : Reading S V) (rest : List (Nat × Selector S V)) (path : List Nat)
    (h : current.Uncounted s) (hrest : ∀ c ∈ rest, c.2.Uncounted s) :
    (Reading.next s (fuel + 1) (.joined current rest path)).Within nowhere
      fun answer => answer.2.Uncounted s := by
  rw [Reading.next]
  refine (ih.next current h).bind ?_
  intro answer hlater
  rcases answer with ⟨turn, later⟩
  cases turn with
  | move m => exact Act.within_pure (.joined hlater hrest)
  | stuck => exact Act.within_pure (.joined hlater hrest)
  | ended =>
      cases rest with
      | nil => exact Act.within_pure (.joined hlater hrest)
      | cons c others =>
          obtain ⟨hc, hothers⟩ := List.forall_mem_cons.mp hrest
          refine (ih.openOn c.2 _ hc).bind fun opened hopened => ?_
          exact ih.next _ (.joined hopened hothers)

theorem idle_weighted {fuel : Nat} (ih : Idle (V := V) s fuel)
    (live : List (Float × Reading S V)) (stream : Stream)
    (h : ∀ l ∈ live, l.2.Uncounted s) :
    (Reading.next s (fuel + 1) (.weighted live stream)).Within nowhere
      fun answer => answer.2.Uncounted s := by
  rw [Reading.next]
  split
  · exact Act.within_pure (.weighted h)
  · split
    rename_i pick later _
    split
    · exact ih.next _ (.weighted h)
    · dsimp only
      split
      · exact Act.within_pure (.weighted h)
      · rename_i weight child hchosen
        refine (ih.next child (h _ (List.mem_of_getElem? hchosen))).bind ?_
        intro answer hleft
        rcases answer with ⟨turn, left⟩
        have hset : ∀ l ∈ live.set (place live pick) (weight, left),
            l.2.Uncounted s := by
          intro l hl
          rcases List.mem_or_eq_of_mem_set hl with hl | rfl
          · exact h l hl
          · exact hleft
        cases turn with
        | move m => exact Act.within_pure (.weighted hset)
        | stuck => exact Act.within_pure (.weighted hset)
        | ended =>
            exact ih.next _ (.weighted fun l hl =>
              h l (List.mem_of_mem_eraseIdx hl))

/-- Asking for a move where nothing is counted counts nothing. -/
theorem idle_next {fuel : Nat} (ih : Idle (V := V) s fuel)
    (reading : Reading S V) (h : reading.Uncounted s) :
    (Reading.next s (fuel + 1) reading).Within nowhere fun answer =>
    answer.2.Uncounted s := by
  cases h with
  | @listed moves =>
      cases moves <;> (rw [Reading.next]; exact Act.within_pure .listed)
  | drawn =>
      rw [Reading.next]
      refine Act.within_lift fun answer hanswer => ?_
      obtain ⟨kept, after, hdrawn⟩ := exists_drawn_of_drawNext _ _ _ hanswer
      rw [hdrawn]
      exact .drawn
  | joined hcurrent hrest => exact idle_joined ih _ _ _ hcurrent hrest
  | weighted hlive => exact idle_weighted ih _ _ hlive
  | @combined wheels =>
      cases wheels <;> (rw [Reading.next]; exact Act.within_pure .combined)
  | @zipped children ignoreEmpty hchildren =>
      rw [Reading.next]
      refine (ih.nextOfEach ignoreEmpty children hchildren).bind ?_
      intro answer hlater
      rcases answer with ⟨round, later⟩
      cases round with
      | moves moves => cases moves <;> exact Act.within_pure (.zipped hlater)
      | ended => exact Act.within_pure (.zipped hlater)
      | stuck => exact Act.within_pure (.zipped hlater)
  | @limited left inner hinner =>
      cases left with
      | zero =>
          rw [Reading.next]
          exact Act.within_pure .cutOff
      | succ left =>
          rw [Reading.next]
          refine (ih.next inner hinner).bind ?_
          intro answer hlater
          rcases answer with ⟨turn, later⟩
          cases turn <;> exact Act.within_pure (.limited hlater)
  | cutOff =>
      rw [Reading.next]
      exact Act.within_pure .cutOff
  | stalled =>
      rw [Reading.next]
      exact Act.within_pure .stalled

/-- Whatever the patience, where nothing is counted no counter is looked at
or moved. -/
theorem idle (s : S) (fuel : Nat) : Idle (V := V) s fuel := by
  induction fuel with
  | zero =>
      refine ⟨?_, ?_, ?_, ?_, ?_, ?_⟩
      · intro selector path _
        rw [Reading.openOn]
        exact Act.within_pure .stalled
      · intro children path _
        rw [Reading.openAll]
        refine Act.within_pure fun r hr => ?_
        obtain ⟨_, _, rfl⟩ := List.mem_map.mp hr
        exact .stalled
      · intro children path _
        rw [Reading.drainAll]
        exact Act.within_pure trivial
      · intro reading done _
        rw [Reading.drain]
        exact Act.within_pure trivial
      · intro reading h
        rw [Reading.next]
        exact Act.within_pure h
      · intro ignoreEmpty children h
        rw [Reading.nextOfEach]
        exact Act.within_pure h
  | succ fuel ih =>
      exact ⟨idle_openOn ih, idle_openAll ih, idle_drainAll ih,
        idle_drain ih, idle_next ih, idle_nextOfEach ih⟩

-- ==================================================================== opening

/-- Children that are prompt are opened to readings that count nothing. -/
theorem uncounted_openAll {children : List (Selector S V × Nat)}
    (h : ∀ c ∈ children, ∀ fuel path passes,
      (openOn s fuel c.1 path).Leads True passes fun reading _ =>
      reading.Uncounted s)
    (fuel : Nat) (path : List Nat) (passes : Passes) :
    (openAll s fuel children path).Leads True passes
      fun readings _ => ∀ r ∈ readings, r.Uncounted s := by
  induction children generalizing fuel passes with
  | nil =>
      cases fuel <;>
        (rw [openAll]; exact Act.leads_pure (List.forall_mem_nil _))
  | cons c rest ih =>
      obtain ⟨hc, hrest⟩ := List.forall_mem_cons.mp h
      cases fuel with
      | zero =>
          rw [openAll]
          refine Act.leads_pure fun r hr => ?_
          obtain ⟨_, _, rfl⟩ := List.mem_map.mp hr
          exact .stalled
      | succ fuel =>
          rw [openAll]
          refine Act.leads_bind
            ((hc fuel _ passes).mono (fun reading after hreading => ?_) id)
          refine Act.leads_bind
            ((ih hrest fuel after).mono (fun readings _ hreadings => ?_) id)
          exact Act.leads_pure (List.forall_mem_cons.mpr ⟨hreading, hreadings⟩)

/-- Weighted children that are opened at once count nothing from then on. -/
theorem uncounted_openWeighted {children : List ((Selector S V × Float) × Nat)}
    (h : ∀ c ∈ children.filter fun c => decide (0.0 < c.1.2),
        ∀ fuel path passes,
      (openOn s fuel c.1.1 path).Leads True passes fun reading _ =>
      reading.Uncounted s)
    (fuel : Nat) (path : List Nat) (passes : Passes) :
    (openWeighted s fuel children path).Leads True passes
      fun live _ => ∀ l ∈ live, l.2.Uncounted s := by
  induction children generalizing fuel passes with
  | nil =>
      cases fuel <;>
        (rw [openWeighted]; exact Act.leads_pure (List.forall_mem_nil _))
  | cons c rest ih =>
      cases fuel with
      | zero =>
          rw [openWeighted]
          refine Act.leads_pure fun l hl => ?_
          obtain ⟨_, _, rfl⟩ := List.mem_map.mp hl
          exact .stalled
      | succ fuel =>
          rw [openWeighted]
          by_cases hweight : 0.0 < c.1.2
          · rw [List.filter_cons_of_pos (by simpa using hweight)] at h
            obtain ⟨hc, hrest⟩ := List.forall_mem_cons.mp h
            rw [if_pos hweight]
            refine Act.leads_bind
              ((hc fuel _ passes).mono (fun reading after hreading => ?_) id)
            refine Act.leads_bind
              ((ih hrest fuel after).mono (fun live _ hlive => ?_) id)
            exact Act.leads_pure (List.forall_mem_cons.mpr ⟨hreading, hlive⟩)
          · rw [List.filter_cons_of_neg (by simpa using hweight)] at h
            rw [if_neg hweight]
            exact ih h fuel passes

/-- What a prompt tree opens to counts nothing any more. -/
theorem uncounted_openOn {selector : Selector S V}
    (prompt : selector.Prompt s) (fuel : Nat) (path : List Nat)
    (passes : Passes) : (openOn s fuel selector path).Leads True passes
      fun reading _ => reading.Uncounted s := by
  have hplaced : ∀ {children : List (Selector S V)} {P : Selector S V → Prop},
      (∀ c ∈ children, P c) → ∀ c ∈ children.zipIdx, P c.1 :=
    fun hchildren c hc => hchildren c.1 (List.fst_mem_of_mem_zipIdx hc)
  have hstalled : ∀ (selector : Selector S V) path passes,
      (openOn s 0 selector path).Leads True passes fun reading _ =>
          reading.Uncounted s := by
    intro selector path passes
    rw [openOn]
    exact Act.leads_pure .stalled
  induction prompt generalizing fuel path passes with
  | @leaf l order seed =>
      rcases fuel with _ | fuel
      · exact hstalled _ path passes
      rw [openOn]
      refine Act.leads_bind (Act.leads_get (Act.leads_bind (Act.leads_set ?_)))
      refine Act.leads_pure ?_
      cases order with
      | given => exact .listed
      | random =>
          dsimp only
          cases l.sampler s with
          | none => exact .listed
          | some sampler => exact .drawn
  | @joined children weights seed hchildren =>
      rcases fuel with _ | fuel
      · exact hstalled _ path passes
      rw [openOn]
      refine Act.leads_pure (.joined .listed fun c hc => ?_)
      obtain ⟨d, hd, rfl⟩ := List.mem_map.mp hc
      exact hplaced hchildren d hd
  | @weighted children weights seed _ ih =>
      rcases fuel with _ | fuel
      · exact hstalled _ path passes
      rw [openOn]
      refine Act.leads_bind
        ((uncounted_openWeighted ih fuel path passes).mono ?_ id)
      intro live after hlive
      refine Act.leads_bind (Act.leads_get (Act.leads_bind (Act.leads_set ?_)))
      exact Act.leads_pure (.weighted hlive)
  | drained =>
      rcases fuel with _ | fuel
      · exact hstalled _ path passes
      rw [openOn]
      refine Act.leads_bind
        ((Act.leads_self _ _).mono (fun pools after _ => ?_) id)
      cases pools with
      | none => exact Act.leads_pure .stalled
      | some pools => exact Act.leads_pure .combined
  | zipped _ ih =>
      rcases fuel with _ | fuel
      · exact hstalled _ path passes
      rw [openOn]
      refine Act.leads_bind
        ((uncounted_openAll (hplaced ih) fuel path passes).mono ?_ id)
      exact fun readings _ hreadings => Act.leads_pure (.zipped hreadings)
  | limited _ ih =>
      rcases fuel with _ | fuel
      · exact hstalled _ path passes
      rw [openOn]
      refine Act.leads_bind ((ih fuel _ passes).mono ?_ id)
      exact fun reading _ hreading => Act.leads_pure (.limited hreading)
  | cutOff =>
      rcases fuel with _ | fuel
      · exact hstalled _ path passes
      rw [openOn]
      refine Act.leads_bind
        ((Act.leads_self _ _).mono (fun reading after _ => ?_) id)
      exact Act.leads_pure .cutOff

end Reading

-- ===================================================================== passes

namespace Selector

variable {tree : Selector S V} {passes others : Passes}

/-- What every answer keeps, the moves of a pass keep. -/
theorem within_nextMoves {zone : List Nat → Prop} {kept : Reading S V → Prop}
    (hnext : ∀ reading, kept reading →
      (Reading.next s patience reading).Within zone fun answer => kept answer.2)
    (n : Nat) {reading : Reading S V} (h : kept reading)
    (done : List (Move S V)) :
    (nextMoves s n reading done).Within zone fun _ => True := by
  induction n generalizing reading done with
  | zero =>
      rw [nextMoves]
      exact Act.within_pure trivial
  | succ n ih =>
      rw [nextMoves]
      refine (hnext reading h).bind ?_
      intro answer hlater
      rcases answer with ⟨turn, later⟩
      cases turn with
      | move m => exact ih hlater (m :: done)
      | ended => exact Act.within_pure trivial
      | stuck => exact Act.within_pure trivial

/-- Nothing but the counters is handed on from pass to pass. -/
theorem firstMoves_congr (tree : Selector S V) (s : S) (take : Nat)
    (halike : passes.Alike (fun _ => True) others) :
    ((tree.firstMoves s take).run passes).1
      = ((tree.firstMoves s take).run others).1 ∧
      ((tree.firstMoves s take).run passes).2.Alike (fun _ => True)
        ((tree.firstMoves s take).run others).2 := by
  have hzoned := Reading.zoned (V := V) s [] patience
  have hwithin : (tree.firstMoves s take).Within ([] <+: ·) fun _ => True :=
    (hzoned.openOn tree [] (List.prefix_refl [])).bind fun _ hrooted =>
      within_nextMoves hzoned.next take hrooted []
  obtain ⟨hmoves, hafter⟩ :=
    hwithin.same passes others (halike.mono fun _ _ => trivial)
  exact ⟨hmoves, hafter.mono fun path _ => List.nil_prefix⟩

/-- A prompt tree has counted all that it counts once it is open. -/
theorem Prompt.counted (prompt : tree.Prompt s) (take : Nat) (passes : Passes) :
    ((tree.firstMoves s take).run passes).2.Alike (fun _ => True)
      ((Reading.openOn s patience tree []).run passes).2 := by
  have hopened := Reading.uncounted_openOn prompt patience [] passes
  rw [firstMoves, Act.run_bind]
  cases hrun : (Reading.openOn s patience tree []).run passes with
  | mk result after =>
      cases result with
      | error f => exact Passes.Alike.refl _ after
      | ok reading =>
          have huncounted := hopened.of_run hrun
          have hidle := within_nextMoves (Reading.idle (V := V) s patience).next
            take huncounted []
          exact (hidle.apart after).mono fun _ _ hnowhere => hnowhere

/-- How far a pass of a prompt tree is read makes no difference to the
counters. -/
theorem Prompt.alike_firstMoves (prompt : tree.Prompt s) (take read : Nat)
    (halike : passes.Alike (fun _ => True) others) :
    ((tree.firstMoves s take).run passes).2.Alike (fun _ => True)
      ((tree.firstMoves s read).run others).2 := by
  have hopen := (Reading.zoned (V := V) s [] patience).openOn tree []
    (List.prefix_refl [])
  obtain ⟨-, hopened⟩ :=
    hopen.same passes others (halike.mono fun _ _ => trivial)
  refine (prompt.counted take passes).trans
    (Passes.Alike.trans ?_ (prompt.counted read others).symm)
  exact hopened.mono fun path _ => List.nil_prefix

/-- A tree that counts before its first move counts alike however far its
passes are read. -/
theorem Prompt.alike_afterPasses (prompt : tree.Prompt s)
    {takes reads : List Nat} (hlength : takes.length = reads.length)
    (halike : passes.Alike (fun _ => True) others) :
    (tree.afterPasses s takes passes).Alike (fun _ => True)
      (tree.afterPasses s reads others) := by
  induction takes generalizing reads passes others with
  | nil =>
      cases List.length_eq_zero_iff.mp hlength.symm
      exact halike
  | cons take takes ih =>
      obtain ⟨read, reads, rfl⟩ :=
        List.exists_cons_of_length_eq_add_one hlength.symm
      rw [List.length_cons, List.length_cons, Nat.add_right_cancel_iff]
        at hlength
      rw [afterPasses, afterPasses]
      exact ih hlength (prompt.alike_firstMoves take read halike)

/-- A pass of a prompt tree over a solution yields the same moves after as
many passes over it, however many moves were taken from each of them. -/
theorem firstMoves_after (prompt : tree.Prompt s) {takes reads : List Nat}
    (hlength : takes.length = reads.length) (passes : Passes) (take : Nat) :
    ((tree.firstMoves s take).run (tree.afterPasses s takes passes)).1 =
      ((tree.firstMoves s take).run (tree.afterPasses s reads passes)).1 := by
  have halike := prompt.alike_afterPasses hlength
    (Passes.Alike.refl (fun _ => True) passes)
  exact (firstMoves_congr tree s take halike).1

/-- Two changes by chance with each swap, in turns with changes of pillars:
the second pass, when the first was not read at all and when it was. -/
theorem firstMoves_after_unread :
    let s : Tasks := ⟨[some 1, some 2], none⟩
    let changes : Selector Tasks Int :=
      .leaf (.change Tasks.priority false) .random 1
    let swaps : Selector Tasks Int := .leaf (.swap [Tasks.priority]) .given 0
    let pillars : Selector Tasks Int :=
      .leaf (.pillarChange Tasks.priority ⟨false, 1, 9⟩) .random 2
    let combined : Selector Tasks Int :=
      .product [.limited 2 changes, swaps] false .given
    let tree : Selector Tasks Int :=
      .union [combined, pillars] (.fixed [Binary64.one, Binary64.one]) .random 3
    (tree.Prompt s ∧ [0].length = [7].length) ∧
      ((tree.firstMoves s 3).run (tree.afterPasses s [0] [])).1 =
        ((tree.firstMoves s 3).run (tree.afterPasses s [7] [])).1 ∧
      ((tree.firstMoves s 3).run (tree.afterPasses s [0] [])).1.toOption.map
        (fun portion => portion.moves.length) = some 3 := by
  intro s changes swaps pillars combined tree
  have hprompt : tree.Prompt s := by
    refine .weighted fun c hc => ?_
    have hplaced := List.fst_mem_of_mem_zipIdx (List.mem_filter.mp hc).1
    rcases List.mem_pair.mp (List.of_mem_zip hplaced).1
      with hcombined | hpillars
    · rw [hcombined]
      exact .drained
    · rw [hpillars]
      exact .leaf
  have hlength : [0].length = [7].length := rfl
  exact ⟨⟨hprompt, hlength⟩, firstMoves_after hprompt hlength [] 3, by
    decide +kernel⟩

end Selector

/-- All swaps, and then three changes by chance. -/
def SelectorConfig.swapsThenChanges : SelectorConfig :=
  .union .unset [.leaf .unset (.swap none []),
    .leaf ⟨none, some .random, none, some 3⟩ (.change none none)] none

/-- The union comes to its changes only if the pass is read beyond the one
swap. So the changes of the second pass are the first three drawn if one move
was taken from the first pass, and others if all were. -/
theorem SelectorConfig.second_pass_differs :
    let s : Tasks := ⟨[some 1, some 2], none⟩
    ∃ built, swapsThenChanges.build Tasks.context 0 = .ok built ∧
      ((built.selector.firstMoves s 5).run
        (built.selector.afterPasses s [1] [])).1 ≠
        ((built.selector.firstMoves s 5).run
            (built.selector.afterPasses s [5] [])).1 := by
  intro s
  let entities (answer : Except Fault (Selector.Portion Tasks Int)) :
      Option (List (List Nat)) :=
    answer.toOption.map fun portion => portion.moves.map Move.entities
  obtain ⟨built, hbuild, hfirst, hlater⟩ : ∃ built,
      swapsThenChanges.build Tasks.context 0 = .ok built ∧
        entities ((built.selector.firstMoves s 5).run
          (built.selector.afterPasses s [1] [])).1 =
          some [[0, 1], [0], [1], [1]] ∧
        entities ((built.selector.firstMoves s 5).run
          (built.selector.afterPasses s [5] [])).1 =
          some [[0, 1], [0], [0], [0]] :=
    ⟨_, rfl, by decide +kernel, by decide +kernel⟩
  refine ⟨built, hbuild, fun hsame => ?_⟩
  rw [← hsame, hfirst] at hlater
  exact absurd hlater (by decide)

end PlanSearch

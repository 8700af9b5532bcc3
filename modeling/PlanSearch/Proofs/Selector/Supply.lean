/-
What the leaves of a tree supply is what its passes yield.

A pass makes no move of its own: unions and limits hand on the moves of
their children, and products put them together. So a property of moves
that holds throughout the leaves of a tree, whatever they list and
whatever they can draw, holds of every move of every pass, provided that
it survives being put together where there are products. And a pass
breaks off only where a draw may.

# The invariant

`Reading.Supplies` says it of a pass under way: of the moves listed, of
the wheels of a product, of what can still be drawn, and of the children
not yet opened. Opening a tree establishes it and taking a move keeps it.
Both call each other with one unit of patience less, so the proof is one
induction on the patience over a bundle of seven statements
(`Reading.Kept`), with a lemma for the step of each.
-/
import PlanSearch.Proofs.Act
import PlanSearch.Proofs.Chance
import PlanSearch.Selector.Pass

namespace PlanSearch

variable {S V : Type} [BEq V]

-- ============================================================ vocabulary

/-- Every step of the move has the property. -/
def Move.Each (fits : Step S V → Prop) (m : Move S V) : Prop :=
  ∀ t ∈ m.steps, fits t

/-- Moves of a kind that are put together are again of that kind. -/
def Move.Mixes (ok : Move S V → Prop) : Prop :=
  ∀ moves : List (Move S V), (∀ m ∈ moves, ok m) → ok (.composite moves)

/-- All that can be drawn is of a kind, and a draw fails only for the given
excuse. -/
structure Sampler.Supplies (excuse : Prop) (ok : Move S V → Prop)
    (sampler : Sampler S V) : Prop where
  taken : ∀ held m, (sampler held).Yields (.take m) → ok m
  safe : excuse ∨ ∀ held, (sampler held).Safe

/-- So is all that a leaf lists for the solution, and all that it can draw. -/
structure Leaf.Supplies (excuse : Prop) (ok : Move S V → Prop) (s : S)
    (l : Leaf S V) : Prop where
  listed : ∀ m ∈ l.moves s, ok m
  drawn : ∀ sampler, l.sampler s = some sampler → sampler.Supplies excuse ok

/-- So is what the leaves of a tree list or draw, whichever they do. -/
inductive Selector.Supplies (excuse : Prop) (ok : Move S V → Prop) (s : S) :
    Selector S V → Prop
  | listed {l : Leaf S V} {seed : UInt64} :
      (∀ m ∈ l.moves s, ok m) → Supplies excuse ok s (.leaf l .given seed)
  | drawn {l : Leaf S V} {seed : UInt64} :
      (∀ sampler, l.sampler s = some sampler → sampler.Supplies excuse ok) →
      Supplies excuse ok s (.leaf l .random seed)
  | union {children : List (Selector S V)} {weights : Weights S} {order : Order}
      {seed : UInt64} :
      (∀ c ∈ children, Supplies excuse ok s c) →
      Supplies excuse ok s (.union children weights order seed)
  | product {children : List (Selector S V)} {ignoreEmpty : Bool}
      {order : Order} :
      Move.Mixes ok → (∀ c ∈ children, Supplies excuse ok s c) →
      Supplies excuse ok s (.product children ignoreEmpty order)
  | limited {limit : Nat} {inner : Selector S V} :
      Supplies excuse ok s inner → Supplies excuse ok s (.limited limit inner)

/-- The moves of a wheel are of a kind. -/
structure Wheel.Supplies (ok : Move S V → Prop) (w : Wheel S V) : Prop where
  pool : ∀ m ∈ w.pool, ok m
  left : ∀ m ∈ w.left, ok m

/-- All that a pass under way can still come to is of a kind. -/
inductive Reading.Supplies (excuse : Prop) (ok : Move S V → Prop) (s : S) :
    Reading S V → Prop
  | listed {moves : List (Move S V)} :
      (∀ m ∈ moves, ok m) → Supplies excuse ok s (.listed moves)
  | drawn {sampler : Sampler S V} {held : List Nat} {stream : Stream} :
      sampler.Supplies excuse ok →
        Supplies excuse ok s (.drawn sampler held stream)
  | joined {current : Reading S V} {rest : List (Nat × Selector S V)}
      {path : List Nat} :
      Supplies excuse ok s current → (∀ c ∈ rest, c.2.Supplies excuse ok s) →
      Supplies excuse ok s (.joined current rest path)
  | weighted {live : List (Float × Reading S V)} {stream : Stream} :
      (∀ l ∈ live, Supplies excuse ok s l.2) →
        Supplies excuse ok s (.weighted live stream)
  | exhausted : Supplies excuse ok s (.combined none)
  | combined {wheels : List (Wheel S V)} :
      Move.Mixes ok → (∀ w ∈ wheels, w.Supplies ok) →
      Supplies excuse ok s (.combined (some wheels))
  | zipped {children : List (Reading S V)} {ignoreEmpty : Bool} :
      Move.Mixes ok → (∀ r ∈ children, Supplies excuse ok s r) →
      Supplies excuse ok s (.zipped children ignoreEmpty)
  | limited {left : Nat} {inner : Reading S V} :
      Supplies excuse ok s inner → Supplies excuse ok s (.limited left inner)
  | stalled : Supplies excuse ok s .stalled

/-- What a turn hands out is of a kind. -/
def Turn.Supplies (ok : Move S V → Prop) (turn : Turn S V) : Prop :=
  ∀ m, turn = .move m → ok m

/-- What a round hands out is of a kind. -/
def Round.Supplies (ok : Move S V → Prop) (round : Round S V) : Prop :=
  ∀ ms, round = .moves ms → ∀ m ∈ ms, ok m

variable {excuse : Prop} {fits : Step S V → Prop} {ok : Move S V → Prop} {s : S}

-- ============================================================= composites

omit [BEq V] in
/-- What fits moves fits each of their steps. -/
theorem Move.each_stepsOf {moves : List (Move S V)}
    (h : ∀ m ∈ moves, m.Each fits) : ∀ t ∈ stepsOf moves, fits t := by
  induction moves with
  | nil => exact fun t ht => nomatch ht
  | cons m rest ih =>
      intro t ht
      rcases List.mem_append.mp ht with ht | ht
      · exact h m (List.mem_cons_self ..) t ht
      · exact ih (fun m hm => h m (List.mem_cons_of_mem _ hm)) t ht

omit [BEq V] in
/-- A composite has no steps but those of its moves. -/
theorem Move.mixes_each : Move.Mixes (Move.Each fits) :=
  fun _ h => Move.each_stepsOf h

namespace Wheel

omit [BEq V] in
/-- The moves that wheels show are those they supply. -/
theorem ok_present {wheels : List (Wheel S V)}
    (h : ∀ w ∈ wheels, w.Supplies ok) : ∀ m ∈ present wheels, ok m := by
  intro m hm
  obtain ⟨w, hw, hhead⟩ := List.mem_filterMap.mp hm
  exact (h w hw).left m (List.mem_of_head? hhead)

omit [BEq V] in
/-- Turning shows other moves of the same pools. -/
theorem supplies_turn {wheels turned : List (Wheel S V)}
    (h : ∀ w ∈ wheels, w.Supplies ok) (hturn : turn wheels = some turned) :
    ∀ w ∈ turned, w.Supplies ok := by
  induction wheels generalizing turned with
  | nil => cases hturn
  | cons w rest ih =>
      have hw := h w (List.mem_cons_self ..)
      have hrest : ∀ r ∈ rest, r.Supplies ok :=
        fun r hr => h r (List.mem_cons_of_mem _ hr)
      unfold turn at hturn
      cases hinner : turn rest with
      | some inner =>
          rw [hinner] at hturn
          cases hturn
          intro r hr
          rcases List.mem_cons.mp hr with rfl | hr
          · exact hw
          · exact ih hrest hinner r hr
      | none =>
          rw [hinner] at hturn
          cases hleft : w.left with
          | nil =>
              rw [hleft] at hturn
              cases hturn
          | cons now later =>
              cases later with
              | nil =>
                  rw [hleft] at hturn
                  cases hturn
              | cons m more =>
                  rw [hleft] at hturn
                  cases hturn
                  intro r hr
                  rcases List.mem_cons.mp hr with rfl | hr
                  · refine ⟨hw.pool, fun n hn => hw.left n ?_⟩
                    rw [hleft]
                    exact List.mem_cons_of_mem _ hn
                  · obtain ⟨r', hr', rfl⟩ := List.mem_map.mp hr
                    exact ⟨(hrest r' hr').pool, (hrest r' hr').pool⟩

omit [BEq V] in
/-- Wheels over lists of moves supply what stands in the lists. -/
theorem supplies_wheels {ignoreEmpty : Bool} {pools : List (List (Move S V))}
    {wheels : List (Wheel S V)} (h : ∀ p ∈ pools, ∀ m ∈ p, ok m)
    (hwheels : Reading.wheels ignoreEmpty pools = some wheels) :
    ∀ w ∈ wheels, w.Supplies ok := by
  have turned : ∀ kept : List (List (Move S V)), (∀ p ∈ kept, p ∈ pools) →
      (if kept.isEmpty || kept.any List.isEmpty then none
        else some (kept.map fun p => Wheel.mk p p)) = some wheels →
      ∀ w ∈ wheels, w.Supplies ok := by
    intro kept hkept hsome w hw
    split at hsome
    · cases hsome
    · cases hsome
      obtain ⟨p, hp, rfl⟩ := List.mem_map.mp hw
      exact ⟨h p (hkept p hp), h p (hkept p hp)⟩
  cases ignoreEmpty with
  | false => exact turned pools (fun _ hp => hp) hwheels
  | true => exact turned _ (fun _ hp => (List.mem_filter.mp hp).1) hwheels

end Wheel

/-- What a leaf supplies it does in either order. -/
theorem Leaf.Supplies.leaf {l : Leaf S V} (h : l.Supplies excuse ok s)
    (order : Order) (seed : UInt64) :
    Selector.Supplies excuse ok s (.leaf l order seed) := by
  cases order with
  | given => exact .listed h.listed
  | random => exact .drawn h.drawn

-- ================================================================= passes

namespace Reading

/-- What is shown of all functions of a pass at once, for one patience. -/
structure Kept (excuse : Prop) (ok : Move S V → Prop) (s : S)
    (fuel : Nat) : Prop where
  openOn : ∀ selector path passes, selector.Supplies excuse ok s →
    (openOn s fuel selector path).Leads excuse passes
      fun reading _ => reading.Supplies excuse ok s
  openAll : ∀ (children : List (Selector S V × Nat)) path passes,
    (∀ c ∈ children, c.1.Supplies excuse ok s) →
    (openAll s fuel children path).Leads excuse passes
      fun readings _ => ∀ r ∈ readings, r.Supplies excuse ok s
  openWeighted : ∀ (children : List ((Selector S V × Float) × Nat)) path passes,
    (∀ c ∈ children, c.1.1.Supplies excuse ok s) →
    (openWeighted s fuel children path).Leads excuse passes
      fun live _ => ∀ l ∈ live, l.2.Supplies excuse ok s
  drainAll : ∀ (children : List (Selector S V × Nat)) path passes,
    (∀ c ∈ children, c.1.Supplies excuse ok s) →
    (drainAll s fuel children path).Leads excuse passes
      fun pools _ => ∀ ps, pools = some ps → ∀ p ∈ ps, ∀ m ∈ p, ok m
  drain : ∀ reading done passes, reading.Supplies excuse ok s →
    (∀ m ∈ done, ok m) →
    (drain s fuel reading done).Leads excuse passes
      fun pool _ => ∀ p, pool = some p → ∀ m ∈ p, ok m
  next : ∀ reading passes, reading.Supplies excuse ok s →
    (next s fuel reading).Leads excuse passes
      fun r _ => r.1.Supplies ok ∧ r.2.Supplies excuse ok s
  nextOfEach : ∀ ignoreEmpty children passes,
    (∀ r ∈ children, r.Supplies excuse ok s) →
    (nextOfEach s fuel ignoreEmpty children).Leads excuse passes
      fun r _ => r.1.Supplies ok ∧ ∀ c ∈ r.2, c.Supplies excuse ok s

theorem supplies_empty : (empty : Reading S V).Supplies excuse ok s :=
  .listed fun _ hm => nomatch hm

theorem supplies_openLeaf {l : Leaf S V} {order : Order} {seed : UInt64}
    (h : Selector.Supplies excuse ok s (.leaf l order seed)) (path : List Nat)
    (passes : Passes) :
    (openLeaf l order seed s path passes).1.Supplies excuse ok s := by
  unfold openLeaf
  cases h with
  | listed hlisted => exact .listed hlisted
  | drawn hdrawn =>
      dsimp only
      cases hsampler : l.sampler s with
      | none => exact supplies_empty
      | some sampler => exact .drawn (hdrawn sampler hsampler)

/-- Opening a tree, with a little more patience. -/
theorem openOn_step {fuel : Nat} (ih : Kept excuse ok s fuel)
    (selector : Selector S V) (path : List Nat) (passes : Passes)
    (h : selector.Supplies excuse ok s) :
    (Reading.openOn s (fuel + 1) selector path).Leads excuse passes
      fun reading _ => reading.Supplies excuse ok s := by
  have opened : ∀ {l : Leaf S V} {order : Order} {seed : UInt64},
      Selector.Supplies excuse ok s (.leaf l order seed) →
      (Reading.openOn s (fuel + 1) (.leaf l order seed) path).Leads
        excuse passes
        fun reading _ => reading.Supplies excuse ok s := by
    intro l order seed hl
    rw [Reading.openOn]
    refine Act.leads_bind (Act.leads_get ?_)
    exact Act.leads_bind
      (Act.leads_set (Act.leads_pure (supplies_openLeaf hl path passes)))
  cases h with
  | listed hlisted => exact opened (.listed hlisted)
  | drawn hdrawn => exact opened (.drawn hdrawn)
  | @union children weights order seed hc =>
      cases order with
      | given =>
          rw [Reading.openOn]
          refine Act.leads_pure (.joined supplies_empty fun c hmem => ?_)
          obtain ⟨d, hd, rfl⟩ := List.mem_map.mp hmem
          exact hc d.1 (List.fst_mem_of_mem_zipIdx hd)
      | random =>
          rw [Reading.openOn]
          refine Act.leads_bind ((ih.openWeighted _ path passes ?_).mono ?_ id)
          · intro c hmem
            exact hc c.1.1 (List.of_mem_zip (List.fst_mem_of_mem_zipIdx hmem)).1
          · intro live passes₁ hlive
            refine Act.leads_bind (Act.leads_get ?_)
            exact Act.leads_bind
              (Act.leads_set (Act.leads_pure (.weighted hlive)))
  | @product children ignoreEmpty order hmixes hc =>
      have hzip : ∀ c ∈ children.zipIdx, c.1.Supplies excuse ok s :=
        fun c hmem => hc c.1 (List.fst_mem_of_mem_zipIdx hmem)
      cases order with
      | given =>
          -- the children are drained before the first combination is shown
          rw [Reading.openOn]
          refine Act.leads_bind ((ih.drainAll _ path passes hzip).mono ?_ id)
          intro pools passes₁ hpools
          cases pools with
          | none => exact Act.leads_pure .stalled
          | some pools =>
              refine Act.leads_pure ?_
              cases hwheels : wheels ignoreEmpty pools with
              | none => exact .exhausted
              | some ws =>
                  exact .combined hmixes
                    (Wheel.supplies_wheels (hpools pools rfl) hwheels)
      | random =>
          rw [Reading.openOn]
          refine Act.leads_bind ((ih.openAll _ path passes hzip).mono ?_ id)
          exact fun readings _ hreadings =>
            Act.leads_pure (.zipped hmixes hreadings)
  | @limited limit inner hinner =>
      rw [Reading.openOn]
      refine Act.leads_bind
        ((ih.openOn inner (path ++ [0]) passes hinner).mono ?_ id)
      exact fun reading _ hreading => Act.leads_pure (.limited hreading)

/-- Opening children, with a little more patience. -/
theorem openAll_step {fuel : Nat} (ih : Kept excuse ok s fuel)
    (children : List (Selector S V × Nat)) (path : List Nat) (passes : Passes)
    (h : ∀ c ∈ children, c.1.Supplies excuse ok s) :
    (Reading.openAll s (fuel + 1) children path).Leads excuse passes
      fun readings _ => ∀ r ∈ readings, r.Supplies excuse ok s := by
  cases children with
  | nil =>
      rw [Reading.openAll]
      exact Act.leads_pure fun r hr => nomatch hr
  | cons c rest =>
      rw [Reading.openAll]
      refine Act.leads_bind
        ((ih.openOn c.1 _ passes (h c (List.mem_cons_self ..))).mono ?_ id)
      intro reading passes₁ hreading
      refine Act.leads_bind ((ih.openAll rest path passes₁
        fun d hd => h d (List.mem_cons_of_mem _ hd)).mono ?_ id)
      intro readings passes₂ hreadings
      exact Act.leads_pure (List.forall_mem_cons.mpr ⟨hreading, hreadings⟩)

/-- Opening weighted children, with a little more patience. -/
theorem openWeighted_step {fuel : Nat} (ih : Kept excuse ok s fuel)
    (children : List ((Selector S V × Float) × Nat)) (path : List Nat)
    (passes : Passes) (h : ∀ c ∈ children, c.1.1.Supplies excuse ok s) :
    (Reading.openWeighted s (fuel + 1) children path).Leads excuse passes
      fun live _ => ∀ l ∈ live, l.2.Supplies excuse ok s := by
  cases children with
  | nil =>
      rw [Reading.openWeighted]
      exact Act.leads_pure fun l hl => nomatch hl
  | cons c rest =>
      have hrest : ∀ d ∈ rest, d.1.1.Supplies excuse ok s :=
        fun d hd => h d (List.mem_cons_of_mem _ hd)
      rw [Reading.openWeighted]
      split
      · refine Act.leads_bind
          ((ih.openOn c.1.1 _ passes (h c (List.mem_cons_self ..))).mono ?_ id)
        intro reading passes₁ hreading
        refine Act.leads_bind
          ((ih.openWeighted rest path passes₁ hrest).mono ?_ id)
        intro live passes₂ hlive
        exact Act.leads_pure (List.forall_mem_cons.mpr ⟨hreading, hlive⟩)
      · exact ih.openWeighted rest path passes hrest

/-- Draining children, with a little more patience. -/
theorem drainAll_step {fuel : Nat} (ih : Kept excuse ok s fuel)
    (children : List (Selector S V × Nat)) (path : List Nat) (passes : Passes)
    (h : ∀ c ∈ children, c.1.Supplies excuse ok s) :
    (Reading.drainAll s (fuel + 1) children path).Leads excuse passes
      fun pools _ => ∀ ps, pools = some ps → ∀ p ∈ ps, ∀ m ∈ p, ok m := by
  cases children with
  | nil =>
      rw [Reading.drainAll]
      refine Act.leads_pure ?_
      intro ps g p hp
      cases g
      cases hp
  | cons c rest =>
      rw [Reading.drainAll]
      refine Act.leads_bind
        ((ih.openOn c.1 _ passes (h c (List.mem_cons_self ..))).mono ?_ id)
      intro reading passes₁ hreading
      refine Act.leads_bind ((ih.drain reading [] passes₁ hreading
        fun m hm => nomatch hm).mono ?_ id)
      intro pool passes₂ hpool
      cases pool with
      | none => exact Act.leads_pure fun ps hps => nomatch hps
      | some pool =>
          refine Act.leads_bind ((ih.drainAll rest path passes₂
            fun d hd => h d (List.mem_cons_of_mem _ hd)).mono ?_ id)
          intro pools passes₃ hpools
          cases pools with
          | none => exact Act.leads_pure fun ps hps => nomatch hps
          | some pools =>
              refine Act.leads_pure ?_
              intro ps g
              cases g
              exact List.forall_mem_cons.mpr ⟨hpool pool rfl, hpools pools rfl⟩

/-- Draining a reading adds moves of its own to those before. -/
theorem drain_step {fuel : Nat} (ih : Kept excuse ok s fuel)
    (reading : Reading S V) (done : List (Move S V)) (passes : Passes)
    (h : reading.Supplies excuse ok s) (hdone : ∀ m ∈ done, ok m) :
    (Reading.drain s (fuel + 1) reading done).Leads excuse passes
      fun pool _ => ∀ p, pool = some p → ∀ m ∈ p, ok m := by
  rw [Reading.drain]
  refine Act.leads_bind ((ih.next reading passes h).mono ?_ id)
  intro g passes₁ hgiven
  obtain ⟨turn, later⟩ := g
  obtain ⟨hturn, hlater⟩ := hgiven
  cases turn with
  | move m =>
      exact ih.drain later (m :: done) passes₁ hlater
        (List.forall_mem_cons.mpr ⟨hturn m rfl, hdone⟩)
  | ended =>
      refine Act.leads_pure ?_
      intro p g m hm
      cases g
      exact hdone m (List.mem_reverse.mp hm)
  | stuck => exact Act.leads_pure fun p hp => nomatch hp

/-- Asking each child once, with a little more patience. -/
theorem nextOfEach_step {fuel : Nat} (ih : Kept excuse ok s fuel)
    (ignoreEmpty : Bool) (children : List (Reading S V)) (passes : Passes)
    (h : ∀ r ∈ children, r.Supplies excuse ok s) :
    (Reading.nextOfEach s (fuel + 1) ignoreEmpty children).Leads excuse passes
      fun r _ => r.1.Supplies ok ∧ ∀ c ∈ r.2, c.Supplies excuse ok s := by
  cases children with
  | nil =>
      rw [Reading.nextOfEach]
      refine Act.leads_pure ⟨?_, fun c hc => nomatch hc⟩
      intro ms g m hm
      cases g
      cases hm
  | cons child rest =>
      have hrest : ∀ r ∈ rest, r.Supplies excuse ok s :=
        fun r hr => h r (List.mem_cons_of_mem _ hr)
      rw [Reading.nextOfEach]
      refine Act.leads_bind
        ((ih.next child passes (h child (List.mem_cons_self ..))).mono ?_ id)
      intro g passes₁ hgiven
      obtain ⟨turn, later⟩ := g
      obtain ⟨hturn, hlater⟩ := hgiven
      have hcons : ∀ others : List (Reading S V),
          (∀ r ∈ others, r.Supplies excuse ok s) →
          ∀ r ∈ later :: others, r.Supplies excuse ok s :=
        fun others hothers => List.forall_mem_cons.mpr ⟨hlater, hothers⟩
      cases turn with
      | stuck =>
          exact Act.leads_pure ⟨fun ms hms => (nomatch hms), hcons rest hrest⟩
      | move m =>
          refine Act.leads_bind
            ((ih.nextOfEach ignoreEmpty rest passes₁ hrest).mono ?_ id)
          intro g passes₂ hgiven
          obtain ⟨round, others⟩ := g
          obtain ⟨hround, hothers⟩ := hgiven
          cases round with
          | moves moves =>
              refine Act.leads_pure ⟨?_, hcons others hothers⟩
              intro ms g
              cases g
              exact List.forall_mem_cons.mpr ⟨hturn m rfl, hround moves rfl⟩
          | ended =>
              exact Act.leads_pure ⟨fun ms hms => (nomatch hms),
                hcons others hothers⟩
          | stuck =>
              exact Act.leads_pure ⟨fun ms hms => (nomatch hms),
                hcons others hothers⟩
      | ended =>
          cases ignoreEmpty with
          | false =>
              exact Act.leads_pure ⟨fun ms hms => (nomatch hms),
                hcons rest hrest⟩
          | true =>
              refine Act.leads_bind
                ((ih.nextOfEach true rest passes₁ hrest).mono ?_ id)
              intro g passes₂ hgiven
              obtain ⟨round, others⟩ := g
              obtain ⟨hround, hothers⟩ := hgiven
              exact Act.leads_pure ⟨hround, hcons others hothers⟩

/-- Draws until a move is hit: whatever is hit, chance admits. -/
theorem supplies_drawNext {sampler : Sampler S V}
    (h : sampler.Supplies excuse ok) (fuel : Nat) (held : List Nat)
    (stream : Stream) {r : Turn S V × Reading S V}
    (hr : drawNext fuel sampler held stream = .ok r) :
    r.1.Supplies ok ∧ r.2.Supplies excuse ok s := by
  induction fuel generalizing held stream with
  | zero =>
      cases hr
      exact ⟨fun m hm => (nomatch hm), .drawn h⟩
  | succ fuel ih =>
      unfold drawNext at hr
      cases hattempt : attempt sampler held stream with
      | error f =>
          rw [hattempt] at hr
          cases hr
      | ok answer =>
          rw [hattempt] at hr
          obtain ⟨drawn, later⟩ := answer
          have hyields := Chance.yields_of_run hattempt
          cases drawn with
          | take m =>
              cases hr
              refine ⟨?_, .drawn h⟩
              intro n g
              cases g
              exact h.taken held m hyields
          | again kept => exact ih kept later hr
          | stop =>
              cases hr
              exact ⟨fun m hm => (nomatch hm), .drawn h⟩

omit [BEq V] in
/-- And where no draw is from an empty range, none of them breaks off. -/
theorem excuse_of_drawNext {sampler : Sampler S V}
    (h : sampler.Supplies excuse ok) (fuel : Nat) (held : List Nat)
    (stream : Stream) {f : Fault}
    (hr : drawNext fuel sampler held stream = .error f) : excuse := by
  rcases h.safe with hexcuse | hsafe
  · exact hexcuse
  · induction fuel generalizing held stream with
    | zero => cases hr
    | succ fuel ih =>
        obtain ⟨drawn, later, hrun⟩ := (hsafe held).exists_run stream
        rw [drawNext, attempt, hrun] at hr
        cases drawn with
        | take m => cases hr
        | again kept => exact ih kept later hr
        | stop => cases hr

/-- The next move of children read one after the other. -/
theorem next_joined {fuel : Nat} (ih : Kept excuse ok s fuel)
    (current : Reading S V) (rest : List (Nat × Selector S V)) (path : List Nat)
    (passes : Passes) (hcurrent : current.Supplies excuse ok s)
    (hrest : ∀ c ∈ rest, c.2.Supplies excuse ok s) :
    (Reading.next s (fuel + 1) (.joined current rest path)).Leads excuse passes
      fun r _ => r.1.Supplies ok ∧ r.2.Supplies excuse ok s := by
  rw [Reading.next]
  refine Act.leads_bind ((ih.next current passes hcurrent).mono ?_ id)
  intro h passes₁ g
  obtain ⟨turn, later⟩ := h
  obtain ⟨hturn, hlater⟩ := g
  cases turn with
  | move m => exact Act.leads_pure ⟨hturn, .joined hlater hrest⟩
  | stuck => exact Act.leads_pure ⟨hturn, .joined hlater hrest⟩
  | ended =>
      cases rest with
      | nil => exact Act.leads_pure ⟨hturn, .joined hlater hrest⟩
      | cons c others =>
          obtain ⟨hc, hothers⟩ := List.forall_mem_cons.mp hrest
          refine Act.leads_bind ((ih.openOn c.2 _ passes₁ hc).mono ?_ id)
          exact fun opened passes₂ hopened =>
            ih.next _ passes₂ (.joined hopened hothers)

/-- The next move of weighted children. -/
theorem next_weighted {fuel : Nat} (ih : Kept excuse ok s fuel)
    (live : List (Float × Reading S V)) (stream : Stream) (passes : Passes)
    (hlive : ∀ l ∈ live, l.2.Supplies excuse ok s) :
    (Reading.next s (fuel + 1) (.weighted live stream)).Leads excuse passes
      fun r _ => r.1.Supplies ok ∧ r.2.Supplies excuse ok s := by
  rw [Reading.next]
  split
  · exact Act.leads_pure ⟨fun m hm => (nomatch hm), .weighted hlive⟩
  · split
    rename_i pick later _
    split
    · exact ih.next _ passes (.weighted hlive)
    · dsimp only
      split
      · exact Act.leads_pure ⟨fun m hm => (nomatch hm), .weighted hlive⟩
      · rename_i weight child hchosen
        have hchild := hlive _ (List.mem_of_getElem? hchosen)
        refine Act.leads_bind ((ih.next child passes hchild).mono ?_ id)
        intro h passes₁ g
        obtain ⟨turn, child'⟩ := h
        obtain ⟨hturn, hchild'⟩ := g
        have hset : ∀ l ∈ live.set (place live pick) (weight, child'),
            l.2.Supplies excuse ok s := by
          intro l hl
          rcases List.mem_or_eq_of_mem_set hl with hl | rfl
          · exact hlive l hl
          · exact hchild'
        -- a child that has ended is dropped, any other stays with what is
        -- left of it
        cases turn with
        | move m => exact Act.leads_pure ⟨hturn, .weighted hset⟩
        | stuck => exact Act.leads_pure ⟨hturn, .weighted hset⟩
        | ended =>
            exact ih.next _ passes₁
              (.weighted fun l hl => hlive l (List.mem_of_mem_eraseIdx hl))

/-- The next move of any reading, with a little more patience. -/
theorem next_step {fuel : Nat} (ih : Kept excuse ok s fuel)
    (reading : Reading S V) (passes : Passes)
    (h : reading.Supplies excuse ok s) :
    (Reading.next s (fuel + 1) reading).Leads excuse passes
      fun r _ => r.1.Supplies ok ∧ r.2.Supplies excuse ok s := by
  cases h with
  | @listed moves hmoves =>
      cases moves with
      | nil =>
          rw [Reading.next]
          exact Act.leads_pure ⟨fun m hm => (nomatch hm), .listed hmoves⟩
      | cons m rest =>
          obtain ⟨hm, hrest⟩ := List.forall_mem_cons.mp hmoves
          rw [Reading.next]
          refine Act.leads_pure ⟨?_, .listed hrest⟩
          intro n g
          cases g
          exact hm
  | @drawn sampler held stream hdrawn =>
      rw [Reading.next]
      exact Act.leads_lift_or
        (fun r hr => supplies_drawNext hdrawn fuel held stream hr)
        fun f hf => excuse_of_drawNext hdrawn fuel held stream hf
  | joined hcurrent hrest => exact next_joined ih _ _ _ passes hcurrent hrest
  | weighted hlive => exact next_weighted ih _ _ passes hlive
  | exhausted =>
      rw [Reading.next]
      exact Act.leads_pure ⟨fun m hm => (nomatch hm), .exhausted⟩
  | @combined wheels hmixes hwheels =>
      rw [Reading.next]
      refine Act.leads_pure ⟨?_, ?_⟩
      · intro m g
        cases g
        exact hmixes _ (Wheel.ok_present hwheels)
      · cases hturn : Wheel.turn wheels with
        | none => exact .exhausted
        | some turned =>
            exact .combined hmixes (Wheel.supplies_turn hwheels hturn)
  | @zipped children ignoreEmpty hmixes hchildren =>
      rw [Reading.next]
      refine Act.leads_bind
        ((ih.nextOfEach ignoreEmpty children passes hchildren).mono ?_ id)
      intro g passes₁ hgiven
      obtain ⟨round, later⟩ := g
      obtain ⟨hround, hlater⟩ := hgiven
      cases round with
      | moves moves =>
          cases moves with
          | nil =>
              exact Act.leads_pure ⟨fun m hm => (nomatch hm),
                .zipped hmixes hlater⟩
          | cons m rest =>
              refine Act.leads_pure ⟨?_, .zipped hmixes hlater⟩
              intro n g
              cases g
              exact hmixes _ (hround _ rfl)
      | ended =>
          exact Act.leads_pure ⟨fun m hm => (nomatch hm), .zipped hmixes hlater⟩
      | stuck =>
          exact Act.leads_pure ⟨fun m hm => (nomatch hm), .zipped hmixes hlater⟩
  | @limited left inner hinner =>
      cases left with
      | zero =>
          rw [Reading.next]
          exact Act.leads_pure ⟨fun m hm => (nomatch hm), .limited hinner⟩
      | succ left =>
          rw [Reading.next]
          refine Act.leads_bind ((ih.next inner passes hinner).mono ?_ id)
          intro g passes₁ hgiven
          obtain ⟨turn, later⟩ := g
          obtain ⟨hturn, hlater⟩ := hgiven
          cases turn with
          | move m => exact Act.leads_pure ⟨hturn, .limited hlater⟩
          | ended => exact Act.leads_pure ⟨hturn, .limited hlater⟩
          | stuck => exact Act.leads_pure ⟨hturn, .limited hlater⟩
  | stalled =>
      rw [Reading.next]
      exact Act.leads_pure ⟨fun m hm => (nomatch hm), .stalled⟩

/-- Whatever the patience, a pass keeps to what the leaves supply. -/
theorem kept (excuse : Prop) (ok : Move S V → Prop) (s : S) (fuel : Nat) :
    Kept excuse ok s fuel := by
  induction fuel with
  | zero =>
      -- without patience all of them give up, and hand out nothing
      refine ⟨?_, ?_, ?_, ?_, ?_, ?_, ?_⟩
      · exact fun _ _ _ _ => by
          rw [Reading.openOn]; exact Act.leads_pure .stalled
      · intro children path passes _
        rw [Reading.openAll]
        refine Act.leads_pure fun r hr => ?_
        obtain ⟨_, _, rfl⟩ := List.mem_map.mp hr
        exact .stalled
      · intro children path passes _
        rw [Reading.openWeighted]
        refine Act.leads_pure fun l hl => ?_
        obtain ⟨_, _, rfl⟩ := List.mem_map.mp hl
        exact .stalled
      · intro children path passes _
        rw [Reading.drainAll]
        exact Act.leads_pure fun ps hps => nomatch hps
      · intro reading done passes _ _
        rw [Reading.drain]
        exact Act.leads_pure fun p hp => nomatch hp
      · intro reading passes h
        rw [Reading.next]
        exact Act.leads_pure ⟨fun m hm => (nomatch hm), h⟩
      · intro ignoreEmpty children passes h
        rw [Reading.nextOfEach]
        exact Act.leads_pure ⟨fun ms hms => (nomatch hms), h⟩
  | succ fuel ih =>
      exact ⟨openOn_step ih, openAll_step ih, openWeighted_step ih,
        drainAll_step ih, drain_step ih, next_step ih, nextOfEach_step ih⟩

end Reading

-- ================================================================== yields

/-- Taking moves from a reading, whatever the patience, comes to the move. -/
inductive Reading.Yields (s : S) : Reading S V → Move S V → Prop
  | now {fuel : Nat} {passes after : Passes} {reading later : Reading S V}
      {m : Move S V} :
      (Reading.next s fuel reading).run passes = (.ok (.move m, later), after) →
      Yields s reading m
  | later {fuel : Nat} {passes after : Passes} {reading later : Reading S V}
      {m n : Move S V} :
      (Reading.next s fuel reading).run passes = (.ok (.move n, later), after) →
      Yields s later m → Yields s reading m

/-- The move is one of a pass of the selector over the solution, whichever
pass it is. -/
def Selector.Yields (selector : Selector S V) (s : S) (m : Move S V) : Prop :=
  ∃ fuel passes reading after,
    (Reading.openOn s fuel selector []).run passes = (.ok reading, after) ∧
      reading.Yields s m

/-- A move that comes is one that is supplied. -/
theorem Reading.ok_of_yields {reading : Reading S V} {m : Move S V}
    (h : reading.Yields s m) (hreading : reading.Supplies excuse ok s) :
    ok m := by
  induction h with
  | @now fuel passes _ reading _ m hnext =>
      have hgiven :=
        ((Reading.kept excuse ok s fuel).next reading passes
          hreading).of_run hnext
      exact hgiven.1 m rfl
  | @later fuel passes _ reading _ m n hnext _ ih =>
      have hgiven :=
        ((Reading.kept excuse ok s fuel).next reading passes
          hreading).of_run hnext
      exact ih hgiven.2

namespace Selector

variable {selector : Selector S V}

/-- What the leaves of a tree supply is what its passes yield. -/
theorem ok_of_yields {m : Move S V} (h : selector.Yields s m)
    (hselector : selector.Supplies excuse ok s) : ok m := by
  obtain ⟨fuel, passes, reading, after, hopen, hyields⟩ := h
  have hreading :=
    ((Reading.kept excuse ok s fuel).openOn selector
      [] passes hselector).of_run hopen
  exact Reading.ok_of_yields hyields hreading

/-- So is what is taken of a pass from somewhere on, -/
theorem leads_nextMoves (count : Nat) {reading : Reading S V}
    {done : List (Move S V)} {passes : Passes}
    (hreading : reading.Supplies excuse ok s) (hdone : ∀ m ∈ done, ok m) :
    (nextMoves s count reading done).Leads excuse passes
      fun portion _ => ∀ m ∈ portion.moves, ok m := by
  have hreversed : ∀ m ∈ done.reverse, ok m :=
    fun m hm => hdone m (List.mem_reverse.mp hm)
  induction count generalizing reading done passes with
  | zero => exact Act.leads_pure hreversed
  | succ count ih =>
      rw [nextMoves]
      refine Act.leads_bind
        (((Reading.kept excuse ok s patience).next reading passes
        hreading).mono ?_ id)
      intro g passes₁ hgiven
      obtain ⟨turn, later⟩ := g
      obtain ⟨hturn, hlater⟩ := hgiven
      cases turn with
      | move m =>
          have hcons := List.forall_mem_cons.mpr ⟨hturn m rfl, hdone⟩
          exact ih hlater hcons fun n hn => hcons n (List.mem_reverse.mp hn)
      | ended => exact Act.leads_pure hreversed
      | stuck => exact Act.leads_pure hreversed

/-- and at its start. -/
theorem leads_firstMoves
    (hselector : selector.Supplies excuse ok s) (take : Nat) (passes : Passes) :
    (selector.firstMoves s take).Leads excuse passes
      fun portion _ => ∀ m ∈ portion.moves, ok m := by
  unfold firstMoves
  refine Act.leads_bind
    (((Reading.kept excuse ok s patience).openOn selector [] passes
    hselector).mono ?_ id)
  exact fun reading _ hreading =>
    leads_nextMoves take hreading fun m hm => nomatch hm

/-- The moves of a pass are those that the selector supplies. -/
theorem leads_offered (hselector : selector.Supplies excuse ok s) (take : Nat)
    (passes : Passes) :
    (selector.offered s take).Leads excuse passes
      fun moves _ => ∀ m ∈ moves, ok m :=
  Act.leads_bind ((leads_firstMoves hselector take passes).mono
    (fun _ _ hportion => Act.leads_pure hportion) id)

end Selector

end PlanSearch

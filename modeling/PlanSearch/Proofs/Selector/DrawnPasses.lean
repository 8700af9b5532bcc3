/-
Random passes over built leaves.

What `covers_of_yields` says of one attempt is carried through a pass here:
opening a leaf leaves a reading that attempts can have come to
(`Reading.DrawnFrom`), asking it for a move keeps it one, and neither ever
breaks off. The leaves a configuration is built to satisfy what is asked of
them, since the least size of a segment is raised to one when it is read.
-/
import PlanSearch.Proofs.Selector.Drawn

namespace PlanSearch

variable {S V : Type}

-- =================================================================== passes

namespace Reading

variable [BEq V] {s : S} {l : Leaf S V}

/-- A pass of a leaf in random order: empty, or drawn from what attempts can
have come to. -/
inductive DrawnFrom (l : Leaf S V) (s : S) : Reading S V → Prop
  | empty : DrawnFrom l s (.listed [])
  | drawn {sampler : Sampler S V} {held : List Nat} {stream : Stream} :
      l.sampler s = some sampler → sampler.Reached held →
      DrawnFrom l s (.drawn sampler held stream)
  | stalled : DrawnFrom l s .stalled

/-- A draw never fails, and what it draws is covered by the pass. -/
theorem exists_drawNext (sized : l.Sized)
    (own : ∀ factory, l ≠ .moveSource factory) {sampler : Sampler S V}
    (hsampler : l.sampler s = some sampler) (fuel : Nat) {held : List Nat}
    (reached : sampler.Reached held) (stream : Stream) :
    ∃ turn later, drawNext fuel sampler held stream = .ok (turn, later) ∧
      (∀ m, turn = .move m → l.Covers s m) ∧ DrawnFrom l s later := by
  induction fuel generalizing held stream with
  | zero =>
      exact ⟨.stuck, _, rfl, fun _ hm => (by cases hm), .drawn hsampler reached⟩
  | succ fuel ih =>
      obtain ⟨outcome, after, hrun⟩ :=
        (Leaf.safe_of_reached sized own hsampler reached).exists_run stream
      have hyields := Chance.yields_of_run hrun
      have hattempt : attempt sampler held stream = .ok (outcome, after) := hrun
      cases outcome with
      | take m =>
          refine ⟨.move m, .drawn sampler [] after, ?_, fun n hn => ?_,
            .drawn hsampler .start⟩
          · rw [drawNext, hattempt]
          · cases hn
            exact Leaf.covers_of_yields sized own hsampler reached hyields
      | again kept =>
          rw [drawNext, hattempt]
          exact ih (.again reached hyields) after
      | stop =>
          refine ⟨.ended, .drawn sampler [] after, ?_, fun m hm => ?_,
            .drawn hsampler .start⟩
          · rw [drawNext, hattempt]
          · cases hm

/-- The next move of a drawn reading is covered by the pass. -/
theorem leads_next_drawnFrom (sized : l.Sized)
    (own : ∀ factory, l ≠ .moveSource factory) (fuel : Nat)
    {reading : Reading S V} (h : reading.DrawnFrom l s) (passes : Passes) :
    (next s fuel reading).Leads False passes fun answer _ =>
      (∀ m, answer.1 = .move m → l.Covers s m) ∧ answer.2.DrawnFrom l s := by
  cases fuel with
  | zero =>
      rw [next]
      exact Act.leads_pure ⟨fun _ hm => (by cases hm), h⟩
  | succ fuel =>
      cases h with
      | empty =>
          rw [next]
          exact Act.leads_pure ⟨fun _ hm => (by cases hm), .empty⟩
      | drawn hsampler reached =>
          rw [next]
          obtain ⟨turn, later, hrun, hturn, hlater⟩ :=
            exists_drawNext sized own hsampler fuel reached ‹_›
          refine Act.leads_lift_or (fun answer h => ?_) fun f h => ?_
          · rw [hrun] at h
            cases h
            exact ⟨hturn, hlater⟩
          · rw [hrun] at h
            cases h
      | stalled =>
          rw [next]
          exact Act.leads_pure ⟨fun _ hm => (by cases hm), .stalled⟩

/-- A leaf in random order opens to a drawn reading, or to an empty one. -/
theorem leads_openOn_drawnFrom (l : Leaf S V) (seed : UInt64)
    (s : S) (fuel : Nat) (path : List Nat) (passes : Passes) :
    (openOn s fuel (.leaf l .random seed) path).Leads False passes
      fun reading _ => reading.DrawnFrom l s := by
  cases fuel with
  | zero =>
      rw [openOn]
      exact Act.leads_pure .stalled
  | succ fuel =>
      rw [openOn]
      refine Act.leads_bind (Act.leads_get ?_)
      unfold openLeaf
      dsimp only
      cases hsampler : l.sampler s with
      | none => exact Act.leads_bind (Act.leads_set (Act.leads_pure .empty))
      | some sampler =>
          exact Act.leads_bind
            (Act.leads_set (Act.leads_pure (.drawn hsampler .start)))

end Reading

namespace Selector

variable [BEq V] {s : S} {l : Leaf S V}

/-- The leaf stands somewhere in the tree. -/
inductive HasLeaf (l : Leaf S V) : Selector S V → Prop
  | leaf {order : Order} {seed : UInt64} : HasLeaf l (.leaf l order seed)
  | union {children : List (Selector S V)} {weights : Weights S} {order : Order}
      {seed : UInt64}
      {c : Selector S V} : c ∈ children → HasLeaf l c →
      HasLeaf l (.union children weights order seed)
  | product {children : List (Selector S V)} {ignoreEmpty : Bool}
      {order : Order}
      {c : Selector S V} : c ∈ children → HasLeaf l c →
      HasLeaf l (.product children ignoreEmpty order)
  | limited {limit : Nat} {inner : Selector S V} : HasLeaf l inner →
      HasLeaf l (.limited limit inner)

/-- Any number of moves drawn are covered by the pass. -/
theorem leads_nextMoves_drawnFrom (sized : l.Sized)
    (own : ∀ factory, l ≠ .moveSource factory) (count : Nat)
    {reading : Reading S V} {done : List (Move S V)} {passes : Passes}
    (h : reading.DrawnFrom l s) (hdone : ∀ m ∈ done, l.Covers s m) :
    (nextMoves s count reading done).Leads False passes
      fun portion _ => ∀ m ∈ portion.moves, l.Covers s m := by
  have hreversed : ∀ m ∈ done.reverse, l.Covers s m :=
    fun m hm => hdone m (List.mem_reverse.mp hm)
  induction count generalizing reading done passes with
  | zero => exact Act.leads_pure hreversed
  | succ count ih =>
      rw [nextMoves]
      refine Act.leads_bind
        ((Reading.leads_next_drawnFrom sized own patience h passes).mono ?_ id)
      rintro ⟨turn, later⟩ _ ⟨hturn, hlater⟩
      cases turn with
      | move m =>
          have hcons := List.forall_mem_cons.mpr ⟨hturn m rfl, hdone⟩
          exact ih hlater hcons fun n hn => hcons n (List.mem_reverse.mp hn)
      | ended => exact Act.leads_pure hreversed
      | stuck => exact Act.leads_pure hreversed

/-- A pass of a leaf in random order never breaks off, and is made of moves
of the given order. -/
theorem leads_firstMoves_random (sized : l.Sized)
    (own : ∀ factory, l ≠ .moveSource factory) (seed : UInt64) (take : Nat)
    (passes : Passes) :
    ((Selector.leaf l .random seed).firstMoves s take).Leads False passes
      fun portion _ => ∀ m ∈ portion.moves, l.Covers s m := by
  unfold firstMoves
  refine Act.leads_bind
    ((Reading.leads_openOn_drawnFrom l seed s patience [] passes).mono ?_ id)
  exact fun reading _ h => leads_nextMoves_drawnFrom sized own take h
    fun m hm => nomatch hm

end Selector

-- ================================================================= building

namespace SelectorConfig

open SelectorContext

/-- Configured segments have at least one entity. -/
theorem sized_leavesFor {c : SelectorContext S V} {path : String}
    {settings : LeafConfig}
    {leaves : List (Leaf S V)} (h : leavesFor c path settings = .ok leaves) :
    ∀ l ∈ leaves, l.Sized := by
  have least : ∀ minimum maximum,
      1 ≤ (SegmentSizes.of minimum maximum).minimum :=
    fun _ _ => Nat.le_max_right _ _
  cases settings with
  | change entityClass name | pillarChange entityClass sub name
  | tailSwap name =>
      obtain ⟨xs, -, h⟩ := exists_of_bind_ok h
      cases h
      intro l hl
      obtain ⟨x, -, rfl⟩ := List.mem_map.mp hl
      trivial
  | segmentChange segments | segmentSwap segments =>
      obtain ⟨xs, -, h⟩ := exists_of_bind_ok h
      cases h
      intro l hl
      obtain ⟨x, -, rfl⟩ := List.mem_map.mp hl
      exact least _ _
  | swap entityClass names | pillarSwap entityClass sub names | moveList name
  | moveSource name =>
      obtain ⟨_, -, h⟩ := exists_of_bind_ok h
      cases h
      intro l hl
      rw [List.mem_singleton.mp hl]
      trivial

/-- The leaves put together are all there are. -/
theorem mem_of_hasLeaf_joined {order : Order} {seed : UInt64}
    {leaves : List (Leaf S V)} {l : Leaf S V}
    (h : (joined order seed leaves).HasLeaf l) : l ∈ leaves := by
  unfold joined at h
  split at h
  · cases h
    exact List.mem_singleton.mpr rfl
  · cases h with
    | union hc hl =>
        obtain ⟨l', hl', rfl⟩ := List.mem_map.mp hc
        cases hl
        exact hl'

/-- A limit has the leaves of what it limits. -/
theorem hasLeaf_of_finished {path : String} {order : Order}
    {common : CommonSettings} {reports : List SelectorReport}
    {selector : Selector S V} {l : Leaf S V}
    (h : (finished path order common reports selector).selector.HasLeaf l) :
    selector.HasLeaf l := by
  unfold finished at h
  cases hlimit : common.limit with
  | none =>
      rw [hlimit] at h
      exact h
  | some limit =>
      rw [hlimit] at h
      cases h with
      | limited h => exact h

mutual

/-- The segments of a built tree have a least size of one. -/
theorem sized_buildAt {c : SelectorContext S V} :
    ∀ (config : SelectorConfig) {path : String} {inherited : Order}
          {seed : UInt64}
      {built : BuiltSelector S V},
      buildAt c path inherited seed config = .ok built →
      ∀ l, built.selector.HasLeaf l → l.Sized
  | .leaf common settings, path, inherited, seed, built, h, l, hl => by
      obtain ⟨_, -, h⟩ := exists_of_bind_ok h
      obtain ⟨leaves, hleaves, h⟩ := exists_of_bind_ok h
      cases h
      exact sized_leavesFor hleaves l
        (mem_of_hasLeaf_joined (hasLeaf_of_finished hl))
  | .union common children factory, path, inherited, seed, built, h, l, hl => by
      obtain ⟨_, -, h⟩ := exists_of_bind_ok h
      obtain ⟨below, hbelow, h⟩ := exists_of_bind_ok h
      obtain ⟨weights, -, h⟩ := exists_of_bind_ok h
      cases h
      cases hasLeaf_of_finished hl with
      | union hc hl => exact sized_buildAll children hbelow _ hc l hl
  | .product common children ignoreEmpty, path, inherited, seed, built,
      h, l, hl => by
      obtain ⟨_, -, h⟩ := exists_of_bind_ok h
      obtain ⟨below, hbelow, h⟩ := exists_of_bind_ok h
      cases h
      cases hasLeaf_of_finished hl with
      | product hc hl => exact sized_buildAll children hbelow _ hc l hl

theorem sized_buildAll {c : SelectorContext S V} :
    ∀ (children : List SelectorConfig) {path : String} {order : Order}
          {seed : UInt64}
      {index : Nat} {built : BuiltChildren S V},
      buildAll c path order seed index children = .ok built →
      ∀ x ∈ built.selectors, ∀ l, x.HasLeaf l → l.Sized
  | [], path, order, seed, index, built, h => by
      cases h
      exact fun x hx => nomatch hx
  | child :: rest, path, order, seed, index, built, h => by
      obtain ⟨first, hfirst, h⟩ := exists_of_bind_ok h
      obtain ⟨others, hothers, h⟩ := exists_of_bind_ok h
      cases h
      exact List.forall_mem_cons.mpr ⟨sized_buildAt child hfirst,
        sized_buildAll rest hothers⟩

end

/-- Whatever a leaf of a built tree draws, it draws from what is there, and
what comes of it is in the leaf's pass in the given order, as it is or with
its two sides exchanged. -/
theorem draws_within_given [BEq V] {c : SelectorContext S V}
    {config : SelectorConfig} {outside : UInt64} {built : BuiltSelector S V}
    (hbuild : config.build c outside = .ok built) {l : Leaf S V}
    (hl : built.selector.HasLeaf l)
    (own : ∀ factory, l ≠ .moveSource factory) (s : S) :
    (∀ seed, (Selector.leaf l .given seed).Lists s (l.moves s)) ∧
    (∀ sampler, l.sampler s = some sampler → ∀ held, sampler.Reached held →
      (sampler held).Safe ∧
        ∀ m, (sampler held).Yields (.take m) →
          m ∈ l.moves s ∨ m.turned ∈ l.moves s) ∧
    ∀ seed take passes,
      ((Selector.leaf l .random seed).firstMoves s take).Leads False passes
        fun portion _ => ∀ m ∈ portion.moves, m ∈ l.moves s ∨
      m.turned ∈ l.moves s := by
  obtain ⟨_, -, hbuild⟩ := exists_of_bind_ok hbuild
  have sized := sized_buildAt config hbuild l hl
  refine ⟨fun seed => Leaf.lists_given l seed s,
    fun sampler hsampler held reached => ⟨?_, ?_⟩, ?_⟩
  · exact Leaf.safe_of_reached sized own hsampler reached
  · exact fun m hm => Leaf.covers_of_yields sized own hsampler reached hm
  · exact fun seed take passes =>
      Selector.leads_firstMoves_random sized own seed take passes

/-- Two tasks of one priority and one of another: drawn as the second group
and the first, the pillars are those that the given order has as the first
and the second. -/
theorem draws_within_given_pillars :
    let l : Leaf Tasks Int := .pillarSwap [Tasks.priority] .none
    let s := Tasks.twoOfThree
    ((∃ built, exchangeAll.build Tasks.context 0 = .ok built ∧
      built.selector.HasLeaf l) ∧
      ∀ factory, l ≠ .moveSource factory) ∧
    (∃ sampler, l.sampler s = some sampler ∧ (sampler []).Safe ∧
      (sampler []).Yields
        (.take (.step (.pillarSwap Tasks.priority [2] [0, 1])))) ∧
    (∀ seed, (Selector.leaf l .given seed).Lists s
      [.step (.pillarSwap Tasks.priority [0, 1] [2])]) ∧
    ∀ seed take passes,
      ((Selector.leaf l .random seed).firstMoves s take).Leads False passes
      fun portion _ => ∀ m ∈ portion.moves, m ∈ l.moves s ∨
          m.turned ∈ l.moves s := by
  intro l s
  have hbuild : ∃ built, exchangeAll.build Tasks.context 0 = .ok built ∧
      built.selector.HasLeaf l := ⟨_, rfl, .leaf⟩
  have own : ∀ factory, l ≠ .moveSource factory := fun _ => nofun
  obtain ⟨built, hbuilt, hl⟩ := hbuild
  obtain ⟨hgiven, hdrawn, hpass⟩ := draws_within_given hbuilt hl own s
  refine ⟨⟨⟨built, hbuilt, hl⟩, own⟩, ⟨_, rfl, ?_, ?_⟩, hgiven, hpass⟩
  · exact (hdrawn _ rfl [] .start).1
  · exact .index (k := 1) (by decide) (.index (k := 0) (by decide) (.pure _))

end SelectorConfig

end PlanSearch

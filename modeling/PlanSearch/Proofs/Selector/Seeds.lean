/-
The seeds of a built tree.

A selector gets its seed from its parent's, and each of its passes gets one
from its own. Either step moves the seed on by some strides: a pass by its
number, a child by its number, counted from one, in the upper half of the
word. What a selector ends up with is the seed of the root, moved on by all
these steps together.

# Which seeds meet

The stride is odd, so seeds are told apart by how many strides they are
ahead of the root, up to a whole word of them. Passes stay within the lower
half, and two of different numbers never meet. In the upper half stands the
sum of the numbers on the way down (`Seed.steps`), whatever their order and
however many they are. The children of one selector differ in it, and so do
a selector and what is inside it, but a child of the first child is as far
ahead as the second child.
-/
import Mathlib.Data.Nat.ModEq
import PlanSearch.Proofs.Config.Places
import PlanSearch.Proofs.Move.Turn
import PlanSearch.Selector.Build

namespace PlanSearch

-- ==================================================================== strides

namespace Seed

/-- A seed moved on by a number of strides. -/
def ahead (root : UInt64) (n : Nat) : UInt64 := root + UInt64.ofNat n * stride

/-- The seed of the selector at a place of a tree. -/
def ofPlace (root : UInt64) (place : List Nat) : UInt64 :=
  place.foldl ofChild root

/-- The numbers of the children on the way to a place, each counted from
one, added up. -/
def steps (place : List Nat) : Nat := (place.map (· + 1)).sum

variable {root : UInt64} {place other : List Nat}

/-- The seed of a place below a child starts from the seed of the child. -/
theorem ofPlace_cons (root : UInt64) (i : Nat) (place : List Nat) :
    ofPlace root (i :: place) = ofPlace (ofChild root i) place := by
  rw [ofPlace, List.foldl_cons, ofPlace]

/-- Steps ahead add up. -/
theorem ahead_ahead (root : UInt64) (n m : Nat) :
    ahead (ahead root n) m = ahead root (n + m) := by
  simp only [ahead]
  rw [UInt64.ofNat_add, UInt64.add_mul, UInt64.add_assoc]

theorem ofNat_shiftLeft (n : Nat) :
    UInt64.ofNat n <<< 32 = UInt64.ofNat (n * 2 ^ 32) := by
  apply UInt64.toNat.inj
  rw [UInt64.toNat_shiftLeft, UInt64.toNat_ofNat', UInt64.toNat_ofNat',
    Nat.shiftLeft_eq, Nat.mod_mul_mod]
  rfl

/-- A child is as many strides ahead as its number shifted by half a word.
-/
theorem ofChild_eq (root : UInt64) (i : Nat) :
    ofChild root i = ahead root ((i + 1) * 2 ^ 32) := by
  rw [ofChild, ofNat_shiftLeft, ahead]

/-- A place is ahead by the sum of its steps, whatever they are. -/
theorem ofPlace_eq (root : UInt64) (place : List Nat) :
    ofPlace root place = ahead root (steps place * 2 ^ 32) := by
  induction place generalizing root with
  | nil => simp [ofPlace, steps, ahead]
  | cons i place ih =>
      have hsteps : steps (i :: place) = (i + 1) + steps place := by
        rw [steps, List.map_cons, List.sum_cons, steps]
      calc ofPlace root (i :: place)
          = ofPlace (ofChild root i) place := ofPlace_cons root i place
        _ = ahead (ahead root ((i + 1) * 2 ^ 32)) (steps place * 2 ^ 32) := by
            rw [ih, ofChild_eq]
        _ = ahead root (steps (i :: place) * 2 ^ 32) := by
            rw [ahead_ahead, hsteps, ← Nat.add_mul]

/-- A pass at a place is ahead by the place and the number of the pass. -/
theorem ofPass_ofPlace (root : UInt64) (place : List Nat) (pass : Nat) :
    ofPass (ofPlace root place) pass
      = ahead root (steps place * 2 ^ 32 + pass) := by
  rw [ofPlace_eq, ← ahead_ahead]
  rfl

/-- The stride is odd, so it has an inverse. -/
theorem mul_stride_inj {x y : UInt64} : x * stride = y * stride ↔ x = y := by
  refine ⟨fun h => ?_, fun h => by rw [h]⟩
  have hinverse : stride * 0xf1de83e19937733d = 1 := by decide
  calc x = x * stride * 0xf1de83e19937733d := by
        rw [UInt64.mul_assoc, hinverse, UInt64.mul_one]
    _ = y * stride * 0xf1de83e19937733d := by rw [h]
    _ = y := by rw [UInt64.mul_assoc, hinverse, UInt64.mul_one]

/-- Seeds are equal if they are equally far ahead, up to a whole turn. -/
theorem ahead_inj {n m : Nat} : ahead root n = ahead root m ↔
    n ≡ m [MOD 2 ^ 64] := by
  rw [ahead, ahead, UInt64.add_right_inj, mul_stride_inj, ← UInt64.toNat_inj,
    UInt64.toNat_ofNat', UInt64.toNat_ofNat']
  rfl

/-- Two selectors have one seed if the sums on the ways to them agree in
half a word. -/
theorem ofPlace_inj :
    ofPlace root place = ofPlace root other ↔
    steps place ≡ steps other [MOD 2 ^ 32] := by
  rw [ofPlace_eq, ofPlace_eq, ahead_inj]
  exact ⟨fun h => Nat.ModEq.mul_right_cancel' (by decide) h,
    fun h => h.mul_right' (2 ^ 32)⟩

/-- Their passes have one seed if they have, and the passes are of one
number. -/
theorem ofPass_ofPlace_inj {a b : Nat} (ha : a < 2 ^ 32) (hb : b < 2 ^ 32) :
    ofPass (ofPlace root place) a = ofPass (ofPlace root other) b ↔
      steps place ≡ steps other [MOD 2 ^ 32] ∧ a = b := by
  rw [ofPass_ofPlace, ofPass_ofPlace, ahead_inj]
  unfold Nat.ModEq
  omega

end Seed

-- ================================================================ built trees

variable {S V : Type}

namespace Selector

/-- What a limit cuts off, or the selector itself. -/
def unlimited : Selector S V → Selector S V
  | limited _ inner => inner.unlimited
  | selector => selector

/-- The selector at a place of a built tree; a limit stands where what it
limits does. -/
def at? : List Nat → Selector S V → Option (Selector S V)
  | [], selector => some selector
  | i :: place, selector => selector.unlimited.children[i]?.bind (at? place)

/-- The seed that the passes of a selector start from. A product draws
nothing itself and has none. -/
def seed? (selector : Selector S V) : Option UInt64 :=
  match selector.unlimited with
  | leaf _ _ seed => some seed
  | union _ _ _ seed => some seed
  | _ => none

end Selector

namespace SelectorConfig

variable {c : SelectorContext S V} {path : String} {order : Order}
  {seed : UInt64} {config node child : SelectorConfig}
  {built : BuiltSelector S V} {place other : List Nat}

/-- Whether what is built for the selector draws from a stream of its own. -/
def drawsItself : SelectorConfig → Bool
  | product .. => false
  | _ => true

/-- A limit is all that is put around a selector. -/
theorem unlimited_finished {common : CommonSettings}
    {reports : List SelectorReport} {selector : Selector S V} :
    (finished path order common reports selector).selector.unlimited
      = selector.unlimited := by
  unfold finished
  cases common.limit with
  | none => rfl
  | some limit => rfl

/-- A limit keeps the seed. -/
theorem seed?_finished {common : CommonSettings} {reports : List SelectorReport}
    {selector : Selector S V} :
    (finished path order common reports selector).selector.seed?
      = selector.seed? := by
  rw [Selector.seed?, unlimited_finished, Selector.seed?]

/-- Leaves put together have the seed of their place. -/
theorem seed?_joined (leaves : List (Leaf S V)) :
    (joined order seed leaves).seed? = some seed := by
  unfold joined
  split <;> rfl

/-- What is built for a selector has the seed that was handed down to it. -/
theorem seed?_of_buildAt (h : config.buildAt c path order seed = .ok built) :
    built.selector.seed? = if config.drawsItself then some seed else none := by
  cases config with
  | leaf common settings =>
      obtain ⟨_, -, h⟩ := exists_of_bind_ok h
      obtain ⟨leaves, -, h⟩ := exists_of_bind_ok h
      cases h
      rw [seed?_finished, seed?_joined]
      rfl
  | union common children factory =>
      obtain ⟨_, -, h⟩ := exists_of_bind_ok h
      obtain ⟨row, -, h⟩ := exists_of_bind_ok h
      obtain ⟨weights, -, h⟩ := exists_of_bind_ok h
      cases h
      exact seed?_finished
  | product common children ignoreEmpty =>
      obtain ⟨_, -, h⟩ := exists_of_bind_ok h
      obtain ⟨row, -, h⟩ := exists_of_bind_ok h
      cases h
      exact seed?_finished

/-- Children are built each by itself, with the seeds of their numbers. -/
theorem exists_of_buildAll {index i : Nat} {children : List SelectorConfig}
    {row : BuiltChildren S V}
    (h : buildAll c path order seed index children = .ok row)
    (hchild : children[i]? = some child) :
    ∃ chosen, child.buildAt c (childPath path (index + i)) order
      (Seed.ofChild seed (index + i)) =
        .ok chosen ∧ row.selectors[i]? = some chosen.selector := by
  induction children generalizing index i row with
  | nil => cases hchild
  | cons first rest ih =>
      obtain ⟨chosen, hfirst, h⟩ := exists_of_bind_ok h
      obtain ⟨others, hothers, h⟩ := exists_of_bind_ok h
      cases h
      cases i with
      | zero =>
          cases hchild
          exact ⟨chosen, hfirst, rfl⟩
      | succ i =>
          have hrest := ih hothers hchild
          rw [Nat.add_right_comm] at hrest
          exact hrest

/-- The children of what is built are built from the children. -/
theorem exists_child_of_buildAt {i : Nat}
    (h : config.buildAt c path order seed = .ok built)
    (hchild : config.children[i]? = some child) : ∃ inherited chosen,
    child.buildAt c (childPath path i) inherited (Seed.ofChild seed i) =
        .ok chosen ∧ built.selector.unlimited.children[i]?
          = some chosen.selector := by
  cases config with
  | leaf common settings => cases hchild
  | union common children factory =>
      obtain ⟨_, -, h⟩ := exists_of_bind_ok h
      obtain ⟨row, hrow, h⟩ := exists_of_bind_ok h
      obtain ⟨weights, -, h⟩ := exists_of_bind_ok h
      cases h
      obtain ⟨chosen, hbuilt, hat⟩ := exists_of_buildAll hrow hchild
      rw [Nat.zero_add] at hbuilt
      refine ⟨_, chosen, hbuilt, ?_⟩
      rw [unlimited_finished]
      exact hat
  | product common children ignoreEmpty =>
      obtain ⟨_, -, h⟩ := exists_of_bind_ok h
      obtain ⟨row, hrow, h⟩ := exists_of_bind_ok h
      cases h
      obtain ⟨chosen, hbuilt, hat⟩ := exists_of_buildAll hrow hchild
      rw [Nat.zero_add] at hbuilt
      refine ⟨_, chosen, hbuilt, ?_⟩
      rw [unlimited_finished]
      exact hat

/-- At each place of a built tree stands what is built for the selector at
that place, with the seed of the place. -/
theorem exists_at?_of_buildAt (h : config.buildAt c path order seed = .ok built)
    (hplace : config.at? place = some node) :
    ∃ inherited chosen,
      node.buildAt c (pathTo path place) inherited (Seed.ofPlace seed place)
        = .ok chosen ∧ built.selector.at? place = some chosen.selector := by
  induction place generalizing config path order seed built with
  | nil =>
      cases hplace
      exact ⟨order, built, h, rfl⟩
  | cons i place ih =>
      obtain ⟨child, hchild, hnode⟩ := at?_cons.mp hplace
      obtain ⟨inherited, below, hbelow, hat⟩ := exists_child_of_buildAt h hchild
      obtain ⟨order, chosen, hchosen, hinside⟩ := ih hbelow hnode
      refine ⟨order, chosen, ?_, ?_⟩
      · rw [Seed.ofPlace_cons, pathTo, List.foldl_cons]
        exact hchosen
      · rw [Selector.at?, hat]
        exact hinside

/-- What draws has the seed of its place, and nothing else has one. -/
theorem exists_seed_of_build {outside : UInt64}
    (h : config.build c outside = .ok built)
    (hplace : config.at? place = some node) :
    ∃ chosen, built.selector.at? place = some chosen ∧
      chosen.seed? = if node.drawsItself
        then some (Seed.ofPlace (c.seed.getD outside) place) else none := by
  obtain ⟨-, -, hbuild⟩ := exists_of_bind_ok h
  obtain ⟨_, chosen, hchosen, hat⟩ := exists_at?_of_buildAt hbuild hplace
  exact ⟨chosen.selector, hat, seed?_of_buildAt hchosen⟩

/-- Two selectors of a built tree have the seeds of their places, and these
are the same if the numbers on the ways down to them, each counted from one,
have sums that agree in half a word. Then each pass of the one has the seed
of the pass of that number of the other. Else no pass of the one, below
half a word, has the seed of one of the other. -/
theorem seeds_meet_iff {outside : UInt64} {sibling : SelectorConfig}
    (hbuild : config.build c outside = .ok built)
    (hplace : config.at? place = some node)
    (hother : config.at? other = some sibling) : let root := c.seed.getD outside
    (∃ chosen, built.selector.at? place = some chosen ∧
      chosen.seed? = if node.drawsItself
        then some (Seed.ofPlace root place) else none) ∧
    (∃ chosen, built.selector.at? other = some chosen ∧
      chosen.seed? = if sibling.drawsItself
        then some (Seed.ofPlace root other) else none) ∧
    (Seed.ofPlace root place = Seed.ofPlace root other ↔
      Seed.steps place ≡ Seed.steps other [MOD 2 ^ 32]) ∧
    ∀ a < 2 ^ 32, ∀ b < 2 ^ 32,
      Seed.ofPass (Seed.ofPlace root place) a
        = Seed.ofPass (Seed.ofPlace root other) b ↔
        Seed.steps place ≡ Seed.steps other [MOD 2 ^ 32] ∧ a = b := by
  intro root
  refine ⟨exists_seed_of_build hbuild hplace,
    exists_seed_of_build hbuild hother, Seed.ofPlace_inj, ?_⟩
  exact fun a ha b hb => Seed.ofPass_ofPlace_inj ha hb

/-- A change by chance inside a union, and another one beside the union. -/
def changesAtTwoDepths : SelectorConfig :=
  let drawn : SelectorConfig :=
    .leaf ⟨none, some .random, none, none⟩ (.change none none)
  .product ⟨none, some .random, none, none⟩
    [.union ⟨none, some .given, none, none⟩ [drawn] none, drawn] none

/-- No pass of the inner change has the seed of one of the union around it. -/
theorem seeds_meet_iff_around :
    let tree := changesAtTwoDepths
    ∃ built, tree.build Tasks.context 0 = .ok built ∧
      (∃ inner, tree.at? [0, 0] = some inner) ∧
        (∃ around, tree.at? [0] = some around) ∧
      (∃ inner around, built.selector.at? [0, 0] = some inner ∧
        inner.seed? = some (Seed.ofPlace 0 [0, 0]) ∧
        built.selector.at? [0] = some around ∧
          around.seed? = some (Seed.ofPlace 0 [0])) ∧
      ∀ a < 2 ^ 32, ∀ b < 2 ^ 32,
        Seed.ofPass (Seed.ofPlace 0 [0, 0]) a
            ≠ Seed.ofPass (Seed.ofPlace 0 [0]) b := by
  intro tree
  obtain ⟨built, hbuild⟩ : ∃ built,
    tree.build Tasks.context 0 = .ok built := ⟨_, rfl⟩
  obtain ⟨inner, hinner, hdraws⟩ : ∃ inner, tree.at? [0, 0] = some inner ∧
      inner.drawsItself = true := ⟨_, rfl, rfl⟩
  obtain ⟨around, haround, hpicks⟩ : ∃ around, tree.at? [0] = some around ∧
      around.drawsItself = true := ⟨_, rfl, rfl⟩
  obtain ⟨⟨first, hfirst, hseed⟩, ⟨second, hsecond, hother⟩, -, hpasses⟩ :=
    seeds_meet_iff hbuild hinner haround
  rw [if_pos hdraws] at hseed
  rw [if_pos hpicks] at hother
  refine ⟨built, hbuild, ⟨inner, hinner⟩, ⟨around, haround⟩,
    ⟨first, second, hfirst, hseed, hsecond, hother⟩, fun a ha b hb hsame => ?_⟩
  exact absurd ((hpasses a ha b hb).mp hsame).1 (by decide)

/-- But each pass of the inner change has the seed of a pass of the change
beside the union: the two draw the same moves, and the product combines each
of them with itself. -/
theorem seeds_meet_beside :
    ([0, 0] : List Nat) ≠ [1] ∧
      ∃ built, changesAtTwoDepths.build Tasks.context 0 = .ok built ∧
        ∃ inner beside seed, built.selector.at? [0, 0] = some inner ∧
          built.selector.at? [1] = some beside ∧
          inner.seed? = some seed ∧ beside.seed? = some seed :=
  ⟨by decide, _, rfl, _, _, _, rfl, rfl, rfl, rfl⟩

end SelectorConfig

end PlanSearch

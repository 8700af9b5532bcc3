/-
A pass in the given order, as a list.

A tree whose selectors all run in the given order draws nothing: what a
pass over it hands out depends on the tree and the solution alone. This
file says what that is. `Selector.given` puts the moves of a tree together
without opening or reading anything: a union is its children one after
the other, a product every choice of one move of each child, a limit the
first moves of what it limits. `Selector.InOrder.lists` says that the
program, reading the tree until it ends, comes to exactly these moves.

# Patience

Opening and reading have a patience that each call passes on with one
unit less, and no bound on it is of interest here. `Act.Comes` says that
an act comes to an answer from some patience on, and that it leaves how
often selectors were opened as it was; it composes along `bind`, and one
more unit of patience is one more call.

# The odometer

The combinations of a product come from wheels, each with what is left of
its turn. `Wheel.remaining` reads all combinations still to come off the
wheels; its head is what the wheels show, its tail what remains once they
have turned (`Wheel.remaining_eq`), and on fresh wheels it is every choice
there is (`Wheel.remaining_fresh`).
-/
import PlanSearch.Proofs.Act
import PlanSearch.Selector.Pass

namespace PlanSearch

namespace Act

variable {σ α β : Type}

-- ================================================================= patience

/-- From some patience on the act comes to the answer, and leaves the state
as it was. -/
def Comes (act : Nat → Act σ α) (a : α) : Prop :=
  ∃ n, ∀ fuel, n ≤ fuel → ∀ s, (act fuel).run s = (.ok a, s)

theorem comes_pure (a : α) : Comes (fun _ => (pure a : Act σ α)) a :=
  ⟨0, fun _ _ _ => rfl⟩

theorem Comes.bind {act : Nat → Act σ α} {next : Nat → α → Act σ β}
    {a : α} {b : β} (h : Comes act a) (g : Comes (fun fuel => next fuel a) b) :
    Comes (fun fuel => act fuel >>= next fuel) b := by
  obtain ⟨n, hn⟩ := h
  obtain ⟨k, hk⟩ := g
  refine ⟨max n k, fun fuel hfuel s => ?_⟩
  rw [run_bind, hn fuel (by omega) s]
  exact hk fuel (by omega) s

/-- What needs one unit of patience for itself still comes to its answer. -/
theorem Comes.later {act : Nat → Act σ α} {a : α}
    (h : Comes (fun fuel => act (fuel + 1)) a) : Comes act a := by
  obtain ⟨n, hn⟩ := h
  refine ⟨n + 1, fun fuel hfuel s => ?_⟩
  obtain ⟨k, rfl⟩ : ∃ k, fuel = k + 1 := ⟨fuel - 1, by omega⟩
  exact hn k (by omega) s

end Act

variable {S V : Type}

-- ============================================================= combinations

/-- Every choice of one item of each list, the last list turning fastest. -/
def choices {α : Type} : List (List α) → List (List α)
  | [] => [[]]
  | pool :: rest => pool.flatMap fun a => (choices rest).map (a :: ·)

/-- There is nothing to choose where one list is empty. -/
theorem choices_of_mem_nil {α : Type} {pools : List (List α)} (h : [] ∈ pools) :
    choices pools = [] := by
  induction pools with
  | nil => cases h
  | cons pool rest ih =>
      rcases List.mem_cons.mp h with rfl | h
      · rfl
      · simp [choices, ih h]

namespace Wheel

/-- The wheel shows a move, and can be set back to show one. -/
structure Running (w : Wheel S V) : Prop where
  pool : w.pool ≠ []
  left : w.left ≠ []

/-- A wheel at the start of its turn. -/
def fresh (pool : List (Move S V)) : Wheel S V := ⟨pool, pool⟩

/-- The combinations still to come, the one that shows first. -/
def remaining : List (Wheel S V) → List (List (Move S V))
  | [] => [[]]
  | w :: rest =>
    match w.left with
    | [] => []
    | m :: more =>
      (remaining rest).map (m :: ·) ++
        more.flatMap fun n => (choices (rest.map Wheel.pool)).map (n :: ·)

/-- Fresh wheels go around their pools. -/
theorem map_pool_fresh (pools : List (List (Move S V))) :
    (pools.map fresh).map Wheel.pool = pools := by
  rw [List.map_map]
  exact List.map_id pools

/-- Fresh wheels over moves are running. -/
theorem running_fresh {pools : List (List (Move S V))}
    (h : ∀ p ∈ pools, p ≠ []) : ∀ w ∈ pools.map fresh, w.Running := by
  intro w hw
  obtain ⟨p, hp, rfl⟩ := List.mem_map.mp hw
  exact ⟨h p hp, h p hp⟩

/-- Wheels at the start of their turns have every combination to come. -/
theorem remaining_fresh (pools : List (List (Move S V))) :
    remaining (pools.map fresh) = choices pools := by
  induction pools with
  | nil => rfl
  | cons pool rest ih =>
      cases pool with
      | nil => rfl
      | cons m more =>
          simp only [List.map_cons, fresh, remaining]
          rw [ih, map_pool_fresh]
          rfl

/-- As long as an inner wheel turns the outer one stands. -/
theorem turn_cons_of_some {w : Wheel S V} {rest inner : List (Wheel S V)}
    (h : turn rest = some inner) : turn (w :: rest) = some (w :: inner) := by
  rw [turn, h]

/-- Where all wheels behind have come around, this one turns, and they
start anew. -/
theorem turn_cons_of_none {w : Wheel S V} {rest : List (Wheel S V)}
    (h : turn rest = none) : turn (w :: rest) = match w.left with
      | _ :: m :: more =>
          some (⟨w.pool, m :: more⟩ :: (rest.map Wheel.pool).map fresh)
      | _ => none := by
  rw [turn, h, List.map_map]
  rfl

/-- Turning changes what shows, not what there is to show. -/
theorem map_pool_turn {wheels turned : List (Wheel S V)}
    (h : turn wheels = some turned) :
    turned.map Wheel.pool = wheels.map Wheel.pool := by
  induction wheels generalizing turned with
  | nil => cases h
  | cons w rest ih =>
      cases hinner : turn rest with
      | some inner =>
          rw [turn_cons_of_some hinner] at h
          cases h
          rw [List.map_cons, List.map_cons, ih hinner]
      | none =>
          rw [turn_cons_of_none hinner] at h
          split at h
          · cases h
            rw [List.map_cons, map_pool_fresh, List.map_cons]
          · cases h

/-- Wheels that turned still run. -/
theorem running_turn {wheels turned : List (Wheel S V)}
    (hrun : ∀ w ∈ wheels, w.Running) (h : turn wheels = some turned) :
    ∀ w ∈ turned, w.Running := by
  induction wheels generalizing turned with
  | nil => cases h
  | cons w rest ih =>
      obtain ⟨hw, hrest⟩ := List.forall_mem_cons.mp hrun
      cases hinner : turn rest with
      | some inner =>
          rw [turn_cons_of_some hinner] at h
          cases h
          exact List.forall_mem_cons.mpr ⟨hw, ih hrest hinner⟩
      | none =>
          rw [turn_cons_of_none hinner] at h
          split at h
          · cases h
            refine List.forall_mem_cons.mpr ⟨⟨hw.pool, List.cons_ne_nil _ _⟩,
              running_fresh ?_⟩
            intro pool hpool
            obtain ⟨r, hr, rfl⟩ := List.mem_map.mp hpool
            exact (hrest r hr).pool
          · cases h

/-- What shows comes first, and what remains after turning comes then. -/
theorem remaining_eq {wheels : List (Wheel S V)}
    (hrun : ∀ w ∈ wheels, w.Running) :
    remaining wheels
      = present wheels :: ((turn wheels).map remaining).getD [] := by
  induction wheels with
  | nil => rfl
  | cons w rest ih =>
      obtain ⟨hw, hrest⟩ := List.forall_mem_cons.mp hrun
      obtain ⟨pool, left⟩ := w
      cases left with
      | nil => exact absurd rfl hw.left
      | cons m more =>
          have hpresent : present (⟨pool, m :: more⟩ :: rest)
            = m :: present rest := rfl
          rw [hpresent]
          simp only [remaining, ih hrest]
          cases hinner : turn rest with
          | some inner =>
              simp [turn_cons_of_some hinner, remaining, map_pool_turn hinner]
          | none =>
              rw [turn_cons_of_none hinner]
              cases more with
              | nil => rfl
              | cons n more =>
                  simp only [Option.map_some, Option.map_none, Option.getD_some,
                    Option.getD_none, remaining, remaining_fresh,
                    map_pool_fresh, List.flatMap_cons, List.map_cons,
                    List.map_nil, List.singleton_append]

end Wheel

namespace Selector

/-- The combinations of a product, each as one move. -/
def combinations (ignoreEmpty : Bool) (pools : List (List (Move S V))) :
    List (Move S V) :=
  let pools := if ignoreEmpty then pools.filter fun p => !p.isEmpty else pools
  if pools.isEmpty then [] else (choices pools).map Move.composite

end Selector

-- ================================================================= readings

variable [BEq V] {s : S}

namespace Reading

/-- Asked for its next move, the reading comes to the turn, and to what is
left of it. -/
def Turns (s : S) (reading : Reading S V) (turn : Turn S V)
    (later : Reading S V) : Prop :=
  Act.Comes (fun fuel => Reading.next s fuel reading) (turn, later)

/-- The reading hands out the moves, one after the other, and ends. -/
inductive Lists (s : S) : Reading S V → List (Move S V) → Prop
  | ended {reading later : Reading S V} : reading.Turns s .ended later →
    Lists s reading []
  | move {reading later : Reading S V} {m : Move S V} {ms : List (Move S V)} :
      reading.Turns s (.move m) later → Lists s later ms →
        Lists s reading (m :: ms)

/-- Readings that take the same turns list the same moves. -/
theorem Lists.congr {reading other : Reading S V} {ms : List (Move S V)}
    (h : reading.Lists s ms) (same : ∀ turn later, reading.Turns s turn later →
      other.Turns s turn later) :
    other.Lists s ms := by
  cases h with
  | ended hturn => exact .ended (same _ _ hturn)
  | move hturn hlater => exact .move (same _ _ hturn) hlater

/-- A turn that is known to be taken. -/
theorem turns_of_eq {reading later : Reading S V} {turn : Turn S V}
    (h : ∀ fuel, Reading.next s (fuel + 1) reading = pure (turn, later)) :
    reading.Turns s turn later := by
  refine Act.Comes.later ?_
  simp only [h]
  exact Act.comes_pure _

/-- A list lists its moves. -/
theorem lists_listed (s : S) (ms : List (Move S V)) :
    (Reading.listed ms).Lists s ms := by
  induction ms with
  | nil =>
      have hturn : (Reading.listed [] : Reading S V).Turns s .ended
          (.listed []) :=
        turns_of_eq fun fuel => by rw [Reading.next]
      exact .ended hturn
  | cons m rest ih =>
      have hturn : (Reading.listed (m :: rest)).Turns s (.move m)
          (.listed rest) :=
        turns_of_eq fun fuel => by rw [Reading.next]
      exact .move hturn ih

/-- A limit that is used up ends, whatever is left of what it limits. -/
theorem lists_limited_zero (s : S) (inner : Reading S V) :
    (Reading.limited 0 inner).Lists s [] :=
  have hturn : (Reading.limited 0 inner).Turns s .ended (.limited 0 inner) :=
    turns_of_eq fun fuel => by rw [Reading.next]
  .ended hturn

/-- A limit ends with what it limits, or before. -/
theorem lists_limited {inner : Reading S V} {ms : List (Move S V)}
    (h : inner.Lists s ms) (limit : Nat) :
    (Reading.limited limit inner).Lists s (ms.take limit) := by
  induction h generalizing limit with
  | @ended inner later hturn =>
      rw [List.take_nil]
      cases limit with
      | zero => exact lists_limited_zero s _
      | succ limit =>
          have hended : (Reading.limited (limit + 1) inner).Turns s .ended
              (.limited (limit + 1) later) := by
            refine Act.Comes.later ?_
            simp only [Reading.next]
            exact hturn.bind (Act.comes_pure _)
          exact .ended hended
  | move hturn _ ih =>
      cases limit with
      | zero => exact lists_limited_zero s _
      | succ limit =>
          refine .move (Act.Comes.later ?_) (ih limit)
          simp only [Reading.next]
          exact hturn.bind (Act.comes_pure _)

/-- Reading to the end collects what is listed. -/
theorem Lists.drain {reading : Reading S V} {ms : List (Move S V)}
    (h : reading.Lists s ms) (done : List (Move S V)) :
    Act.Comes (fun fuel => Reading.drain s fuel reading done)
      (some (done.reverse ++ ms)) := by
  induction h generalizing done with
  | ended hturn =>
      refine Act.Comes.later ?_
      simp only [Reading.drain]
      rw [List.append_nil]
      exact hturn.bind (Act.comes_pure _)
  | @move _ _ m ms hturn _ ih =>
      refine Act.Comes.later ?_
      simp only [Reading.drain]
      have hrest := ih (m :: done)
      rw [List.reverse_cons, List.append_assoc] at hrest
      exact hturn.bind hrest

end Reading

/-- Wherever in a tree the selector stands, it opens to a reading of the
moves. -/
def Selector.Offers (s : S) (selector : Selector S V)
    (moves : List (Move S V)) : Prop :=
  ∀ path, ∃ reading : Reading S V,
    Act.Comes (fun fuel => Reading.openOn s fuel selector path) reading ∧
      reading.Lists s moves

namespace Reading

variable {moves : Selector S V → List (Move S V)}

/-- The first of several children gives its next move. -/
theorem turns_joined_move {current later : Reading S V} {m : Move S V}
    (h : current.Turns s (.move m) later) (rest : List (Nat × Selector S V))
    (path : List Nat) :
    (Reading.joined current rest path).Turns s (.move m)
      (.joined later rest path) := by
  refine Act.Comes.later ?_
  simp only [Reading.next]
  exact h.bind (Act.comes_pure _)

/-- A child that has ended makes room for the next one. -/
theorem turns_joined_next {current later opened after : Reading S V}
    {c : Nat × Selector S V} {rest : List (Nat × Selector S V)}
    {path : List Nat} {turn : Turn S V} (hended : current.Turns s .ended later)
    (hopened : Act.Comes
      (fun fuel => Reading.openOn s fuel c.2 (path ++ [c.1])) opened)
    (h : (Reading.joined opened rest path).Turns s turn after) :
    (Reading.joined current (c :: rest) path).Turns s turn after := by
  refine Act.Comes.later ?_
  simp only [Reading.next]
  exact hended.bind (hopened.bind h)

/-- A union in the given order is its children one after the other. -/
theorem lists_joined {rest : List (Nat × Selector S V)}
    (hrest : ∀ c ∈ rest, c.2.Offers s (moves c.2)) {current : Reading S V}
    {ms : List (Move S V)} (h : current.Lists s ms) (path : List Nat) :
    (Reading.joined current rest path).Lists s
      (ms ++ rest.flatMap fun c => moves c.2) := by
  induction rest generalizing current ms with
  | nil =>
      rw [List.flatMap_nil, List.append_nil]
      induction h with
      | @ended current later hturn =>
          have hended : (Reading.joined current [] path).Turns s .ended
              (.joined later [] path) := by
            refine Act.Comes.later ?_
            simp only [Reading.next]
            exact hturn.bind (Act.comes_pure _)
          exact .ended hended
      | move hturn _ ih => exact .move (turns_joined_move hturn [] path) ih
  | cons c rest ihrest =>
      obtain ⟨hc, hrest⟩ := List.forall_mem_cons.mp hrest
      obtain ⟨opened, hopened, hlists⟩ := hc (path ++ [c.1])
      have hnext := ihrest hrest hlists
      rw [List.flatMap_cons]
      induction h with
      | ended hturn =>
          exact hnext.congr fun _ _ h => turns_joined_next hturn hopened h
      | move hturn _ ih => exact .move (turns_joined_move hturn _ path) ih

theorem lists_combined_none (s : S) :
    (Reading.combined none : Reading S V).Lists s [] :=
  have hturn : (Reading.combined none : Reading S V).Turns s .ended
      (.combined none) :=
    turns_of_eq fun fuel => by rw [Reading.next]
  .ended hturn

/-- Wheels that run hand out what remains of their combinations. -/
theorem lists_combined {wheels : List (Wheel S V)}
    (hrun : ∀ w ∈ wheels, w.Running) :
    (Reading.combined (some wheels)).Lists s
      ((Wheel.remaining wheels).map Move.composite) := by
  generalize hcombos : Wheel.remaining wheels = combos
  induction combos generalizing wheels with
  | nil =>
      rw [Wheel.remaining_eq hrun] at hcombos
      cases hcombos
  | cons combo combos ih =>
      rw [Wheel.remaining_eq hrun] at hcombos
      obtain ⟨rfl, hrest⟩ := List.cons.inj hcombos
      have hmove : (Reading.combined (some wheels)).Turns s
          (.move (.composite (Wheel.present wheels)))
              (.combined (Wheel.turn wheels)) :=
        turns_of_eq fun fuel => by rw [Reading.next]
      refine .move hmove ?_
      cases hturn : Wheel.turn wheels with
      | none =>
          rw [hturn] at hrest
          subst hrest
          exact lists_combined_none s
      | some turned =>
          rw [hturn] at hrest
          exact ih (Wheel.running_turn hrun hturn) hrest

/-- A product in the given order is every choice of one move of each child. -/
theorem lists_wheels (s : S) (ignoreEmpty : Bool)
    (pools : List (List (Move S V))) :
    (Reading.combined (wheels ignoreEmpty pools)).Lists s
      (Selector.combinations ignoreEmpty pools) := by
  unfold wheels Selector.combinations
  dsimp only
  generalize (if ignoreEmpty then pools.filter fun p => !p.isEmpty
    else pools) = kept
  by_cases hnone : kept.isEmpty = true
  · rw [if_pos hnone, hnone]
    exact lists_combined_none s
  by_cases hempty : kept.any List.isEmpty = true
  · obtain ⟨pool, hpool, hnil⟩ := List.any_eq_true.mp hempty
    rw [List.isEmpty_iff.mp hnil] at hpool
    rw [if_neg hnone, hempty, Bool.or_true, choices_of_mem_nil hpool]
    exact lists_combined_none s
  · have hfull : ∀ p ∈ kept, p ≠ [] := by
      intro p hp hnil
      exact hempty (List.any_eq_true.mpr ⟨p, hp, List.isEmpty_iff.mpr hnil⟩)
    rw [if_neg hnone, if_neg (by simp [hnone, hempty]), ← Wheel.remaining_fresh]
    exact lists_combined (Wheel.running_fresh hfull)

/-- The children of a product are read to their ends, in order. -/
theorem comes_drainAll {children : List (Selector S V × Nat)}
    (h : ∀ c ∈ children, c.1.Offers s (moves c.1)) (path : List Nat) :
    Act.Comes (fun fuel => Reading.drainAll s fuel children path)
      (some (children.map fun c => moves c.1)) := by
  induction children with
  | nil =>
      refine Act.Comes.later ?_
      simp only [Reading.drainAll]
      exact Act.comes_pure _
  | cons c rest ih =>
      obtain ⟨hc, hrest⟩ := List.forall_mem_cons.mp h
      obtain ⟨reading, hopened, hlists⟩ := hc (path ++ [c.2])
      refine Act.Comes.later ?_
      simp only [Reading.drainAll]
      exact hopened.bind
        ((hlists.drain []).bind ((ih hrest).bind (Act.comes_pure _)))

end Reading

-- ==================================================================== trees

namespace Selector

mutual

/-- The moves of a tree in the given order. -/
def given (s : S) : Selector S V → List (Move S V)
  | leaf l _ _ => l.moves s
  | union children _ _ _ => (givens s children).flatten
  | product children ignoreEmpty _ =>
      combinations ignoreEmpty (givens s children)
  | limited limit inner => (given s inner).take limit

def givens (s : S) : List (Selector S V) → List (List (Move S V))
  | [] => []
  | c :: rest => given s c :: givens s rest

end

theorem givens_eq (s : S) (children : List (Selector S V)) :
    givens s children = children.map (given s) := by
  induction children with
  | nil => rfl
  | cons c rest ih => rw [givens, ih, List.map_cons]

omit [BEq V] in
/-- Every selector of the tree runs in the given order, and every leaf has
the property. -/
inductive InOrder (fits : Leaf S V → Prop) : Selector S V → Prop
  | leaf {l : Leaf S V} {seed : UInt64} : fits l →
    InOrder fits (.leaf l .given seed)
  | union {children : List (Selector S V)} {weights : Weights S}
      {seed : UInt64} :
      (∀ c ∈ children, InOrder fits c) →
        InOrder fits (.union children weights .given seed)
  | product {children : List (Selector S V)} {ignoreEmpty : Bool} :
      (∀ c ∈ children, InOrder fits c) →
        InOrder fits (.product children ignoreEmpty .given)
  | limited {limit : Nat} {inner : Selector S V} :
      InOrder fits inner → InOrder fits (.limited limit inner)

/-- With patience enough, a pass of the selector over the solution, read to
its end, comes to these moves. -/
def Lists (selector : Selector S V) (s : S) (moves : List (Move S V)) : Prop :=
  Act.Comes (fun fuel => do
    let reading ← Reading.openOn s fuel selector []
    Reading.drain s fuel reading []) (some moves)

/-- What is offered is listed. -/
theorem Offers.lists {selector : Selector S V} {moves : List (Move S V)}
    (h : selector.Offers s moves) : selector.Lists s moves := by
  obtain ⟨reading, hopened, hlists⟩ := h []
  exact hopened.bind (hlists.drain [])

variable {fits : Leaf S V → Prop}

omit [BEq V] in
theorem map_zipIdx {α β : Type} (items : List α) (f : α → β) :
    (items.zipIdx.map fun c => f c.1) = items.map f := by
  calc (items.zipIdx.map fun c => f c.1)
      = (items.zipIdx.map Prod.fst).map f := by rw [List.map_map]; rfl
    _ = items.map f := by rw [List.zipIdx_map_fst]

/-- Wherever it stands, a tree in the given order opens to its moves. -/
theorem InOrder.offers {selector : Selector S V}
    (h : selector.InOrder fits) (s : S) :
    selector.Offers s (selector.given s) := by
  induction h with
  | @leaf l seed _ =>
      intro path
      exact ⟨.listed (l.moves s), Act.Comes.later ⟨0, fun _ _ _ => rfl⟩,
        Reading.lists_listed s _⟩
  | @union children weights seed _ ih =>
      intro path
      have hchildren : ∀ c ∈ children.zipIdx.map (fun c => (c.2, c.1)),
          c.2.Offers s (given s c.2) := by
        intro c hc
        obtain ⟨d, hd, rfl⟩ := List.mem_map.mp hc
        exact ih d.1 (List.fst_mem_of_mem_zipIdx hd)
      have hlists := Reading.lists_joined hchildren
        (Reading.lists_listed s []) path
      have hgiven : ([] ++ (children.zipIdx.map fun c => (c.2, c.1)).flatMap
          fun c => given s c.2)
          = given s (.union children weights .given seed) := by
        rw [List.nil_append, List.flatMap_map, given, givens_eq, ← map_zipIdx,
          List.flatMap_def]
      rw [hgiven] at hlists
      refine ⟨_, Act.Comes.later ?_, hlists⟩
      simp only [Reading.openOn]
      exact Act.comes_pure _
  | @product children ignoreEmpty _ ih =>
      intro path
      have hchildren : ∀ c ∈ children.zipIdx, c.1.Offers s (given s c.1) :=
        fun c hc => ih c.1 (List.fst_mem_of_mem_zipIdx hc)
      have hdrain := Reading.comes_drainAll hchildren path
      rw [map_zipIdx, ← givens_eq] at hdrain
      refine ⟨_, Act.Comes.later ?_,
        Reading.lists_wheels s ignoreEmpty (givens s children)⟩
      simp only [Reading.openOn]
      exact hdrain.bind (Act.comes_pure _)
  | @limited limit inner _ ih =>
      intro path
      obtain ⟨reading, hopened, hlists⟩ := ih (path ++ [0])
      refine ⟨_, Act.Comes.later ?_, Reading.lists_limited hlists limit⟩
      simp only [Reading.openOn]
      exact hopened.bind (Act.comes_pure _)

/-- A pass over a tree in the given order is the list of its moves. -/
theorem InOrder.lists {selector : Selector S V}
    (h : selector.InOrder fits) (s : S) : selector.Lists s (selector.given s) :=
  (h.offers s).lists

end Selector

end PlanSearch

/-
Passes that answer, and how often with a move.

A pass may go on for ever, and still it should answer whenever it is asked.
`Reading.Keeps s n bound` says so of a pass under way: the next `n`
requests are answered, and at most `bound` of them with a move. The bound
may be infinite, for a pass that only has to answer. There is one rule for
each kind of reading, and none of them looks at where the parts of the
reading came from: `Selector.Opens` says of a selector what they need, that
it opens to a reading which keeps a bound.

# Patience

An answer takes patience, and how much depends on the draws. `Act.Settles`
is `Act.Comes` for acts that change the state: in the given state, and from
some patience on, the act comes to one answer and leaves one state.

# The bounds

What a union hands out is what its children hand out, so bounds add up. A
product in the given order has been read to the end before it hands out
anything, and its bound counts its combinations. One in random order takes
one move of each child at a time: it ends with the first child to end, so
it keeps the least of their bounds. If it passes over children that ended,
all that is certain is that each move it hands out is paid for by one of a
child, so that its bound is the sum.
-/
import Mathlib.Data.ENat.Lattice
import Mathlib.Algebra.Order.BigOperators.Group.List
import PlanSearch.Proofs.Selector.Draws
import PlanSearch.Proofs.Selector.Passes

namespace PlanSearch

namespace Act

variable {σ α β : Type} {s : σ}

/-- From some patience on the act comes to one answer and leaves one state,
and `post` admits the two. -/
def Settles (act : Nat → Act σ α) (s : σ) (post : α → σ → Prop) : Prop :=
  ∃ n a t, (∀ fuel, n ≤ fuel → (act fuel).run s = (.ok a, t)) ∧ post a t

/-- An answer that does not depend on the patience settles. -/
theorem settles_of_run {act : Nat → Act σ α} {a : α} {t : σ}
    {post : α → σ → Prop} (hrun : ∀ fuel, (act fuel).run s = (.ok a, t))
    (h : post a t) : Settles act s post :=
  ⟨0, a, t, fun fuel _ => hrun fuel, h⟩

theorem settles_pure {a : α} {post : α → σ → Prop} (h : post a s) :
    Settles (fun _ => (pure a : Act σ α)) s post :=
  settles_of_run (fun _ => rfl) h

theorem settles_get {post : σ → σ → Prop} (h : post s s) :
    Settles (fun _ => (get : Act σ σ)) s post :=
  settles_of_run (fun _ => rfl) h

theorem settles_set {t : σ} {post : PUnit → σ → Prop} (h : post ⟨⟩ t) :
    Settles (fun _ => (set t : Act σ PUnit)) s post :=
  settles_of_run (fun _ => rfl) h

theorem Settles.mono {act : Nat → Act σ α} {post weaker : α → σ → Prop}
    (h : Settles act s post) (hpost : ∀ a t, post a t → weaker a t) :
    Settles act s weaker := by
  obtain ⟨n, a, t, hrun, ha⟩ := h
  exact ⟨n, a, t, hrun, hpost a t ha⟩

/-- Acts settle one after the other. -/
theorem Settles.bind {act : Nat → Act σ α} {next : Nat → α → Act σ β}
    {post : β → σ → Prop}
    (h : Settles act s fun a t => Settles (fun fuel => next fuel a) t post) :
    Settles (fun fuel => act fuel >>= next fuel) s post := by
  obtain ⟨n, a, t, hrun, k, b, u, hnext, hb⟩ := h
  refine ⟨max n k, b, u, fun fuel hfuel => ?_, hb⟩
  rw [run_bind, hrun fuel (by omega)]
  exact hnext fuel (by omega)

/-- What needs one unit of patience for itself still settles. -/
theorem Settles.later {act : Nat → Act σ α} {post : α → σ → Prop}
    (h : Settles (fun fuel => act (fuel + 1)) s post) : Settles act s post := by
  obtain ⟨n, a, t, hrun, ha⟩ := h
  refine ⟨n + 1, a, t, fun fuel hfuel => ?_, ha⟩
  obtain ⟨k, rfl⟩ : ∃ k, fuel = k + 1 := ⟨fuel - 1, by omega⟩
  exact hrun k (by omega)

end Act

-- ================================================================= the shares

/-- The least of some bounds; none is infinite. -/
noncomputable def least (bounds : List ℕ∞) : ℕ∞ := bounds.foldr min ⊤

/-- What is left where every bound has been lowered by one. -/
theorem one_add_least_le {lefts bounds : List ℕ∞}
    (h : List.Forall₂ (fun left bound => 1 + left ≤ bound) lefts bounds) :
    1 + least lefts ≤ least bounds := by
  induction h with
  | nil => exact le_top
  | cons hle _ ih =>
      refine le_min ?_ ?_
      · exact (add_le_add_right (min_le_left _ _) 1).trans hle
      · exact (add_le_add_right (min_le_right _ _) 1).trans ih

theorem least_mono {lefts bounds : List ℕ∞}
    (h : List.Forall₂ (· ≤ ·) lefts bounds) : least lefts ≤ least bounds := by
  induction h with
  | nil => exact le_refl _
  | cons hle _ ih => exact min_le_min hle ih

/-- The bound of a product in random order, by those of its children. -/
noncomputable def roundBound (ignoreEmpty : Bool) (bounds : List ℕ∞) : ℕ∞ :=
  if ignoreEmpty then bounds.sum else least bounds

theorem roundBound_mono {ignoreEmpty : Bool} {lefts bounds : List ℕ∞}
    (h : List.Forall₂ (· ≤ ·) lefts bounds) :
    roundBound ignoreEmpty lefts ≤ roundBound ignoreEmpty bounds := by
  cases ignoreEmpty with
  | true => exact List.Forall₂.sum_le_sum h
  | false => exact least_mono h

/-- One item and its bound taken out of a list with bounds: the rest keeps
theirs, and weakly so does the list with another item in the same place. -/
theorem exists_share {α : Type} {keeps weakly : α → ℕ∞ → Prop}
    (weaken : ∀ a bound, keeps a bound → weakly a bound) {items : List α}
    {bounds : List ℕ∞} (h : List.Forall₂ keeps items bounds) {i : Nat} {a : α}
    (ha : items[i]? = some a) :
    ∃ bound others, keeps a bound ∧ bounds.sum = bound + others ∧
      (∃ lefts, List.Forall₂ keeps (items.eraseIdx i) lefts ∧
        lefts.sum = others) ∧
      ∀ b left, weakly b left →
        ∃ lefts, List.Forall₂ weakly (items.set i b) lefts ∧
          lefts.sum = left + others := by
  induction h generalizing i with
  | nil => cases ha
  | @cons item first rest bounds hitem hrest ih =>
      cases i with
      | zero =>
          cases ha
          refine ⟨first, bounds.sum, hitem, List.sum_cons,
            ⟨bounds, hrest, rfl⟩, ?_⟩
          exact fun b left hb =>
            ⟨left :: bounds, .cons hb (hrest.imp weaken), List.sum_cons⟩
      | succ i =>
          obtain ⟨bound, others, hkeeps, hsum, ⟨lefts, herase, hothers⟩,
            hset⟩ := ih ha
          refine ⟨bound, first + others, hkeeps, ?_,
            ⟨first :: lefts, .cons hitem herase, ?_⟩, ?_⟩
          · rw [List.sum_cons, hsum, add_left_comm]
          · rw [List.sum_cons, hothers]
          · intro b left hb
            obtain ⟨lefts, hlefts, hsum⟩ := hset b left hb
            refine ⟨first :: lefts, .cons (weaken _ _ hitem) hlefts, ?_⟩
            rw [List.sum_cons, hsum, add_left_comm]

-- ================================================================== answers

variable {S V : Type}

/-- An answer within the bound: a move is paid for, and what is left after
the answer keeps what is left of the bound. -/
def Turn.Pays (keeps : ℕ∞ → Reading S V → Prop) (bound : ℕ∞) :
    Turn S V × Reading S V → Prop
  | (.move _, later) => ∃ left, 1 + left ≤ bound ∧ keeps left later
  | (.ended, later) => keeps bound later
  | (.stuck, _) => False

variable [BEq V] {s : S} {n : Nat}

namespace Reading

/-- The next `n` requests are answered, at most `bound` of them with a move,
whatever else is opened in between. -/
def Keeps (s : S) : Nat → ℕ∞ → Reading S V → Prop
  | 0, _, _ => True
  | n + 1, bound, reading => ∀ passes,
    Act.Settles (fun fuel => Reading.next s fuel reading) passes
      fun answer _ => Turn.Pays (Keeps s n) bound answer

end Reading

omit [BEq V] in
theorem Turn.Pays.mono {keeps weaker : ℕ∞ → Reading S V → Prop}
    {bound wider : ℕ∞} {answer : Turn S V × Reading S V}
    (h : Turn.Pays keeps bound answer) (hle : bound ≤ wider)
    (hkeeps : ∀ b c later, b ≤ c → keeps b later → weaker c later) :
    Turn.Pays weaker wider answer := by
  obtain ⟨turn, later⟩ := answer
  cases turn with
  | move m =>
      obtain ⟨left, hleft, hlater⟩ := h
      exact ⟨left, hleft.trans hle, hkeeps left left later (le_refl _) hlater⟩
  | ended => exact hkeeps bound wider later hle h
  | stuck => exact h

namespace Reading

/-- A wider bound is kept as well. -/
theorem Keeps.mono {reading : Reading S V} {bound wider : ℕ∞}
    (h : reading.Keeps s n bound) (hle : bound ≤ wider) :
    reading.Keeps s n wider := by
  induction n generalizing reading bound wider with
  | zero => trivial
  | succ n ih =>
      intro passes
      exact (h passes).mono fun _ _ hpays =>
        hpays.mono hle fun _ _ _ hbc hlater => ih hlater hbc

/-- So are fewer requests. -/
theorem Keeps.fewer {reading : Reading S V} {bound : ℕ∞}
    (h : reading.Keeps s (n + 1) bound) : reading.Keeps s n bound := by
  induction n generalizing reading bound with
  | zero => trivial
  | succ n ih =>
      intro passes
      refine (h passes).mono fun _ _ hpays =>
        hpays.mono (le_refl _) fun _ _ _ hbc hlater => ?_
      exact (ih hlater).mono hbc

-- ================================================================== leaves

/-- A list is bounded by its length. -/
theorem keeps_listed (s : S) (n : Nat) (ms : List (Move S V)) :
    (Reading.listed ms).Keeps s n ms.length := by
  induction n generalizing ms with
  | zero => trivial
  | succ n ih =>
      intro passes
      refine Act.Settles.later ?_
      cases ms with
      | nil =>
          simp only [Reading.next]
          exact Act.settles_pure (ih [])
      | cons m rest =>
          simp only [Reading.next]
          refine Act.settles_pure ⟨rest.length, ?_, ih rest⟩
          rw [List.length_cons, Nat.cast_add, Nat.cast_one, add_comm]

/-- What is not refused for ever answers for ever. -/
theorem keeps_drawn {sampler : Sampler S V} (steady : sampler.Steady)
    (s : S) (n : Nat) (stream : Stream) :
    (Reading.drawn sampler [] stream).Keeps s n ⊤ := by
  induction n generalizing stream with
  | zero => trivial
  | succ n ih =>
      intro passes
      refine Act.Settles.later ?_
      simp only [Reading.next]
      obtain ⟨k, turn, after, hturn, hrun⟩ := (steady stream).drawNext
      refine ⟨k, (turn, .drawn sampler [] after), passes,
        fun fuel hfuel => ?_, ?_⟩
      · beta_reduce
        rw [hrun fuel hfuel]
        rfl
      · cases turn with
        | move m => exact ⟨⊤, le_top, ih after⟩
        | ended => exact ih after
        | stuck => exact hturn rfl

-- ================================================================== limits

/-- A limit bounds what is read within it. -/
theorem keeps_limited {inner : Reading S V} {bound : ℕ∞}
    (h : inner.Keeps s n bound) (limit : Nat) :
    (Reading.limited limit inner).Keeps s n (min limit bound) := by
  induction n generalizing inner bound limit with
  | zero => trivial
  | succ n ih =>
      intro passes
      refine Act.Settles.later ?_
      cases limit with
      | zero =>
          simp only [Reading.next]
          exact Act.settles_pure (ih h.fewer 0)
      | succ limit =>
          simp only [Reading.next]
          refine Act.Settles.bind ((h passes).mono ?_)
          rintro ⟨turn, later⟩ _ hpays
          cases turn with
          | move m =>
              obtain ⟨left, hleft, hlater⟩ := hpays
              refine Act.settles_pure ⟨min limit left, le_min ?_ ?_,
                ih hlater limit⟩
              · rw [Nat.cast_add, Nat.cast_one, add_comm (limit : ℕ∞)]
                exact add_le_add_right (min_le_left _ _) 1
              · exact (add_le_add_right (min_le_right _ _) 1).trans hleft
          | ended => exact Act.settles_pure (ih hpays (limit + 1))
          | stuck => exact hpays.elim

end Reading

-- ================================================================== unions

/-- Wherever in a tree the selector stands, and however often it was opened
before, it opens to a reading that answers and keeps the bound. -/
def Selector.Opens (s : S) (bound : ℕ∞) (selector : Selector S V) : Prop :=
  ∀ n path passes,
    Act.Settles (fun fuel => Reading.openOn s fuel selector path) passes
    fun reading _ => reading.Keeps s n bound

namespace Reading

/-- A union in the given order hands out what is left of the child being
read, and what the children after it hand out. -/
theorem keeps_joined {bound : Selector S V → ℕ∞}
    {rest : List (Nat × Selector S V)}
    (hrest : ∀ c ∈ rest, c.2.Opens s (bound c.2))
    {current : Reading S V} {b : ℕ∞} (h : current.Keeps s n b)
    (path : List Nat) :
    (Reading.joined current rest path).Keeps s n
      (b + (rest.map fun c => bound c.2).sum) := by
  induction n generalizing current rest b with
  | zero => trivial
  | succ n ih =>
      intro passes
      -- a child that has ended gives the request on to the next one
      induction rest generalizing current b passes with
      | nil =>
          refine Act.Settles.later ?_
          simp only [Reading.next]
          refine Act.Settles.bind ((h passes).mono ?_)
          rintro ⟨turn, later⟩ _ hpays
          cases turn with
          | move m =>
              obtain ⟨left, hleft, hlater⟩ := hpays
              refine Act.settles_pure ⟨_, ?_, ih hrest hlater⟩
              rw [← add_assoc]
              exact add_le_add_left hleft _
          | ended => exact Act.settles_pure (ih hrest hpays)
          | stuck => exact hpays.elim
      | cons c rest ihrest =>
          obtain ⟨hc, hothers⟩ := List.forall_mem_cons.mp hrest
          refine Act.Settles.later ?_
          simp only [Reading.next]
          refine Act.Settles.bind ((h passes).mono ?_)
          rintro ⟨turn, later⟩ after hpays
          cases turn with
          | move m =>
              obtain ⟨left, hleft, hlater⟩ := hpays
              refine Act.settles_pure ⟨_, ?_, ih hrest hlater⟩
              rw [← add_assoc]
              exact add_le_add_left hleft _
          | ended =>
              refine Act.Settles.bind
                ((hc (n + 1) (path ++ [c.1]) after).mono ?_)
              intro opened before hopened
              refine (ihrest hothers hopened before).mono fun _ _ hanswer => ?_
              refine hanswer.mono ?_ fun _ _ _ hle hlater => hlater.mono hle
              rw [List.map_cons, List.sum_cons]
              exact le_add_self
          | stuck => exact hpays.elim

end Reading

/-- Draw after draw of a fraction of the total, one comes out below it. -/
inductive Stream.Falls (total : Float) : Stream → Prop
  | now {stream : Stream} : (stream.fraction total).1 < total →
    Falls total stream
  | later {stream : Stream} : Falls total (stream.fraction total).2 →
    Falls total stream

/-- Whichever of the weights are left, a pick among them comes to an end. -/
def Weights.Steady (weights : List Float) : Prop :=
  ∀ left : List Float, left.Sublist weights → 0.0 < left.foldl (· + ·) 0.0 →
    ∀ stream, Stream.Falls (left.foldl (· + ·) 0.0) stream

theorem Weights.Steady.sublist {weights left : List Float}
    (h : Weights.Steady weights) (hleft : left.Sublist weights) :
    Weights.Steady left :=
  fun others hothers => h others (hothers.trans hleft)

namespace Reading

omit [BEq V] in
/-- The weights that are left are added up from the front. -/
theorem totalWeight_eq (live : List (Float × Reading S V)) :
    totalWeight live = (live.map Prod.fst).foldl (· + ·) 0.0 := by
  rw [totalWeight, List.foldl_map]

omit [BEq V] in
/-- A child that has answered stays in its place, with its weight. -/
theorem map_fst_set {live : List (Float × Reading S V)} {i : Nat}
    {weight : Float} {child : Reading S V} (h : live[i]? = some (weight, child))
    (later : Reading S V) :
    (live.set i (weight, later)).map Prod.fst = live.map Prod.fst := by
  induction live generalizing i with
  | nil => rfl
  | cons l rest ih =>
      cases i with
      | zero =>
          cases h
          rfl
      | succ i => rw [List.set_cons_succ, List.map_cons, List.map_cons, ih h]

/-- What a random union makes of the answer of the child it has picked. -/
def handOn (s : S) (fuel : Nat) (live : List (Float × Reading S V))
    (stream : Stream) (chosen : Nat) (weight : Float) :
    Turn S V × Reading S V → Act Passes (Turn S V × Reading S V)
  | (.move m, child) =>
      return (.move m, .weighted (live.set chosen (weight, child)) stream)
  | (.stuck, child) =>
      return (.stuck, .weighted (live.set chosen (weight, child)) stream)
  | (.ended, _) => next s fuel (.weighted (live.eraseIdx chosen) stream)

/-- Without a weight above zero nothing is picked any more. -/
theorem next_weighted_none {live : List (Float × Reading S V)}
    {stream : Stream} (fuel : Nat)
    (h : (live.isEmpty || !decide (0.0 < totalWeight live)) = true) :
    next s (fuel + 1) (.weighted live stream)
      = return (.ended, .weighted live stream) := by
  rw [next]
  dsimp only
  rw [if_pos h]

/-- A pick that is not below the total is made again. -/
theorem next_weighted_again {live : List (Float × Reading S V)}
    {stream : Stream} (fuel : Nat)
    (h : ¬(live.isEmpty || !decide (0.0 < totalWeight live)) = true)
    (hpick : ¬(stream.fraction (totalWeight live)).1 < totalWeight live) :
    next s (fuel + 1) (.weighted live stream) =
      next s fuel (.weighted live (stream.fraction (totalWeight live)).2) := by
  rw [next]
  dsimp only
  rw [if_neg h, if_pos (by simp [hpick])]

/-- Otherwise the child that the pick falls to is asked. -/
theorem next_weighted_pick {live : List (Float × Reading S V)}
    {stream : Stream} (fuel : Nat)
    (h : ¬(live.isEmpty || !decide (0.0 < totalWeight live)) = true)
    (hpick : (stream.fraction (totalWeight live)).1 < totalWeight live) :
    next s (fuel + 1) (.weighted live stream) =
      match live[place live (stream.fraction (totalWeight live)).1]? with
      | none =>
          return (.ended, .weighted live (stream.fraction (totalWeight live)).2)
      | some (weight, child) =>
        next s fuel child >>= handOn s fuel live
          (stream.fraction (totalWeight live)).2
          (place live (stream.fraction (totalWeight live)).1) weight := by
  rw [next]
  dsimp only
  rw [if_neg h, if_neg (by simp [hpick])]
  cases live[place live (stream.fraction (totalWeight live)).1]? with
  | none => rfl
  | some l =>
      obtain ⟨weight, child⟩ := l
      refine congrArg (next s fuel child >>= ·) (funext fun answer => ?_)
      obtain ⟨turn, later⟩ := answer
      cases turn with
      | move m => rfl
      | ended => rfl
      | stuck => rfl

/-- The child that was picked is asked: what it hands out is paid for by its
share, and if it has ended, the rest of the union is asked in its place. -/
theorem settles_handOn {live : List (Float × Reading S V)} {bounds : List ℕ∞}
    (h : List.Forall₂ (fun l bound => l.2.Keeps s (n + 1) bound) live bounds)
    {chosen : Nat} {weight : Float} {child : Reading S V}
    (hchosen : live[chosen]? = some (weight, child)) {stream : Stream}
    (hkeeps : ∀ (others : List (Float × Reading S V)) (lefts : List ℕ∞),
      List.Forall₂ (fun l bound => l.2.Keeps s n bound) others lefts →
      others.map Prod.fst = live.map Prod.fst →
      (Reading.weighted others stream).Keeps s n lefts.sum)
    (hrest : ∀ (lefts : List ℕ∞) passes,
      List.Forall₂ (fun l bound => l.2.Keeps s (n + 1) bound)
      (live.eraseIdx chosen) lefts → Act.Settles
      (fun fuel => next s fuel (.weighted (live.eraseIdx chosen) stream)) passes
        fun answer _ => Turn.Pays (Keeps s n) lefts.sum answer)
    (passes : Passes) :
    Act.Settles (fun fuel =>
        next s fuel child >>= handOn s fuel live stream chosen weight) passes
      fun answer _ => Turn.Pays (Keeps s n) bounds.sum answer := by
  have hfewer : ∀ (l : Float × Reading S V) (bound : ℕ∞),
      l.2.Keeps s (n + 1) bound → l.2.Keeps s n bound :=
        fun _ _ hkeeps => hkeeps.fewer
  obtain ⟨bound, others, hchild, hsum, ⟨lefts, herase, hothers⟩, hset⟩ :=
    exists_share hfewer h hchosen
  refine Act.Settles.bind ((hchild passes).mono ?_)
  rintro ⟨turn, later⟩ after hpays
  cases turn with
  | move m =>
      obtain ⟨left, hleft, hlater⟩ := hpays
      obtain ⟨lefts, hlefts, hlive⟩ := hset (weight, later) left hlater
      have hkept := hkeeps _ lefts hlefts (map_fst_set hchosen later)
      refine Act.settles_pure ⟨lefts.sum, ?_, hkept⟩
      rw [hlive, hsum, ← add_assoc]
      exact add_le_add_left hleft _
  | ended =>
      refine (hrest lefts after herase).mono fun _ _ hanswer => ?_
      refine hanswer.mono ?_ fun _ _ _ hle hkept => hkept.mono hle
      rw [hothers, hsum]
      exact le_add_self
  | stuck => exact hpays.elim

/-- A random union hands out what is left of its children. -/
theorem keeps_weighted {live : List (Float × Reading S V)} {bounds : List ℕ∞}
    (h : List.Forall₂ (fun l bound => l.2.Keeps s n bound) live bounds)
    (steady : Weights.Steady (live.map Prod.fst)) (stream : Stream) :
    (Reading.weighted live stream).Keeps s n bounds.sum := by
  induction n generalizing live bounds stream with
  | zero => trivial
  | succ n ih =>
      intro passes
      -- a child that has ended is taken out, and the pick made again among
      -- fewer
      induction hlength : live.length
          generalizing live bounds stream passes with
      | zero =>
          have hnone : (live.isEmpty || !decide (0.0 < totalWeight live))
              = true := by
            rw [List.eq_nil_of_length_eq_zero hlength]
            rfl
          refine Act.Settles.later ?_
          simp only [next_weighted_none _ hnone]
          exact Act.settles_pure
            (ih (h.imp fun _ _ hkeeps => hkeeps.fewer) steady stream)
      | succ k ihlive =>
          have hfewer := h.imp fun _ _ (hkeeps : Keeps s (n + 1) _ _) =>
            hkeeps.fewer
          by_cases hnone : (live.isEmpty ||
            !decide (0.0 < totalWeight live)) = true
          · refine Act.Settles.later ?_
            simp only [next_weighted_none _ hnone]
            exact Act.settles_pure (ih hfewer steady stream)
          have settles_pick : ∀ stream : Stream,
              (stream.fraction (totalWeight live)).1 < totalWeight live →
              Act.Settles (fun fuel =>
                next s fuel (.weighted live stream)) passes
                fun answer _ => Turn.Pays (Keeps s n) bounds.sum answer := by
            intro stream hpick
            refine Act.Settles.later ?_
            simp only [next_weighted_pick _ hnone hpick]
            generalize place live
              (stream.fraction (totalWeight live)).1 = chosen
            generalize (stream.fraction (totalWeight live)).2 = stream
            cases hchosen : live[chosen]? with
            | none => exact Act.settles_pure (ih hfewer steady stream)
            | some l =>
                obtain ⟨hlt, -⟩ := List.getElem?_eq_some_iff.mp hchosen
                refine settles_handOn h hchosen ?_ ?_ passes
                · intro others lefts hothers hweights
                  rw [← hweights] at steady
                  exact ih hothers steady stream
                · intro lefts passes herase
                  refine ihlive herase ?_ stream passes ?_
                  · exact steady.sublist
                      ((live.eraseIdx_sublist chosen).map Prod.fst)
                  · rw [List.length_eraseIdx_of_lt hlt, hlength,
                      Nat.add_sub_cancel]
          have htotal : 0.0 < (live.map Prod.fst).foldl (· + ·) 0.0 := by
            rw [← totalWeight_eq]
            by_contra hnot
            exact hnone (by simp [hnot])
          have hfalls := steady _ (List.Sublist.refl _) htotal stream
          rw [← totalWeight_eq] at hfalls
          induction hfalls with
          | now hpick => exact settles_pick _ hpick
          | @later stream _ ihfalls =>
              by_cases hpick : (stream.fraction (totalWeight live)).1
                < totalWeight live
              · exact settles_pick _ hpick
              · refine Act.Settles.later ?_
                simp only [next_weighted_again _ hnone hpick]
                exact ihfalls

-- ================================================================= products

theorem keeps_combined_none (s : S) (n : Nat) :
    (Reading.combined none : Reading S V).Keeps s n 0 := by
  induction n with
  | zero => trivial
  | succ n ih =>
      intro passes
      refine Act.Settles.later ?_
      simp only [Reading.next]
      exact Act.settles_pure ih

/-- Wheels that run hand out what remains of their combinations. -/
theorem keeps_combined (s : S) (n : Nat) {wheels : List (Wheel S V)}
    (hrun : ∀ w ∈ wheels, w.Running) :
    (Reading.combined (some wheels)).Keeps s n
      (Wheel.remaining wheels).length := by
  induction n generalizing wheels with
  | zero => trivial
  | succ n ih =>
      intro passes
      refine Act.Settles.later ?_
      simp only [Reading.next]
      rw [Wheel.remaining_eq hrun, List.length_cons, Nat.cast_add,
        Nat.cast_one, add_comm]
      cases hturn : Wheel.turn wheels with
      | none => exact Act.settles_pure ⟨0, le_refl _, keeps_combined_none s n⟩
      | some turned =>
          exact Act.settles_pure ⟨_, le_refl _,
            ih (Wheel.running_turn hrun hturn)⟩

/-- A product in the given order hands out its combinations. -/
theorem keeps_wheels (s : S) (n : Nat) (ignoreEmpty : Bool)
    (pools : List (List (Move S V))) :
    (Reading.combined (wheels ignoreEmpty pools)).Keeps s n
      (Selector.combinations ignoreEmpty pools).length := by
  unfold wheels Selector.combinations
  dsimp only
  generalize (if ignoreEmpty then pools.filter fun p => !p.isEmpty
    else pools) = kept
  by_cases hnone : kept.isEmpty = true
  · rw [if_pos hnone, hnone]
    exact keeps_combined_none s n
  by_cases hempty : kept.any List.isEmpty = true
  · rw [hempty, Bool.or_true, if_pos rfl]
    exact (keeps_combined_none s n).mono zero_le
  · have hfull : ∀ p ∈ kept, p ≠ [] := by
      intro p hp hnil
      exact hempty (List.any_eq_true.mpr ⟨p, hp, List.isEmpty_iff.mpr hnil⟩)
    rw [if_neg hnone, if_neg (by simp [hnone, hempty]), List.length_map,
      ← Wheel.remaining_fresh]
    exact keeps_combined s n (Wheel.running_fresh hfull)

/-- What a round comes to: each child is left with a bound, no larger than
before. Where a child that ended would have ended the round, a round of moves
has lowered all of them, and in any case one of them. -/
structure RoundKeeps (s : S) (n : Nat) (ignoreEmpty : Bool)
    (bounds lefts : List ℕ∞) (answer : Round S V × List (Reading S V)) :
    Prop where
  keeps : List.Forall₂ (fun reading left => reading.Keeps s n left)
    answer.2 lefts
  le : List.Forall₂ (· ≤ ·) lefts bounds
  each : ∀ ms, answer.1 = .moves ms → ignoreEmpty = false →
    List.Forall₂ (fun left bound => 1 + left ≤ bound) lefts bounds
  some : ∀ ms, answer.1 = .moves ms → ms ≠ [] → 1 + lefts.sum ≤ bounds.sum
  answered : answer.1 ≠ .stuck

/-- A round asks each child once, and settles if each of them does. -/
theorem settles_nextOfEach {ignoreEmpty : Bool} {children : List (Reading S V)}
    {bounds : List ℕ∞}
    (h : List.Forall₂ (fun reading bound => reading.Keeps s (n + 1) bound)
      children bounds)
    (passes : Passes) :
    Act.Settles (fun fuel => nextOfEach s fuel ignoreEmpty children) passes
      fun answer _ => ∃ lefts,
      RoundKeeps s n ignoreEmpty bounds lefts answer := by
  induction h generalizing passes with
  | nil =>
      refine Act.Settles.later ?_
      simp only [nextOfEach]
      refine Act.settles_pure ⟨[], .nil, .nil, fun _ _ _ => .nil,
        fun ms hms hne => ?_, nofun⟩
      exact absurd (Round.moves.inj hms).symm hne
  | @cons child bound children bounds hchild hchildren ih =>
      refine Act.Settles.later ?_
      simp only [nextOfEach]
      refine Act.Settles.bind ((hchild passes).mono ?_)
      rintro ⟨turn, later⟩ after hpays
      cases turn with
      | move m =>
          obtain ⟨left, hleft, hlater⟩ := hpays
          have hle : left ≤ bound := le_add_self.trans hleft
          refine Act.Settles.bind ((ih after).mono ?_)
          rintro ⟨round, others⟩ _ ⟨lefts, hround⟩
          cases round with
          | moves ms =>
              refine Act.settles_pure ⟨left :: lefts, .cons hlater hround.keeps,
                .cons hle hround.le, fun _ _ hstrict => ?_,
                  fun _ _ _ => ?_, nofun⟩
              · exact .cons hleft (hround.each ms rfl hstrict)
              · rw [List.sum_cons, List.sum_cons, ← add_assoc]
                exact add_le_add hleft (List.Forall₂.sum_le_sum hround.le)
          | ended =>
              exact Act.settles_pure ⟨left :: lefts, .cons hlater hround.keeps,
                .cons hle hround.le, nofun, nofun, nofun⟩
          | stuck => exact absurd rfl hround.answered
      | ended =>
          cases ignoreEmpty with
          | false =>
              refine Act.settles_pure ⟨bound :: bounds, .cons hpays ?_, ?_,
                nofun, nofun, nofun⟩
              · exact hchildren.imp fun _ _ hkeeps => hkeeps.fewer
              · exact List.forall₂_refl _
          | true =>
              refine Act.Settles.bind ((ih after).mono ?_)
              rintro ⟨round, others⟩ _ ⟨lefts, hround⟩
              refine Act.settles_pure ⟨bound :: lefts, .cons hpays hround.keeps,
                .cons (le_refl _) hround.le, nofun, fun ms hms hne => ?_,
                  hround.answered⟩
              rw [List.sum_cons, List.sum_cons, add_left_comm]
              exact add_le_add_right (hround.some ms hms hne) bound
      | stuck => exact hpays.elim

/-- A product in random order hands out one move of each child, or of each
that has not ended, at a time. -/
theorem keeps_zipped {ignoreEmpty : Bool} {children : List (Reading S V)}
    {bounds : List ℕ∞}
    (h : List.Forall₂ (fun reading bound => reading.Keeps s n bound)
      children bounds) :
    (Reading.zipped children ignoreEmpty).Keeps s n
      (roundBound ignoreEmpty bounds) := by
  induction n generalizing children bounds with
  | zero => trivial
  | succ n ih =>
      intro passes
      refine Act.Settles.later ?_
      simp only [Reading.next]
      refine Act.Settles.bind ((settles_nextOfEach h passes).mono ?_)
      rintro ⟨round, later⟩ _ ⟨lefts, hround⟩
      have hended : (Reading.zipped later ignoreEmpty).Keeps s n
          (roundBound ignoreEmpty bounds) :=
        (ih hround.keeps).mono (roundBound_mono hround.le)
      cases round with
      | moves ms =>
          cases ms with
          | nil => exact Act.settles_pure hended
          | cons m more =>
              refine Act.settles_pure ⟨roundBound ignoreEmpty lefts, ?_,
                ih hround.keeps⟩
              cases ignoreEmpty with
              | true => exact hround.some _ rfl (List.cons_ne_nil m more)
              | false => exact one_add_least_le (hround.each _ rfl rfl)
      | ended => exact Act.settles_pure hended
      | stuck => exact absurd rfl hround.answered

-- ================================================================ to the end

/-- What keeps a finite bound can be read to its end, and no more than the
bound comes of it. -/
theorem settles_drain {bound : Nat} (hbound : bound < n) {reading : Reading S V}
    (h : reading.Keeps s n bound) (done : List (Move S V)) (passes : Passes) :
    Act.Settles (fun fuel => drain s fuel reading done) passes
      fun pool _ => ∃ moves, pool = some moves ∧
      moves.length ≤ done.length + bound := by
  induction n generalizing reading bound done passes with
  | zero => exact absurd hbound (Nat.not_lt_zero _)
  | succ n ih =>
      refine Act.Settles.later ?_
      simp only [drain]
      refine Act.Settles.bind ((h passes).mono ?_)
      rintro ⟨turn, later⟩ after hpays
      cases turn with
      | move m =>
          obtain ⟨left, hleft, hlater⟩ := hpays
          cases bound with
          | zero => exact absurd (le_self_add.trans hleft) (by simp)
          | succ bound =>
              have hle : left ≤ bound := by
                rw [Nat.cast_add, Nat.cast_one, add_comm (bound : ℕ∞)] at hleft
                exact (ENat.add_le_add_iff_left ENat.one_ne_top).mp hleft
              refine (ih (by omega) (hlater.mono hle) (m :: done) after).mono ?_
              rintro _ _ ⟨moves, rfl, hlength⟩
              refine ⟨moves, rfl, ?_⟩
              rw [List.length_cons] at hlength
              omega
      | ended =>
          refine Act.settles_pure ⟨done.reverse, rfl, ?_⟩
          rw [List.length_reverse]
          exact Nat.le_add_right _ _
      | stuck => exact hpays.elim

end Reading

end PlanSearch

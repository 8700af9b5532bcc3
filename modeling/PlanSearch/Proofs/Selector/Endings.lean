/-
Which passes come to an end.

A tree tells whether its passes go on for ever (`Selector.isNeverEnding`).
Two kinds of products make that wrong. One in random order that passes over
ended children goes on as long as any child does, but says so only if all of
them do. And one in the given order reads its children to the end before it
hands out anything, and never gets there if one of them goes on, but says
that it ends. `Selector.Unmixed` and `Selector.Drained` leave these out. A
pass over any other tree that does not claim to go on is finite, and every
request is answered (`Selector.answers_finitely`);
`SelectorConfig.ending_misleads` builds one tree of each kind that fails.

# The bound

`Selector.bound` is how many moves a pass hands out at most; it is infinite
where leaves draw without end. Whether it is can be read off the tree
(`Selector.Unmixed.bound_ne_top`), and that opening a tree comes to a reading
that keeps its bound is one induction on the tree (`Selector.Drained.opens`).

# Refused draws

Draws may be refused, by a leaf and by the pick of a union, and the tree
asks for another one without a limit. `Selector.Steady` says that this comes
to an end where it can happen at all.
-/
import PlanSearch.Proofs.Selector.Answers
import PlanSearch.Proofs.Selector.Sizes

namespace PlanSearch

variable {S V : Type}

-- ===================================================================== bounds

theorem sum_ne_top {bounds : List ℕ∞} (h : ∀ bound ∈ bounds, bound ≠ ⊤) :
    bounds.sum ≠ ⊤ := by
  induction bounds with
  | nil => exact ENat.zero_ne_top
  | cons bound rest ih =>
      obtain ⟨hbound, hrest⟩ := List.forall_mem_cons.mp h
      rw [List.sum_cons]
      exact WithTop.add_ne_top.mpr ⟨hbound, ih hrest⟩

/-- Bounded children have finitely many combinations. -/
theorem prod_add_one_ne_top {bounds : List ℕ∞}
    (h : ∀ bound ∈ bounds, bound ≠ ⊤) : (bounds.map (· + 1)).prod ≠ ⊤ := by
  induction bounds with
  | nil => exact ENat.one_ne_top
  | cons bound rest ih =>
      obtain ⟨hbound, hrest⟩ := List.forall_mem_cons.mp h
      rw [List.map_cons, List.prod_cons]
      exact WithTop.mul_ne_top
        (WithTop.add_ne_top.mpr ⟨hbound, ENat.one_ne_top⟩) (ih hrest)

/-- Items that were paired stand in the list they are from. -/
theorem map_fst_zip_sublist {α β : Type} (items : List α) (others : List β) :
    ((items.zip others).map Prod.fst).Sublist items := by
  rw [List.zip_eq_zip_take_min, List.map_fst_zip (by simp)]
  exact List.take_sublist ..

theorem map_snd_zip_sublist {α β : Type} (items : List α) (others : List β) :
    ((items.zip others).map Prod.snd).Sublist others := by
  rw [List.zip_eq_zip_take_min, List.map_snd_zip (by simp)]
  exact List.take_sublist ..

/-- The least bound is below each of them. -/
theorem least_le {bounds : List ℕ∞} {bound : ℕ∞} (h : bound ∈ bounds) :
    least bounds ≤ bound := by
  induction bounds with
  | nil => cases h
  | cons first rest ih =>
      rcases List.mem_cons.mp h with rfl | h
      · exact min_le_left _ _
      · exact (min_le_right _ _).trans (ih h)

namespace Selector

variable [BEq V] {s : S}

mutual

/-- How many moves a pass over the solution hands out at most. -/
noncomputable def bound (s : S) : Selector S V → ℕ∞
  | leaf l .given _ => (l.moves s).length
  | leaf _ .random _ => ⊤
  | union children _ _ _ => (bounds s children).sum
  | product children _ .given => ((bounds s children).map (· + 1)).prod
  | product children ignoreEmpty .random =>
      roundBound ignoreEmpty (bounds s children)
  | limited limit inner => min limit (bound s inner)

noncomputable def bounds (s : S) : List (Selector S V) → List ℕ∞
  | [] => []
  | c :: rest => bound s c :: bounds s rest

end

theorem bounds_eq (s : S) (children : List (Selector S V)) :
    bounds s children = children.map (bound s) := by
  induction children with
  | nil => rfl
  | cons c rest ih => rw [bounds, ih, List.map_cons]

/-- No product in the given order has a child without a bound. -/
inductive Drained (s : S) : Selector S V → Prop
  | leaf {l : Leaf S V} {order : Order} {seed : UInt64} : Drained s
    (.leaf l order seed)
  | union {children : List (Selector S V)} {weights : Weights S} {order : Order}
      {seed : UInt64} :
      (∀ c ∈ children, Drained s c) →
        Drained s (.union children weights order seed)
  | product {children : List (Selector S V)} {ignoreEmpty : Bool}
      {order : Order} :
      (∀ c ∈ children, Drained s c) →
        (order = .given → ∀ c ∈ children, c.bound s ≠ ⊤) →
      Drained s (.product children ignoreEmpty order)
  | limited {limit : Nat} {inner : Selector S V} :
      Drained s inner → Drained s (.limited limit inner)

/-- No product in random order that passes over ended children has some that
claim to go on and some that do not. Under a limit, and under a product in
the given order, the claims do not matter. -/
inductive Unmixed : Selector S V → Prop
  | leaf {l : Leaf S V} {order : Order} {seed : UInt64} :
    Unmixed (.leaf l order seed)
  | union {children : List (Selector S V)} {weights : Weights S} {order : Order}
      {seed : UInt64} :
      (∀ c ∈ children, Unmixed c) → Unmixed (.union children weights order seed)
  | combined {children : List (Selector S V)} {ignoreEmpty : Bool} :
      Unmixed (.product children ignoreEmpty .given)
  | zipped {children : List (Selector S V)} {ignoreEmpty : Bool} :
      (∀ c ∈ children, Unmixed c) →
      (ignoreEmpty = true → (∃ c ∈ children, c.isNeverEnding = false) →
        ∀ c ∈ children, c.isNeverEnding = false) →
      Unmixed (.product children ignoreEmpty .random)
  | limited {limit : Nat} {inner : Selector S V} :
    Unmixed (.limited limit inner)

omit [BEq V] in
theorem anyNeverEnding_eq (children : List (Selector S V)) :
    anyNeverEnding children = children.any isNeverEnding := by
  induction children with
  | nil => rfl
  | cons c rest ih => rw [anyNeverEnding, ih, List.any_cons]

omit [BEq V] in
theorem allNeverEnding_eq (children : List (Selector S V)) :
    allNeverEnding children = children.all isNeverEnding := by
  induction children with
  | nil => rfl
  | cons c rest ih => rw [allNeverEnding, ih, List.all_cons]

/-- A tree that does not claim to go on has a finite bound. -/
theorem Unmixed.bound_ne_top {tree : Selector S V} (unmixed : tree.Unmixed)
    (drained : tree.Drained s) (hends : tree.isNeverEnding = false) :
    tree.bound s ≠ ⊤ := by
  induction unmixed with
  | @leaf l order seed =>
      cases order with
      | given => exact ENat.natCast_ne_top _
      | random => cases hends
  | @union children weights order seed _ ih =>
      cases drained with
      | union hchildren =>
          rw [isNeverEnding, anyNeverEnding_eq, List.any_eq_false] at hends
          rw [bound, bounds_eq]
          refine sum_ne_top fun b hb => ?_
          obtain ⟨c, hc, rfl⟩ := List.mem_map.mp hb
          exact ih c hc (hchildren c hc) (Bool.not_eq_true _ ▸ hends c hc)
  | @combined children ignoreEmpty =>
      cases drained with
      | product _ hfinite =>
          rw [bound, bounds_eq]
          refine prod_add_one_ne_top fun b hb => ?_
          obtain ⟨c, hc, rfl⟩ := List.mem_map.mp hb
          exact hfinite rfl c hc
  | @zipped children ignoreEmpty _ hclaims ih =>
      cases drained with
      | product hchildren _ =>
          have hends : children.all isNeverEnding = false := by
            rw [isNeverEnding, allNeverEnding_eq] at hends
            exact hends
          obtain ⟨c, hc, hfinite⟩ := List.all_eq_false.mp hends
          rw [Bool.not_eq_true] at hfinite
          rw [bound, bounds_eq]
          cases ignoreEmpty with
          | false =>
              have hleast := least_le (List.mem_map_of_mem (f := bound s) hc)
              exact ne_top_of_le_ne_top
                (ih c hc (hchildren c hc) hfinite) hleast
          | true =>
              refine sum_ne_top fun b hb => ?_
              obtain ⟨d, hd, rfl⟩ := List.mem_map.mp hb
              exact ih d hd (hchildren d hd) (hclaims rfl ⟨c, hc, hfinite⟩ d hd)
  | limited =>
      rw [bound]
      exact ne_top_of_le_ne_top (ENat.natCast_ne_top _) (min_le_left _ _)

-- ==================================================================== opening

/-- No draw is refused for ever: by the leaves that may refuse one, and by the
picks of the unions. -/
inductive Steady (s : S) : Selector S V → Prop
  | listed {l : Leaf S V} {seed : UInt64} : Steady s (.leaf l .given seed)
  | drawn {l : Leaf S V} {seed : UInt64} : (¬l.Plain → l.Steady s) →
      Steady s (.leaf l .random seed)
  | joined {children : List (Selector S V)} {weights : Weights S}
      {seed : UInt64} :
      (∀ c ∈ children, Steady s c) →
        Steady s (.union children weights .given seed)
  | weighted {children : List (Selector S V)} {weights : Weights S}
      {seed : UInt64} :
      (∀ c ∈ children, Steady s c) →
      Weights.Steady (Weights.normalized (weights.of s children.length)) →
      Steady s (.union children weights .random seed)
  | product {children : List (Selector S V)} {ignoreEmpty : Bool}
      {order : Order} :
      (∀ c ∈ children, Steady s c) →
        Steady s (.product children ignoreEmpty order)
  | limited {limit : Nat} {inner : Selector S V} :
      Steady s inner → Steady s (.limited limit inner)

/-- A leaf opens to a reading within its bound if its draws are not refused
for ever. -/
theorem opens_leaf {l : Leaf S V} {order : Order} {seed : UInt64}
    (steady : order = .random → ¬l.Plain → l.Steady s) :
    (Selector.leaf l order seed).Opens s
      ((Selector.leaf l order seed).bound s) := by
  intro n path passes
  have hopened : (Reading.openLeaf l order seed s path passes).1.Keeps s n
      ((Selector.leaf l order seed).bound s) := by
    unfold Reading.openLeaf bound
    cases order with
    | given => exact Reading.keeps_listed s n _
    | random =>
        dsimp only
        cases hsampler : l.sampler s with
        | none => exact (Reading.keeps_listed s n []).mono le_top
        | some sampler =>
            have hsteady : l.Steady s := by
              by_cases plain : l.Plain
              · exact plain.steady s
              · exact steady rfl plain
            exact Reading.keeps_drawn (hsteady sampler hsampler) s n _
  refine Act.Settles.later ?_
  simp only [Reading.openOn]
  refine Act.Settles.bind (Act.settles_get ?_)
  generalize Reading.openLeaf l order seed s path passes = opened at hopened
  exact Act.Settles.bind (Act.settles_set (Act.settles_pure hopened))

/-- Children open one by one, each within its bound. -/
theorem settles_openAll {children : List (Selector S V × Nat)}
    (h : ∀ c ∈ children, c.1.Opens s (c.1.bound s)) (n : Nat) (path : List Nat)
    (passes : Passes) :
    Act.Settles (fun fuel => Reading.openAll s fuel children path) passes
      fun readings _ =>
      List.Forall₂ (fun reading bound => reading.Keeps s n bound) readings
        (children.map fun c => c.1.bound s) := by
  induction children generalizing passes with
  | nil =>
      refine Act.Settles.later ?_
      simp only [Reading.openAll]
      exact Act.settles_pure .nil
  | cons c rest ih =>
      obtain ⟨hc, hrest⟩ := List.forall_mem_cons.mp h
      refine Act.Settles.later ?_
      simp only [Reading.openAll]
      refine Act.Settles.bind ((hc n (path ++ [c.2]) passes).mono
        fun reading after hreading => ?_)
      refine Act.Settles.bind
        ((ih hrest after).mono fun readings _ hreadings => ?_)
      exact Act.settles_pure (.cons hreading hreadings)

/-- Children without weight are left out. -/
theorem settles_openWeighted {children : List ((Selector S V × Float) × Nat)}
    (h : ∀ c ∈ children, c.1.1.Opens s (c.1.1.bound s)) (n : Nat)
    (path : List Nat) (passes : Passes) :
    Act.Settles (fun fuel => Reading.openWeighted s fuel children path) passes
      fun live _ =>
      (live.map Prod.fst).Sublist (children.map fun c => c.1.2) ∧
        ∃ bounds, List.Forall₂
          (fun l bound => l.2.Keeps s n bound) live bounds ∧
          bounds.sum ≤ (children.map fun c => c.1.1.bound s).sum := by
  induction children generalizing passes with
  | nil =>
      refine Act.Settles.later ?_
      simp only [Reading.openWeighted]
      exact Act.settles_pure ⟨.slnil, [], .nil, le_refl _⟩
  | cons c rest ih =>
      obtain ⟨hc, hrest⟩ := List.forall_mem_cons.mp h
      refine Act.Settles.later ?_
      simp only [Reading.openWeighted]
      by_cases hweight : 0.0 < c.1.2
      · simp only [if_pos hweight]
        refine Act.Settles.bind ((hc n (path ++ [c.2]) passes).mono ?_)
        intro reading after hreading
        refine Act.Settles.bind ((ih hrest after).mono ?_)
        rintro live _ ⟨hweights, bounds, hlive, hsum⟩
        refine Act.settles_pure ⟨hweights.cons_cons _, _ :: bounds,
          .cons hreading hlive, ?_⟩
        rw [List.sum_cons, List.map_cons, List.sum_cons]
        exact add_le_add_right hsum _
      · simp only [if_neg hweight]
        refine (ih hrest passes).mono ?_
        rintro live _ ⟨hweights, bounds, hlive, hsum⟩
        refine ⟨hweights.cons _, bounds, hlive, hsum.trans ?_⟩
        rw [List.map_cons, List.sum_cons]
        exact le_add_self

/-- Children with finite bounds are read to the end, one after the other. -/
theorem settles_drainAll {children : List (Selector S V × Nat)}
    (h : ∀ c ∈ children, c.1.Opens s (c.1.bound s))
    (hfinite : ∀ c ∈ children, c.1.bound s ≠ ⊤) (path : List Nat)
    (passes : Passes) :
    Act.Settles (fun fuel => Reading.drainAll s fuel children path) passes
      fun pools _ =>
      ∃ read, pools = some read ∧
        List.Forall₂ (fun (length : Nat) bound => (length : ℕ∞) ≤ bound)
          (read.map List.length) (children.map fun c => c.1.bound s) := by
  induction children generalizing passes with
  | nil =>
      refine Act.Settles.later ?_
      simp only [Reading.drainAll]
      exact Act.settles_pure ⟨[], rfl, .nil⟩
  | cons c rest ih =>
      obtain ⟨hc, hrest⟩ := List.forall_mem_cons.mp h
      obtain ⟨hcfinite, hrestfinite⟩ := List.forall_mem_cons.mp hfinite
      obtain ⟨bound, hbound⟩ := ENat.ne_top_iff_exists.mp hcfinite
      refine Act.Settles.later ?_
      simp only [Reading.drainAll]
      refine Act.Settles.bind ((hc (bound + 1) (path ++ [c.2]) passes).mono ?_)
      intro reading opened hreading
      rw [← hbound] at hreading
      refine Act.Settles.bind
        ((Reading.settles_drain (by omega) hreading [] opened).mono ?_)
      rintro _ after ⟨pool, rfl, hpool⟩
      refine Act.Settles.bind ((ih hrest hrestfinite after).mono ?_)
      rintro _ _ ⟨read, rfl, hread⟩
      rw [List.length_nil, Nat.zero_add] at hpool
      have hlength : (pool.length : ℕ∞) ≤ c.1.bound s := by
        rw [← hbound, Nat.cast_le]
        exact hpool
      exact Act.settles_pure ⟨pool :: read, rfl, .cons hlength hread⟩

/-- A product of lengths within their bounds is within that of the bounds,
whether empty factors are left out or not. -/
theorem prod_factors_le (ignoreEmpty : Bool) {lengths : List Nat}
    {bounds : List ℕ∞}
    (h : List.Forall₂ (fun (length : Nat) bound => (length : ℕ∞) ≤ bound)
      lengths bounds) :
    ((factors ignoreEmpty lengths).prod : ℕ∞) ≤ (bounds.map (· + 1)).prod := by
  induction h with
  | nil => cases ignoreEmpty <;> exact le_refl _
  | @cons length bound lengths bounds hle _ ih =>
      have hfactor : ((length * (factors ignoreEmpty lengths).prod : Nat) : ℕ∞)
          ≤ (bound + 1) * (bounds.map (· + 1)).prod := by
        rw [Nat.cast_mul]
        exact mul_le_mul' (hle.trans le_self_add) ih
      rw [List.map_cons, List.prod_cons]
      cases ignoreEmpty with
      | false => exact hfactor
      | true =>
          by_cases hpos : 0 < length
          · rw [factors, if_pos rfl,
              List.filter_cons_of_pos (by simpa using hpos)]
            exact hfactor
          · rw [factors, if_pos rfl,
              List.filter_cons_of_neg (by simpa using hpos)]
            exact ih.trans (le_mul_of_one_le_left' le_add_self)

/-- Children that have bounds where they are drained, and draws that are not
refused for ever: the tree opens to a pass that answers and keeps its bound. -/
theorem Drained.opens {tree : Selector S V} (drained : tree.Drained s)
    (steady : tree.Steady s) : tree.Opens s (tree.bound s) := by
  induction drained with
  | @leaf l order seed =>
      refine opens_leaf fun horder => ?_
      cases steady with
      | listed => cases horder
      | drawn hleaf => exact hleaf
  | @union children weights order seed _ ih =>
      intro n path passes
      refine Act.Settles.later ?_
      rw [bound, bounds_eq]
      cases steady with
      | joined hchildren =>
          have hrest : ∀ c ∈ children.zipIdx.map (fun c => (c.2, c.1)),
              c.2.Opens s (c.2.bound s) := by
            intro c hc
            obtain ⟨d, hd, rfl⟩ := List.mem_map.mp hc
            have hd := List.fst_mem_of_mem_zipIdx hd
            exact ih d.1 hd (hchildren d.1 hd)
          have hjoined :=
            Reading.keeps_joined hrest (Reading.keeps_listed s n []) path
          rw [List.length_nil, Nat.cast_zero, zero_add, List.map_map] at hjoined
          simp only [Reading.openOn]
          refine Act.settles_pure ?_
          rw [← map_zipIdx]
          exact hjoined
      | weighted hchildren hweights =>
          have hopens : ∀ c ∈ (children.zip (Weights.normalized
              (weights.of s children.length))).zipIdx,
                  c.1.1.Opens s (c.1.1.bound s) := by
            intro c hc
            have hc := (List.of_mem_zip (List.fst_mem_of_mem_zipIdx hc)).1
            exact ih c.1.1 hc (hchildren c.1.1 hc)
          simp only [Reading.openOn]
          refine Act.Settles.bind
            ((settles_openWeighted hopens n path passes).mono ?_)
          rintro live after ⟨hlive, bounds, hkeeps, hsum⟩
          refine Act.Settles.bind (Act.settles_get ?_)
          refine Act.Settles.bind (Act.settles_set (Act.settles_pure ?_))
          rw [map_zipIdx _ fun c : Selector S V × Float => c.2] at hlive
          rw [map_zipIdx _ fun c : Selector S V × Float => c.1.bound s] at hsum
          have hsteady :=
            hweights.sublist (hlive.trans (map_snd_zip_sublist ..))
          refine (Reading.keeps_weighted hkeeps hsteady _).mono (hsum.trans ?_)
          have hchildren := (map_fst_zip_sublist children
            (Weights.normalized (weights.of s children.length))).map
              (Selector.bound s)
          rw [List.map_map] at hchildren
          exact hchildren.sum_le_sum fun _ _ => zero_le
  | @product children ignoreEmpty order _ hfinite ih =>
      intro n path passes
      refine Act.Settles.later ?_
      cases steady with
      | product hchildren =>
          have hopens : ∀ c ∈ children.zipIdx, c.1.Opens s (c.1.bound s) := by
            intro c hc
            have hc := List.fst_mem_of_mem_zipIdx hc
            exact ih c.1 hc (hchildren c.1 hc)
          cases order with
          | given =>
              have hfinite : ∀ c ∈ children.zipIdx, c.1.bound s ≠ ⊤ :=
                fun c hc => hfinite rfl c.1 (List.fst_mem_of_mem_zipIdx hc)
              rw [bound, bounds_eq]
              simp only [Reading.openOn]
              refine Act.Settles.bind
                ((settles_drainAll hopens hfinite path passes).mono ?_)
              rintro _ _ ⟨pools, rfl, hpools⟩
              refine Act.settles_pure
                ((Reading.keeps_wheels s n ignoreEmpty pools).mono ?_)
              rw [map_zipIdx] at hpools
              refine le_trans ?_ (prod_factors_le ignoreEmpty hpools)
              rw [length_combinations, Nat.cast_le]
              split
              · exact Nat.zero_le _
              · exact Nat.le_refl _
          | random =>
              rw [bound, bounds_eq]
              simp only [Reading.openOn]
              refine Act.Settles.bind
                ((settles_openAll hopens n path passes).mono ?_)
              intro readings _ hreadings
              rw [map_zipIdx] at hreadings
              exact Act.settles_pure (Reading.keeps_zipped hreadings)
  | @limited limit inner _ ih =>
      intro n path passes
      refine Act.Settles.later ?_
      cases steady with
      | limited hinner =>
          rw [bound]
          simp only [Reading.openOn]
          refine Act.Settles.bind ((ih hinner n (path ++ [0]) passes).mono ?_)
          intro reading _ hreading
          exact Act.settles_pure (Reading.keeps_limited hreading limit)

end Selector

-- =================================================================== requests

/-- Whether a turn hands out a move. -/
def Turn.isMove : Turn S V → Bool
  | .move _ => true
  | _ => false

variable [BEq V] {s : S}

/-- The answers to a number of requests. -/
def Reading.ask (s : S) (fuel : Nat) :
    Nat → Reading S V → Act Passes (List (Turn S V))
  | 0, _ => return []
  | n + 1, reading => do
    let (turn, later) ← Reading.next s fuel reading
    return turn :: (← Reading.ask s fuel n later)

/-- The answers to a number of requests to a new pass. -/
def Selector.ask (s : S) (fuel requests : Nat) (tree : Selector S V) :
    Act Passes (List (Turn S V)) := do
  Reading.ask s fuel requests (← Reading.openOn s fuel tree [])

/-- Asked any number of times a reading answers each time, with as many
moves as its bound allows. -/
theorem Reading.Keeps.ask {n : Nat} {bound : ℕ∞} {reading : Reading S V}
    (h : reading.Keeps s n bound) (passes : Passes) :
    Act.Settles (fun fuel => Reading.ask s fuel n reading) passes fun turns _ =>
      turns.length = n ∧ (∀ turn ∈ turns, turn ≠ .stuck) ∧
        (turns.countP Turn.isMove : ℕ∞) ≤ bound := by
  induction n generalizing reading bound passes with
  | zero =>
      simp only [Reading.ask]
      exact Act.settles_pure ⟨rfl, nofun, zero_le⟩
  | succ n ih =>
      simp only [Reading.ask]
      refine Act.Settles.bind ((h passes).mono ?_)
      rintro ⟨turn, later⟩ after hpays
      cases turn with
      | move m =>
          obtain ⟨left, hleft, hlater⟩ := hpays
          refine Act.Settles.bind ((ih hlater after).mono ?_)
          rintro turns _ ⟨hlength, hanswered, hmoves⟩
          refine Act.settles_pure ⟨by rw [List.length_cons, hlength], ?_, ?_⟩
          · exact List.forall_mem_cons.mpr ⟨nofun, hanswered⟩
          · rw [List.countP_cons_of_pos rfl, Nat.cast_add,
              Nat.cast_one, add_comm]
            exact (add_le_add_right hmoves 1).trans hleft
      | ended =>
          refine Act.Settles.bind ((ih hpays after).mono ?_)
          rintro turns _ ⟨hlength, hanswered, hmoves⟩
          refine Act.settles_pure ⟨by rw [List.length_cons, hlength], ?_, ?_⟩
          · exact List.forall_mem_cons.mpr ⟨nofun, hanswered⟩
          · rw [List.countP_cons_of_neg Bool.false_ne_true]
            exact hmoves
      | stuck => exact hpays.elim

/-- A pass over a tree that does not claim to go on is finite, and every
request is answered: however often it is asked, and whichever pass it is, the
answers come and no more than a fixed number of them are moves. -/
theorem Selector.answers_finitely {tree : Selector S V} (unmixed : tree.Unmixed)
    (drained : tree.Drained s) (steady : tree.Steady s)
    (hends : tree.isNeverEnding = false) : ∃ bound : Nat, ∀ requests passes,
      Act.Settles (fun fuel => tree.ask s fuel requests) passes fun turns _ =>
        turns.length = requests ∧ (∀ turn ∈ turns, turn ≠ .stuck) ∧
          turns.countP Turn.isMove ≤ bound := by
  obtain ⟨bound, hbound⟩ :=
    ENat.ne_top_iff_exists.mp (unmixed.bound_ne_top drained hends)
  refine ⟨bound, fun requests passes => ?_⟩
  refine Act.Settles.bind ((drained.opens steady requests [] passes).mono ?_)
  intro reading after hreading
  refine (hreading.ask after).mono ?_
  rintro turns _ ⟨hlength, hanswered, hmoves⟩
  rw [← hbound, Nat.cast_le] at hmoves
  exact ⟨hlength, hanswered, hmoves⟩

/-- Five changes by chance with every swap, and then a change by chance with
each swap for as long as there is one. -/
theorem Selector.answers_finitely_capped :
    let changes : Selector Tasks Int :=
  .leaf (.change Tasks.priority false) .random 0
    let swaps : Selector Tasks Int := .leaf (.swap [Tasks.priority]) .given 0
    let capped : Selector Tasks Int :=
      .product [.limited 5 changes, swaps] false .given
    let paired : Selector Tasks Int := .product [changes, swaps] false .random
    let tree : Selector Tasks Int :=
      .union [capped, paired] (.fixed []) .given 0
    (tree.Unmixed ∧ tree.Drained Tasks.twoOfThree ∧
        tree.Steady Tasks.twoOfThree ∧
        tree.isNeverEnding = false) ∧
      ∃ bound : Nat, ∀ requests passes,
        Act.Settles (fun fuel => tree.ask Tasks.twoOfThree fuel requests) passes
            fun turns _ =>
          turns.length = requests ∧ (∀ turn ∈ turns, turn ≠ .stuck) ∧
            turns.countP Turn.isMove ≤ bound := by
  intro changes swaps capped paired tree
  have hunmixed : tree.Unmixed := by
    refine .union (List.forall_mem_cons.mpr ⟨.combined,
      List.forall_mem_singleton.mpr ?_⟩)
    refine .zipped ?_ nofun
    exact List.forall_mem_cons.mpr ⟨.leaf, List.forall_mem_singleton.mpr .leaf⟩
  have hdrained : tree.Drained Tasks.twoOfThree := by
    refine .union (List.forall_mem_cons.mpr ⟨.product ?_ fun _ => ?_, ?_⟩)
    · exact List.forall_mem_cons.mpr ⟨.limited .leaf,
        List.forall_mem_singleton.mpr .leaf⟩
    · refine List.forall_mem_cons.mpr ⟨?_,
        List.forall_mem_singleton.mpr (ENat.natCast_ne_top _)⟩
      exact ne_top_of_le_ne_top (ENat.natCast_ne_top 5) (min_le_left _ _)
    · refine List.forall_mem_singleton.mpr (.product ?_ nofun)
      exact List.forall_mem_cons.mpr ⟨.leaf,
        List.forall_mem_singleton.mpr .leaf⟩
  have hsteady : tree.Steady Tasks.twoOfThree := by
    have hchanges : changes.Steady Tasks.twoOfThree :=
      .drawn fun hplain => absurd (.change _) hplain
    refine .joined (List.forall_mem_cons.mpr ⟨.product ?_,
      List.forall_mem_singleton.mpr ?_⟩)
    · exact List.forall_mem_cons.mpr ⟨.limited hchanges,
        List.forall_mem_singleton.mpr .listed⟩
    · refine .product ?_
      exact List.forall_mem_cons.mpr ⟨hchanges,
        List.forall_mem_singleton.mpr .listed⟩
  exact ⟨⟨hunmixed, hdrained, hsteady, rfl⟩,
    Selector.answers_finitely hunmixed hdrained hsteady rfl⟩

end PlanSearch

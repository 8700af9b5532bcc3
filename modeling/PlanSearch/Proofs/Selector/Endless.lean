/-
Passes that go on, whatever their trees say.

`Reading.Runs s n` says of a pass under way that the next `n` requests are
all answered with a move. A product in random order that passes over ended
children goes on as long as one of its children does, so it never ends if one
of them never does (`Reading.runs_zipped`); asking whether all of them go on
is asking too much. And a product in the given order opens its children and
reads them to the end: over a leaf that always draws a move, no patience is
enough for its first answer (`Selector.stalls`).
-/
import PlanSearch.Proofs.Selector.Endings

namespace PlanSearch

variable {S V : Type}

/-- Two things that are shown of an act are true of the one way it settles. -/
theorem Act.Settles.and {σ α : Type} {act : Nat → Act σ α} {s : σ}
    {post other : α → σ → Prop} (h : Settles act s post)
    (g : Settles act s other) :
    Settles act s fun a t => post a t ∧ other a t := by
  obtain ⟨n, a, t, hrun, ha⟩ := h
  obtain ⟨k, b, u, hother, hb⟩ := g
  have hsame := (hrun (max n k) (Nat.le_max_left n k)).symm.trans
    (hother (max n k) (Nat.le_max_right n k))
  obtain ⟨hanswer, rfl⟩ := Prod.mk.inj hsame
  obtain rfl := Except.ok.inj hanswer
  exact ⟨n, a, t, hrun, ha, hb⟩

-- ==================================================================== leaves

/-- Every attempt takes a move. -/
def Sampler.Eager (sampler : Sampler S V) : Prop :=
  ∀ stream, ∃ m after, Reading.attempt sampler [] stream = .ok (.take m, after)

/-- An eager sampler is steady. -/
theorem Sampler.Eager.steady {sampler : Sampler S V} (h : sampler.Eager) :
    sampler.Steady := by
  intro stream
  obtain ⟨m, after, hattempt⟩ := h stream
  exact .take hattempt

/-- Where there are entities and values, a change is drawn every time. -/
theorem Leaf.eager_changeSampler [BEq V] {x : BasicVariable S V} {s : S}
    {sampler : Sampler S V} (h : changeSampler x false s = some sampler) :
    sampler.Eager := by
  intro stream
  obtain ⟨outcome, after, hrun⟩ :=
    ((sure_changeSampler h).safe []).exists_run stream
  have hyields := Chance.yields_of_run hrun
  obtain ⟨-, hsampler⟩ := Option.ite_none_left_eq_some.mp h
  cases hsampler
  obtain ⟨e, -, hyields⟩ := Chance.yields_bind hyields
  obtain ⟨value, hvalue, hyields⟩ := Chance.yields_bind hyields
  cases value with
  | none => cases Chance.isSome_of_yields_pick hvalue
  | some v =>
      cases Chance.yields_pure hyields
      exact ⟨_, after, hrun⟩

-- ================================================================== going on

variable [BEq V] {s : S} {n : Nat}

namespace Reading

/-- The next `n` requests are answered with a move. -/
def Runs (s : S) : Nat → Reading S V → Prop
  | 0, _ => True
  | n + 1, reading => ∀ passes,
    Act.Settles (fun fuel => Reading.next s fuel reading) passes
      fun answer _ => answer.1.isMove = true ∧ Runs s n answer.2

/-- An eager sampler goes on for ever. -/
theorem runs_drawn {sampler : Sampler S V} (eager : sampler.Eager)
    (s : S) (n : Nat) (stream : Stream) :
    (Reading.drawn sampler [] stream).Runs s n := by
  induction n generalizing stream with
  | zero => trivial
  | succ n ih =>
      intro passes
      obtain ⟨m, after, hattempt⟩ := eager stream
      refine Act.Settles.later (Act.Settles.later ?_)
      simp only [Reading.next, Reading.drawNext, hattempt]
      exact Act.settles_of_run (fun _ => rfl) ⟨rfl, ih after⟩

/-- A round that passes over ended children has the move of one that goes on. -/
theorem settles_nextOfEach_runs {children : List (Reading S V)}
    (hkeeps : ∀ r ∈ children, r.Keeps s (n + 1) ⊤) (passes : Passes) :
    Act.Settles (fun fuel => nextOfEach s fuel true children) passes
      fun answer _ =>
      (∀ r ∈ answer.2, r.Keeps s n ⊤) ∧ ∃ ms, answer.1 = .moves ms ∧
        ((∃ r ∈ children, r.Runs s (n + 1)) →
          ms ≠ [] ∧ ∃ r ∈ answer.2, r.Runs s n) := by
  induction children generalizing passes with
  | nil =>
      refine Act.Settles.later ?_
      simp only [nextOfEach]
      refine Act.settles_pure ⟨fun _ hr => absurd hr List.not_mem_nil, [], rfl,
        fun hruns => ?_⟩
      obtain ⟨r, hr, -⟩ := hruns
      cases hr
  | cons child children ih =>
      obtain ⟨hchild, hchildren⟩ := List.forall_mem_cons.mp hkeeps
      refine Act.Settles.later ?_
      simp only [nextOfEach]
      have hturn : Act.Settles (fun fuel => Reading.next s fuel child) passes
          fun answer _ =>
          Turn.Pays (Keeps s n) ⊤ answer ∧
            (child.Runs s (n + 1) →
                answer.1.isMove = true ∧ answer.2.Runs s n) := by
        by_cases hruns : child.Runs s (n + 1)
        · exact ((hchild passes).and (hruns passes)).mono fun _ _ h =>
            ⟨h.1, fun _ => h.2⟩
        · exact (hchild passes).mono fun _ _ hpays =>
            ⟨hpays, fun h => absurd h hruns⟩
      refine Act.Settles.bind (hturn.mono ?_)
      rintro ⟨turn, later⟩ after ⟨hpays, hmoves⟩
      cases turn with
      | move m =>
          obtain ⟨left, -, hlater⟩ := hpays
          refine Act.Settles.bind ((ih hchildren after).mono ?_)
          rintro ⟨round, others⟩ _ ⟨hothers, ms, rfl, hround⟩
          refine Act.settles_pure
            ⟨List.forall_mem_cons.mpr ⟨hlater.mono le_top, hothers⟩, m :: ms,
            rfl, fun hgoes => ⟨List.cons_ne_nil m ms, ?_⟩⟩
          obtain ⟨r, hr, hruns⟩ := hgoes
          rcases List.mem_cons.mp hr with rfl | hr
          · exact ⟨later, List.mem_cons_self .., (hmoves hruns).2⟩
          · obtain ⟨-, q, hq, hqruns⟩ := hround ⟨r, hr, hruns⟩
            exact ⟨q, List.mem_cons_of_mem _ hq, hqruns⟩
      | ended =>
          refine Act.Settles.bind ((ih hchildren after).mono ?_)
          rintro ⟨round, others⟩ _ ⟨hothers, ms, rfl, hround⟩
          refine Act.settles_pure
            ⟨List.forall_mem_cons.mpr ⟨hpays, hothers⟩, ms, rfl, ?_⟩
          rintro ⟨r, hr, hruns⟩
          rcases List.mem_cons.mp hr with rfl | hr
          · exact absurd (hmoves hruns).1 Bool.false_ne_true
          · obtain ⟨hms, q, hq, hqruns⟩ := hround ⟨r, hr, hruns⟩
            exact ⟨hms, q, List.mem_cons_of_mem _ hq, hqruns⟩
      | stuck => exact hpays.elim

/-- A product in random order that passes over ended children goes on as long
as one of its children does, if the others answer at all. -/
theorem runs_zipped {children : List (Reading S V)}
    (hkeeps : ∀ r ∈ children, r.Keeps s n ⊤)
    (hruns : ∃ r ∈ children, r.Runs s n) :
    (Reading.zipped children true).Runs s n := by
  induction n generalizing children with
  | zero => trivial
  | succ n ih =>
      intro passes
      refine Act.Settles.later ?_
      simp only [Reading.next]
      refine Act.Settles.bind ((settles_nextOfEach_runs hkeeps passes).mono ?_)
      rintro ⟨round, later⟩ _ ⟨hlater, ms, rfl, hround⟩
      obtain ⟨hms, hgoes⟩ := hround hruns
      cases ms with
      | nil => exact absurd rfl hms
      | cons m more => exact Act.settles_pure ⟨rfl, ih hlater hgoes⟩

/-- A reading that goes on answers with a move each time. -/
theorem Runs.ask {reading : Reading S V} (h : reading.Runs s n)
    (passes : Passes) :
    Act.Settles (fun fuel => Reading.ask s fuel n reading) passes fun turns _ =>
      turns.length = n ∧ ∀ turn ∈ turns, turn.isMove = true := by
  induction n generalizing reading passes with
  | zero =>
      simp only [Reading.ask]
      exact Act.settles_pure ⟨rfl, fun _ hturn => absurd hturn List.not_mem_nil⟩
  | succ n ih =>
      simp only [Reading.ask]
      refine Act.Settles.bind ((h passes).mono ?_)
      rintro ⟨turn, later⟩ after ⟨hmove, hlater⟩
      refine Act.Settles.bind ((ih hlater after).mono ?_)
      rintro turns _ ⟨hlength, hmoves⟩
      refine Act.settles_pure ⟨by rw [List.length_cons, hlength], ?_⟩
      exact List.forall_mem_cons.mpr ⟨hmove, hmoves⟩

/-- Reading a leaf to the end that always draws a move takes all patience. -/
theorem drain_drawn {sampler : Sampler S V} (eager : sampler.Eager) (fuel : Nat)
    (stream : Stream) (done : List (Move S V)) (passes : Passes) :
    (drain s fuel (.drawn sampler [] stream) done).run passes
      = (.ok none, passes) := by
  induction fuel generalizing stream done with
  | zero =>
      rw [drain]
      rfl
  | succ fuel ih =>
      rw [drain, Act.run_bind]
      cases fuel with
      | zero =>
          rw [next]
          rfl
      | succ fuel =>
          cases fuel with
          | zero =>
              rw [next, drawNext]
              rfl
          | succ fuel =>
              obtain ⟨m, after, hattempt⟩ := eager stream
              rw [next, drawNext, hattempt]
              exact ih after (m :: done)

end Reading

-- ===================================================================== trees

namespace Selector

/-- Opening a leaf that draws takes one unit of patience. -/
theorem run_openOn_drawn {l : Leaf S V} {sampler : Sampler S V}
    (hsampler : l.sampler s = some sampler) (seed : UInt64) (fuel : Nat)
    (path : List Nat) (passes : Passes) :
    (Reading.openOn s (fuel + 1) (.leaf l .random seed) path).run passes =
      (.ok (.drawn sampler [] (Seed.stream seed (passes.open path).1)),
        (passes.open path).2) := by
  have hopened : Reading.openLeaf l .random seed s path passes =
      (.drawn sampler [] (Seed.stream seed (passes.open path).1),
          (passes.open path).2) := by
    rw [Reading.openLeaf]
    dsimp only
    rw [hsampler]
  rw [Reading.openOn, Act.run_bind]
  change ExceptT.run (do
    set (Reading.openLeaf l .random seed s path passes).2
    return (Reading.openLeaf l .random seed s path passes).1 : Act Passes
      (Reading S V)) passes = _
  rw [hopened]
  rfl

/-- With such a leaf for its first child, a product in the given order does
not come to its first answer at any patience. -/
theorem stalls {l : Leaf S V} {sampler : Sampler S V}
    (hsampler : l.sampler s = some sampler) (eager : sampler.Eager)
    (seed : UInt64) (rest : List (Selector S V)) (ignoreEmpty : Bool)
    (fuel : Nat) (path : List Nat) (passes : Passes) :
    ∃ after, (Reading.openOn s fuel
      (.product (.leaf l .random seed :: rest) ignoreEmpty .given) path).run
        passes = (.ok .stalled, after) := by
  have hdrained : ∀ fuel, ∃ after, (Reading.drainAll s fuel
      (Selector.leaf l .random seed :: rest).zipIdx path).run passes
          = (.ok none, after) := by
    intro fuel
    rw [List.zipIdx_cons]
    cases fuel with
    | zero => exact ⟨passes, by rw [Reading.drainAll]; rfl⟩
    | succ fuel =>
        rw [Reading.drainAll, Act.run_bind]
        cases fuel with
        | zero => exact ⟨passes, by rw [Reading.openOn]; rfl⟩
        | succ fuel =>
            refine ⟨(passes.open (path ++ [0])).2, ?_⟩
            rw [run_openOn_drawn hsampler]
            dsimp only
            rw [Act.run_bind, Reading.drain_drawn eager]
            rfl
  cases fuel with
  | zero => exact ⟨passes, by rw [Reading.openOn]; rfl⟩
  | succ fuel =>
      obtain ⟨after, hafter⟩ := hdrained fuel
      refine ⟨after, ?_⟩
      rw [Reading.openOn, Act.run_bind, hafter]
      rfl

/-- With such a leaf for a child, a product in random order that passes over
ended children answers every request with a move. -/
theorem goesOn {l : Leaf S V} {sampler : Sampler S V}
    (hsampler : l.sampler s = some sampler) (eager : sampler.Eager)
    (seed : UInt64) {rest : List (Selector S V)}
    (hrest : ∀ c ∈ rest, c.Opens s (c.bound s)) (requests : Nat)
    (passes : Passes) : Act.Settles (fun fuel =>
        (Selector.product (.leaf l .random seed :: rest) true .random).ask s
          fuel requests) passes
      fun turns _ => turns.length = requests ∧
      ∀ turn ∈ turns, turn.isMove = true := by
  have hopens : ∀ c ∈ rest.zipIdx 1, c.1.Opens s (c.1.bound s) :=
    fun c hc => hrest c.1 (List.fst_mem_of_mem_zipIdx hc)
  have hopened : Act.Settles (fun fuel => Reading.openOn s fuel
      (.product (.leaf l .random seed :: rest) true .random) []) passes
      fun reading _ => reading.Runs s requests := by
    refine Act.Settles.later ?_
    simp only [Reading.openOn, List.zipIdx_cons]
    refine Act.Settles.bind (Act.Settles.later ?_)
    simp only [Reading.openAll]
    refine Act.Settles.bind (Act.Settles.later ?_)
    refine Act.settles_of_run
      (fun fuel => run_openOn_drawn hsampler seed fuel _ passes) ?_
    refine Act.Settles.bind ((settles_openAll hopens requests [] _).mono ?_)
    intro others _ hothers
    have hanswer : ∀ r ∈ others, r.Keeps s requests ⊤ :=
      ((List.forall₂_and_left _ _).mp
        (hothers.imp fun _ _ hkeeps => ⟨hkeeps.mono le_top, hkeeps⟩)).1
    refine Act.settles_pure (Act.settles_pure (Reading.runs_zipped ?_ ?_))
    · exact List.forall_mem_cons.mpr
        ⟨Reading.keeps_drawn eager.steady s requests _, hanswer⟩
    · exact ⟨_, List.mem_cons_self .., Reading.runs_drawn eager s requests _⟩
  exact Act.Settles.bind (hopened.mono fun reading after hruns =>
    hruns.ask after)

end Selector

-- ================================================================= two trees

namespace Tasks

/-- A change by chance with each swap, and without one once there is none. -/
def changesPastSwaps : SelectorConfig :=
  .product { CommonSettings.unset with order := some .random }
    [.ofVariable "priority",
      .leaf { CommonSettings.unset with order := some .given } (.swap none [])]
        (some true)

/-- Every change by chance with every swap. -/
def changesTimesSwaps : SelectorConfig :=
  .product .unset
    [.leaf { CommonSettings.unset with order := some .random }
      (.change none (some "priority")), .swapAll] none

end Tasks

/-- Neither of two trees claims to go on. The first answers every request with
a move; the second does not come to its first answer. -/
theorem SelectorConfig.ending_misleads :
    (∃ built, Tasks.changesPastSwaps.build Tasks.context 0 = .ok built ∧
      built.selector.isNeverEnding = false ∧
      ∀ requests passes,
        Act.Settles (fun fuel =>
            built.selector.ask Tasks.twoOfThree fuel requests) passes
          fun turns _ => turns.length = requests ∧
          ∀ turn ∈ turns, turn.isMove = true) ∧
    ∃ built, Tasks.changesTimesSwaps.build Tasks.context 0 = .ok built ∧
      built.selector.isNeverEnding = false ∧
      ∀ fuel passes, ∃ after,
        (Reading.openOn Tasks.twoOfThree fuel built.selector []).run passes
          = (.ok .stalled, after) := by
  obtain ⟨sampler, hchange⟩ : ∃ sampler,
      Leaf.changeSampler Tasks.priority false Tasks.twoOfThree
        = some sampler := ⟨_, rfl⟩
  have eager : sampler.Eager := Leaf.eager_changeSampler hchange
  have hsampler : (Leaf.change Tasks.priority false).sampler Tasks.twoOfThree
      = some sampler :=
    hchange
  refine ⟨⟨_, rfl, rfl, ?_⟩, _, rfl, rfl, fun fuel passes => ?_⟩
  · refine Selector.goesOn hsampler eager _ (List.forall_mem_singleton.mpr ?_)
    exact Selector.opens_leaf nofun
  · exact Selector.stalls hsampler eager _ _ _ fuel [] passes

end PlanSearch

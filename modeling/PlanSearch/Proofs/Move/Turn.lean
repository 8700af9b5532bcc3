/-
What a component of a move meets at its turn.

The components of a move are made for one solution and executed one after
the other, so a later one may meet entities that an earlier one has
written. `EachTurn` states a condition of every component at its turn,
with the entities written by then; what is not written is still as the
move was made for (`untouched_step`).

For undoing, what matters are pillars. As long as no entity of a pillar
has been written, the pillar holds one value because it was made so. One
that was written into, `Disturbed`, may hold several by the time its
component has its turn, and only then is anything asked of it.
-/
import PlanSearch.Proofs.Move.Run
import PlanSearch.Proofs.Selector.Leaves

namespace PlanSearch

variable {S V Sc : Type} {vs : Variables S V} {same : Setoid (Option V)}
  {s s' : S} {written : Cells S V → Nat → Prop}

namespace Step

-- ============================================================ vocabulary

/-- The step writes the entity of the variable. Links are not counted. -/
def Writes (t : Step S V) (c : Cells S V) (e : Nat) : Prop :=
  match t with
  | change x _ _ | swap x _ _ | pillarChange x _ _ =>
      x.cells = c ∧ e ∈ t.entities
  | pillarSwap x left right =>
      x.cells = c ∧ left ≠ [] ∧ right ≠ [] ∧ e ∈ left ++ right
  | _ => False

/-- A condition of each step at its turn. It may depend on what has been
written by then; `written` is what was written before the first. -/
def EachTurn (holds : (Cells S V → Nat → Prop) → Step S V → S → Prop) :
    (Cells S V → Nat → Prop) → List (Step S V) → S → Prop
  | _, [], _ => True
  | written, t :: rest, s =>
    holds written t s ∧
      EachTurn holds (fun c e => written c e ∨ t.Writes c e) rest (t.apply s)

/-- The step is about a pillar into which something was written. -/
def Disturbed (written : Cells S V → Nat → Prop) (t : Step S V) : Prop :=
  match t with
  | pillarChange x pillar _ => ∃ e ∈ pillar, written x.cells e
  | pillarSwap x left right => ∃ e ∈ left ++ right, written x.cells e
  | _ => False

/-- Nothing but what was written differs. -/
structure Untouched (vs : Variables S V) (written : Cells S V → Nat → Prop)
    (s s' : S) : Prop where
  count : ∀ x ∈ vs.basics, x.count s' = x.count s
  get : ∀ x ∈ vs.basics, ∀ e < x.count s, ¬ written x.cells e →
    x.get s' e = x.get s e

-- ================================================================= frame

variable [Planning S Sc]

/-- What is not written stays as it is. -/
theorem get_setAll_frame (lawful : vs.Lawful) {x y : BasicVariable S V}
    (hx : x ∈ vs.basics) (hy : y ∈ vs.basics) (changes : List (Nat × Option V))
    {e : Nat} (he : e < y.count s)
    (h : x.cells = y.cells → e ∉ changes.map Prod.fst) :
    y.get (x.setAll s changes) e = y.get s e :=
  Cells.get_setAll_frame (lawful.values x hx)
    (lawful.values_apart x hx y hy) changes he h

/-- What a step does not write it leaves alone. -/
theorem get_apply_of_not_writes (lawful : vs.Lawful) {t :
      Step S V} (scope : t.Over vs)
    {y : BasicVariable S V} (hy : y ∈ vs.basics) {e : Nat} (he : e < y.count s)
    (h : ¬ t.Writes y.cells e) : y.get (t.apply s) e = y.get s e := by
  cases t with
  | change x d value =>
      exact get_setAll_frame lawful scope hy _ he fun hxy hmem => h ⟨hxy, hmem⟩
  | swap x l r =>
      exact get_setAll_frame lawful scope hy _ he fun hxy hmem => h ⟨hxy, hmem⟩
  | pillarChange x pillar value =>
      refine get_setAll_frame lawful scope hy _ he fun hxy hmem => h ⟨hxy, ?_⟩
      simpa [entities] using hmem
  | pillarSwap x left right =>
      cases left with
      | nil => rfl
      | cons l ls =>
          cases right with
          | nil => rfl
          | cons r rs =>
              refine get_setAll_frame lawful scope hy _ he fun hxy hmem => ?_
              exact h ⟨hxy, List.cons_ne_nil l ls, List.cons_ne_nil r rs, by
                simpa using hmem⟩
  | segmentChange x _ _ _ | segmentSwap x _ _ _ | tailSwap x _ _
  | restore x _ =>
      rw [apply_eq_setAllLinks (x := x) rfl]
      exact (lawful.kinds_apart y hy x scope).2.get_setAll _ he

/-- A step touches what it writes and nothing else. -/
theorem untouched_step (lawful : vs.Lawful) {t : Step S V} (scope : t.Over vs)
    (h : Untouched vs written s s') :
    Untouched vs (fun c e => written c e ∨ t.Writes c e) s (t.apply s') where
  count x hx := (count_apply lawful scope hx).trans (h.count x hx)
  get x hx e he hnot := by
    obtain ⟨hwritten, hwrites⟩ := not_or.mp hnot
    rw [get_apply_of_not_writes lawful scope hx
      (by rw [h.count x hx]; exact he) hwrites]
    exact h.get x hx e he hwritten

omit [Planning S Sc] in
theorem untouched_refl (s : S) : Untouched vs written s s :=
  ⟨fun _ _ => rfl, fun _ _ _ _ _ => rfl⟩

-- ================================================================ pillars

omit [Planning S Sc] in
/-- A pillar that holds one value keeps it until it is written into. -/
theorem sharesValue_of_untouched (h : Untouched vs written s s')
    {x : BasicVariable S V} (hx : x ∈ vs.basics) {pillar : List Nat}
    (inRange : ∀ e ∈ pillar, e < x.count s)
    (calm : ∀ e ∈ pillar, ¬ written x.cells e)
    (agree : SharesValue same x s pillar) : SharesValue same x s' pillar := by
  obtain ⟨value, hvalue⟩ := agree
  refine ⟨value, fun e he => ?_⟩
  rw [h.get x hx e (inRange e he) (calm e he)]
  exact hvalue e he

omit [Planning S Sc] in
/-- A component whose pillars are undisturbed meets them as it was made for. -/
theorem pillarsAgree_of_untouched (h : Untouched vs written s s') {t : Step S V}
    (made : t.Made vs same s) (inRange : t.InRange s)
    (calm : ¬ t.Disturbed written) : t.PillarsAgree same s' := by
  cases t with
  | pillarChange x pillar value =>
      exact sharesValue_of_untouched h made.scope inRange
        (fun e he hwritten => calm ⟨e, he, hwritten⟩) made.agree
  | pillarSwap x left right =>
      have hcalm : ∀ e ∈ left ++ right, ¬ written x.cells e :=
        fun e he hwritten => calm ⟨e, he, hwritten⟩
      exact ⟨sharesValue_of_untouched h made.scope
          (fun e he => inRange e (List.mem_append_left _ he))
          (fun e he => hcalm e (List.mem_append_left _ he)) made.agree.1,
        sharesValue_of_untouched h made.scope
          (fun e he => inRange e (List.mem_append_right _ he))
          (fun e he => hcalm e (List.mem_append_right _ he)) made.agree.2⟩
  | change | swap | segmentChange | segmentSwap | tailSwap | restore => trivial

/-- It is enough to ask that the pillars written into agree. -/
theorem pillarsAgreeInTurn_of_eachTurn (lawful : vs.Lawful)
    (ts : List (Step S V)) (h : Untouched vs written s s')
    (made : ∀ t ∈ ts, t.Made vs same s) (inRange : ∀ t ∈ ts, t.InRange s)
    (agree : EachTurn (fun written t s => t.Disturbed written →
        t.PillarsAgree same s)
      written ts s') :
    PillarsAgreeInTurn same ts s' := by
  induction ts generalizing s' written with
  | nil => trivial
  | cons t rest ih =>
      have ht := made t (List.mem_cons_self ..)
      have hrest := ih (untouched_step lawful ht.scope h)
        (fun u hu => made u (List.mem_cons_of_mem _ hu))
        (fun u hu => inRange u (List.mem_cons_of_mem _ hu)) agree.2
      refine ⟨?_, hrest⟩
      -- pillars that nothing was written into are as the step was made for
      by_cases hdisturbed : t.Disturbed written
      · exact agree.1 hdisturbed
      · exact pillarsAgree_of_untouched h ht
          (inRange t (List.mem_cons_self ..)) hdisturbed

end Step

-- ================================================================== undoing

/-- A pillar component of the move that meets a pillar into which an earlier
component has written meets pillars that hold one value each. -/
def Move.DisturbedAgree (same : Setoid (Option V)) (m : Move S V)
    (s : S) : Prop :=
  Step.EachTurn (fun written t s => t.Disturbed written → t.PillarsAgree same s)
    (fun _ _ => False) m.steps s

variable [Planning S Sc] [BEq V] {D : Type} [Director D S Sc] [LawfulDirector D]

/-- The undo of a move of a pass restores the solution of the pass, if no
component of the move spoils a pillar for a later one. -/
theorem SelectorConfig.undo_of_yields (lawful : vs.Lawful)
    (beq : ∀ a b : Option V, (a == b) = true → same.r a b)
    {config : SelectorConfig} {c : SelectorContext S V} {outside : UInt64}
    {built : BuiltSelector S V} (d : D)
    (scope : c.Over vs same (Director.working d))
    (hbuild : config.build c outside = .ok built) {m : Move S V}
    (hm : built.selector.Yields (Director.working d) m)
    (inRange : m.InRange (Director.working d))
    (agree : m.DisturbedAgree same (Director.working d)) :
    (m.run : Act D Unit).Leads (¬ Director.Quiet d) d fun _ done =>
      (m.undo (Director.working d)).run.Leads (¬ Director.Quiet d) done
        fun _ undone =>
        vs.Same same (Director.working undone) (Director.working d) := by
  have made := made_of_yields beq scope hbuild hm
  have hover : m.Over vs := fun t ht => (made t ht).scope
  have hagree : m.PillarsAgree same (Director.working d) :=
    Step.pillarsAgreeInTurn_of_eachTurn lawful m.steps (Step.untouched_refl _)
      made inRange agree
  obtain ⟨inv, hd, calls⟩ := Director.exists_announced d
  refine (m.leads_run_undo calls hd).mono ?_ id
  intro _ done h
  obtain ⟨-, hundo⟩ := h
  refine hundo.mono ?_ id
  intro _ undone h
  obtain ⟨-, hback⟩ := h
  rw [hback]
  exact Move.undo_apply lawful hover inRange hagree

-- ===================================================== dependent children

namespace Tasks

/-- The context of the tasks, without factories. -/
def context : SelectorContext Tasks Int :=
  ⟨world.basics, [], Registry.empty, some 0⟩

theorem over_context (same : Setoid (Option Int)) (s : Tasks) :
    context.Over world.variables same s where
  basics _ hb := List.mem_map_of_mem hb
  chained _ hx := nomatch hx
  lists _ hentry := nomatch hentry
  sources _ hentry := nomatch hentry

/-- Changes of single tasks, each combined with a move of another child. -/
def changesBeside (child : LeafConfig) : SelectorConfig :=
  .product .unset [.ofVariable "priority", .leaf .unset child] none

/-- A change of the first task and one of the pillar it belongs to. -/
def changeWithin (value pillarValue : Int) : Move Tasks Int :=
  .composite [.step (.change priority 0 (some value)),
    .step (.pillarChange priority [0, 1] (some pillarValue))]

theorem over_changeWithin (value pillarValue : Int) (s : Tasks)
    (h : 2 ≤ s.priorities.length) :
    (changeWithin value pillarValue).InRange s := by
  intro t ht
  rcases List.mem_cons.mp ht with rfl | ht
  · intro e he
    rw [List.mem_singleton.mp he]
    show 0 < s.priorities.length
    omega
  · rw [List.mem_singleton.mp ht]
    intro e he
    show e < s.priorities.length
    simp only [Step.entities, List.mem_cons, List.not_mem_nil, or_false] at he
    omega

end Tasks

/-- An instance where a component writes into the pillar of a later one and
leaves it as it was: the pillar still agrees. -/
theorem SelectorConfig.undo_of_yields_within :
    let s : Tasks := ⟨[some 1, some 1], none⟩
    let m := Tasks.changeWithin 1 2
    let d := FullDirector.start Tasks.world.score s
    let tree := Tasks.changesBeside (.pillarChange none none (some "priority"))
    (∃ built, tree.build Tasks.context 0 = .ok built ∧
      built.selector.Yields s m) ∧
      m.DisturbedAgree (literal (Option Int)) s ∧
      (m.run : Act (FullDirector Tasks HardSoft) Unit).Leads
        (¬ Director.Quiet d) d
        fun _ done => (m.undo s).run.Leads (¬ Director.Quiet d) done
            fun _ undone =>
          Tasks.world.variables.Same (literal (Option Int))
              undone.working s := by
  intro s m d tree
  have hbuild : ∃ built, tree.build Tasks.context 0 = .ok built ∧
      built.selector.Yields s m := by
    refine ⟨_, rfl, 10, [], _, _, rfl, ?_⟩
    refine .later (show ExceptT.run (Reading.next s 1 _) [] = _ from rfl) ?_
    exact .now (show ExceptT.run (Reading.next s 1 _) [] = _ from rfl)
  have agree : m.DisturbedAgree (literal (Option Int)) s := by
    refine ⟨fun h => (nomatch h), fun _ => ⟨some 1, ?_⟩, trivial⟩
    intro e he
    rcases List.mem_cons.mp he with rfl | he
    · rfl
    · rw [List.mem_singleton.mp he]
      rfl
  obtain ⟨built, htree, hm⟩ := hbuild
  exact ⟨⟨built, htree, hm⟩, agree,
    undo_of_yields Tasks.lawful (fun _ _ => eq_of_beq) d
      (Tasks.over_context _ s) htree hm
      (Tasks.over_changeWithin 1 2 s (by decide)) agree⟩

/-- Children of a product that meet in a pillar: the change makes the pillar
differ, the pillar change makes it one again, and the undo of the pillar
change cannot tell the two values apart. -/
theorem SelectorConfig.undo_misses_within :
    let s : Tasks := ⟨[some 1, some 1], none⟩
    let m := Tasks.changeWithin 2 1
    let d := FullDirector.start Tasks.world.score s
    let tree := Tasks.changesBeside (.pillarChange none none (some "priority"))
    (Tasks.world.variables.Lawful ∧
      Tasks.context.Over Tasks.world.variables (literal _) s ∧
      m.InRange s ∧
      ∃ built, tree.build Tasks.context 0 = .ok built ∧
        built.selector.Yields s m) ∧
    (m.run : Act (FullDirector Tasks HardSoft) Unit).Leads False d
      fun _ done => (m.undo s).run.Leads False done fun _ undone =>
        ¬ Tasks.world.variables.Same (literal (Option Int))
            undone.working s := by
  intro s m d tree
  refine ⟨⟨Tasks.lawful, Tasks.over_context _ s,
    Tasks.over_changeWithin 2 1 s (by decide), ⟨_, rfl, 10, [], _, _, rfl, ?_⟩⟩,
    ?_⟩
  · refine .later (show ExceptT.run (Reading.next s 1 _) [] = _ from rfl) ?_
    refine .later (show ExceptT.run (Reading.next s 1 _) [] = _ from rfl) ?_
    refine .later (show ExceptT.run (Reading.next s 1 _) [] = _ from rfl) ?_
    exact .now (show ExceptT.run (Reading.next s 1 _) [] = _ from rfl)
  · obtain ⟨inv, hd, calls⟩ := FullDirector.quiet d
    refine (m.leads_run_undo calls hd).mono ?_ id
    intro _ done h
    obtain ⟨-, hundo⟩ := h
    refine hundo.mono ?_ id
    intro _ undone h hsame
    obtain ⟨-, hback⟩ := h
    -- the second task started with 1 and has come out with the 2 of the first
    have hone := (hsame.values Tasks.priority (List.mem_singleton.mpr rfl)).get
      1 (by decide)
    rw [show undone.working = ⟨[some 1, some 2], none⟩ from hback] at hone
    exact absurd (Option.some.inj hone) (by decide)

end PlanSearch

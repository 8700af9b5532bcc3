/-
Undoing a move: the undo a move gives restores the state it was taken in,
whatever state that is.

# What a step does

In one state every step is a row of writes to one variable, so a step and
its undo are two rows of writes to the same entities. `Lawful.same_restore`
says when the second row takes back the first: when it writes to each of
those entities what the entity held before. For steps on single entities
and on chains this is so by construction, in every state. For pillars it
is not: a pillar step writes one value to all of its entities, and its
undo one value again, so what differed within the pillar is lost. That the
entities of a pillar share a value (`Step.PillarsAgree`) is thus the one
thing asked of the state.

# Sequences

The undo of a sequence is replayed backwards through the very states the
sequence went through (`undoSteps_apply`, by induction on the steps, with
`apply_congr` to carry "holds the same" through the undos that follow).
The undos find their pillars agreeing in turn (`pillarsAgreeInTurn_undoSteps`),
so undoing an undo is an instance of undoing.
-/
import PlanSearch.Move.Run
import PlanSearch.Proofs.Variables

namespace PlanSearch

variable {S V Sc : Type} {vs : Variables S V} {same : Setoid (Option V)}
  {s s' : S}

-- ====================================================== taking back writes

namespace Variables

variable [Planning S Sc]

/-- A second row of writes takes back the first: it covers every entity
written and writes there what was held. -/
theorem Lawful.same_restore (lawful : vs.Lawful) {x : BasicVariable S V}
    (hx : x ∈ vs.basics) (new old : List (Nat × Option V)) (s : S)
    (covers : ∀ e ∈ new.map Prod.fst, e ∈ old.map Prod.fst)
    (held : ∀ change ∈ old, change.1 < x.count s →
      same.r change.2 (x.get s change.1)) :
    vs.Same same (x.setAll (x.setAll s new) old) s := by
  have own := lawful.values x hx
  rw [← x.setAll_append]
  refine lawful.same_setAll hx _ fun e he => ?_
  rw [x.setAll_append]
  have hcount : e < x.cells.count (x.cells.setAll s new) := by
    rw [own.count_setAll]
    exact he
  -- the second row writes what was held, and what it does not write the
  -- first row has not written either
  by_cases hmem : e ∈ old.map Prod.fst
  · refine own.get_setAll_of_mem (same.r · (x.get s e)) old hcount hmem ?_
    intro change hchange g
    subst g
    exact held change hchange he
  · exact related_of_eq ((own.get_setAll_of_notMem old hcount hmem).trans
      (own.get_setAll_of_notMem new he fun h => hmem (covers e h)))

/-- The same for links, which are always written back as they were read. -/
theorem Lawful.same_restoreLinks (lawful : vs.Lawful) {x : ChainedVariable S}
    (hx : x ∈ vs.chained) (new : LinkChanges) (s : S) :
    vs.Same same (x.setAll (x.setAll s new)
      (x.held s (new.map Prod.fst))) s := by
  have own := lawful.links x hx
  have hheld := x.map_fst_held s (new.map Prod.fst)
  rw [← x.setAll_append]
  refine lawful.same_setAllLinks hx _ fun e he => ?_
  rw [x.setAll_append]
  have hcount : e < x.cells.count (x.cells.setAll s new) := by
    rw [own.count_setAll]
    exact he
  by_cases hmem : e ∈ new.map Prod.fst
  · exact own.get_setAll_map (x.get s) hcount hmem
  · exact (own.get_setAll_of_notMem _ hcount (by rw [hheld]; exact hmem)).trans
      (own.get_setAll_of_notMem new he hmem)

end Variables

-- ============================================================ vocabulary

/-- The entities of a pillar hold one value. -/
def SharesValue (same : Setoid (Option V)) (x : BasicVariable S V) (s : S)
    (pillar : List Nat) : Prop :=
  ∃ value, ∀ e ∈ pillar, same.r (x.get s e) value

namespace Step

/-- The step is about a variable of the family. -/
def Over (vs : Variables S V) : Step S V → Prop
  | change x _ _ | swap x _ _ | pillarChange x _ _ | pillarSwap x _ _ =>
      x ∈ vs.basics
  | segmentChange x _ _ _ | segmentSwap x _ _ _ | tailSwap
      x _ _ | restore x _ =>
    x ∈ vs.chained

/-- The entities that the step names exist. Chain steps need no such
promise: what they write, they read where they write it. -/
def InRange (t : Step S V) (s : S) : Prop :=
  match t with
  | change x _ _ | swap x _ _ | pillarChange x _ _ | pillarSwap x _ _ =>
    ∀ e ∈ t.entities, e < x.count s
  | _ => True

/-- Each pillar of the step holds one value. -/
def PillarsAgree (same : Setoid (Option V)) (t : Step S V) (s : S) : Prop :=
  match t with
  | pillarChange x pillar _ => SharesValue same x s pillar
  | pillarSwap x left right =>
      SharesValue same x s left ∧ SharesValue same x s right
  | _ => True

/-- The steps of a sequence, one after the other. -/
def applyAll (ts : List (Step S V)) (s : S) : S :=
  ts.foldl (fun s t => t.apply s) s

/-- Each step that is about pillars meets, at its turn, pillars that hold
one value each. -/
def PillarsAgreeInTurn (same : Setoid (Option V)) : List (Step S V) → S → Prop
  | [], _ => True
  | t :: rest, s =>
      t.PillarsAgree same s ∧ PillarsAgreeInTurn same rest (t.apply s)

/-- The undos of a sequence, the last step's first, each taken in the state
its step meets. -/
def undoSteps : List (Step S V) → S → List (Step S V)
  | [], _ => []
  | t :: rest, s => undoSteps rest (t.apply s) ++ [t.undo s]

-- ============================================================ one step

/-- A chain step writes its link changes, if there are any. -/
theorem apply_eq_setAllLinks {t : Step S V} {x : ChainedVariable S}
    {changes : LinkChanges} (h : t.batch? s = x.batch? s changes) :
    t.apply s = x.setAll s changes := by
  unfold apply
  rw [h]
  unfold ChainedVariable.batch?
  cases changes with
  | nil => rfl
  | cons change rest => rfl

/-- The links a chain step writes are planned from the chains, which
solutions that hold the same share. -/
theorem linkChanges_congr (h : vs.Same same s s') {t : Step S V}
    (scope : t.Over vs) : t.linkChanges s = t.linkChanges s' := by
  cases t with
  | change | swap | pillarChange | pillarSwap | restore => rfl
  | segmentChange x _ _ _ | segmentSwap x _ _ _ | tailSwap x _ _ =>
      simp only [linkChanges, linkPlan, plan, h.index_eq scope]

theorem sharesValue_congr (h : vs.Same same s s') {x : BasicVariable S V}
    (hx : x ∈ vs.basics) {pillar : List Nat}
    (inRange : ∀ e ∈ pillar, e < x.count s')
    (agree : SharesValue same x s pillar) : SharesValue same x s' pillar := by
  obtain ⟨value, hvalue⟩ := agree
  exact ⟨value, fun e he =>
    same.trans (same.symm ((h.values x hx).get e (inRange e he))) (hvalue e he)⟩

theorem inRange_congr (h : vs.Same same s s') {t : Step S V}
    (scope : t.Over vs) : t.InRange s ↔ t.InRange s' := by
  cases t with
  | change x _ _ | swap x _ _ | pillarChange x _ _ | pillarSwap x _ _ =>
      have hcount : x.count s = x.count s' := (h.values x scope).count
      simp only [InRange, hcount]
  | segmentChange | segmentSwap | tailSwap | restore => exact Iff.rfl

theorem pillarsAgree_congr (h : vs.Same same s s') {t :
      Step S V} (scope : t.Over vs)
    (inRange : t.InRange s') (agree : t.PillarsAgree same s) :
    t.PillarsAgree same s' := by
  cases t with
  | pillarChange x pillar value => exact sharesValue_congr h scope inRange agree
  | pillarSwap x left right =>
      exact ⟨sharesValue_congr h scope
          (fun e he => inRange e (List.mem_append_left _ he)) agree.1,
        sharesValue_congr h scope
          (fun e he => inRange e (List.mem_append_right _ he)) agree.2⟩
  | change | swap | segmentChange | segmentSwap | tailSwap | restore => trivial

variable [Planning S Sc]

/-- A step writes the same into solutions that hold the same. -/
theorem apply_congr (lawful : vs.Lawful) (h : vs.Same same s s') {t : Step S V}
    (scope : t.Over vs) (inRange : t.InRange s') :
    vs.Same same (t.apply s) (t.apply s') := by
  cases t with
  | change x e value =>
      exact h.setAll lawful scope (.cons ⟨rfl, same.refl _⟩ .nil)
  | swap x left right =>
      have hleft := (h.values x scope).get left
        (inRange left (by simp [entities]))
      have hright := (h.values x scope).get right
        (inRange right (by simp [entities]))
      exact h.setAll lawful scope
        (.cons ⟨rfl, hright⟩ (.cons ⟨rfl, hleft⟩ .nil))
  | pillarChange x pillar value =>
      refine h.setAll lawful scope ?_
      rw [List.forall₂_map_left_iff, List.forall₂_map_right_iff,
        List.forall₂_same]
      exact fun _ _ => ⟨rfl, same.refl _⟩
  | pillarSwap x left right =>
      cases left with
      | nil => exact h
      | cons l ls =>
          cases right with
          | nil => exact h
          | cons r rs =>
              have hl :=
                (h.values x scope).get l (inRange l (by simp [entities]))
              have hr :=
                (h.values x scope).get r (inRange r (by simp [entities]))
              refine h.setAll lawful scope (List.rel_append ?_ ?_)
              · rw [List.forall₂_map_left_iff, List.forall₂_map_right_iff,
                  List.forall₂_same]
                exact fun _ _ => ⟨rfl, hr⟩
              · rw [List.forall₂_map_left_iff, List.forall₂_map_right_iff,
                  List.forall₂_same]
                exact fun _ _ => ⟨rfl, hl⟩
  | segmentChange x _ _ _ | segmentSwap x _ _ _ | tailSwap x _ _
  | restore x _ =>
      have hchanges := linkChanges_congr h scope
      rw [apply_eq_setAllLinks (x := x) rfl,
        apply_eq_setAllLinks (x := x) rfl, hchanges]
      exact h.setAllLinks lawful scope _

/-- A pillar swap gives the left pillar the value of the right one. -/
theorem get_pillarSwap_left (lawful : vs.Lawful) {x : BasicVariable S V}
    (hx : x ∈ vs.basics) {l r : Nat} {ls rs : List Nat}
    (inRange : ∀ e ∈ l :: ls, e < x.count s)
    (agree : (Step.pillarSwap x (l :: ls) (r :: rs)).PillarsAgree same s) :
    ∀ e ∈ l :: ls,
      same.r (x.get ((Step.pillarSwap x (l :: ls) (r :: rs)).apply s) e)
        (x.get s r) := by
  intro e he
  have own := lawful.values x hx
  obtain ⟨⟨v, hv⟩, ⟨w, hw⟩⟩ := agree
  show same.r (x.get (x.setAll s _) e) (x.get s r)
  rw [x.setAll_append]
  have hcount : e < x.cells.count
      (x.cells.setAll s ((l :: ls).map (·, x.get s r))) := by
    rw [own.count_setAll]
    exact inRange e he
  refine own.get_setAll_of_held (same.r · (x.get s r)) _ hcount ?_ ?_
  · exact related_of_eq
      (own.get_setAll_map (fun _ => x.get s r) (inRange e he) he)
  · -- an entity of both pillars holds both values, so these are the same
    intro change hchange hfst
    obtain ⟨d, hd, rfl⟩ := List.mem_map.mp hchange
    have hde : d = e := hfst
    subst hde
    have hvw : same.r v w := same.trans (same.symm (hv d he)) (hw d hd)
    exact same.trans (same.trans (hv l (List.mem_cons_self ..)) hvw)
      (same.symm (hw r (List.mem_cons_self ..)))

/-- And the right one that of the left. -/
theorem get_pillarSwap_right (lawful : vs.Lawful) {x : BasicVariable S V}
    (hx : x ∈ vs.basics) {l r : Nat} {ls rs : List Nat}
    (inRange : ∀ e ∈ r :: rs, e < x.count s) : ∀ e ∈ r :: rs,
      x.get ((Step.pillarSwap x (l :: ls) (r :: rs)).apply s) e
        = x.get s l := by
  intro e he
  have own := lawful.values x hx
  show x.get (x.setAll s _) e = x.get s l
  rw [x.setAll_append]
  have hcount : e < x.cells.count
      (x.cells.setAll s ((l :: ls).map (·, x.get s r))) := by
    rw [own.count_setAll]
    exact inRange e he
  exact own.get_setAll_map (fun _ => x.get s l) hcount he

/-- A step adds and removes no entity. -/
theorem count_apply (lawful : vs.Lawful) {t : Step S V} (scope : t.Over vs)
    {y : BasicVariable S V} (hy : y ∈ vs.basics) :
    y.count (t.apply s) = y.count s := by
  cases t with
  | change x _ _ | swap x _ _ | pillarChange x _ _ =>
      exact lawful.count_setAll scope hy _ s
  | pillarSwap x left right =>
      cases left with
      | nil => rfl
      | cons l ls =>
          cases right with
          | nil => rfl
          | cons r rs => exact lawful.count_setAll scope hy _ s
  | segmentChange x _ _ _ | segmentSwap x _ _ _ | tailSwap x _ _
  | restore x _ =>
      rw [apply_eq_setAllLinks (x := x) rfl]
      exact (lawful.kinds_apart y hy x scope).2.count_setAll _ s

/-- A step leaves entities in range that are. -/
theorem inRange_apply (lawful : vs.Lawful) {t u : Step S V} (ht : t.Over vs)
    (hu : u.Over vs) : u.InRange (t.apply s) ↔ u.InRange s := by
  cases u with
  | change x _ _ | swap x _ _ | pillarChange x _ _ | pillarSwap x _ _ =>
      have hcount : x.count (t.apply s) = x.count s := count_apply lawful ht hu
      simp only [InRange, hcount]
  | segmentChange | segmentSwap | tailSwap | restore => exact Iff.rfl

-- ======================================================= undoing one step

omit [Planning S Sc] in
/-- The undo of a step is about the same variable. -/
theorem over_undo {t : Step S V} (scope : t.Over vs) : (t.undo s).Over vs := by
  cases t <;> exact scope

omit [Planning S Sc] in
/-- The undo of a step is about the same entities. -/
theorem inRange_undo {t : Step S V} (inRange : t.InRange s') :
    (t.undo s).InRange s' := by
  cases t with
  | change | swap | pillarChange | pillarSwap => exact inRange
  | segmentChange | segmentSwap | tailSwap | restore => trivial

/-- After a swap the right entity holds what the left one held. -/
theorem get_swap_right (lawful : vs.Lawful) {x : BasicVariable S V}
    (hx : x ∈ vs.basics) {l r : Nat} (hr : r < x.count s) :
    x.get ((Step.swap x l r).apply s) r = x.get s l := by
  refine (lawful.values x hx).get_setAll_of_mem (· = x.get s l) _
    hr (by simp) ?_
  intro change hchange hfst
  rcases List.mem_cons.mp hchange with rfl | hchange
  · exact congrArg (x.get s) hfst.symm
  · rw [List.mem_singleton.mp hchange]

/-- And the left one what the right one held. -/
theorem get_swap_left (lawful : vs.Lawful) {x : BasicVariable S V}
    (hx : x ∈ vs.basics) {l r : Nat} (hl : l < x.count s) :
    x.get ((Step.swap x l r).apply s) l = x.get s r := by
  refine (lawful.values x hx).get_setAll_of_mem (· = x.get s r) _
    hl (by simp) ?_
  intro change hchange hfst
  rcases List.mem_cons.mp hchange with rfl | hchange
  · rfl
  · rw [List.mem_singleton.mp hchange] at hfst ⊢
    exact congrArg (x.get s) hfst.symm

/-- A pillar swap is its own undo: the second one finds the values that the
first one has exchanged. -/
theorem undo_apply_pillarSwap (lawful : vs.Lawful) {x : BasicVariable S V}
    (hx : x ∈ vs.basics) {l r : Nat} {ls rs : List Nat}
    (hleft : ∀ e ∈ l :: ls, e < x.count s)
    (hright : ∀ e ∈ r :: rs, e < x.count s)
    (agree : (Step.pillarSwap x (l :: ls) (r :: rs)).PillarsAgree same s) :
    vs.Same same ((Step.pillarSwap x (l :: ls) (r :: rs)).apply
      ((Step.pillarSwap x (l :: ls) (r :: rs)).apply s)) s := by
  have hl := get_pillarSwap_left lawful hx hleft agree l (List.mem_cons_self ..)
  have hr : x.get ((Step.pillarSwap x (l :: ls) (r :: rs)).apply s) r
      = x.get s l :=
    get_pillarSwap_right lawful hx hright r (List.mem_cons_self ..)
  obtain ⟨⟨v, hv⟩, ⟨w, hw⟩⟩ := agree
  refine lawful.same_restore hx
    ((l :: ls).map (·, x.get s r) ++ (r :: rs).map (·, x.get s l))
    ((l :: ls).map (·,
      x.get ((Step.pillarSwap x (l :: ls) (r :: rs)).apply s) r) ++
      (r :: rs).map (·,
        x.get ((Step.pillarSwap x (l :: ls) (r :: rs)).apply s) l))
    s (fun _ h => by simpa using h) ?_
  intro change hchange _
  -- on the left the second swap reads what the first has put on the right,
  -- and the other way around
  rcases List.mem_append.mp hchange with h | h
  · obtain ⟨e, he, rfl⟩ := List.mem_map.mp h
    rw [hr]
    exact same.trans (hv l (List.mem_cons_self ..)) (same.symm (hv e he))
  · obtain ⟨e, he, rfl⟩ := List.mem_map.mp h
    exact same.trans hl
      (same.trans (hw r (List.mem_cons_self ..)) (same.symm (hw e he)))

/-- The undo of a step takes it back, if its pillars agree. -/
theorem undo_apply (lawful : vs.Lawful) {t : Step S V} (scope : t.Over vs)
    (inRange : t.InRange s) (agree : t.PillarsAgree same s) :
    vs.Same same ((t.undo s).apply (t.apply s)) s := by
  cases t with
  | change x e value =>
      refine lawful.same_restore scope [(e, value)] [(e, x.get s e)] s
        (fun _ h => h) ?_
      intro change hchange _
      have hchange := List.mem_singleton.mp hchange
      exact related_of_eq (by rw [hchange])
  | swap x l r =>
      have hl := get_swap_left lawful scope (r := r)
        (inRange l (by simp [entities]))
      have hr := get_swap_right lawful scope (l := l)
        (inRange r (by simp [entities]))
      refine lawful.same_restore scope [(l, x.get s r), (r, x.get s l)]
        [(l, x.get ((Step.swap x l r).apply s) r),
          (r, x.get ((Step.swap x l r).apply s) l)] s
        (fun _ h => h) ?_
      intro change hchange _
      rcases List.mem_cons.mp hchange with rfl | hchange
      · exact related_of_eq hr
      · rw [List.mem_singleton.mp hchange]
        exact related_of_eq hl
  | pillarChange x pillar value =>
      refine lawful.same_restore scope (pillar.map (·, value))
        (pillar.map (·, pillar.head?.bind (x.get s))) s (fun _ h => by
          simpa using h) ?_
      intro change hchange _
      obtain ⟨e, he, rfl⟩ := List.mem_map.mp hchange
      obtain ⟨v, hv⟩ := agree
      cases pillar with
      | nil => cases he
      | cons head rest =>
          exact same.trans (hv head (List.mem_cons_self ..))
            (same.symm (hv e he))
  | pillarSwap x left right =>
      cases left with
      | nil => exact Variables.Same.refl s
      | cons l ls =>
          cases right with
          | nil => exact Variables.Same.refl s
          | cons r rs =>
              exact undo_apply_pillarSwap lawful scope
                (fun e he => inRange e (List.mem_append_left _ he))
                (fun e he => inRange e (List.mem_append_right _ he)) agree
  | segmentChange x _ _ _ | segmentSwap x _ _ _ | tailSwap x _ _
  | restore x _ =>
      rw [apply_eq_setAllLinks (x := x) rfl, apply_eq_setAllLinks (x := x) rfl]
      exact lawful.same_restoreLinks scope _ s

/-- What a pillar step leaves behind agrees again, so that its undo can be
undone. -/
theorem pillarsAgree_undo (lawful : vs.Lawful) {t : Step S V}
    (scope : t.Over vs) (inRange : t.InRange s)
    (agree : t.PillarsAgree same s) :
    (t.undo s).PillarsAgree same (t.apply s) := by
  cases t with
  | pillarChange x pillar value =>
      refine ⟨value, fun e he => related_of_eq ?_⟩
      exact (lawful.values x scope).get_setAll_map (fun _ => value)
        (inRange e he) he
  | pillarSwap x left right =>
      cases left with
      | nil => exact agree
      | cons l ls =>
          cases right with
          | nil => exact agree
          | cons r rs =>
              refine ⟨⟨x.get s r, get_pillarSwap_left lawful scope ?_ agree⟩,
                ⟨x.get s l, fun e he => ?_⟩⟩
              · exact fun e he => inRange e (List.mem_append_left _ he)
              · exact related_of_eq (get_pillarSwap_right lawful scope
                  (fun d hd => inRange d (List.mem_append_right _ hd)) e he)
  | change | swap | segmentChange | segmentSwap | tailSwap | restore => trivial

-- ============================================================= sequences

omit [Planning S Sc] in
theorem applyAll_append (first second : List (Step S V)) (s : S) :
    applyAll (first ++ second) s = applyAll second (applyAll first s) :=
  List.foldl_append

/-- Steps leave entities in range that are. -/
theorem inRange_applyAll (lawful : vs.Lawful) (ts : List (Step S V))
    (scope : ∀ t ∈ ts, t.Over vs) {u : Step S V} (hu : u.Over vs) :
    u.InRange (applyAll ts s) ↔ u.InRange s := by
  induction ts generalizing s with
  | nil => exact Iff.rfl
  | cons t rest ih =>
      show u.InRange (applyAll rest (t.apply s)) ↔ u.InRange s
      rw [ih fun v hv => scope v (List.mem_cons_of_mem _ hv),
        inRange_apply lawful (scope t (List.mem_cons_self ..)) hu]

omit [Planning S Sc] in
/-- Pillars agree in turn along both parts of a list of steps. -/
theorem pillarsAgreeInTurn_append (first second : List (Step S V)) (s : S) :
    PillarsAgreeInTurn same (first ++ second) s ↔
      PillarsAgreeInTurn same first s ∧
      PillarsAgreeInTurn same second (applyAll first s) := by
  induction first generalizing s with
  | nil => exact ⟨fun h => ⟨trivial, h⟩, fun h => h.2⟩
  | cons t rest ih =>
      show t.PillarsAgree same s ∧
        PillarsAgreeInTurn same (rest ++ second) (t.apply s) ↔ _
      rw [ih, ← and_assoc]
      exact Iff.rfl

/-- What is done last is undone first. -/
theorem undoSteps_append (first second : List (Step S V)) (s : S) :
    undoSteps (first ++ second) s
      = undoSteps second (applyAll first s) ++ undoSteps first s := by
  induction first generalizing s with
  | nil => exact (List.append_nil _).symm
  | cons t rest ih =>
      show undoSteps (rest ++ second) (t.apply s) ++ [t.undo s] = _
      rw [ih, List.append_assoc]
      rfl

/-- The undos of a sequence are about the variables of its steps. -/
theorem over_undoSteps (ts : List (Step S V)) (s : S)
    (scope : ∀ t ∈ ts, t.Over vs) : ∀ u ∈ undoSteps ts s, u.Over vs := by
  induction ts generalizing s with
  | nil => exact fun u hu => nomatch hu
  | cons t rest ih =>
      intro u hu
      rcases List.mem_append.mp hu with hu | hu
      · exact ih (t.apply s)
          (fun v hv => scope v (List.mem_cons_of_mem _ hv)) u hu
      · rw [List.mem_singleton.mp hu]
        exact over_undo (scope t (List.mem_cons_self ..))

/-- The undo of steps is about the same entities. -/
theorem inRange_undoSteps (ts : List (Step S V)) (s : S)
    (inRange : ∀ t ∈ ts, t.InRange s') :
    ∀ u ∈ undoSteps ts s, u.InRange s' := by
  induction ts generalizing s with
  | nil => exact fun u hu => nomatch hu
  | cons t rest ih =>
      intro u hu
      rcases List.mem_append.mp hu with hu | hu
      · exact ih (t.apply s)
          (fun v hv => inRange v (List.mem_cons_of_mem _ hv)) u hu
      · rw [List.mem_singleton.mp hu]
        exact inRange_undo (inRange t (List.mem_cons_self ..))

/-- The undos of a sequence take it back. The undos of the later steps
restore, up to `same`, the state that the first step left; from there its
own undo restores the start. -/
theorem undoSteps_apply (lawful : vs.Lawful) (ts : List (Step S V)) (s : S)
    (scope : ∀ t ∈ ts, t.Over vs) (inRange : ∀ t ∈ ts, t.InRange s)
    (agree : PillarsAgreeInTurn same ts s) :
    vs.Same same (applyAll (undoSteps ts s) (applyAll ts s)) s := by
  induction ts generalizing s with
  | nil => exact Variables.Same.refl s
  | cons t rest ih =>
      have ht := scope t (List.mem_cons_self ..)
      have hover : ∀ u ∈ rest, u.Over vs :=
        fun u hu => scope u (List.mem_cons_of_mem _ hu)
      have hrange : ∀ u ∈ rest, u.InRange (t.apply s) := fun u hu =>
        (inRange_apply lawful ht (hover u hu)).mpr
          (inRange u (List.mem_cons_of_mem _ hu))
      -- the undos of the later steps lead back to where this step left off
      have later : vs.Same same
          (applyAll (undoSteps rest (t.apply s)) (applyAll rest (t.apply s)))
              (t.apply s) :=
        ih (t.apply s) hover hrange agree.2
      show vs.Same same
        (applyAll (undoSteps rest (t.apply s) ++ [t.undo s])
          (applyAll rest (t.apply s))) s
      rw [applyAll_append]
      have hundo : (t.undo s).InRange (t.apply s) :=
        inRange_undo ((inRange_apply lawful ht ht).mpr
          (inRange t (List.mem_cons_self ..)))
      exact (apply_congr lawful later (over_undo ht) hundo).trans
        (undo_apply lawful ht (inRange t (List.mem_cons_self ..)) agree.1)

/-- Played backwards, the undos meet pillars that agree. -/
theorem pillarsAgreeInTurn_undoSteps (lawful : vs.Lawful)
    (ts : List (Step S V)) (s : S) (scope : ∀ t ∈ ts, t.Over vs)
    (inRange : ∀ t ∈ ts, t.InRange s) (agree : PillarsAgreeInTurn same ts s) :
    PillarsAgreeInTurn same (undoSteps ts s) (applyAll ts s) := by
  induction ts generalizing s with
  | nil => trivial
  | cons t rest ih =>
      have ht := scope t (List.mem_cons_self ..)
      have htRange := inRange t (List.mem_cons_self ..)
      have hover : ∀ u ∈ rest, u.Over vs :=
        fun u hu => scope u (List.mem_cons_of_mem _ hu)
      have hrange : ∀ u ∈ rest, u.InRange (t.apply s) := fun u hu =>
        (inRange_apply lawful ht (hover u hu)).mpr
          (inRange u (List.mem_cons_of_mem _ hu))
      have later : vs.Same same
          (applyAll (undoSteps rest (t.apply s)) (applyAll rest (t.apply s)))
              (t.apply s) :=
        undoSteps_apply lawful rest (t.apply s) hover hrange agree.2
      show PillarsAgreeInTurn same (undoSteps rest (t.apply s) ++ [t.undo s])
        (applyAll rest (t.apply s))
      rw [pillarsAgreeInTurn_append]
      refine ⟨ih (t.apply s) hover hrange agree.2, ?_, trivial⟩
      have hundo : (t.undo s).InRange (t.apply s) :=
        inRange_undo ((inRange_apply lawful ht ht).mpr htRange)
      -- the undo of this step has its turn last, in a solution that holds the
      -- same as the one the step left
      exact pillarsAgree_congr later.symm (over_undo ht)
        ((inRange_congr later (over_undo ht)).mpr hundo)
        (pillarsAgree_undo lawful ht htRange agree.1)

end Step

-- ================================================================ moves

namespace Move

/-- Every step is about a variable of the family. -/
def Over (vs : Variables S V) (m : Move S V) : Prop := ∀ t ∈ m.steps, t.Over vs

/-- The entities that the steps name exist. -/
def InRange (m : Move S V) (s : S) : Prop := ∀ t ∈ m.steps, t.InRange s

/-- Each pillar component meets, at its turn in the move, pillars whose
entities share one value. -/
def PillarsAgree (same : Setoid (Option V)) (m : Move S V) (s : S) : Prop :=
  Step.PillarsAgreeInTurn same m.steps s

theorem stepsOf_append (first second : List (Move S V)) :
    stepsOf (first ++ second) = stepsOf first ++ stepsOf second := by
  induction first with
  | nil => rfl
  | cons m rest ih =>
      show m.steps ++ stepsOf (rest ++ second) = _
      rw [ih, ← List.append_assoc]
      rfl

theorem stepsOf_singleton (m : Move S V) : stepsOf [m] = m.steps :=
  List.append_nil _

mutual

/-- The steps of an undo are the undos of the steps, in the states these
meet, last step first. -/
theorem undo_steps :
    ∀ (m : Move S V) (s : S), (m.undo s).steps = Step.undoSteps m.steps s
  | .step _, _ => rfl
  | .composite moves, s => undoAll_steps moves s

/-- Moves are undone step by step, whatever composites they stand in. -/
theorem undoAll_steps : ∀ (moves : List (Move S V)) (s : S),
    stepsOf (undoAll moves s) = Step.undoSteps (stepsOf moves) s
  | [], _ => rfl
  | m :: rest, s => by
      rw [undoAll, stepsOf_append, undoAll_steps rest,
        stepsOf_singleton, undo_steps m]
      exact (Step.undoSteps_append m.steps (stepsOf rest) s).symm

end

end Move

end PlanSearch

/-
Trials on a recording, and when they leave no trace.

A trial executes a move through a fresh recording, asks for scores and
takes the changes back. The way back is not the undo of the move: every
component has handed over the writes that restore what it found, and
these are played newest first. So what an entity ends up with is decided
by the component that wrote it first, and by nothing after.

# What is kept

For single entities, pillar changes and chains the writes handed over are
what was found, entity by entity, in every state. A pillar swap keeps one
value for each of its pillars, that of the first entity. It is the only
component that can leave a trace, and it does exactly where it was the
first to write an entity that held something else (`Step.Recovers`). As
long as nothing was written into its pillars it cannot, since a pillar
swap is made for pillars of one value.
-/
import PlanSearch.Proofs.Move.Turn

namespace PlanSearch

variable {S V Sc : Type} {vs : Variables S V} {same : Setoid (Option V)}
  {s s' u : S} {written : Cells S V → Nat → Prop}

-- ============================================================ vocabulary

/-- Plays undos one after the other. -/
def playBack (undos : List (S → S)) (s : S) : S :=
  undos.foldl (fun s undo => undo s) s

/-- Every value counts as the same; what remains of "the same" are the
links and the number of entities. -/
def anything (A : Type) : Setoid A :=
  ⟨fun _ _ => True, fun _ => trivial, fun _ => trivial, fun _ _ => trivial⟩

namespace Step

/-- The undo that a step hands over, if it does anything. -/
def wayBack (t : Step S V) (s : S) : List (S → S) :=
  match t.batch? s with
  | none => []
  | some b => [b.restore]

/-- The undos that a sequence hands over, newest first. -/
def waysBack : List (Step S V) → S → List (S → S)
  | [], _ => []
  | t :: rest, s => waysBack rest (t.apply s) ++ t.wayBack s

/-- The entity whose value the way back gives to an entity: itself, except
that a pillar swap gives all of a pillar the value of its first entity. -/
def source (t : Step S V) (e : Nat) : Nat :=
  match t with
  | pillarSwap _ (l :: _) (r :: rs) => if e ∈ r :: rs then r else l
  | _ => e

/-- Every entity that a pillar swap is the first to write holds what the way
back will give it. -/
def Recovers (same : Setoid (Option V)) (written : Cells S V → Nat → Prop)
    (t : Step S V) (s : S) : Prop :=
  match t with
  | pillarSwap x left right =>
    ∀ e ∈ left ++ right, ¬ written x.cells e →
      same.r (x.get s (t.source e)) (x.get s e)
  | _ => True

/-- The basic variables hold the same, apart from what was written before. -/
def ValuesAgree (vs : Variables S V) (same : Setoid (Option V))
    (written : Cells S V → Nat → Prop) (u s : S) : Prop :=
  ∀ x ∈ vs.basics, ∀ e < x.count s, ¬ written x.cells e →
    same.r (x.get u e) (x.get s e)

theorem playBack_append (first second : List (S → S)) (s : S) :
    playBack (first ++ second) s = playBack second (playBack first s) :=
  List.foldl_append

-- ================================================================== links

/-- The way back of a chain step writes the links that were found. -/
theorem playBack_wayBack_links {t : Step S V} {x : ChainedVariable S}
    {changes : LinkChanges} (h : t.batch? s = x.batch? s changes) (u : S) :
    playBack (t.wayBack s) u
      = x.setAll u (x.held s (changes.map Prod.fst)) := by
  unfold wayBack
  rw [h]
  unfold ChainedVariable.batch?
  cases changes with
  | nil => rfl
  | cons change rest => rfl

variable [Planning S Sc]

/-- Links and counts are restored, whatever the state. -/
theorem same_wayBack (lawful : vs.Lawful) {t : Step S V} (scope : t.Over vs)
    (h : vs.Same (anything (Option V)) u (t.apply s)) :
    vs.Same (anything (Option V)) (playBack (t.wayBack s) u) s := by
  -- values count for nothing here, so a row of them may be dropped anywhere
  have written : ∀ {x : BasicVariable S V}, x ∈ vs.basics → ∀ changes (v : S),
      vs.Same (anything (Option V)) (x.setAll v changes) v :=
    fun hx changes _ => lawful.same_setAll hx changes fun _ _ => trivial
  cases t with
  | change x _ _ | swap x _ _ | pillarChange x _ _ =>
      exact (written scope _ u).trans (h.trans (written scope _ s))
  | pillarSwap x left right =>
      cases left with
      | nil => exact h
      | cons l ls =>
          cases right with
          | nil => exact h
          | cons r rs =>
              exact (written scope _ u).trans (h.trans (written scope _ s))
  | segmentChange x _ _ _ | segmentSwap x _ _ _ | tailSwap x _ _
  | restore x _ =>
      rw [apply_eq_setAllLinks (x := x) rfl] at h
      rw [playBack_wayBack_links (x := x) rfl]
      exact (h.setAllLinks lawful scope _).trans
        (lawful.same_restoreLinks scope _ s)

/-- And by the way back of a whole sequence. -/
theorem same_waysBack (lawful : vs.Lawful) (ts : List (Step S V))
    (scope : ∀ t ∈ ts, t.Over vs)
    (h : vs.Same (anything (Option V)) u (applyAll ts s)) :
    vs.Same (anything (Option V)) (playBack (waysBack ts s) u) s := by
  induction ts generalizing s with
  | nil => exact h
  | cons t rest ih =>
      show vs.Same _ (playBack (waysBack rest (t.apply s) ++ t.wayBack s) u) s
      rw [playBack_append]
      exact same_wayBack lawful (scope t (List.mem_cons_self ..))
        (ih (fun v hv => scope v (List.mem_cons_of_mem _ hv)) h)

-- ================================================================= values

/-- What a step has not written, its way back leaves alone. -/
theorem get_wayBack_of_not_writes (lawful : vs.Lawful) {t :
      Step S V} (scope : t.Over vs)
    {y : BasicVariable S V} (hy : y ∈ vs.basics) {e : Nat} (he : e < y.count u)
    (h : ¬ t.Writes y.cells e) :
    y.get (playBack (t.wayBack s) u) e = y.get u e := by
  cases t with
  | change x d value =>
      exact get_setAll_frame lawful scope hy _ he fun hxy hmem => h ⟨hxy, hmem⟩
  | swap x l r =>
      exact get_setAll_frame lawful scope hy _ he fun hxy hmem => h ⟨hxy, hmem⟩
  | pillarChange x pillar value =>
      refine get_setAll_frame lawful scope hy _ he fun hxy hmem => h ⟨hxy, ?_⟩
      simpa [BasicVariable.held, entities] using hmem
  | pillarSwap x left right =>
      cases left with
      | nil => rfl
      | cons l ls =>
          cases right with
          | nil => rfl
          | cons r rs =>
              refine get_setAll_frame lawful scope hy _ he fun hxy hmem => ?_
              exact h ⟨hxy, List.cons_ne_nil l ls, List.cons_ne_nil r rs, by
                simpa using hmem⟩
  | segmentChange x _ _ _ | segmentSwap x _ _ _ | tailSwap x _ _
  | restore x _ =>
      rw [playBack_wayBack_links (x := x) rfl]
      exact (lawful.kinds_apart y hy x scope).2.get_setAll _ he

omit [Planning S Sc] in
/-- Writing one value for each of two rows: the second row comes last. -/
theorem get_setAll_rows {c : Cells S V} (own : c.Lawful) {left right : List Nat}
    {v w : Option V} {e : Nat} (he : e < c.count u) (hmem : e ∈ left ++ right) :
    c.get (c.setAll u (left.map (·, v) ++ right.map (·, w))) e
      = if e ∈ right then w else v := by
  have hcount : e < c.count (c.setAll u (left.map (·, v))) := by
    rw [own.count_setAll]
    exact he
  rw [Cells.setAll_append]
  by_cases hright : e ∈ right
  · rw [if_pos hright]
    exact own.get_setAll_map (fun _ => w) hcount hright
  · have hleft : e ∈ left := (List.mem_append.mp hmem).resolve_right hright
    rw [if_neg hright,
      own.get_setAll_of_notMem _ hcount (by simpa using hright)]
    exact own.get_setAll_map (fun _ => v) he hleft

/-- What a step has written gets the value of its source. -/
theorem get_wayBack_of_writes (lawful : vs.Lawful) {t : Step S V}
    (scope : t.Over vs) {y : BasicVariable S V} {e : Nat} (he : e < y.count u)
    (h : t.Writes y.cells e) :
    y.get (playBack (t.wayBack s) u) e = y.get s (t.source e) := by
  cases t with
  | change x _ _ | swap x _ _ | pillarChange x _ _ =>
      obtain ⟨hxy, hmem⟩ := h
      have own := lawful.values x scope
      rw [hxy] at own
      have hget : x.get = y.get := congrArg Cells.get hxy
      have hset : x.set = y.set := congrArg Cells.set hxy
      show y.get (x.setAll u (x.held s _)) e = y.get s e
      unfold BasicVariable.setAll BasicVariable.held
      rw [hset, hget]
      exact own.get_setAll_map (y.get s) he hmem
  | pillarSwap x left right =>
      obtain ⟨hxy, hleft, hright, hmem⟩ := h
      have own := lawful.values x scope
      rw [hxy] at own
      have hget : x.get = y.get := congrArg Cells.get hxy
      have hset : x.set = y.set := congrArg Cells.set hxy
      cases left with
      | nil => exact absurd rfl hleft
      | cons l ls =>
          cases right with
          | nil => exact absurd rfl hright
          | cons r rs =>
              show y.get (x.setAll u ((l :: ls).map (·, x.get s l) ++
                (r :: rs).map (·, x.get s r))) e
                  = y.get s (if e ∈ r :: rs then r else l)
              unfold BasicVariable.setAll
              rw [hset, hget, apply_ite (y.get s)]
              exact get_setAll_rows own he hmem
  | segmentChange | segmentSwap | tailSwap | restore => exact h.elim

/-- `Recovers` speaks of all that the step writes. -/
theorem recovers_iff {t : Step S V} (scope : t.Over vs)
    (inRange : t.InRange s) : t.Recovers same written s ↔
    ∀ y ∈ vs.basics, ∀ e < y.count s, t.Writes y.cells e →
      ¬ written y.cells e → same.r (y.get s (t.source e)) (y.get s e) := by
  cases t with
  | change | swap | pillarChange =>
      exact ⟨fun _ _ _ _ _ _ _ => same.refl _, fun _ => trivial⟩
  | segmentChange | segmentSwap | tailSwap | restore =>
      exact ⟨fun _ _ _ _ _ h => h.elim, fun _ => trivial⟩
  | pillarSwap x left right =>
      constructor
      · intro h y _ e _ g hnot
        obtain ⟨hxy, -, -, hmem⟩ := g
        have hget : x.get = y.get := congrArg Cells.get hxy
        rw [← hget]
        exact h e hmem (by rw [hxy]; exact hnot)
      · intro h e hmem hnot
        cases left with
        | nil => exact same.refl _
        | cons l ls =>
            cases right with
            | nil => exact same.refl _
            | cons r rs =>
                exact h x scope e (inRange e hmem)
                  ⟨rfl, List.cons_ne_nil l ls, List.cons_ne_nil r rs, hmem⟩ hnot

/-- One component: its own entities recover, and the others are as the
components after it leave them. -/
theorem valuesAgree_wayBack (lawful : vs.Lawful) {t : Step S V}
    (scope : t.Over vs) (inRange : t.InRange s)
    (hcount : ∀ x ∈ vs.basics, x.count u = x.count s) :
    ValuesAgree vs same written (playBack (t.wayBack s) u) s ↔
      t.Recovers same written s ∧
        ValuesAgree vs same (fun c e => written c e ∨ t.Writes c e) u
          (t.apply s) := by
  rw [recovers_iff scope inRange]
  constructor
  · intro h
    constructor
    · intro y hy e he hwrites hnot
      rw [← get_wayBack_of_writes lawful scope
        (by rw [hcount y hy]; exact he) hwrites]
      exact h y hy e he hnot
    · intro y hy e he hnot
      obtain ⟨hwritten, hwrites⟩ := not_or.mp hnot
      rw [count_apply lawful scope hy] at he
      rw [get_apply_of_not_writes lawful scope hy he hwrites,
        ← get_wayBack_of_not_writes lawful scope hy
          (by rw [hcount y hy]; exact he) hwrites]
      exact h y hy e he hwritten
  · intro g y hy e he hnot
    obtain ⟨hrecovers, h⟩ := g
    by_cases hwrites : t.Writes y.cells e
    · rw [get_wayBack_of_writes lawful scope
        (by rw [hcount y hy]; exact he) hwrites]
      exact hrecovers y hy e he hwrites hnot
    · rw [get_wayBack_of_not_writes lawful scope hy
        (by rw [hcount y hy]; exact he) hwrites,
        ← get_apply_of_not_writes lawful scope hy he hwrites]
      exact h y hy e (by rw [count_apply lawful scope hy]; exact he)
        fun hor => hor.elim hnot hwrites

/-- A sequence taken back leaves no trace in what was not written before,
if and only if all that its pillar swaps write first recovers. -/
theorem valuesAgree_waysBack (lawful : vs.Lawful) (ts : List (Step S V))
    (scope : ∀ t ∈ ts, t.Over vs) (inRange : ∀ t ∈ ts, t.InRange s)
    (h : vs.Same (literal (Option V)) u (applyAll ts s)) :
    ValuesAgree vs same written (playBack (waysBack ts s) u) s ↔
      EachTurn (fun written t s => t.Recovers same written s) written ts s := by
  induction ts generalizing s written with
  | nil =>
      refine ⟨fun _ => trivial, fun _ x hx e he _ => ?_⟩
      exact (h.of_literal.values x hx).get e he
  | cons t rest ih =>
      have ht := scope t (List.mem_cons_self ..)
      have hover : ∀ v ∈ rest, v.Over vs :=
        fun v hv => scope v (List.mem_cons_of_mem _ hv)
      have hrange : ∀ v ∈ rest, v.InRange (t.apply s) := fun v hv =>
        (inRange_apply lawful ht (hover v hv)).mpr
          (inRange v (List.mem_cons_of_mem _ hv))
      have hback : vs.Same (anything (Option V))
          (playBack (waysBack rest (t.apply s)) u)
          (t.apply s) := same_waysBack lawful rest hover h.of_literal
      -- what the later steps answer for is the solution this one has left,
      -- apart from what has been written up to and with it
      show ValuesAgree vs same written
        (playBack (waysBack rest (t.apply s) ++ t.wayBack s) u) s ↔
        t.Recovers same written s ∧ _
      rw [playBack_append,
        valuesAgree_wayBack lawful ht (inRange t (List.mem_cons_self ..))
        (fun x hx => (hback.values x hx).count.trans
          (count_apply lawful ht hx)),
        ih hover hrange h]

-- ============================================================= disturbance

omit [Planning S Sc] in
/-- A pillar swap whose pillars are undisturbed recovers. -/
theorem recovers_of_untouched (h : Untouched vs written s s') {t : Step S V}
    (made : t.Made vs same s) (inRange : t.InRange s)
    (calm : ¬ t.Disturbed written) : t.Recovers same written s' := by
  have agree := pillarsAgree_of_untouched h made inRange calm
  cases t with
  | change | swap | pillarChange | segmentChange | segmentSwap | tailSwap
  | restore => trivial
  | pillarSwap x left right =>
      obtain ⟨⟨v, hv⟩, ⟨w, hw⟩⟩ := agree
      intro e hmem _
      cases left with
      | nil => exact same.refl _
      | cons l ls =>
          cases right with
          | nil => exact same.refl _
          | cons r rs =>
              show same.r (x.get s' (if e ∈ r :: rs then r else l)) (x.get s' e)
              split
              · rename_i hright
                exact same.trans (hw r (List.mem_cons_self ..))
                  (same.symm (hw e hright))
              · rename_i hright
                have hleft := (List.mem_append.mp hmem).resolve_right hright
                exact same.trans (hv l (List.mem_cons_self ..))
                  (same.symm (hv e hleft))

/-- So it is enough to ask it of those that are disturbed. -/
theorem eachTurn_recovers_iff (lawful : vs.Lawful) (ts : List (Step S V))
    (h : Untouched vs written s s') (made : ∀ t ∈ ts, t.Made vs same s)
    (inRange : ∀ t ∈ ts, t.InRange s) :
    EachTurn (fun written t s => t.Recovers same written s) written ts s' ↔
      EachTurn (fun written t s => t.Disturbed written →
          t.Recovers same written s)
        written ts s' := by
  induction ts generalizing s' written with
  | nil => exact Iff.rfl
  | cons t rest ih =>
      have ht := made t (List.mem_cons_self ..)
      have hrest := ih (untouched_step lawful ht.scope h)
        (fun u hu => made u (List.mem_cons_of_mem _ hu))
        (fun u hu => inRange u (List.mem_cons_of_mem _ hu))
      refine and_congr ⟨fun hrecovers _ => hrecovers, fun hrecovers => ?_⟩ hrest
      by_cases hdisturbed : t.Disturbed written
      · exact hrecovers hdisturbed
      · exact recovers_of_untouched h ht
          (inRange t (List.mem_cons_self ..)) hdisturbed

end Step

-- =============================================================== recordings

namespace Recording

variable [Planning S Sc] {D : Type} [Director D S Sc] [LawfulDirector D]
  {excuse : Prop} {inv : D → Prop}

/-- A recording before a director that keeps an invariant, with a known
solution and known undos. -/
structure At (inv : D → Prop) (s : S) (undos : List (S → S))
    (r : Recording D S) : Prop where
  inner : inv r.inner
  working : Director.working r.inner = s
  undos : r.undos = undos

omit [Planning S Sc] [LawfulDirector D] in
/-- What is done inside a recording keeps the ways back that are there. -/
theorem preserves_at {α : Type} {act : Act D α} (h : act.Preserves excuse inv)
    (working : ∀ d, act.Leads True d fun _ d' => Director.working d'
      = Director.working d)
    (undos : List (S → S)) :
    (inside act : Act (Recording D S) α).Preserves excuse (At inv s undos) := by
  intro r g
  obtain ⟨hinner, hworking, hundos⟩ := g
  refine Act.leads_zoom
    ((Director.preserves_working h working s _ ⟨hinner, hworking⟩).mono ?_ id)
  exact fun _ d' hd => ⟨hd.1, hd.2, hundos⟩

/-- A step leaves its way back on top of what is recorded. -/
theorem leads_step (calls : Director.Announced excuse inv) (t : Step S V)
    {undos : List (S → S)} {r : Recording D S} (h : At inv s undos r) :
    t.run.Leads excuse r fun _ =>
    At inv (t.apply s) (t.wayBack s ++ undos) := by
  refine Act.leads_bind (Act.leads_get ?_)
  have hs : Director.working r = s := h.working
  rw [hs]
  unfold Step.apply Step.wayBack
  cases t.batch? s with
  | none => exact Act.leads_pure h
  | some b =>
      refine b.leads_run (At inv s undos) (At inv (b.write s) undos)
        (fun e => ?_) (fun r' h' => ?_) (fun e r' h' => ?_) (fun r' h' => ?_) h
      · exact preserves_at (calls.before _ _ _)
          (LawfulDirector.working_before _ _ _) undos
      · refine ⟨calls.edit _ _ h'.inner, ?_, h'.undos⟩
        show Director.working (Director.edit b.write r'.inner) = b.write s
        rw [LawfulDirector.working_edit, h'.working]
      · refine Act.leads_bind ?_
        refine (preserves_at (calls.after _ _ _)
          (LawfulDirector.working_after _ _ _)
          undos r' h').mono (fun _ r'' h'' => Act.leads_update ?_) id
        split <;> exact ⟨h''.inner, h''.working, h''.undos⟩
      · refine Act.leads_update ⟨h'.inner, h'.working, ?_⟩
        show b.restore :: r'.undos = [b.restore] ++ undos
        rw [h'.undos]
        rfl

/-- And a sequence the ways back of all of its steps. -/
theorem leads_steps (calls : Director.Announced excuse inv)
    (ts : List (Step S V)) {undos : List (S → S)} {r : Recording D S}
    (h : At inv s undos r) :
    (ts.forM (Step.run (D := Recording D S))).Leads excuse r
      fun _ => At inv (Step.applyAll ts s) (Step.waysBack ts s ++ undos) := by
  induction ts generalizing s undos r with
  | nil => exact Act.leads_pure h
  | cons t rest ih =>
      refine Act.leads_bind ((leads_step calls t h).mono ?_ id)
      intro _ r' h'
      refine (ih h').mono (fun _ r'' h'' => ?_) id
      rw [← List.append_assoc] at h''
      exact h''

omit [Planning S Sc] [LawfulDirector D] in
/-- Playing ways back keeps what announced edits keep. -/
theorem preserves_edits (calls : Director.Announced excuse inv)
    (undos : List (S → S)) {d : D} (hd : inv d) :
    inv (undos.foldl (fun d undo => Director.edit undo d) d) := by
  induction undos generalizing d with
  | nil => exact hd
  | cons undo rest ih => exact ih (calls.edit undo d hd)

/-- Ways back are played on the solution at hand. -/
theorem working_edits (undos : List (S → S)) (d : D) :
    Director.working (undos.foldl (fun d undo => Director.edit undo d) d)
      = playBack undos (Director.working d) := by
  induction undos generalizing d with
  | nil => rfl
  | cons undo rest ih =>
      show Director.working (rest.foldl _ (Director.edit undo d)) = _
      rw [ih, LawfulDirector.working_edit]
      rfl

/-- Taking back plays what is recorded, newest first. -/
theorem leads_undoChanges (calls : Director.Announced excuse inv)
    {undos : List (S → S)} {r : Recording D S} (h : At inv s undos r) :
    (undoChanges : Act (Recording D S) Unit).Leads excuse r
      fun _ r' => inv r'.inner ∧ Director.working r' = playBack undos s := by
  refine Act.leads_bind (Act.leads_get (Act.leads_bind ?_))
  -- around the undos the inner director hears of every entity touched, and
  -- changes no variable for it
  have before : (r.touched.forM fun t =>
      inside (Director.before t.1 t.2 "")).Preserves excuse
      (At inv s undos) := Act.preserves_forM r.touched _ fun t _ =>
    preserves_at (calls.before t.1 t.2 "")
      (LawfulDirector.working_before _ _ _) undos
  refine (before r h).mono ?_ id
  intro _ r₁ h₁
  refine Act.leads_bind
    (Act.leads_modify (Act.leads_bind (Act.leads_modify ?_)))
  have after : (r.touched.forM fun t =>
      inside (Director.after t.1 t.2 "")).Preserves excuse
      (At inv (playBack undos s) []) :=
        Act.preserves_forM r.touched _ fun t _ =>
    preserves_at (calls.after t.1 t.2 "")
      (LawfulDirector.working_after _ _ _) []
  refine (after _ ⟨preserves_edits calls r₁.undos h₁.inner, ?_, rfl⟩).mono ?_ id
  · rw [working_edits, h₁.undos, h₁.working]
  · exact fun _ r₂ h₂ => ⟨h₂.inner, h₂.working⟩

end Recording

-- ================================================================== trials

/-- The two ways to ask for a score. -/
inductive ScoreCall
  | score
  | tryScore

/-- Asks, and lets the answer go. -/
def ScoreCall.run {D Sc : Type} [Director D S Sc] : ScoreCall → Act D Unit
  | score => do let _ ← Director.score
  | tryScore => do let _ ← Director.tryScore

/-- Executes a move on a recording, asks for scores and takes it back. -/
def Move.trialWith {D Sc : Type} [Director D S Sc] (m : Move S V)
    (calls : List ScoreCall) : Act (Recording D S) Unit := do
  m.run
  calls.forM ScoreCall.run
  Recording.undoChanges

/-- A pillar swap that meets a pillar into which an earlier component has
written is not the first to write an entity that differs from the first of
its pillar. -/
def Move.DisturbedRecover (same : Setoid (Option V)) (m : Move S V)
    (s : S) : Prop :=
  Step.EachTurn (fun written t s => t.Disturbed written →
    t.Recovers same written s)
    (fun _ _ => False) m.steps s

section

variable [Planning S Sc] {D : Type} [Director D S Sc] [LawfulDirector D]
  {excuse : Prop} {inv : D → Prop}

/-- Asking for scores changes no variable and nothing that is recorded. -/
theorem Recording.preserves_scoreCall (lawful : vs.Lawful)
    (calls : Director.Asked excuse inv) (call : ScoreCall) (s : S)
    (undos : List (S → S)) :
    (call.run : Act (Recording D S) Unit).Preserves excuse fun r =>
      inv r.inner ∧ r.undos = undos ∧
        vs.Same (literal (Option V)) (Director.working r.inner) s := by
  intro r h
  obtain ⟨hinner, hundos, hsame⟩ := h
  have stored : ∀ s', ScoreStored (Director.working r.inner) s' →
      vs.Same (literal (Option V)) s' s := by
    intro s' h
    rcases h with rfl | ⟨score, rfl⟩
    · exact hsame
    · exact (lawful.stored score _).trans hsame
  cases call with
  | score =>
      refine Act.leads_bind ?_
      show (inside (Director.score (D := D))).Leads excuse r _
      refine Act.leads_zoom (((calls.score r.inner hinner).and
        (LawfulDirector.working_score r.inner)).mono ?_ id)
      exact fun _ d hd => Act.leads_pure ⟨hd.1, hundos, stored _ hd.2⟩
  | tryScore =>
      refine Act.leads_bind ?_
      show (inside (Director.tryScore (D := D))).Leads excuse r _
      refine Act.leads_zoom (((calls.tryScore r.inner hinner).and
        (LawfulDirector.working_tryScore r.inner)).mono ?_ id)
      exact fun _ d hd => Act.leads_pure ⟨hd.1, hundos, stored _ hd.2⟩

/-- A trial ends where the undos of the move lead, from what the move has
made of the solution. -/
theorem Move.leads_trialWith (lawful : vs.Lawful)
    (calls : Director.Asked excuse inv) (m : Move S V) (asked : List ScoreCall)
    {d : D} (hd : inv d) :
    (m.trialWith asked : Act (Recording D S) Unit).Leads excuse
      (Recording.start d) fun _ r =>
      ∃ u, vs.Same (literal (Option V)) u (m.apply (Director.working d)) ∧
        Director.working r
          = playBack (Step.waysBack m.steps (Director.working d)) u := by
  refine Act.leads_bind ?_
  have hstart : Recording.At inv (Director.working d) [] (Recording.start d) :=
    ⟨hd, rfl, rfl⟩
  refine (Recording.leads_steps calls.toAnnounced m.steps hstart).mono ?_ id
  intro _ r h
  obtain ⟨hinner, hworking, hundos⟩ := h
  rw [List.append_nil] at hundos
  refine Act.leads_bind ?_
  -- the scores are asked of what the move has made of the solution
  have scored := Act.preserves_forM asked ScoreCall.run (fun call _ =>
    Recording.preserves_scoreCall lawful calls call
      (m.apply (Director.working d))
      (Step.waysBack m.steps (Director.working d)))
  refine (scored r ⟨hinner, hundos, ?_⟩).mono ?_ id
  · rw [hworking]
    exact Variables.Same.refl _
  · intro _ r₁ h
    obtain ⟨hinner₁, hundos₁, hsame₁⟩ := h
    refine (Recording.leads_undoChanges calls.toAnnounced ⟨hinner₁, rfl,
      hundos₁⟩).mono ?_ id
    exact fun _ r₂ h₂ => ⟨_, hsame₁, h₂.2⟩

/-- A trial of a move of a pass leaves the solution as it was if and only if
no pillar swap of the move is caught on a pillar that an earlier component
has made differ. -/
theorem SelectorConfig.trial_of_yields [BEq V] (lawful : vs.Lawful)
    (beq : ∀ a b : Option V, (a == b) = true → same.r a b)
    {config : SelectorConfig} {c : SelectorContext S V} {outside : UInt64}
    {built : BuiltSelector S V} (d : D)
    (scope : c.Over vs same (Director.working d))
    (hbuild : config.build c outside = .ok built) {m : Move S V}
    (hm : built.selector.Yields (Director.working d) m)
    (inRange : m.InRange (Director.working d)) (asked : List ScoreCall) :
    (m.trialWith asked : Act (Recording D S) Unit).Leads (¬ Director.Sound d)
      (Recording.start d) fun _ r =>
        (vs.Same same (Director.working r) (Director.working d) ↔
          m.DisturbedRecover same (Director.working d)) := by
  have made := made_of_yields beq scope hbuild hm
  have hover : ∀ t ∈ m.steps, t.Over vs := fun t ht => (made t ht).scope
  obtain ⟨inv, hd, calls⟩ := Director.exists_asked d
  refine (Move.leads_trialWith lawful calls m asked hd).mono ?_ id
  intro _ r g
  obtain ⟨u, hu, hback⟩ := g
  rw [hback]
  unfold Move.DisturbedRecover
  rw [← Step.eachTurn_recovers_iff lawful m.steps
    (Step.untouched_refl _) made inRange,
    ← Step.valuesAgree_waysBack lawful m.steps hover inRange hu]
  have links := Step.same_waysBack lawful m.steps hover hu.of_literal
  -- links and counts come back anyway, so only values are left to compare
  constructor
  · exact fun h x hx e he _ => (h.values x hx).get e he
  · intro h
    refine ⟨fun x hx => ⟨(links.values x hx).count, fun e he => ?_⟩,
      links.links, links.anchors⟩
    exact h x hx e he fun hwritten => hwritten

end

-- ===================================================== dependent children

namespace Tasks

/-- A change of the first task and a swap of the pillar it belongs to with
that of the third. -/
def changeThenSwap (value : Int) : Move Tasks Int :=
  .composite [.step (.change priority 0 (some value)),
    .step (.pillarSwap priority [0, 1] [2])]

theorem inRange_changeThenSwap (value : Int) (s : Tasks)
    (h : 3 ≤ s.priorities.length) : (changeThenSwap value).InRange s := by
  intro t ht
  rcases List.mem_cons.mp ht with rfl | ht
  · intro e he
    rw [List.mem_singleton.mp he]
    show 0 < s.priorities.length
    omega
  · rw [List.mem_singleton.mp ht]
    intro e he
    show e < s.priorities.length
    simp only [Step.entities, List.cons_append, List.nil_append, List.mem_cons,
      List.not_mem_nil, or_false] at he
    omega

/-- The trial of a change to two and the swap, to its end. -/
theorem run_changeThenSwap :
    ∃ r, ((changeThenSwap 2).trialWith [.score] :
        Act (Recording (FullDirector Tasks HardSoft) Tasks) Unit).run
          (Recording.start
            (FullDirector.start world.score ⟨[some 1, some 1, some 2], none⟩))
        = (.ok (), r) ∧
      (Director.working r).priorities = [some 1, some 2, some 2] := by
  refine ⟨_, rfl, ?_⟩
  rfl

end Tasks

/-- An instance where the change writes into a pillar and leaves it as it
was, so that the swap recovers. -/
theorem SelectorConfig.trial_of_yields_swap :
    let s : Tasks := ⟨[some 1, some 1, some 2], none⟩
    let m := Tasks.changeThenSwap 1
    let d := FullDirector.start Tasks.world.score s
    let tree := Tasks.changesBeside (.pillarSwap none none [])
    (∃ built, tree.build Tasks.context 0 = .ok built ∧
      built.selector.Yields s m) ∧
      m.DisturbedRecover (literal (Option Int)) s ∧
      (m.trialWith [.score, .tryScore] :
        Act (Recording (FullDirector Tasks HardSoft) Tasks) Unit).Leads
        (¬ Director.Sound d) (Recording.start d) fun _ r =>
          (Tasks.world.variables.Same (literal (Option Int))
            (Director.working r) s ↔
            m.DisturbedRecover (literal (Option Int)) s) := by
  intro s m d tree
  have hbuild : ∃ built, tree.build Tasks.context 0 = .ok built ∧
      built.selector.Yields s m := by
    refine ⟨_, rfl, 14, [], _, _, rfl, ?_⟩
    exact .now (show ExceptT.run (Reading.next s 1 _) [] = _ from rfl)
  have recovers : m.DisturbedRecover (literal (Option Int)) s := by
    refine ⟨fun h => (nomatch h), fun _ e hmem _ => ?_, trivial⟩
    simp only [List.cons_append, List.nil_append, List.mem_cons,
      List.not_mem_nil, or_false] at hmem
    rcases hmem with rfl | rfl | rfl <;> rfl
  obtain ⟨built, htree, hm⟩ := hbuild
  exact ⟨⟨built, htree, hm⟩, recovers,
    trial_of_yields Tasks.lawful (fun _ _ => eq_of_beq) d
      (Tasks.over_context _ s) htree hm
      (Tasks.inRange_changeThenSwap 1 s (by decide)) [.score, .tryScore]⟩

/-- Children of a product that meet in a pillar: the change makes the first
task differ, the swap keeps its new value for the whole pillar, and the
second task ends up with it. -/
theorem SelectorConfig.trial_leaves_trace :
    let s : Tasks := ⟨[some 1, some 1, some 2], none⟩
    let m := Tasks.changeThenSwap 2
    let d := FullDirector.start Tasks.world.score s
    let tree := Tasks.changesBeside (.pillarSwap none none [])
    (Tasks.world.variables.Lawful ∧
      Tasks.context.Over Tasks.world.variables (literal _) s ∧
      m.InRange s ∧
      ∃ built, tree.build Tasks.context 0 = .ok built ∧
        built.selector.Yields s m) ∧
    ∃ r, (m.trialWith [.score] :
        Act (Recording (FullDirector Tasks HardSoft) Tasks) Unit).run
        (Recording.start d) = (.ok (), r) ∧
      ¬ Tasks.world.variables.Same (literal (Option Int))
          (Director.working r) s := by
  intro s m d tree
  have hbuild : ∃ built, tree.build Tasks.context 0 = .ok built ∧
      built.selector.Yields s m := by
    refine ⟨_, rfl, 14, [], _, _, rfl, ?_⟩
    refine .later (show ExceptT.run (Reading.next s 1 _) [] = _ from rfl) ?_
    exact .now (show ExceptT.run (Reading.next s 1 _) [] = _ from rfl)
  refine ⟨⟨Tasks.lawful, Tasks.over_context _ s,
    Tasks.inRange_changeThenSwap 2 s (by decide), hbuild⟩, ?_⟩
  obtain ⟨r, hrun, hworking⟩ := Tasks.run_changeThenSwap
  refine ⟨r, hrun, fun hsame => ?_⟩
  have hone :=
    (hsame.values Tasks.priority (List.mem_singleton.mpr rfl)).get 1 (by decide)
  have hget : Tasks.priority.get (Director.working r) 1 = some 2 := by
    show (((Director.working r).priorities)[1]?).join = some 2
    rw [hworking]
    rfl
  exact absurd (Option.some.inj (hget.symm.trans hone)) (by decide)

end PlanSearch

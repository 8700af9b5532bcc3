/-
Climbs that never lose ground and report the truth.

Between two scores of a climb lie a whole pass of trials, each done to the
working solution and taken back, and the move that is done in the end is
done on what the last trial has left. The score it is credited with was
measured before the other trials. So two things are carried through a
pass: the solution is again the one the pass was opened on, up to the
score stored there, and the best move so far is the best of those seen
(`Leading`).

`Ascent` says what a climb comes to, round by round, with the moves that
the passes handed out: a round either does a move that is better than the
present score and unbeaten in its pass, or ends the climb where it is.
That the score reported is that of the solution left behind, and no worse
than the first, are inductions over it.

What is asked of the moves is `Move.Steady`: they do the same whatever
score is stored, and their ways back lead back. `Ground` asks it of all
that a supply hands out along the climb.
-/
import PlanSearch.Proofs.Move.Trial
import PlanSearch.Proofs.Scores
import PlanSearch.Search.Climb

namespace PlanSearch

open Planning

variable {P S V : Type} {shape : Shape} [BEq V] [Planning S (Score shape)]
  {rating : S → Except Fault (Score shape)}
  {supply : S → Act P (List (Move S V))} {s t : S} {current : Score shape}

-- ============================================================ vocabulary

/-- Every doable move of the list leads to a score, and none of these beats
the given one. -/
def Unbeaten (rating : S → Except Fault (Score shape)) (s : S)
    (moves : List (Move S V)) (score : Score shape) : Prop :=
  ∀ m ∈ moves, m.isDoable s = true →
    ∃ other, rating (m.apply s) = .ok other ∧ other.beats score = false

/-- The rounds of a climb, from a solution and its score to those at the
end, with the states of the supply around its passes. -/
inductive Ascent (rating : S → Except Fault (Score shape))
    (supply : S → Act P (List (Move S V))) : Nat → S → Score shape → P → S →
    Score shape → P → Prop
  /-- There is no round left. -/
  | spent {s : S} {score : Score shape} {p : P} : Ascent rating supply 0 s
    score p s score p
  /-- No move of the pass is better; the solution stays, but for the score
  that is stored on it. -/
  | top {rounds : Nat} {s t : S} {score : Score shape} {p q : P} {moves :
      List (Move S V)} :
      (supply s).run p = (.ok moves, q) → Unbeaten rating s moves score →
        bare t = bare s →
      Ascent rating supply (rounds + 1) s score p t score q
  /-- The best move of the pass is done. -/
  | step {rounds : Nat} {s t u : S} {score better final :
      Score shape} {p q r : P}
      {moves : List (Move S V)} {m : Move S V} :
      (supply s).run p = (.ok moves, q) → m ∈ moves → m.isDoable s = true →
      rating (m.apply s) = .ok better → better.beats score = true →
      Unbeaten rating s moves better → bare t = bare (m.apply s) →
      Ascent rating supply rounds t better q u final r →
      Ascent rating supply (rounds + 1) s score p u final r

/-- A climb from a solution to another one, and what it answers. -/
structure Climbed (rating : S → Except Fault (Score shape))
    (supply : S → Act P (List (Move S V))) (rounds : Nat) (s : S) (p : P)
    (final : Score shape) (t : S) (q : P) : Prop where
  /-- The answer is the score of the solution left behind. -/
  reported : rating t = .ok final
  /-- It is at least the first score, and every round does what it should. -/
  ascent : ∃ opened first, bare opened = bare s ∧ rating s = .ok first ∧
    first.beats final = false ∧
      Ascent rating supply rounds opened first p t final q

/-- A move that does the same to a solution whatever score is stored on it,
and whose way back leads back, also after a score was stored meanwhile. -/
structure Move.Steady (s : S) (m : Move S V) : Prop where
  doable : ∀ t, bare t = bare s → m.isDoable t = m.isDoable s
  applied : ∀ t, bare t = bare s → bare (m.apply t) = bare (m.apply s)
  back : ∀ t, bare t = bare s → ∀ u, bare u = bare (m.apply s) →
    bare (playBack (Step.waysBack m.steps t) u) = bare s

/-- What a climb stands on: an invariant of the solutions it comes through,
under which there is a score (or an excuse), and the supply hands out
steady moves that keep it. Neither scores nor the invariant look at the
stored score. -/
structure Climb.Ground (rating : S → Except Fault (Score shape))
    (supply : S → Act P (List (Move S V))) (excuse : Prop)
    (inv : S → Prop) : Prop where
  stored : ∀ score s, rating (store score s) = rating s
  kept : ∀ {s t}, bare t = bare s → inv s → inv t
  total : ∀ {s}, inv s → ∀ f, rating s = .error f → excuse
  offers : ∀ {s}, inv s → ∀ p, (supply s).Leads excuse p fun moves _ =>
    ∀ m ∈ moves, m.Steady s ∧ inv (m.apply s)

-- ================================================================= scores

omit [Planning S (Score shape)] in
theorem Unbeaten.append {moves : List (Move S V)} {m : Move S V}
    {score : Score shape} (h : Unbeaten rating s moves score)
    (hm : m.isDoable s = true → ∃ other, rating (m.apply s) = .ok other ∧
      other.beats score = false) :
    Unbeaten rating s (moves ++ [m]) score := by
  intro n hn
  rcases List.mem_append.mp hn with hn | hn
  · exact h n hn
  · rw [List.mem_singleton.mp hn]
    exact hm

omit [Planning S (Score shape)] in
/-- What does not beat a score does not beat a better one. -/
theorem Unbeaten.mono {moves : List (Move S V)} {score better : Score shape}
    (h : Unbeaten rating s moves score) (hbetter : better.beats score = true) :
    Unbeaten rating s moves better := by
  intro m hm hdoable
  obtain ⟨other, hother, hbeats⟩ := h m hm hdoable
  refine ⟨other, hother, ?_⟩
  show Ranked.beats other better = false
  exact Ranked.not_beats_of_beats hbetter hbeats

-- ================================================================== trials

variable [LawfulPlanning S] {excuse : Prop} {inv : S → Prop}
  {d : FullDirector S (Score shape)}

omit [BEq V] in
/-- A trial comes to the score that the move would lead to, and takes the
move back. -/
theorem Move.leads_trial (stored : ∀ score s, rating (store score s) = rating s)
    (m : Move S V) (hd : d.Rated rating)
    (back : ∀ u, bare u = bare (m.apply d.working) →
      bare (playBack (Step.waysBack m.steps d.working) u) = bare d.working) :
    (m.trial : Act (FullDirector S (Score shape)) (Score shape)).Leads
      (∃ f, rating (m.apply d.working) = .error f) d fun score d' =>
        rating (m.apply d.working) = .ok score ∧ d'.Rated rating ∧
          bare d'.working = bare d.working := by
  have calls := FullDirector.announced_rated rating
  unfold trial
  refine Act.leads_zoom (Act.leads_bind ?_)
  have hstart : Recording.At (FullDirector.Rated rating) d.working []
      (Recording.start d) :=
    ⟨hd, rfl, rfl⟩
  refine (Recording.leads_steps calls m.steps hstart).mono ?_ False.elim
  intro _ r hr
  obtain ⟨hrated, hworking, hundos⟩ := hr
  rw [List.append_nil] at hundos
  refine Act.leads_bind ?_
  show (Recording.inside
    (Director.score (D := FullDirector S (Score shape)))).Leads _ r _
  refine Act.leads_zoom ((hrated.leads_score stored).mono ?_ ?_)
  · intro score d' h
    obtain ⟨hscore, hrated', hbare⟩ := h
    have hworking' : r.inner.working = m.apply d.working := hworking
    rw [hworking'] at hscore hbare
    have hat : Recording.At (FullDirector.Rated rating) d'.working
        (Step.waysBack m.steps d.working) { r with inner := d' } :=
          ⟨hrated', rfl, hundos⟩
    refine Act.leads_bind
      ((Recording.leads_undoChanges calls hat).mono ?_ False.elim)
    intro _ r' h'
    obtain ⟨hrated'', hback⟩ := h'
    have hback' : r'.inner.working
      = playBack (Step.waysBack m.steps d.working) d'.working := hback
    refine Act.leads_pure ⟨hscore, hrated'', ?_⟩
    show bare r'.inner.working = _
    rw [hback']
    exact back _ hbare
  · intro h
    obtain ⟨f, hf⟩ := h
    exact ⟨f, (congrArg rating hworking).symm.trans hf⟩

-- ================================================================== passes

/-- The best of the moves seen so far, against the present score. -/
structure Leading (rating : S → Except Fault (Score shape)) (s : S)
    (current : Score shape) (seen : List (Move S V))
    (best : Option (Move.Better S V shape)) : Prop where
  found : ∀ b, best = some b → b.move ∈ seen ∧ b.move.isDoable s = true ∧
    rating (b.move.apply s) = .ok b.score ∧ b.score.beats current = true
  unbeaten : Unbeaten rating s seen ((best.map Move.Better.score).getD current)

section

variable {seen : List (Move S V)} {best : Option (Move.Better S V shape)}
  {m : Move S V}

omit [Planning S (Score shape)] [LawfulPlanning S] in
theorem leading_none : Leading (V := V) rating s current [] none :=
  ⟨fun _ h => (nomatch h), fun _ h => nomatch h⟩

omit [Planning S (Score shape)] [LawfulPlanning S] in
/-- The best one so far stays ahead of a move that does not beat it. -/
theorem Leading.stays (h : Leading rating s current seen best)
    (hm : m.isDoable s = true → ∃ score, rating (m.apply s) = .ok score ∧
      score.beats ((best.map Move.Better.score).getD current) = false) :
    Leading rating s current (seen ++ [m]) best where
  found b hb := by
    obtain ⟨hmem, hrest⟩ := h.found b hb
    exact ⟨List.mem_append_left _ hmem, hrest⟩
  unbeaten := h.unbeaten.append hm

omit [Planning S (Score shape)] [LawfulPlanning S] in
/-- A move that beats it takes its place. -/
theorem Leading.overtaken (h : Leading rating s current seen best) (place : Nat)
    {score : Score shape} (hdoable : m.isDoable s = true)
    (hscore : rating (m.apply s) = .ok score)
    (hbeats : score.beats ((best.map Move.Better.score).getD current) = true) :
    Leading rating s current (seen ++ [m]) (some ⟨m, place, score⟩) where
  found b hb := by
    cases hb
    refine ⟨List.mem_append_right _ (List.mem_singleton.mpr rfl),
      hdoable, hscore, ?_⟩
    cases best with
    | none => exact hbeats
    | some b =>
        exact LawfulRanked.trans score b.score current hbeats
          (h.found b rfl).2.2.2
  unbeaten := (h.unbeaten.mono hbeats).append fun _ =>
    ⟨score, hscore, LawfulRanked.irrefl score⟩

end

/-- Trying the moves of a pass finds the best of them, and leaves the
solution as it was. -/
theorem Move.leads_bestOf
    (stored : ∀ score s, rating (store score s) = rating s)
    (moves : List (Move S V × Nat)) (steady : ∀ c ∈ moves, c.1.Steady s)
    (total : ∀ c ∈ moves, ∀ f, rating (c.1.apply s) = .error f → excuse)
    {seen : List (Move S V)} {best : Option (Better S V shape)}
    (h : Leading rating s current seen best) (hd : d.Rated rating)
    (hs : bare d.working = bare s) :
    (bestOf current moves best :
      Act (FullDirector S (Score shape)) _).Leads excuse d fun best' d' =>
      Leading rating s current (seen ++ moves.map Prod.fst) best' ∧
        d'.Rated rating ∧ bare d'.working = bare s := by
  induction moves generalizing seen best d with
  | nil =>
      refine Act.leads_pure ⟨?_, hd, hs⟩
      rw [List.map_nil, List.append_nil]
      exact h
  | cons c rest ih =>
      obtain ⟨m, place⟩ := c
      obtain ⟨hsteady, hrest⟩ := List.forall_mem_cons.mp steady
      obtain ⟨htotal, htotals⟩ := List.forall_mem_cons.mp total
      have happly : rating (m.apply d.working) = rating (m.apply s) :=
        congr_of_store stored (hsteady.applied _ hs)
      have hseen : seen ++ ((m, place) :: rest).map Prod.fst
          = (seen ++ [m]) ++ rest.map Prod.fst := by
        rw [List.map_cons, List.append_assoc]
        rfl
      rw [hseen]
      unfold bestOf
      refine Act.leads_bind (Act.leads_get ?_)
      show Act.Leads excuse (if m.isDoable d.working = true then _ else _) d _
      rw [hsteady.doable _ hs]
      by_cases hdoable : m.isDoable s = true
      · rw [if_pos hdoable]
        refine Act.leads_bind
          ((Move.leads_trial stored m hd fun u hu => ?_).mono ?_ ?_)
        · rw [hs]
          exact hsteady.back _ hs u (hu.trans (hsteady.applied _ hs))
        · intro score d₁ g
          obtain ⟨hscore, hd₁, hs₁⟩ := g
          rw [happly] at hscore
          rw [hs] at hs₁
          by_cases hbeats : score.beats
            ((best.map Better.score).getD current) = true
          · rw [if_pos hbeats]
            exact ih hrest htotals
              (h.overtaken place hdoable hscore hbeats) hd₁ hs₁
          · rw [if_neg hbeats]
            have hstays := h.stays fun _ =>
              ⟨score, hscore, Bool.eq_false_iff.mpr hbeats⟩
            exact ih hrest htotals hstays hd₁ hs₁
        · intro g
          obtain ⟨f, hf⟩ := g
          exact htotal f (happly.symm.trans hf)
      · rw [if_neg hdoable]
        exact ih hrest htotals (h.stays fun g => absurd g hdoable) hd hs

-- ================================================================== rounds

namespace Ascent

variable {rounds : Nat} {p q : P} {score final : Score shape}

omit [LawfulPlanning S] in
/-- Along a climb the score at hand is that of the solution. -/
theorem rated (stored : ∀ score s, rating (store score s) = rating s)
    (h : Ascent rating supply rounds s score p t final q)
    (hs : rating s = .ok score) : rating t = .ok final := by
  induction h with
  | spent => exact hs
  | top _ _ hbare => exact (congr_of_store stored hbare).trans hs
  | step _ _ _ hbetter _ _ hbare _ ih =>
      exact ih ((congr_of_store stored hbare).trans hbetter)

omit [LawfulPlanning S] in
/-- No climb loses ground. -/
theorem not_beats (h : Ascent rating supply rounds s score p t final q) :
    score.beats final = false := by
  have same (a : Score shape) : a.beats a = false := LawfulRanked.irrefl a
  induction h with
  | spent => exact same _
  | top => exact same _
  | @step _ _ _ _ score better final _ _ _ _ _ _ _ _ _ hbeats _ _ _ ih =>
      refine Bool.eq_false_iff.mpr fun hlost => ?_
      have hboth : better.beats final = true :=
        LawfulRanked.trans better score final hbeats hlost
      rw [ih] at hboth
      cases hboth

end Ascent

namespace Climb

omit [BEq V] [LawfulPlanning S] in
/-- A pass hands out moves of the supply for the working solution. -/
theorem leads_pass {p : P} {post : List (Move S V) → P → Prop}
    (h : (supply d.working).Leads excuse p post) :
    (pass supply : Act (Climb (FullDirector S (Score shape)) P) _).Leads
      excuse ⟨d, p⟩ fun moves c => post moves c.passes ∧ c.director = d ∧
        (supply d.working).run p = (.ok moves, c.passes) := by
  refine Act.leads_bind (Act.leads_get (Act.leads_zoom ?_))
  refine (h.and (Act.leads_self (supply d.working) p)).mono ?_ id
  exact fun moves q g => ⟨g.1, rfl, g.2⟩

namespace Ground

variable (ground : Ground rating supply excuse inv)
include ground

/-- One round after the other, the climb is an ascent. -/
theorem leads_run (rounds : Nat) {p : P} (hd : d.Rated rating)
    (hinv : inv d.working) (hcurrent : rating d.working = .ok current) :
    (run supply rounds current :
        Act (Climb (FullDirector S (Score shape)) P) _).Leads excuse
      ⟨d, p⟩ fun final c =>
        Ascent rating supply rounds d.working current p c.director.working final
          c.passes := by
  induction rounds generalizing d p current with
  | zero => exact Act.leads_pure .spent
  | succ rounds ih =>
      unfold run
      refine Act.leads_bind ((leads_pass (ground.offers hinv p)).mono ?_ id)
      intro moves c g
      obtain ⟨hmoves, rfl, hpass⟩ := g
      refine Act.leads_bind (Act.leads_zoom ?_)
      have hzip : ∀ n ∈ moves.zipIdx, n.1.Steady c.director.working ∧
          inv (n.1.apply c.director.working) :=
        fun n hn => hmoves n.1 (List.fst_mem_of_mem_zipIdx hn)
      refine (Move.leads_bestOf ground.stored moves.zipIdx
        (fun n hn => (hzip n hn).1)
        (fun n hn => ground.total (hzip n hn).2) leading_none hd rfl).mono ?_ id
      intro best d₁ g
      obtain ⟨hleading, hd₁, hs₁⟩ := g
      rw [List.nil_append, List.zipIdx_map_fst] at hleading
      cases best with
      | none => exact Act.leads_pure (.top hpass hleading.unbeaten hs₁)
      | some b =>
          obtain ⟨hmem, hdoable, hscore, hbeats⟩ := hleading.found b rfl
          obtain ⟨hsteady, hkept⟩ := hmoves b.move hmem
          refine Act.leads_bind (Act.leads_zoom ?_)
          have calls := FullDirector.announced_rated rating
          refine (b.move.leads_run calls hd₁).mono ?_ False.elim
          intro _ d₂ g
          obtain ⟨hd₂, hworking⟩ := g
          -- the move is done on what the trials have left, not on what it was
          -- tried on; both are the same but for the stored score
          have hs₂ : bare d₂.working
              = bare (b.move.apply c.director.working) := by
            rw [show d₂.working = b.move.apply d₁.working from hworking]
            exact hsteady.applied _ hs₁
          refine (ih hd₂ (ground.kept hs₂ hkept)
            ((congr_of_store ground.stored hs₂).trans hscore)).mono ?_ id
          intro final c' hascent
          exact .step hpass hmem hdoable hscore hbeats
            hleading.unbeaten hs₂ hascent

/-- So is one that starts by asking for the score. -/
theorem leads_start (rounds : Nat) (p : P) (hd : d.Rated rating)
    (hinv : inv d.working) :
    (start supply rounds : Act (Climb (FullDirector S (Score shape)) P) _).Leads
      excuse ⟨d, p⟩ fun final c =>
        Climbed rating supply rounds d.working p final c.director.working
          c.passes := by
  refine Act.leads_bind (Act.leads_zoom ?_)
  refine (hd.leads_score ground.stored).mono ?_ fun g => ?_
  · intro first d₁ g
    obtain ⟨hfirst, hd₁, hs₁⟩ := g
    have hrated : rating d₁.working = .ok first :=
      (congr_of_store ground.stored hs₁).trans hfirst
    refine (ground.leads_run rounds hd₁ (ground.kept hs₁ hinv)
      hrated).mono ?_ id
    intro final c hascent
    exact ⟨hascent.rated ground.stored hrated,
      d₁.working, first, hs₁, hfirst, hascent.not_beats, hascent⟩
  · obtain ⟨f, hf⟩ := g
    exact ground.total hinv f hf

end Ground

/-- And so is one on the passes of a selector. -/
theorem Ground.leads_fromStart {selector : Selector S V} {take : Nat}
    (ground : Ground rating (fun s => selector.offered s take) excuse inv)
    (rounds : Nat) (hd : d.Rated rating) (hinv : inv d.working) :
    (fromStart selector take rounds :
        Act (FullDirector S (Score shape)) _).Leads excuse d
      fun final d' => ∃ passes,
        Climbed rating (fun s => selector.offered s take) rounds d.working
          [] final d'.working passes :=
  Act.leads_zoom ((ground.leads_start rounds [] hd hinv).mono
    (fun _ c h => ⟨c.passes, h⟩) id)

end Climb

end PlanSearch

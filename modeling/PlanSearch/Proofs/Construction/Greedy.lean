/-
What a greedy construction comes to.

A solution is filled by a row of choices, each of which appends one entity
and gives it a value (`filled`). A choice is best if its value is the first
of those that score highest for the solution as it stands then
(`IsBest`), and a row of choices is greedy if each of them is best for what
the choices before it came to (`Greedy`). None of this mentions how the
candidates are tried.

`Sifted` is what is known after some of the candidates: the first of the
best so far, or that none of them has come above the least score. One more
candidate keeps it (`Sifted.score`, `Sifted.skip`), or spoils what was known
(`Sifted.spoilt`).
-/
import Mathlib.Data.List.Induction
import PlanSearch.Proofs.Demand
import PlanSearch.Proofs.Scores

namespace PlanSearch

variable {S E V Date T Sc : Type}

-- ================================================================= scoring

/-- How solutions are scored, whatever score they store. -/
structure Scoring (S Sc : Type) [Planning S Sc] where
  /-- The score of a solution that is tried, or why it has none. -/
  rate : S → Except PlanError Sc
  /-- The score of a solution that is kept. -/
  score : S → Sc
  rate_store : ∀ (stored : Option Sc) s, rate (Planning.store stored s) = rate s
  score_store : ∀ (stored : Option Sc) s,
    score (Planning.store stored s) = score s

-- ============================================================== candidates

section

variable [Ranked Sc] {rate : V → Except PlanError Sc} {tried : List V}
  {value : V} {best : Sc}

/-- The value is the first of those that score highest, above the least
score. -/
structure Foremost (rate : V → Except PlanError Sc) (tried : List V)
    (value : V) (best : Sc) : Prop where
  scored : rate value = .ok best
  above : Ranked.beats best Ranked.least = true
  first : ∃ before after, tried = before ++ value :: after ∧
    (∀ v ∈ before, ∀ score, rate v = .ok score →
      Ranked.beats best score = true) ∧
    ∀ v ∈ after, ∀ score, rate v = .ok score → Ranked.beats score best = false

/-- Nothing that was tried scores higher. -/
theorem Foremost.highest [LawfulRanked Sc] (h : Foremost rate tried value best)
    {v : V} {score : Sc} (hv : v ∈ tried) (hscore : rate v = .ok score) :
    Ranked.beats score best = false := by
  obtain ⟨before, after, rfl, hbefore, hafter⟩ := h.first
  rcases List.mem_append.mp hv with hv | hv
  · refine Bool.eq_false_iff.mpr fun hbeats => ?_
    have hself := LawfulRanked.trans _ _ _ (hbefore v hv score hscore) hbeats
    rw [LawfulRanked.irrefl] at hself
    cases hself
  · rcases List.mem_cons.mp hv with rfl | hv
    · obtain rfl : best = score := Except.ok.inj (h.scored.symm.trans hscore)
      exact LawfulRanked.irrefl _
    · exact hafter v hv score hscore

/-- One more value that scores no higher, or not at all. -/
theorem Foremost.concat (h : Foremost rate tried value best) {v : V}
    (hv : ∀ score, rate v = .ok score → Ranked.beats score best = false) :
    Foremost rate (tried ++ [v]) value best := by
  obtain ⟨before, after, rfl, hbefore, hafter⟩ := h.first
  refine ⟨h.scored, h.above, before, after ++ [v], by simp, hbefore, ?_⟩
  exact List.forall_mem_append.mpr ⟨hafter, List.forall_mem_singleton.mpr hv⟩

/-- What is known after some values: the best of them, if one is above the
least score, and that no error was worse than a failed evaluation. -/
structure Sifted (rate : V → Except PlanError Sc) (tried : List V)
    (found : Option V × Sc) : Prop where
  transient : ∀ v ∈ tried, ∀ e, rate v = .error e → e.isTransient = true
  best : (found = (none, Ranked.least) ∧
      ∀ v ∈ tried, ∀ score, rate v = .ok score →
        Ranked.beats score Ranked.least = false) ∨
    ∃ value score, found = (some value, score) ∧ Foremost rate tried value score

theorem sifted_nil : Sifted rate [] (none, Ranked.least) :=
  ⟨fun _ h => (nomatch h), .inl ⟨rfl, fun _ h => (nomatch h)⟩⟩

variable {found : Option V × Sc} {v : V}

/-- The error is the first one that is worse than a failed evaluation. -/
structure Spoilt (rate : V → Except PlanError Sc) (tried : List V)
    (e : PlanError) : Prop where
  fatal : e.isTransient = false
  first : ∃ before v after, tried = before ++ v :: after ∧ rate v = .error e ∧
    ∀ w ∈ before, ∀ e', rate w = .error e' → e'.isTransient = true

/-- A candidate whose score fails for good spoils those tried before it. -/
theorem Sifted.spoilt (h : Sifted rate tried found) {e : PlanError}
    (hv : rate v = .error e) (he : e.isTransient = false) (rest : List V) :
    Spoilt rate (tried ++ v :: rest) e :=
  ⟨he, tried, v, rest, rfl, hv, h.transient⟩

/-- No value is good enough: none is above the least score, if it has one. -/
structure Unmatched (rate : V → Except PlanError Sc)
    (tried : List V) : Prop where
  transient : ∀ v ∈ tried, ∀ e, rate v = .error e → e.isTransient = true
  lowest : ∀ v ∈ tried, ∀ score, rate v = .ok score →
    Ranked.beats score Ranked.least = false

/-- A value that does not beat the best so far changes nothing. -/
theorem Sifted.best_concat (h : Sifted rate tried found)
    (lower : ∀ score, rate v = .ok score → Ranked.beats score found.2 = false) :
    (found = (none, Ranked.least) ∧
      ∀ w ∈ tried ++ [v], ∀ score, rate w = .ok score →
        Ranked.beats score Ranked.least = false) ∨
    ∃ value score, found = (some value, score) ∧
      Foremost rate (tried ++ [v]) value score := by
  rcases h.best with ⟨rfl, hnone⟩ | ⟨value, score, rfl, hbest⟩
  · exact .inl ⟨rfl,
      List.forall_mem_append.mpr ⟨hnone, List.forall_mem_singleton.mpr lower⟩⟩
  · exact .inr ⟨value, score, rfl, hbest.concat lower⟩

/-- A candidate whose score fails for the time being is passed over. -/
theorem Sifted.skip (h : Sifted rate tried found) {e : PlanError}
    (hv : rate v = .error e) (he : e.isTransient = true) :
    Sifted rate (tried ++ [v]) found where
  transient := by
    refine List.forall_mem_append.mpr ⟨h.transient,
      List.forall_mem_singleton.mpr fun e' he' => ?_⟩
    rw [hv] at he'
    exact Except.error.inj he' ▸ he
  best := by
    have lower : ∀ score, rate v = .ok score →
        Ranked.beats score found.2 = false := by
      intro score hscore
      rw [hv] at hscore
      cases hscore
    exact h.best_concat lower

/-- A score that beats the best so far is the best from now on. -/
theorem Sifted.score [LawfulRanked Sc]
    (h : Sifted rate tried found) {score : Sc} (hv : rate v = .ok score) :
    Sifted rate (tried ++ [v]) (if Ranked.beats score found.2
      then (some v, score) else found) where
  transient := by
    refine List.forall_mem_append.mpr ⟨h.transient,
      List.forall_mem_singleton.mpr fun e he => ?_⟩
    rw [hv] at he
    cases he
  best := by
    cases hbeats : Ranked.beats score found.2 with
    | true =>
        -- all that was tried before is beaten by what beats the best of it
        refine .inr ⟨v, score, if_pos rfl, hv, ?_, tried, [], rfl, ?_,
          fun w hw => (nomatch hw)⟩
        · rcases h.best with ⟨rfl, -⟩ | ⟨value, best, rfl, hbest⟩
          · exact hbeats
          · exact LawfulRanked.trans _ _ _ hbeats hbest.above
        · intro w hw other hother
          refine Ranked.beats_of_not_beats hbeats ?_
          rcases h.best with ⟨rfl, hnone⟩ | ⟨value, best, rfl, hbest⟩
          · exact hnone w hw other hother
          · exact hbest.highest hw hother
    | false =>
        have lower : ∀ other, rate v = .ok other →
            Ranked.beats other found.2 = false := by
          intro other hother
          rw [hv] at hother
          exact Except.ok.inj hother ▸ hbeats
        rw [if_neg Bool.false_ne_true]
        exact h.best_concat lower

end

-- ================================================================= choices

/-- What was decided for one entity. -/
structure Choice (V Sc : Type) where
  /-- The unit that the entity was minted for. -/
  unit : Nat
  value : V
  score : Sc

namespace Demand

variable (demand : Demand S E V Date T)

/-- The solution with one more entity, for a unit, that holds nothing. -/
def opened (s : S) (unit : Nat) : S :=
  demand.push (demand.mint s (demand.entities s).length unit) s

/-- The solution with one more entity that is given a value, or none. -/
def attempt (s : S) (unit : Nat) (value : Option V) : S :=
  demand.assign (demand.entities s).length value (demand.opened s unit)

/-- The solution that some choices lead to. -/
def filled (s : S) (chosen : List (Choice V Sc)) : S :=
  chosen.foldl (fun s c => demand.attempt s c.unit (some c.value)) s

variable {demand} {s t : S} {chosen more : List (Choice V Sc)} {c : Choice V Sc}
  {unit : Nat} {value : Option V}

@[simp]
theorem filled_nil : demand.filled s ([] : List (Choice V Sc)) = s := rfl

theorem filled_append :
    demand.filled s (chosen ++ more)
      = demand.filled (demand.filled s chosen) more :=
  List.foldl_append

/-- The last choice is attempted where the others have been made. -/
theorem filled_concat :
    demand.filled s (chosen ++ [c]) =
      demand.attempt (demand.filled s chosen) c.unit (some c.value) :=
  filled_append

variable [Planning S Sc]

/-- The entities of the one solution are the first ones of the other, and
hold the same. -/
structure Begins (demand : Demand S E V Date T) (s t : S) : Prop where
  entities : demand.entities s <+: demand.entities t
  assigned : ∀ i < (demand.entities s).length,
    demand.assigned t i = demand.assigned s i

omit [Planning S Sc] in
theorem Begins.refl (s : S) : demand.Begins s s :=
  ⟨List.prefix_refl _, fun _ _ => rfl⟩

omit [Planning S Sc] in
theorem Begins.trans {u : S} (h : demand.Begins s t) (g : demand.Begins t u) :
    demand.Begins s u :=
  ⟨h.entities.trans g.entities, fun i hi =>
    (g.assigned i (Nat.lt_of_lt_of_le hi h.entities.length_le)).trans
      (h.assigned i hi)⟩

/-- What a solution stores as its score is nothing that an entity holds, -/
theorem Lawful.assigned_of_bare (lawful : demand.Lawful)
    (hbare : Planning.bare s = Planning.bare t) (i : Nat) :
    demand.assigned s i = demand.assigned t i := by
  have blind := fun (score : Option Sc) (s : S) =>
    lawful.assigned_store score s i
  exact @Planning.congr_of_store S Sc (Option V) _ _ _
    (fun s => demand.assigned s i) blind hbare

/-- and is none of the entities. -/
theorem Begins.of_bare (h : demand.Begins s t) (lawful : demand.Lawful) {u : S}
    (hbare : Planning.bare u = Planning.bare t) : demand.Begins s u where
  entities := by
    rw [Planning.congr_of_store lawful.entities_store hbare]
    exact h.entities
  assigned i hi := (lawful.assigned_of_bare hbare i).trans (h.assigned i hi)

namespace Lawful

/-- A stored score stays where it is while an entity is opened. -/
theorem opened_store (lawful : demand.Lawful) (score : Option Sc) (s : S)
    (unit : Nat) : demand.opened (Planning.store score s) unit
      = Planning.store score (demand.opened s unit) := by
  unfold opened
  rw [lawful.entities_store, lawful.mint_store, lawful.push_store]

/-- An attempt gives out the next id. -/
theorem ids_attempt (lawful : demand.Lawful) (s : S) (unit : Nat)
    (value : Option V) :
    (demand.entities (demand.attempt s unit value)).map demand.id =
      (demand.entities s).map demand.id ++ [(demand.entities s).length] := by
  unfold attempt opened
  rw [lawful.ids_assign, lawful.entities_push, List.map_append,
    List.map_singleton, lawful.id_mint]

theorem length_attempt (lawful : demand.Lawful) (s : S) (unit : Nat)
    (value : Option V) : (demand.entities (demand.attempt s unit value)).length
      = (demand.entities s).length + 1 := by
  have hids := congrArg List.length (lawful.ids_attempt s unit value)
  rwa [List.length_map, List.length_append, List.length_map,
    List.length_singleton] at hids

theorem length_opened (lawful : demand.Lawful) (s : S) (unit : Nat) :
    (demand.entities (demand.opened s unit)).length
      = (demand.entities s).length + 1 := by
  unfold opened
  rw [lawful.entities_push, List.length_append, List.length_singleton]

/-- One more entity leaves those before it alone. -/
theorem begins_attempt (lawful : demand.Lawful) (s : S) (unit : Nat)
    (value : Option V) : demand.Begins s (demand.attempt s unit value) where
  entities := by
    refine List.prefix_iff_getElem?.mpr fun i hi => ?_
    unfold attempt
    rw [lawful.entities_assign_of_ne _ _ _ _ (Nat.ne_of_lt hi), opened,
      lawful.entities_push, List.getElem?_append_left hi,
      List.getElem?_eq_getElem hi]
  assigned i hi := by
    unfold attempt opened
    rw [lawful.assigned_assign_of_ne _ _ _ _ (Nat.ne_of_lt hi),
      lawful.assigned_push _ _ _ hi]

/-- The entity that is attempted holds the value. -/
theorem assigned_attempt (lawful : demand.Lawful) (s : S) (unit : Nat)
    (value : Option V) :
    demand.assigned (demand.attempt s unit value) (demand.entities s).length
      = value :=
  lawful.assigned_assign _ _ _
    (by rw [lawful.length_opened]; exact Nat.lt_succ_self _)

/-- Choices are made on top of what was there. -/
theorem begins_filled (lawful : demand.Lawful) (s : S)
    (chosen : List (Choice V Sc)) :
    demand.Begins s (demand.filled s chosen) := by
  induction chosen generalizing s with
  | nil => exact .refl s
  | cons c rest ih =>
      exact (lawful.begins_attempt s c.unit (some c.value)).trans (ih _)

section

variable (lawful : demand.Lawful) (empty : demand.entities s = [])

include lawful empty

/-- The ids count the entities. -/
theorem ids_filled (chosen : List (Choice V Sc)) :
    (demand.entities (demand.filled s chosen)).map demand.id
      = List.range chosen.length := by
  induction chosen using List.reverseRecOn with
  | nil =>
      rw [filled_nil, empty]
      rfl
  | append_singleton chosen c ih =>
      have hlength := congrArg List.length ih
      rw [List.length_map, List.length_range] at hlength
      rw [filled_concat, lawful.ids_attempt, ih, hlength, List.length_append,
        List.length_singleton, List.range_succ]

theorem length_filled (chosen : List (Choice V Sc)) :
    (demand.entities (demand.filled s chosen)).length = chosen.length := by
  have hlength := congrArg List.length (lawful.ids_filled empty chosen)
  rwa [List.length_map, List.length_range] at hlength

/-- Every entity holds what was chosen for it. -/
theorem assigned_filled (before : List (Choice V Sc)) (c : Choice V Sc)
    (after : List (Choice V Sc)) :
    demand.assigned (demand.filled s (before ++ c :: after)) before.length
      = some c.value := by
  have hsplit : before ++ c :: after = (before ++ [c]) ++ after := by simp
  have hlength := lawful.length_filled empty before
  have hbegins := lawful.begins_filled (demand.filled s (before ++ [c])) after
  rw [hsplit, filled_append, hbegins.assigned, filled_concat, ← hlength]
  · exact lawful.assigned_attempt _ _ _
  · rw [lawful.length_filled empty, List.length_append, List.length_singleton]
    exact Nat.lt_succ_self _

end

end Lawful

-- ================================================================== greedy

variable [Ranked Sc]

/-- The value is the first of the unit's candidates that score highest, in
the place of an entity appended to the solution. -/
structure IsBest (demand : Demand S E V Date T) (scoring : Scoring S Sc) (s : S)
    (c : Choice V Sc) : Prop where
  transient : ∀ v ∈ demand.candidates (demand.opened s c.unit) c.unit, ∀ e,
    scoring.rate (demand.attempt s c.unit (some v)) = .error e →
      e.isTransient = true
  foremost : Foremost (fun v => scoring.rate (demand.attempt s c.unit (some v)))
    (demand.candidates (demand.opened s c.unit) c.unit) c.value c.score

/-- Each choice is the best one after those before it. -/
def Greedy (demand : Demand S E V Date T) (scoring : Scoring S Sc) (s : S)
    (chosen : List (Choice V Sc)) : Prop :=
  ∀ before c after, chosen = before ++ c :: after →
    demand.IsBest scoring (demand.filled s before) c

variable {scoring : Scoring S Sc}

theorem greedy_nil : demand.Greedy scoring s [] :=
  fun _ _ _ h => absurd h (by simp)

/-- One more best choice. -/
theorem Greedy.concat (h : demand.Greedy scoring s chosen)
    (hc : demand.IsBest scoring (demand.filled s chosen) c) :
    demand.Greedy scoring s (chosen ++ [c]) := by
  intro before c' after hsplit
  rcases List.eq_nil_or_concat after with rfl | ⟨after', last, rfl⟩
  · obtain ⟨rfl, hlast⟩ := List.append_inj' hsplit rfl
    obtain rfl := List.head_eq_of_cons_eq hlast
    exact hc
  · have hsplit' : chosen ++ [c] = (before ++ c' :: after') ++ [last] := by
      rw [hsplit, List.concat_eq_append]
      simp
    exact h before c' after' (List.append_inj' hsplit' rfl).1

end Demand

end PlanSearch

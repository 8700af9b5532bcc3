/-
How an act ends: one judgement for the two ways it can.

`act.Leads excuse s post` says that `act`, started in `s`, either comes to
its end with an answer and a state that `post` admits, or breaks off, and
then `excuse` holds. With `False` for the excuse this is total
correctness; with "the director faults now and then" it says that nothing
else makes the act break off. Both readings compose along `bind`, so each
statement about a run is proved once for both.
-/
import PlanSearch.Fault

namespace PlanSearch

/-- A sequence that answers has answered at each of its parts. -/
theorem exists_of_bind_ok {ε α β : Type} {first : Except ε α}
    {next : α → Except ε β} {b : β} (h : first >>= next = .ok b) :
    ∃ a, first = .ok a ∧ next a = .ok b := by
  cases first with
  | error e => cases h
  | ok a => exact ⟨a, rfl, h⟩

/-- A sequence that fails has failed at its first part, or after it. -/
theorem error_of_bind {ε α β : Type} {first : Except ε α}
    {next : α → Except ε β} {e : ε} (h : first >>= next = .error e) :
    first = .error e ∨ ∃ a, first = .ok a ∧ next a = .error e := by
  cases first with
  | error e' =>
    cases h
    exact .inl rfl
  | ok a => exact .inr ⟨a, rfl, h⟩

namespace Act

variable {σ τ α β : Type} {excuse : Prop}

-- ======================================================== the judgement

/-- The act ends as `post` says, or breaks off for the given excuse. It is
opened by the rules below only: nothing else should run the act. -/
@[irreducible] def Leads (excuse : Prop) (act : Act σ α) (s : σ)
    (post : α → σ → Prop) : Prop :=
  match act.run s with
  | (.ok a, t) => post a t
  | (.error _, _) => excuse

/-- What comes next runs on the answer, and not at all after a fault. -/
theorem run_bind (act : Act σ α) (next : α → Act σ β) (s : σ) :
    (act >>= next).run s = match act.run s with
      | (.ok a, t) => (next a).run t
      | (.error f, t) => (.error f, t) := by
  unfold ExceptT.run
  simp only [bind, ExceptT.bind, ExceptT.mk, StateT.bind, ExceptT.bindCont]
  cases act s with
  | mk result t => cases result <;> rfl

-- ============================================================= the rules

theorem leads_pure {a : α} {s : σ} {post : α → σ → Prop} (h : post a s) :
    (pure a : Act σ α).Leads excuse s post := by
  unfold Leads
  exact h

/-- What the first act leaves behind is where the next one starts. -/
theorem leads_bind {act : Act σ α} {next : α → Act σ β} {s : σ}
    {post : β → σ → Prop}
    (h : act.Leads excuse s fun a t => (next a).Leads excuse t post) :
    (act >>= next).Leads excuse s post := by
  unfold Leads at h ⊢
  rw [run_bind]
  cases hrun : act.run s with
  | mk result t =>
      rw [hrun] at h
      cases result with
      | ok a => exact h
      | error f => exact h

/-- A sequence comes to its end through the end of its first act. -/
theorem Leads.of_bind {act : Act σ α} {next : α → Act σ β} {s : σ}
    {post : β → σ → Prop} (h : (act >>= next).Leads excuse s post) :
    act.Leads excuse s fun a t => (next a).Leads excuse t post := by
  unfold Leads at h ⊢
  rw [run_bind] at h
  cases hrun : act.run s with
  | mk result t =>
      rw [hrun] at h
      cases result with
      | ok a => exact h
      | error f => exact h

/-- A weaker end and a wider excuse. -/
theorem Leads.mono {wider : Prop} {act : Act σ α} {s : σ}
    {post weaker : α → σ → Prop} (h : act.Leads excuse s post)
    (hpost : ∀ a t, post a t → weaker a t) (hexcuse : excuse → wider) :
    act.Leads wider s weaker := by
  unfold Leads at h ⊢
  cases hrun : act.run s with
  | mk result t =>
      rw [hrun] at h
      cases result with
      | ok a => exact hpost a t h
      | error f => exact hexcuse h

/-- An act that came to its end came to one that `post` admits. -/
theorem Leads.of_run {act : Act σ α} {s t : σ} {a : α} {post : α → σ → Prop}
    (h : act.Leads excuse s post) (hrun : act.run s = (.ok a, t)) :
    post a t := by
  unfold Leads at h
  rw [hrun] at h
  exact h

/-- What always holds when the act ends holds besides what is shown of it. -/
theorem Leads.and {act : Act σ α} {s : σ} {post other : α → σ → Prop}
    (h : act.Leads excuse s post) (g : act.Leads True s other) :
    act.Leads excuse s fun a t => post a t ∧ other a t := by
  unfold Leads at h g ⊢
  cases hrun : act.run s with
  | mk result t =>
      rw [hrun] at h g
      cases result with
      | ok a => exact ⟨h, g⟩
      | error f => exact h

/-- An act that comes to its end has come to it. -/
theorem leads_self (act : Act σ α) (s : σ) :
    act.Leads True s fun a t => act.run s = (.ok a, t) := by
  unfold Leads
  cases act.run s with
  | mk result t =>
      cases result with
      | ok a => rfl
      | error f => trivial

/-- A change of the state leads to the changed state. -/
theorem leads_update {change : σ → σ} {s : σ} {post : Unit → σ → Prop}
    (h : post () (change s)) : (update change).Leads excuse s post := by
  unfold Leads
  exact h

theorem leads_get {s : σ} {post : σ → σ → Prop} (h : post s s) :
    (get : Act σ σ).Leads excuse s post := by
  unfold Leads
  exact h

theorem leads_set {s t : σ} {post : PUnit → σ → Prop} (h : post ⟨⟩ t) :
    (set t : Act σ PUnit).Leads excuse s post := by
  unfold Leads
  exact h

theorem leads_modify {change : σ → σ} {s : σ} {post : PUnit → σ → Prop}
    (h : post ⟨⟩ (change s)) :
    (modify change : Act σ PUnit).Leads excuse s post := by
  unfold Leads
  exact h

/-- A computation that may fault leaves the state alone. -/
theorem leads_look_or {read : σ → Except Fault α} {s : σ} {post : α → σ → Prop}
    (h : ∀ a, read s = .ok a → post a s)
    (hfault : ∀ f, read s = .error f → excuse) :
    (look read).Leads excuse s post := by
  unfold Leads
  show (match (read s, s) with
    | (.ok a, t) => post a t
    | (.error _, _) => excuse)
  cases hread : read s with
  | ok a => exact h a hread
  | error f => exact hfault f hread

/-- Whatever is read from the state, if anything. -/
theorem leads_look {read : σ → Except Fault α} {s : σ} {post : α → σ → Prop}
    (h : ∀ a, read s = .ok a → post a s) : (look read).Leads True s post :=
  leads_look_or h fun _ _ => trivial

/-- An outside result, with an excuse for its faults. -/
theorem leads_lift_or {result : Except Fault α} {s : σ} {post : α → σ → Prop}
    (h : ∀ a, result = .ok a → post a s)
    (hfault : ∀ f, result = .error f → excuse) :
    (lift result : Act σ α).Leads excuse s post :=
  leads_look_or h hfault

/-- An outside result, if there is one. -/
theorem leads_lift {result : Except Fault α} {s : σ} {post : α → σ → Prop}
    (h : ∀ a, result = .ok a → post a s) :
    (lift result : Act σ α).Leads True s post :=
  leads_look h

/-- An act on a part of the state leaves the rest alone. -/
theorem run_zoom (get : τ → σ) (set : τ → σ → τ) (act : Act σ α) (s : τ) :
    (zoom get set act).run s
      = ((act.run (get s)).1, set s (act.run (get s)).2) := rfl

/-- An act on a part of the state leaves the rest as it was. -/
theorem leads_zoom {get : τ → σ} {set : τ → σ → τ} {act : Act σ α} {s : τ}
    {post : α → τ → Prop}
    (h : act.Leads excuse (get s) fun a part => post a (set s part)) :
    (zoom get set act).Leads excuse s post := by
  unfold Leads at h ⊢
  rw [run_zoom]
  cases hrun : act.run (get s) with
  | mk result part =>
      rw [hrun] at h
      cases result with
      | ok a => exact h
      | error f => exact h

-- ============================================================ invariants

/-- The act breaks no invariant. -/
def Preserves (excuse : Prop) (inv : σ → Prop) (act : Act σ α) : Prop :=
  ∀ s, inv s → act.Leads excuse s fun _ => inv

/-- Whoever never breaks off needs no excuse. -/
theorem Preserves.excused {inv : σ → Prop} {act : Act σ α}
    (h : act.Preserves False inv) : act.Preserves excuse inv :=
  fun s hs => (h s hs).mono (fun _ _ ht => ht) False.elim

/-- Where the excuse holds there is nothing else to show. -/
theorem preserves_of_excuse (h : excuse) (act : Act σ α) :
    act.Preserves excuse fun _ => True := by
  intro s _
  unfold Leads
  cases act.run s with
  | mk result t =>
      cases result with
      | ok a => trivial
      | error f => exact h

/-- An invariant of every single act is one of the whole row of them. -/
theorem preserves_forM {inv : σ → Prop} (items : List α) (act : α → Act σ PUnit)
    (h : ∀ a ∈ items, (act a).Preserves excuse inv) :
    (items.forM act).Preserves excuse inv := by
  induction items with
  | nil => exact fun s hs => leads_pure hs
  | cons a rest ih =>
      intro s hs
      show (act a >>= fun _ => rest.forM act).Leads excuse s fun _ => inv
      refine leads_bind ((h a (List.mem_cons_self ..) s hs).mono ?_ id)
      intro _ t ht
      exact ih (fun b hb => h b (List.mem_cons_of_mem _ hb)) t ht

-- ============================================================== two acts

/-- What leads to something without an excuse gets there. -/
theorem Leads.exists_run {act : Act σ α} {s : σ} {post : α → σ → Prop}
    (h : act.Leads False s post) :
    ∃ a t, act.run s = (.ok a, t) ∧ post a t := by
  unfold Leads at h
  cases hrun : act.run s with
  | mk result t =>
      rw [hrun] at h
      cases result with
      | ok a => exact ⟨a, t, rfl, h⟩
      | error f => exact h.elim

/-- A run that is known leads to where it ends. -/
theorem leads_of_run {act : Act σ α} {s t : σ} {a : α} {post : α → σ → Prop}
    (hrun : act.run s = (.ok a, t)) (h : post a t) :
    act.Leads excuse s post := by
  unfold Leads
  rw [hrun]
  exact h

/-- Two acts next to each other, each on a state of its own: both come to
their end, and `post` admits the two ends. -/
def Both (first : Act σ α) (second : Act τ β) (s : σ) (t : τ)
    (post : α → σ → β → τ → Prop) : Prop :=
  first.Leads False s fun a s' => second.Leads False t fun b t' =>
    post a s' b t'

/-- Two acts each of which leads somewhere get there both. -/
theorem both_of_leads {first : Act σ α} {second : Act τ β} {s : σ} {t : τ}
    {left : α → σ → Prop} {right : β → τ → Prop} {post : α → σ → β → τ → Prop}
    (h : first.Leads False s left) (g : second.Leads False t right)
    (hpost : ∀ a s' b t', left a s' → right b t' → post a s' b t') :
    Both first second s t post :=
  h.mono (fun a s' ha => g.mono (fun b t' hb => hpost a s' b t' ha hb) id) id

theorem both_pure {a : α} {b : β} {s : σ} {t : τ} {post : α → σ → β → τ → Prop}
    (h : post a s b t) : Both (pure a) (pure b) s t post :=
  leads_pure (leads_pure h)

/-- An act does the same whenever it starts in the same state. -/
theorem both_self {act : Act σ α} {s : σ} {post : α → σ → Prop}
    (h : act.Leads False s post) :
    Both act act s s fun a s' b t' => b = a ∧ t' = s' ∧ post a s' := by
  obtain ⟨a, t, hrun, hpost⟩ := h.exists_run
  exact leads_of_run hrun (leads_of_run hrun ⟨rfl, rfl, hpost⟩)

theorem Both.mono {first : Act σ α} {second : Act τ β} {s : σ} {t : τ}
    {post weaker : α → σ → β → τ → Prop} (h : Both first second s t post)
    (hpost : ∀ a s' b t', post a s' b t' → weaker a s' b t') :
    Both first second s t weaker :=
  Leads.mono h (fun a s' ha =>
    ha.mono (fun b t' hb => hpost a s' b t' hb) id) id

/-- What the first acts leave behind is where the next ones start. -/
theorem both_bind {α' β' : Type} {first : Act σ α} {second : Act τ β}
    {next : α → Act σ α'} {after : β → Act τ β'} {s : σ} {t : τ}
    {post : α' → σ → β' → τ → Prop}
    (h : Both first second s t fun a s' b t' =>
      Both (next a) (after b) s' t' post) :
    Both (first >>= next) (second >>= after) s t post := by
  obtain ⟨a, s₁, hfirst, h⟩ := Leads.exists_run h
  obtain ⟨b, t₁, hsecond, h⟩ := h.exists_run
  refine leads_bind (leads_of_run hfirst (Leads.mono h ?_ id))
  exact fun _ _ hnext => leads_bind (leads_of_run hsecond hnext)

theorem both_get {s : σ} {t : τ} {post : σ → σ → τ → τ → Prop}
    (h : post s s t t) : Both (get : Act σ σ) (get : Act τ τ) s t post :=
  leads_get (leads_get h)

/-- Two changes of states side by side. -/
theorem both_update {change : σ → σ} {other : τ → τ} {s : σ} {t : τ}
    {post : Unit → σ → Unit → τ → Prop} (h : post () (change s) () (other t)) :
    Both (update change) (update other) s t post :=
  leads_update (leads_update h)

theorem both_modify {change : σ → σ} {other : τ → τ} {s : σ} {t : τ}
    {post : PUnit → σ → PUnit → τ → Prop}
    (h : post ⟨⟩ (change s) ⟨⟩ (other t)) :
    Both (modify change : Act σ PUnit) (modify other : Act τ PUnit) s t post :=
  leads_modify (leads_modify h)

/-- Two acts on parts of two states. -/
theorem both_zoom {σ' τ' : Type} {get : σ' → σ} {set : σ' → σ → σ'}
    {get' : τ' → τ} {set' : τ' → τ → τ'} {first : Act σ α} {second : Act τ β}
    {s : σ'} {t : τ'} {post : α → σ' → β → τ' → Prop}
    (h : Both first second (get s) (get' t) fun a s' b t' =>
      post a (set s s') b (set' t t')) :
    Both (zoom get set first) (zoom get' set' second) s t post :=
  leads_zoom (Leads.mono h (fun _ _ ha => leads_zoom ha) id)

end Act

end PlanSearch

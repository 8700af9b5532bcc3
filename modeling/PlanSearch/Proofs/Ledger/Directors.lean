/-
Directors that keep a ledger.

Between an announcement and its counterpart the totals are short of the
entries that were taken out. `Balanced` says by how much: by what the
entities announced at the moment contribute to the present solution. An
edit keeps this if the announcements account for it, and once all are
answered nothing is owed.

# Two directors next to each other

`InStep` says what it takes for two directors to answer alike when they are
told the same: a relation that every operation of the protocol keeps, in
the course of a batch with what is announced at the moment. Nothing is
known about either of them beyond the relation, so it carries over to two
recordings, one before each of them, whose undos touch only what they will
announce (`InStep.recording`).
-/
import PlanSearch.Proofs.Director
import PlanSearch.Proofs.Ledger.Basic

namespace PlanSearch

variable {S V F G Sc : Type} [Planning S Sc] [AddCommGroup G]
  {L : Ledger S V F G Sc} {announced : Multiset (Nat × Nat)} {slot : Nat × Nat}
  {s : S}

-- ========================================================= running totals

namespace IncrementalDirector

/-- The totals are the balance of the solution, less the entries of the
entities that are announced and may be changing. -/
structure Balanced (L : Ledger S V F G Sc)
    (announced : Multiset (Nat × Nat)) (s : S)
    (d : IncrementalDirector S Sc G) : Prop where
  calculator : d.calculator = L.calculator
  working : d.working = s
  totals : d.ready = true → d.totals = L.balance s - L.owed s announced

variable {d : IncrementalDirector S Sc G}

omit [Planning S Sc] in
theorem balanced_start (L : Ledger S V F G Sc) (totals : G) (s : S) :
    Balanced L 0 s (start L.calculator totals s) :=
  ⟨rfl, rfl, fun h => (nomatch h)⟩

omit [Planning S Sc] [AddCommGroup G] in
/-- An announcement changes the totals if there are any. -/
theorem leads_pass_update {act : Calculator S Sc G → S → Act G Unit}
    (change : G → G) {post : Unit → IncrementalDirector S Sc G → Prop}
    (hact : act d.calculator d.working = Act.update change)
    (ready : d.ready = true → post () { d with totals := change d.totals })
    (idle : d.ready = false → post () d) : (pass act).Leads False d post := by
  refine Act.leads_bind (Act.leads_get ?_)
  cases hready : d.ready with
  | false => exact Act.leads_pure (idle hready)
  | true =>
      refine Act.leads_bind (Act.leads_get (Act.leads_zoom ?_))
      rw [hact]
      exact Act.leads_update (ready hready)

/-- An announced entity is taken out of the totals. -/
theorem Balanced.leads_before (h : Balanced L announced s d) (slot : Nat × Nat)
    (name : String) : (Director.before slot.1 slot.2 name).Leads False d
      fun _ => Balanced L (slot ::ₘ announced) s := by
  obtain ⟨hcalculator, rfl, htotals⟩ := h
  refine leads_pass_update (fun total => total - L.entry d.working slot) ?_
    (fun hready => ⟨hcalculator, rfl, fun _ => ?_⟩)
    fun hidle => ⟨hcalculator, rfl, fun hready => ?_⟩
  · rw [hcalculator]
    rfl
  · show d.totals - L.entry d.working slot = _
    rw [htotals hready, Ledger.owed_cons, add_comm, sub_sub]
  · rw [hidle] at hready
    cases hready

/-- An entity announced before is put back into the totals. -/
theorem Balanced.leads_after (h : Balanced L (slot ::ₘ announced) s d)
    (name : String) : (Director.after slot.1 slot.2 name).Leads False d fun _ =>
    Balanced L announced s := by
  obtain ⟨hcalculator, rfl, htotals⟩ := h
  refine leads_pass_update (fun total => total + L.entry d.working slot) ?_
    (fun hready => ⟨hcalculator, rfl, fun _ => ?_⟩)
    fun hidle => ⟨hcalculator, rfl, fun hready => ?_⟩
  · rw [hcalculator]
    rfl
  · show d.totals + L.entry d.working slot = _
    rw [htotals hready, Ledger.owed_cons,
      add_comm (L.entry d.working slot), ← sub_sub, sub_add_cancel]
  · rw [hidle] at hready
    cases hready

/-- An edit that is accounted for. -/
theorem Balanced.edit (lawful : L.Lawful) (h : Balanced L announced s d)
    (write : S → S) (covers : L.Covers announced s (write s)) :
    Balanced L announced (write s) (Director.edit write d) where
  calculator := h.calculator
  working := congrArg write h.working
  totals hready :=
    (h.totals hready).trans (covers.balance_eq (lawful.nodup s)).symm

/-- A pushed entity is put into the totals. -/
theorem Balanced.leads_added (h : Balanced L 0 s d) {write : S → S}
    (grows : L.Grows slot s (write s)) :
    (Director.added slot.1 slot.2).Leads False (Director.edit write d)
      fun _ => Balanced L 0 (write s) := by
  obtain ⟨hcalculator, rfl, htotals⟩ := h
  refine leads_pass_update
    (fun total => total + L.entry (write d.working) slot) ?_
    (fun hready => ⟨hcalculator, rfl, fun _ => ?_⟩)
    fun hidle => ⟨hcalculator, rfl, fun hready => ?_⟩
  · show d.calculator.insertNew (write d.working) slot.1 slot.2 = _
    rw [hcalculator]
    rfl
  · show d.totals + L.entry (write d.working) slot = _
    rw [htotals hready, grows.balance_eq, Ledger.owed_zero, Ledger.owed_zero,
      sub_zero, sub_zero]
  · rw [hidle] at hready
    cases hready

/-- After a reset nothing is kept that could be wrong. -/
theorem Balanced.leads_reset (h : Balanced L 0 s d) (write : S → S) :
    (Director.reset (D := IncrementalDirector S Sc G)).Leads False
      (Director.edit write d) fun _ => Balanced L 0 (write s) :=
  Act.leads_update ⟨h.calculator, congrArg write h.working,
    fun hready => (nomatch hready)⟩

omit [Planning S Sc] in
/-- After the first scan the totals are the balance. -/
theorem Balanced.leads_prepare (h : Balanced L 0 s d) :
    (prepare : Act (IncrementalDirector S Sc G) Unit).Leads False d fun _ d' =>
      Balanced L 0 s d' ∧ d'.totals = L.balance s := by
  obtain ⟨hcalculator, rfl, htotals⟩ := h
  refine Act.leads_bind (Act.leads_get ?_)
  cases hready : d.ready with
  | true =>
      have hbalance := htotals hready
      rw [Ledger.owed_zero, sub_zero] at hbalance
      exact Act.leads_pure ⟨⟨hcalculator, rfl, htotals⟩, hbalance⟩
  | false =>
      refine Act.leads_bind (Act.leads_bind (Act.leads_get (Act.leads_zoom ?_)))
      rw [hcalculator]
      refine Act.leads_update (Act.leads_modify ⟨⟨rfl, rfl, fun _ => ?_⟩, rfl⟩)
      rw [Ledger.owed_zero, sub_zero]

/-- A stored score leaves the totals balanced. -/
theorem Balanced.store (lawful : L.Lawful) (h : Balanced L 0 s d) (score : Sc) :
    Balanced L 0 (Planning.store (some score) s)
      { d with working := Planning.store (some score) d.working } where
  calculator := h.calculator
  working := congrArg (Planning.store (some score)) h.working
  totals hready := by
    rw [lawful.balance_store, Ledger.owed_zero, ← Ledger.owed_zero (L := L) s]
    exact h.totals hready

/-- A score call answers the score and leaves it stored. -/
theorem Balanced.leads_score (lawful : L.Lawful) (h : Balanced L 0 s d) :
    (Director.score (D := IncrementalDirector S Sc G)).Leads False d
      fun score d' =>
      score = L.score s ∧
      Balanced L 0 (Planning.store (some (L.score s)) s) d' := by
  refine Act.leads_bind (h.leads_prepare.mono (fun _ d₁ g => ?_) id)
  obtain ⟨hd₁, htotals⟩ := g
  refine Act.leads_bind (Act.leads_of_run (t := d₁) (a := L.score s) ?_ ?_)
  · show (d₁.calculator.total d₁.totals, d₁) = _
    rw [hd₁.calculator, htotals]
    rfl
  · exact Act.leads_bind
      (Act.leads_update (Act.leads_pure ⟨rfl, hd₁.store lawful _⟩))

theorem Balanced.leads_tryScore (lawful : L.Lawful) (h : Balanced L 0 s d) :
    (Director.tryScore (D := IncrementalDirector S Sc G)).Leads False d
      fun answer d' =>
      answer = .ok (L.score s) ∧
      Balanced L 0 (Planning.store (some (L.score s)) s) d' := by
  refine Act.leads_bind (h.leads_prepare.mono (fun _ d₁ g => ?_) id)
  obtain ⟨hd₁, htotals⟩ := g
  refine Act.leads_bind
    (Act.leads_of_run (t := d₁) (a := .ok (L.score s)) ?_ ?_)
  · show (d₁.calculator.tryTotal d₁.totals, d₁) = _
    rw [hd₁.calculator, htotals]
    rfl
  · exact Act.leads_bind
      (Act.leads_update (Act.leads_pure ⟨rfl, hd₁.store lawful _⟩))

end IncrementalDirector

-- ==================================================== directors in step

namespace Ledger

/-- Two directors that hear the same announcements. In the course of a batch
`tied` is told what is announced and not yet answered, and always the
solution that both of them work on. -/
structure Listening {D E : Type} [Director D S Sc] [Director E S Sc]
    (L : Ledger S V F G Sc) (tied : Multiset (Nat × Nat) → S → D → E → Prop) :
    Prop where
  working : ∀ {announced s d e}, tied announced s d e →
    Director.working d = s ∧ Director.working e = s
  before : ∀ {announced s d e}, tied announced s d e →
    ∀ (slot : Nat × Nat) (name : String),
    Act.Both (Director.before slot.1 slot.2 name)
      (Director.before slot.1 slot.2 name) d e
      fun _ d' _ e' => tied (slot ::ₘ announced) s d' e'
  edit : ∀ {announced s d e}, tied announced s d e → ∀ write : S → S,
    L.Covers announced s (write s) →
      tied announced (write s) (Director.edit write d) (Director.edit write e)
  after : ∀ {slot announced s d e}, tied (slot ::ₘ announced) s d e →
    ∀ name : String,
    Act.Both (Director.after slot.1 slot.2 name)
      (Director.after slot.1 slot.2 name) d e
      fun _ d' _ e' => tied announced s d' e'

/-- Two directors that answer alike. -/
structure InStep {D E : Type} [Director D S Sc] [Director E S Sc]
    (L : Ledger S V F G Sc) (tied : Multiset (Nat × Nat) → S → D → E → Prop) :
    Prop extends L.Listening tied where
  /-- The end of a batch that hands over how to take it back. -/
  close : ∀ {slots : List (Nat × Nat)} {s d e}, tied slots s d e →
    ∀ (name : String) (undo : S → S), (∀ s, L.Within slots s (undo s)) →
      Act.Both
        (do slots.forM fun t => Director.after t.1 t.2 name
            Director.keepUndo undo)
        (do slots.forM fun t => Director.after t.1 t.2 name
            Director.keepUndo undo)
        d e fun _ d' _ e' => tied 0 s d' e'
  added : ∀ {slot s d e}, tied 0 s d e →
    ∀ write : S → S, L.Grows slot s (write s) →
    Act.Both (Director.added slot.1 slot.2) (Director.added slot.1 slot.2)
      (Director.edit write d) (Director.edit write e) fun _ d' _ e' =>
        tied 0 (write s) d' e'
  reset : ∀ {s d e}, tied 0 s d e → ∀ write : S → S,
    Act.Both (Director.reset (D := D)) (Director.reset (D := E))
      (Director.edit write d) (Director.edit write e) fun _ d' _ e' =>
        tied 0 (write s) d' e'
  score : ∀ {s d e}, tied 0 s d e →
    Act.Both (Director.score (D := D)) (Director.score (D := E)) d e
        fun a d' b e' =>
      a = L.score s ∧ b = L.score s ∧
        tied 0 (Planning.store (some (L.score s)) s) d' e'
  tryScore : ∀ {s d e}, tied 0 s d e →
    Act.Both (Director.tryScore (D := D)) (Director.tryScore (D := E)) d e
        fun a d' b e' =>
      a = .ok (L.score s) ∧ b = .ok (L.score s) ∧
        tied 0 (Planning.store (some (L.score s)) s) d' e'

section

variable {D E : Type} [Director D S Sc] [Director E S Sc]
  {tied : Multiset (Nat × Nat) → S → D → E → Prop} {d : D} {e : E}

omit [Planning S Sc] [AddCommGroup G] in
/-- Announcements one after the other. -/
theorem Listening.both_before (listening : L.Listening tied)
    (slots : List (Nat × Nat)) (name : String) (h : tied announced s d e) :
    Act.Both (slots.forM fun t => Director.before t.1 t.2 name)
      (slots.forM fun t => Director.before t.1 t.2 name) d e
      fun _ d' _ e' => tied (slots + announced) s d' e' := by
  induction slots generalizing announced d e with
  | nil =>
      refine Act.both_pure ?_
      rw [Multiset.coe_nil, zero_add]
      exact h
  | cons slot rest ih =>
      refine Act.both_bind ((listening.before h slot name).mono
        fun _ _ _ _ g => ?_)
      refine (ih g).mono fun _ _ _ _ g' => ?_
      rw [← Multiset.cons_coe, Multiset.cons_add, ← Multiset.add_cons]
      exact g'

omit [Planning S Sc] [AddCommGroup G] in
/-- And their answers. -/
theorem Listening.both_after (listening : L.Listening tied)
    (slots : List (Nat × Nat)) (name : String)
    (h : tied (slots + announced) s d e) :
    Act.Both (slots.forM fun t => Director.after t.1 t.2 name)
      (slots.forM fun t => Director.after t.1 t.2 name) d e
      fun _ d' _ e' => tied announced s d' e' := by
  induction slots generalizing d e with
  | nil =>
      rw [Multiset.coe_nil, zero_add] at h
      exact Act.both_pure h
  | cons slot rest ih =>
      rw [← Multiset.cons_coe, Multiset.cons_add] at h
      exact Act.both_bind ((listening.after h name).mono fun _ _ _ _ g => ih g)

end

-- ================================================ from scratch and by totals

/-- Running totals next to scoring from scratch. -/
structure Tied (L : Ledger S V F G Sc)
    (announced : Multiset (Nat × Nat)) (s : S) (d : IncrementalDirector S Sc G)
    (e : FullDirector S Sc) : Prop where
  balanced : IncrementalDirector.Balanced L announced s d
  settled : FullDirector.Settled L.score s e

theorem tied_start (L : Ledger S V F G Sc) (totals : G) (s : S) :
    L.Tied 0 s (.start L.calculator totals s)
      (.start (fun s => .ok (L.score s)) s) :=
  ⟨IncrementalDirector.balanced_start L totals s,
    FullDirector.settled_start L.score s⟩

/-- Both directors hear what is announced. -/
theorem Lawful.listening_tied (lawful : L.Lawful) : L.Listening L.Tied where
  working h := ⟨h.balanced.working, h.settled.working⟩
  before h slot name :=
    Act.both_of_leads (h.balanced.leads_before slot name) h.settled.leads_forget
      fun _ _ _ _ hd he => ⟨hd, he⟩
  edit h write covers :=
    ⟨h.balanced.edit lawful write covers, h.settled.edit write⟩
  after h name :=
    Act.both_of_leads (h.balanced.leads_after name) h.settled.leads_forget
      fun _ _ _ _ hd he => ⟨hd, he⟩

/-- A director by running totals answers like one that scores from scratch. -/
theorem Lawful.inStep_tied [LawfulPlanning S] (lawful : L.Lawful) :
    L.InStep L.Tied where
  toListening := lawful.listening_tied
  close {slots} _ _ _ h name undo _ := by
    refine Act.both_bind ?_
    rw [← add_zero (slots : Multiset (Nat × Nat))] at h
    refine (lawful.listening_tied.both_after slots name h).mono
      fun _ _ _ _ g => ?_
    exact Act.both_pure g
  added h write grows :=
    Act.both_of_leads (h.balanced.leads_added grows)
      (h.settled.edit write).leads_forget
      fun _ _ _ _ hd he => ⟨hd, he⟩
  reset h write :=
    Act.both_of_leads (h.balanced.leads_reset write)
      (h.settled.edit write).leads_forget
      fun _ _ _ _ hd he => ⟨hd, he⟩
  score h :=
    Act.both_of_leads (h.balanced.leads_score lawful)
      (h.settled.leads_score lawful.score_store)
      fun _ _ _ _ hd he => ⟨hd.1, he.1, hd.2, he.2⟩
  tryScore h :=
    Act.both_of_leads (h.balanced.leads_tryScore lawful)
      (h.settled.leads_tryScore lawful.score_store)
      fun _ _ _ _ hd he => ⟨hd.1, he.1, hd.2, he.2⟩

-- ============================================================= recordings

variable {D E : Type} [Director D S Sc] [Director E S Sc]
  {tied : Multiset (Nat × Nat) → S → D → E → Prop}

/-- Two recordings of the same: equal undos, which touch only what will be
announced when they are played. -/
structure Recorded (L : Ledger S V F G Sc)
    (tied : Multiset (Nat × Nat) → S → D → E → Prop)
    (announced : Multiset (Nat × Nat)) (s : S) (r : Recording D S)
    (q : Recording E S) : Prop where
  inner : tied announced s r.inner q.inner
  undos : q.undos = r.undos
  touched : q.touched = r.touched
  nodup : r.touched.Nodup
  within : ∀ undo ∈ r.undos, ∀ s, L.Within r.touched s (undo s)

omit [Planning S Sc] [AddCommGroup G] [Director D S Sc] [Director E S Sc] in
theorem recorded_start {d : D} {e : E} (h : tied 0 s d e) :
    L.Recorded tied 0 s (Recording.start d) (Recording.start e) :=
  ⟨h, rfl, rfl, List.nodup_nil, fun _ hmem => (nomatch hmem)⟩

variable {r : Recording D S} {q : Recording E S}

/-- What the inner directors are told, beside the recordings. -/
theorem Recorded.both_inside {α β : Type} {first : Act D α} {second : Act E β}
    {post : α → D → β → E → Prop}
    {weaker : α → Recording D S → β → Recording E S → Prop}
    (g : Act.Both first second r.inner q.inner post)
    (hpost : ∀ a d b e, post a d b e →
      weaker a { r with inner := d } b { q with inner := e }) :
    Act.Both (Recording.inside first) (Recording.inside second) r q weaker :=
  Act.both_zoom (g.mono hpost)

omit [Planning S Sc] [AddCommGroup G] [Director D S Sc] [Director E S Sc] in
/-- Touching keeps the recordings equal and adds the entity. -/
theorem Recorded.both_touch (h : L.Recorded tied announced s r q)
    (slot : Nat × Nat) :
    Act.Both (Recording.touch slot) (Recording.touch slot) r q fun _ r' _ q' =>
      L.Recorded tied announced s r' q' ∧ slot ∈ r'.touched ∧
      ∀ t ∈ r.touched, t ∈ r'.touched := by
  refine Act.both_update ?_
  rw [h.touched]
  by_cases hmem : r.touched.contains slot = true
  · rw [if_pos hmem, if_pos hmem]
    exact ⟨h, List.contains_iff_mem.mp hmem, fun _ ht => ht⟩
  · rw [if_neg hmem, if_neg hmem]
    have hnew : slot ∉ r.touched := fun g => hmem (List.contains_iff_mem.mpr g)
    have hsub : ∀ t ∈ r.touched, t ∈ r.touched ++ [slot] :=
      fun t ht => List.mem_append_left _ ht
    refine ⟨⟨h.inner, h.undos, rfl, ?_, fun undo hundo s => ?_⟩, ?_, hsub⟩
    · exact h.nodup.append (List.nodup_singleton slot) (by simpa using hnew)
    · exact (h.within undo hundo s).mono hsub
    · exact List.mem_append_right _ (List.mem_singleton.mpr rfl)

/-- Both recordings remember the entity that was touched. -/
theorem InStep.both_after_recorded (step : L.InStep tied)
    (h : L.Recorded tied (slot ::ₘ announced) s r q) (name : String) :
    Act.Both (Director.after slot.1 slot.2 name)
      (Director.after slot.1 slot.2 name) r q fun _ r' _ q' =>
      L.Recorded tied announced s r' q' ∧ slot ∈ r'.touched ∧
        ∀ t ∈ r.touched, t ∈ r'.touched := by
  refine Act.both_bind (Recorded.both_inside (step.after h.inner name)
    fun _ d _ e g => ?_)
  have hinner : L.Recorded tied announced s { r with inner := d }
      { q with inner := e } :=
    ⟨g, h.undos, h.touched, h.nodup, h.within⟩
  exact hinner.both_touch slot

/-- Both recordings hear what is announced. -/
theorem InStep.listening_recorded (step : L.InStep tied) :
    L.Listening (L.Recorded tied) where
  working h := step.working h.inner
  before h slot name := Recorded.both_inside (step.before h.inner slot name)
    fun _ _ _ _ g => ⟨g, h.undos, h.touched, h.nodup, h.within⟩
  edit h write covers :=
    ⟨step.edit h.inner write covers, h.undos, h.touched, h.nodup, h.within⟩
  after h name := (step.both_after_recorded h name).mono fun _ _ _ _ g => g.1

/-- Answered announcements are among those touched. -/
theorem InStep.both_after_touched (step : L.InStep tied)
    (slots : List (Nat × Nat)) (name : String)
    (h : L.Recorded tied slots s r q) :
    Act.Both (slots.forM fun t => Director.after t.1 t.2 name)
      (slots.forM fun t => Director.after t.1 t.2 name) r q fun _ r' _ q' =>
        L.Recorded tied 0 s r' q' ∧ (∀ t ∈ slots, t ∈ r'.touched) ∧
          ∀ t ∈ r.touched, t ∈ r'.touched := by
  induction slots generalizing r q with
  | nil => exact Act.both_pure ⟨h, fun _ hmem => (nomatch hmem), fun _ ht => ht⟩
  | cons slot rest ih =>
      rw [← Multiset.cons_coe] at h
      refine Act.both_bind ((step.both_after_recorded h name).mono
        fun _ r₁ _ q₁ g => ?_)
      obtain ⟨h₁, hslot, hkept⟩ := g
      refine (ih h₁).mono fun _ r₂ _ q₂ g₂ => ?_
      obtain ⟨h₂, hrest, hkept₂⟩ := g₂
      refine ⟨h₂, fun t ht => ?_, fun t ht => hkept₂ t (hkept t ht)⟩
      rcases List.mem_cons.mp ht with rfl | ht
      · exact hkept₂ _ hslot
      · exact hrest t ht

/-- What holds of two directors holds of recordings before them. -/
theorem InStep.recording (step : L.InStep tied) :
    L.InStep (L.Recorded tied) where
  toListening := step.listening_recorded
  close {slots s r q} h name undo within := by
    refine Act.both_bind ((step.both_after_touched slots name h).mono
      fun _ r₁ _ q₁ g => ?_)
    obtain ⟨h₁, htouched, -⟩ := g
    refine Act.both_update ⟨h₁.inner, congrArg (undo :: ·) h₁.undos,
      h₁.touched, h₁.nodup, ?_⟩
    intro other hmem s
    rcases List.mem_cons.mp hmem with rfl | hmem
    · exact (within s).mono htouched
    · exact h₁.within other hmem s
  added h write grows := Recorded.both_inside (step.added h.inner write grows)
    fun _ _ _ _ g => ⟨g, h.undos, h.touched, h.nodup, h.within⟩
  reset h write := by
    refine Act.both_bind
      (Act.both_zoom ((step.reset h.inner write).mono fun _ _ _ _ g => ?_))
    exact Act.both_update (recorded_start g)
  score h := Recorded.both_inside (step.score h.inner)
    fun _ _ _ _ g => ⟨g.1, g.2.1, g.2.2, h.undos, h.touched, h.nodup, h.within⟩
  tryScore h := Recorded.both_inside (step.tryScore h.inner)
    fun _ _ _ _ g => ⟨g.1, g.2.1, g.2.2, h.undos, h.touched, h.nodup, h.within⟩

omit [Planning S Sc] [AddCommGroup G] in
/-- Undos that touch only what is announced, played one after the other. -/
theorem Listening.edits (listening : L.Listening tied)
    {slots : List (Nat × Nat)} (nodup : slots.Nodup) (undos : List (S → S))
    (within : ∀ undo ∈ undos, ∀ s, L.Within slots s (undo s)) {d : D} {e : E}
    (h : tied slots s d e) :
    ∃ s', tied slots s' (undos.foldl (fun d undo => Director.edit undo d) d)
      (undos.foldl (fun e undo => Director.edit undo e) e) := by
  induction undos generalizing s d e with
  | nil => exact ⟨s, h⟩
  | cons undo rest ih =>
      have covers := (within undo (List.mem_cons_self ..) s).covers nodup
      exact ih (fun other hmem => within other (List.mem_cons_of_mem _ hmem))
        (listening.edit h undo covers)

theorem inside_bind {α β : Type} (act : Act D α) (next : α → Act D β) :
    (Recording.inside (act >>= next) : Act (Recording D S) β) =
      Recording.inside act >>= fun a => Recording.inside (next a) := by
  refine ExceptT.ext (funext fun r => ?_)
  unfold Recording.inside
  rw [Act.run_bind, Act.run_zoom, Act.run_zoom, Act.run_bind]
  cases act.run r.inner with
  | mk result d => cases result <;> rfl

/-- What is told one after the other is told at once. -/
theorem forM_inside {α : Type} (items : List α) (act : α → Act D PUnit) :
    (items.forM fun a => (Recording.inside (act a) : Act (Recording D S) PUnit))
      = Recording.inside (items.forM act) := by
  induction items with
  | nil => rfl
  | cons a rest ih =>
      show (Recording.inside (act a) >>= fun _ => rest.forM fun a =>
        Recording.inside (act a)) = _
      rw [ih]
      exact (inside_bind (act a) fun _ => rest.forM act).symm

/-- Taking back what is recorded keeps two directors in step. -/
theorem InStep.both_undoChanges (step : L.InStep tied)
    (h : L.Recorded tied 0 s r q) :
    Act.Both (Recording.undoChanges : Act (Recording D S) Unit)
      (Recording.undoChanges : Act (Recording E S) Unit) r q
      fun _ r' _ q' => ∃ s', L.Recorded tied 0 s' r' q' := by
  refine Act.both_bind (Act.both_get ?_)
  rw [forM_inside, forM_inside, forM_inside, forM_inside, h.touched]
  refine Act.both_bind (Recorded.both_inside
    (step.both_before r.touched "" h.inner) fun _ d _ e g => ?_)
  refine Act.both_bind (Act.both_modify (Act.both_bind (Act.both_modify ?_)))
  obtain ⟨s', g'⟩ :=
    step.edits h.nodup r.undos h.within (by rwa [add_zero] at g)
  rw [h.undos]
  rw [← add_zero (r.touched : Multiset (Nat × Nat))] at g'
  exact Recorded.both_inside (step.both_after r.touched "" g')
    fun _ _ _ _ g₂ => ⟨s', recorded_start g₂⟩

end Ledger

end PlanSearch

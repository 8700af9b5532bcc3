/-
Lawful variables, and when two solutions hold the same.

A variable is two functions on a solution, and nothing ties them together
by itself. `Cells.Lawful` does: what was written is read back, and a write
is seen at its own entity only. `Variables.Lawful` says so of a whole
family of variables, basic and chained, and adds that no variable sees
what is written through another one, and none the score that a director
stores.

# What "the same" means

`Variables.Same same s t`: every variable of the family has the same
entities in both solutions, the same link on each of them, and on each of
them a value that `same` relates. The relation is left open because the
search compares values by a `==` that need not be identity. With the
identity for `same`, the solutions agree to the letter in every variable.

# What the moves need

- `Same.set`, `Same.setLink`: writing the same into the same keeps them so;
- `same_setAll`, `same_setAllLinks`: writing does nothing as soon as every
  entity of the variable written holds afterwards what it held before.
-/
import Mathlib.Data.List.Forall2
import PlanSearch.Director.Basic
import PlanSearch.Variable

namespace PlanSearch

variable {S V A B Sc : Type}

-- ================================================================= cells

/-- What one variable keeps in a solution, entity by entity. -/
structure Cells (S A : Type) where
  count : S → Nat
  get : S → Nat → Option A
  set : S → Nat → Option A → S

def BasicVariable.cells (x : BasicVariable S V) : Cells S V :=
  ⟨x.count, x.get, x.set⟩

def ChainedVariable.cells (x : ChainedVariable S) : Cells S Link :=
  ⟨x.count, x.get, x.set⟩

namespace Cells

/-- Writes one entity after the other. -/
def setAll (c : Cells S A) (s : S) (changes : List (Nat × Option A)) : S :=
  changes.foldl (fun s change => c.set s change.1 change.2) s

/-- What is written is read back, and seen at its own entity only. -/
structure Lawful (c : Cells S A) : Prop where
  count_set : ∀ s e v, c.count (c.set s e v) = c.count s
  get_set : ∀ s e v, e < c.count s → c.get (c.set s e v) e = v
  get_set_of_ne : ∀ s e v d, d < c.count s → d ≠ e →
    c.get (c.set s e v) d = c.get s d

/-- Writes to the first are not seen in the second. -/
structure Apart (c : Cells S A) (d : Cells S B) : Prop where
  count_set : ∀ s e v, d.count (c.set s e v) = d.count s
  get_set : ∀ s e v i, i < d.count s → d.get (c.set s e v) i = d.get s i

/-- The same entities, and related contents. -/
structure Agree (c : Cells S A) (same : Option A → Option A → Prop)
    (s t : S) : Prop where
  count : c.count s = c.count t
  get : ∀ e < c.count t, same (c.get s e) (c.get t e)

-- ============================================================ many writes

variable {c : Cells S A}

theorem setAll_append (s : S) (first second : List (Nat × Option A)) :
    c.setAll s (first ++ second) = c.setAll (c.setAll s first) second :=
  List.foldl_append

/-- What no single write changes, no row of them does. -/
theorem setAll_keeps {α : Type} {read : S → α}
    (keeps : ∀ s e v, read (c.set s e v) = read s)
    (changes : List (Nat × Option A)) (s : S) :
    read (c.setAll s changes) = read s := by
  induction changes generalizing s with
  | nil => rfl
  | cons change rest ih =>
      show read (c.setAll (c.set s change.1 change.2) rest) = read s
      rw [ih, keeps]

/-- Changes keep the number of entities. -/
theorem Lawful.count_setAll (lawful : c.Lawful)
    (changes : List (Nat × Option A)) (s : S) :
    c.count (c.setAll s changes) = c.count s :=
  setAll_keeps lawful.count_set changes s

/-- An entity that holds something of a kind, and is given only such, still
does. -/
theorem Lawful.get_setAll_of_held (lawful : c.Lawful)
    (kind : Option A → Prop) {e : Nat} (changes : List (Nat × Option A)) {s : S}
    (he : e < c.count s) (held : kind (c.get s e))
    (given : ∀ change ∈ changes, change.1 = e → kind change.2) :
    kind (c.get (c.setAll s changes) e) := by
  induction changes generalizing s with
  | nil => exact held
  | cons change rest ih =>
      have hstep : kind (c.get (c.set s change.1 change.2) e) := by
        by_cases h : e = change.1
        · rw [← h, lawful.get_set s e change.2 he]
          exact given change (List.mem_cons_self ..) h.symm
        · rw [lawful.get_set_of_ne s change.1 change.2 e he h]
          exact held
      refine ih ?_ hstep fun d hd => given d (List.mem_cons_of_mem _ hd)
      rw [lawful.count_set]
      exact he

/-- An entity that is written, and given only things of a kind, ends up with
one. -/
theorem Lawful.get_setAll_of_mem (lawful : c.Lawful)
    (kind : Option A → Prop) {e : Nat} (changes : List (Nat × Option A)) {s : S}
    (he : e < c.count s) (written : e ∈ changes.map Prod.fst)
    (given : ∀ change ∈ changes, change.1 = e → kind change.2) :
    kind (c.get (c.setAll s changes) e) := by
  induction changes generalizing s with
  | nil => cases written
  | cons change rest ih =>
      have hcount : e < c.count (c.set s change.1 change.2) := by
        rw [lawful.count_set]
        exact he
      have hrest : ∀ d ∈ rest, d.1 = e → kind d.2 :=
        fun d hd => given d (List.mem_cons_of_mem _ hd)
      by_cases hmem : e ∈ rest.map Prod.fst
      · exact ih hcount hmem hrest
      · have h : e = change.1 := by
          rcases List.mem_cons.mp written with h | h
          · exact h
          · exact absurd h hmem
        refine lawful.get_setAll_of_held kind rest hcount ?_ hrest
        show kind (c.get (c.set s change.1 change.2) e)
        rw [← h, lawful.get_set s e change.2 he]
        exact given change (List.mem_cons_self ..) h.symm

/-- A row of entities, each given something of its own. -/
theorem Lawful.get_setAll_map (lawful : c.Lawful) (given : Nat → Option A)
    {row : List Nat} {s : S} {e : Nat} (he : e < c.count s) (hmem : e ∈ row) :
    c.get (c.setAll s (row.map fun e => (e, given e))) e = given e := by
  refine lawful.get_setAll_of_mem (· = given e) _ he ?_ ?_
  · exact List.mem_map.mpr ⟨_, List.mem_map.mpr ⟨e, hmem, rfl⟩, rfl⟩
  · intro change hchange hfst
    obtain ⟨d, -, rfl⟩ := List.mem_map.mp hchange
    exact congrArg given hfst

/-- An entity that is not written keeps what it holds. -/
theorem Lawful.get_setAll_of_notMem (lawful : c.Lawful) {e : Nat}
    (changes : List (Nat × Option A)) {s : S} (he : e < c.count s)
    (untouched : e ∉ changes.map Prod.fst) :
    c.get (c.setAll s changes) e = c.get s e := by
  refine lawful.get_setAll_of_held (· = c.get s e) changes he rfl ?_
  intro change hmem h
  exact absurd (h ▸ List.mem_map_of_mem hmem) untouched

/-- Writing what was found takes back writes to the same entities. -/
theorem Lawful.agree_setAll_back (lawful : c.Lawful) {s u : S}
    {old new : List (Nat × Option A)}
    (entities : old.map Prod.fst = new.map Prod.fst)
    (found : ∀ change ∈ old, change.2 = c.get s change.1)
    (h : c.Agree Eq u (c.setAll s new)) : c.Agree Eq (c.setAll u old) s where
  count := by rw [lawful.count_setAll, h.count, lawful.count_setAll]
  get e he := by
    have hnew : e < c.count (c.setAll s new) := by
      rw [lawful.count_setAll]
      exact he
    have hu : e < c.count u := by
      rw [h.count]
      exact hnew
    by_cases hmem : e ∈ old.map Prod.fst
    · refine lawful.get_setAll_of_mem (· = c.get s e) old hu hmem
        fun change hchange hfst => ?_
      rw [found change hchange, hfst]
    · rw [lawful.get_setAll_of_notMem old hu hmem, h.get e hnew,
        lawful.get_setAll_of_notMem new he (by rw [← entities]; exact hmem)]

/-- Changes elsewhere keep the number of entities. -/
theorem Apart.count_setAll {d : Cells S B} (apart : c.Apart d)
    (changes : List (Nat × Option A)) (s : S) :
    d.count (c.setAll s changes) = d.count s :=
  setAll_keeps apart.count_set changes s

/-- Changes elsewhere keep what is held. -/
theorem Apart.get_setAll {d : Cells S B} (apart : c.Apart d)
    (changes : List (Nat × Option A)) {s : S} {i : Nat} (hi : i < d.count s) :
    d.get (c.setAll s changes) i = d.get s i := by
  induction changes generalizing s with
  | nil => rfl
  | cons change rest ih =>
      show d.get (c.setAll (c.set s change.1 change.2) rest) i = d.get s i
      rw [ih (by rw [apart.count_set]; exact hi), apart.get_set _ _ _ _ hi]

/-- Changes elsewhere are not seen. -/
theorem Apart.agree_setAll {d : Cells S B} (apart : c.Apart d)
    {same : Option B → Option B → Prop} (refl : ∀ b, same b b)
    (changes : List (Nat × Option A)) (s : S) :
    d.Agree same (c.setAll s changes) s where
  count := apart.count_setAll changes s
  get e he := by
    rw [apart.get_setAll changes he]
    exact refl _

/-- Writes to one variable are seen at their entities, in the variable
itself, and nowhere else. -/
theorem get_setAll_frame {d : Cells S A} (own : c.Lawful)
    (apart : c ≠ d → c.Apart d) (changes : List (Nat × Option A)) {s : S}
    {e : Nat} (he : e < d.count s) (h : c = d → e ∉ changes.map Prod.fst) :
    d.get (c.setAll s changes) e = d.get s e := by
  by_cases hcd : c = d
  · subst hcd
    exact own.get_setAll_of_notMem changes he (h rfl)
  · exact (apart hcd).get_setAll changes he

-- ============================================ the same into the same

/-- Solutions that agree still do after the same change of both. -/
theorem Lawful.agree_set (lawful : c.Lawful)
    {same : Option A → Option A → Prop} {s t : S} (h : c.Agree same s t)
    (e : Nat) {v w : Option A} (hvw : same v w) :
    c.Agree same (c.set s e v) (c.set t e w) where
  count := by rw [lawful.count_set, lawful.count_set, h.count]
  get d hd := by
    rw [lawful.count_set] at hd
    have hds : d < c.count s := h.count ▸ hd
    by_cases hde : d = e
    · subst hde
      rw [lawful.get_set s d v hds, lawful.get_set t d w hd]
      exact hvw
    · rw [lawful.get_set_of_ne s e v d hds hde,
        lawful.get_set_of_ne t e w d hd hde]
      exact h.get d hd

/-- Solutions that agree still do after any changes elsewhere. -/
theorem Apart.agree_set {d : Cells S B} (apart : c.Apart d)
    {same : Option B → Option B → Prop} {s t : S}
    (h : d.Agree same s t) (e : Nat) (v w : Option A) :
    d.Agree same (c.set s e v) (c.set t e w) where
  count := by rw [apart.count_set, apart.count_set, h.count]
  get i hi := by
    rw [apart.count_set] at hi
    rw [apart.get_set s e v i (h.count ▸ hi), apart.get_set t e w i hi]
    exact h.get i hi

end Cells

theorem BasicVariable.setAll_append (x : BasicVariable S V) (s : S)
    (first second : List (Nat × Option V)) :
    x.setAll s (first ++ second) = x.setAll (x.setAll s first) second :=
  Cells.setAll_append (c := x.cells) s first second

theorem ChainedVariable.setAll_append (x : ChainedVariable S) (s : S)
    (first second : LinkChanges) :
    x.setAll s (first ++ second) = x.setAll (x.setAll s first) second :=
  Cells.setAll_append (c := x.cells) s first second

/-- What is held is kept for the entities asked for, in their order. -/
theorem ChainedVariable.map_fst_held (x : ChainedVariable S) (s : S)
    (entities : List Nat) : (x.held s entities).map Prod.fst = entities := by
  simp [held, Function.comp_def]

/-- The chains depend on links and anchors alone. -/
theorem ChainedVariable.index_congr {x : ChainedVariable S} {s t : S}
    (links : x.cells.Agree Eq s t) (anchors : x.anchors s = x.anchors t) :
    x.index s = x.index t := by
  have hlinks : x.links s = x.links t := by
    unfold ChainedVariable.links
    rw [show x.count s = x.count t from links.count]
    exact List.map_congr_left fun e he => links.get e (List.mem_range.mp he)
  unfold ChainedVariable.index
  rw [hlinks, anchors]

-- ============================================================ a family

/-- The planning variables of a problem. -/
structure Variables (S V : Type) where
  basics : List (BasicVariable S V)
  chained : List (ChainedVariable S)

theorem related_of_eq {same : Setoid A} {a b : A} (h : a = b) : same.r a b := by
  subst h
  exact same.refl a

/-- Values count as the same only if they are. -/
def literal (A : Type) : Setoid A := ⟨Eq, fun _ => rfl, Eq.symm, Eq.trans⟩

namespace Variables

/-- Two solutions hold the same in every variable: the same links, and
related values. -/
structure Same (vs : Variables S V) (same : Setoid (Option V))
    (s t : S) : Prop where
  values : ∀ x ∈ vs.basics, x.cells.Agree same.r s t
  links : ∀ x ∈ vs.chained, x.cells.Agree Eq s t
  anchors : ∀ x ∈ vs.chained, x.anchors s = x.anchors t

/-- Accessors as their users count on them. Two entries of the family may
be one variable under two names; variables with different accessors do
not see each other's writes. -/
structure Lawful (vs : Variables S V) [Planning S Sc] : Prop where
  values : ∀ x ∈ vs.basics, x.cells.Lawful
  links : ∀ x ∈ vs.chained, x.cells.Lawful
  values_apart : ∀ x ∈ vs.basics, ∀ y ∈ vs.basics, x.cells ≠ y.cells →
    x.cells.Apart y.cells
  links_apart : ∀ x ∈ vs.chained, ∀ y ∈ vs.chained, x.cells ≠ y.cells →
    x.cells.Apart y.cells
  kinds_apart : ∀ x ∈ vs.basics, ∀ y ∈ vs.chained,
    x.cells.Apart y.cells ∧ y.cells.Apart x.cells
  /-- No write changes how many anchors there are. -/
  anchors : ∀ y ∈ vs.chained,
    (∀ x ∈ vs.basics, ∀ s e v, y.anchors (x.set s e v) = y.anchors s) ∧
      ∀ x ∈ vs.chained, ∀ s e link, y.anchors (x.set s e link) = y.anchors s
  /-- Storing a score changes no variable. -/
  stored : ∀ (score : Option Sc) (s : S),
    vs.Same (literal (Option V)) (Planning.store score s) s

variable {vs : Variables S V} {same : Setoid (Option V)} {s t u : S}

theorem Same.refl (s : S) : vs.Same same s s :=
  ⟨fun _ _ => ⟨rfl, fun _ _ => same.refl _⟩, fun _ _ => ⟨rfl, fun _ _ => rfl⟩,
    fun _ _ => rfl⟩

theorem Same.symm (h : vs.Same same s t) : vs.Same same t s where
  values x hx := by
    obtain ⟨hcount, hget⟩ := h.values x hx
    exact ⟨hcount.symm, fun e he => same.symm (hget e (hcount ▸ he))⟩
  links x hx := by
    obtain ⟨hcount, hget⟩ := h.links x hx
    exact ⟨hcount.symm, fun e he => (hget e (hcount ▸ he)).symm⟩
  anchors x hx := (h.anchors x hx).symm

theorem Same.trans (h : vs.Same same s t) (g : vs.Same same t u) :
    vs.Same same s u where
  values x hx := by
    obtain ⟨hcount, hget⟩ := h.values x hx
    obtain ⟨gcount, gget⟩ := g.values x hx
    exact ⟨hcount.trans gcount,
      fun e he => same.trans (hget e (gcount ▸ he)) (gget e he)⟩
  links x hx := by
    obtain ⟨hcount, hget⟩ := h.links x hx
    obtain ⟨gcount, gget⟩ := g.links x hx
    exact ⟨hcount.trans gcount,
      fun e he => (hget e (gcount ▸ he)).trans (gget e he)⟩
  anchors x hx := (h.anchors x hx).trans (g.anchors x hx)

/-- What agrees to the letter agrees in every other sense. -/
theorem Same.of_literal (h : vs.Same (literal (Option V)) s t) :
    vs.Same same s t where
  values x hx := by
    obtain ⟨hcount, hget⟩ := h.values x hx
    exact ⟨hcount, fun e he => related_of_eq (hget e he)⟩
  links := h.links
  anchors := h.anchors

-- ==================================================== writes that undo

variable [Planning S Sc]

/-- Values do not change the number of anchors. -/
theorem Lawful.anchors_setAll (lawful : vs.Lawful) {x : BasicVariable S V}
    (hx : x ∈ vs.basics) {y : ChainedVariable S} (hy : y ∈ vs.chained)
    (changes : List (Nat × Option V)) (s : S) :
    y.anchors (x.setAll s changes) = y.anchors s :=
  Cells.setAll_keeps (c := x.cells) ((lawful.anchors y hy).1 x hx) changes s

/-- Links do not change the number of anchors. -/
theorem Lawful.anchors_setAllLinks (lawful : vs.Lawful) {x : ChainedVariable S}
    (hx : x ∈ vs.chained) {y : ChainedVariable S} (hy : y ∈ vs.chained)
    (changes : LinkChanges) (s : S) :
    y.anchors (x.setAll s changes) = y.anchors s :=
  Cells.setAll_keeps (c := x.cells) ((lawful.anchors y hy).2 x hx) changes s

/-- Changes of one variable keep the entities of all. -/
theorem Lawful.count_setAll (lawful : vs.Lawful) {x y : BasicVariable S V}
    (hx : x ∈ vs.basics) (hy : y ∈ vs.basics)
    (changes : List (Nat × Option V)) (s : S) :
    y.count (x.setAll s changes) = y.count s := by
  by_cases h : x.cells = y.cells
  · have own := (lawful.values x hx).count_setAll changes s
    rw [h] at own
    rw [← show x.cells.setAll s changes = x.setAll s changes from rfl, h]
    exact own
  · exact (lawful.values_apart x hx y hy h).count_setAll changes s

/-- Writes after which the variable holds what it held before do nothing:
no other variable has seen them. -/
theorem Lawful.same_setAll (lawful : vs.Lawful) {x : BasicVariable S V}
    (hx : x ∈ vs.basics) (changes : List (Nat × Option V)) {s : S}
    (held : ∀ e < x.count s,
      same.r (x.get (x.setAll s changes) e) (x.get s e)) :
    vs.Same same (x.setAll s changes) s where
  values y hy := by
    by_cases h : y.cells = x.cells
    · rw [h]
      exact ⟨(lawful.values x hx).count_setAll changes s, held⟩
    · exact (lawful.values_apart x hx y hy (Ne.symm h)).agree_setAll
        same.refl changes s
  links y hy := (lawful.kinds_apart x hx y hy).1.agree_setAll
    (fun _ => rfl) changes s
  anchors y hy := lawful.anchors_setAll hx hy changes s

/-- The same for links. -/
theorem Lawful.same_setAllLinks (lawful : vs.Lawful) {x : ChainedVariable S}
    (hx : x ∈ vs.chained) (changes : LinkChanges) {s : S}
    (held : ∀ e < x.count s, x.get (x.setAll s changes) e = x.get s e) :
    vs.Same same (x.setAll s changes) s where
  values y hy := (lawful.kinds_apart y hy x hx).2.agree_setAll
    same.refl changes s
  links y hy := by
    by_cases h : y.cells = x.cells
    · rw [h]
      exact ⟨(lawful.links x hx).count_setAll changes s, held⟩
    · exact (lawful.links_apart x hx y hy (Ne.symm h)).agree_setAll
        (fun _ => rfl) changes s
  anchors y hy := lawful.anchors_setAllLinks hx hy changes s

-- ============================================ the same into the same

/-- Related values written to one entity of solutions that hold the same. -/
theorem Same.set (lawful : vs.Lawful) {x : BasicVariable S V}
    (hx : x ∈ vs.basics) (h : vs.Same same s t) (e : Nat) {v w : Option V}
    (hvw : same.r v w) : vs.Same same (x.set s e v) (x.set t e w) where
  values y hy := by
    by_cases hyx : y.cells = x.cells
    · have hagree := h.values y hy
      rw [hyx] at hagree ⊢
      exact (lawful.values x hx).agree_set hagree e hvw
    · exact (lawful.values_apart x hx y hy (Ne.symm hyx)).agree_set
        (h.values y hy) e v w
  links y hy := (lawful.kinds_apart x hx y hy).1.agree_set (h.links y hy) e v w
  anchors y hy := by
    rw [(lawful.anchors y hy).1 x hx, (lawful.anchors y hy).1 x hx]
    exact h.anchors y hy

/-- The same link written to one entity of solutions that hold the same. -/
theorem Same.setLink (lawful : vs.Lawful) {x : ChainedVariable S}
    (hx : x ∈ vs.chained) (h : vs.Same same s t) (e : Nat)
    (link : Option Link) : vs.Same same (x.set s e link) (x.set t e link) where
  values y hy := (lawful.kinds_apart y hy x hx).2.agree_set
    (h.values y hy) e link link
  links y hy := by
    by_cases hyx : y.cells = x.cells
    · have hagree := h.links y hy
      rw [hyx] at hagree ⊢
      exact (lawful.links x hx).agree_set hagree e rfl
    · exact (lawful.links_apart x hx y hy (Ne.symm hyx)).agree_set
        (h.links y hy) e link link
  anchors y hy := by
    rw [(lawful.anchors y hy).2 x hx, (lawful.anchors y hy).2 x hx]
    exact h.anchors y hy

/-- Related values written one after the other. -/
theorem Same.setAll (lawful : vs.Lawful) {x : BasicVariable S V}
    (hx : x ∈ vs.basics) {first second : List (Nat × Option V)}
    (changes : List.Forall₂ (fun a b => a.1 = b.1 ∧
      same.r a.2 b.2) first second)
    (h : vs.Same same s t) :
    vs.Same same (x.setAll s first) (x.setAll t second) := by
  induction changes generalizing s t with
  | nil => exact h
  | cons hab _ ih =>
      refine ih ?_
      show vs.Same same (x.set s _ _) (x.set t _ _)
      rw [hab.1]
      exact h.set lawful hx _ hab.2

/-- Solutions that are the same still are after the same links were set. -/
theorem Same.setAllLinks (lawful : vs.Lawful) {x : ChainedVariable S}
    (hx : x ∈ vs.chained) (changes : LinkChanges) (h : vs.Same same s t) :
    vs.Same same (x.setAll s changes) (x.setAll t changes) := by
  induction changes generalizing s t with
  | nil => exact h
  | cons change rest ih => exact ih (h.setLink lawful hx change.1 change.2)

/-- Solutions that hold the same have the same chains, or the same flaw. -/
theorem Same.index_eq (h : vs.Same same s t) {x : ChainedVariable S}
    (hx : x ∈ vs.chained) : x.index s = x.index t :=
  ChainedVariable.index_congr (h.links x hx) (h.anchors x hx)

end Variables

end PlanSearch

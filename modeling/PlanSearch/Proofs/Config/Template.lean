/-
Templates resolve exactly when they can.

Resolving enters a template only while it is not on the trail yet, so
every entry uses up one of the names of the templates, and between two
entries it descends into children. That is the measure: first the names
that are not on the trail, then the tree (`calls_wellFounded`). It is
also why the depth that resolving starts with is never used up.

# What is decided along a trail

A name stands for something at a trail (`Resolves`) if it is off the
trail, has a template of the right kind, and everything named in that
template stands for something one name further on. Resolving a tree
succeeds exactly if all names in it stand for something
(`exists_resolveAt_iff`, `lookup_iff`).

The trails then drop out of the condition. A name that comes back on its
own trail is referred to from its own tree, and a name that is referred
to from its own tree comes back on its trail at the latest when all
other names are used up (`resolves_of_sound`, `sound_of_resolves`).
-/
import PlanSearch.Config.Template
import PlanSearch.Proofs.Config.Inherit

namespace PlanSearch

namespace SelectorConfig

variable {templates : Templates} {lookup : Lookup} {trail : Trail}

-- ================================================================ vocabulary

/-- A selector of the tree inherits from the template of a name. -/
def Names (c : SelectorConfig) (name : String) : Prop :=
  ∃ x, Occurs c x ∧ x.common.inheritFrom = some name

/-- The selectors met from a tree on: its own, and those met from the
templates that it names. -/
inductive Reaches (templates : Templates) :
    SelectorConfig → SelectorConfig → Prop
  | here {c x : SelectorConfig} (hx : Occurs c x) : Reaches templates c x
  | through {c t x : SelectorConfig} {name : String} (hname : Names c name)
      (ht : templates.find? name = some t) (hx : Reaches templates t x) :
        Reaches templates c x

/-- A name is referred to from a tree, directly or through templates. -/
def Refers (templates : Templates) (c : SelectorConfig)
    (name : String) : Prop :=
  ∃ x, Reaches templates c x ∧ x.common.inheritFrom = some name

/-- Every selector met that names a template names one of its own kind,
which is not referred to from its own tree. -/
def Sound (templates : Templates) (c : SelectorConfig) : Prop :=
  ∀ x, Reaches templates c x → ∀ name, x.common.inheritFrom = some name →
    ∃ t, templates.find? name = some t ∧ ¬ Refers templates t name ∧
      x.kind = t.kind

/-- Every name is named in the template of the name before it, the first
one in the tree. -/
def Leads (templates : Templates) : SelectorConfig → List String → Prop
  | _, [] => True
  | c, name :: rest =>
      Names c name ∧ ∃ t, templates.find? name = some t ∧ Leads templates t rest

/-- No selector of a tree inherits. -/
def Free (c : SelectorConfig) : Prop :=
  ∀ x, Occurs c x → x.common.inheritFrom = none

/-- What resolving a tree at a trail goes on with: a child at the same
trail, or the tree of a template that is not on the trail yet. -/
inductive Calls (templates : Templates) :
    Trail × SelectorConfig → Trail × SelectorConfig → Prop
  | child {trail : Trail} {c d : SelectorConfig} (hd : d ∈ c.children) :
      Calls templates (trail, d) (trail, c)
  | enter {trail : Trail} {c t : SelectorConfig} {name : String}
      (hname : c.common.inheritFrom = some name) (hfresh : name ∉ trail)
      (ht : templates.find? name = some t) : Calls templates
        (trail ++ [name], t) (trail, c)

-- =============================================================== the measure

/-- The templates whose names are not on a trail. -/
def fresh (templates : Templates) (trail : Trail) : Nat :=
  (templates.filter fun t => !trail.contains t.1).length

theorem fresh_nil (templates : Templates) :
    fresh templates [] = templates.length := by
  simp [fresh]

/-- Entering a template uses up its name. -/
theorem fresh_enter {name : String} {t : SelectorConfig} (hfresh : name ∉ trail)
    (ht : templates.find? name = some t) :
    fresh templates (trail ++ [name]) < fresh templates trail := by
  obtain ⟨entry, hentry, -⟩ := Option.map_eq_some_iff.1 ht
  have hmem : entry ∈ templates := List.mem_of_find?_eq_some hentry
  have hname : entry.1 = name := by simpa using List.find?_some hentry
  have hsub : templates.filter (fun t => !(trail ++ [name]).contains t.1)
      = (templates.filter fun t => !trail.contains t.1).filter fun t =>
          t.1 != name := by
    rw [List.filter_filter]
    refine List.filter_congr fun t _ => ?_
    simp [Bool.and_comm, bne, Bool.not_or, beq_eq_decide]
  show (templates.filter _).length < _
  rw [hsub]
  refine List.length_filter_lt_length_iff_exists.2 ⟨entry, ?_, by simp [hname]⟩
  simpa [hname] using ⟨hmem, hfresh⟩

/-- A child is smaller than its parent. -/
theorem sizeOf_child {c d : SelectorConfig} (hd : d ∈ c.children) :
    sizeOf d < sizeOf c := by
  cases c with
  | leaf => simp [children] at hd
  | union _ children _ | product _ children _ =>
    have := @List.sizeOf_lt_of_mem _ d _ children hd
    simp only [union.sizeOf_spec, product.sizeOf_spec]
    omega

/-- Resolving ends: names off the trail are used up, and trees have an end. -/
theorem calls_wellFounded (templates : Templates) :
    WellFounded (Calls templates) := by
  let size (call : Trail × SelectorConfig) : Nat × Nat :=
    (fresh templates call.1, sizeOf call.2)
  have hwf : WellFounded (InvImage (Prod.Lex (· < ·) (· < ·)) size) :=
    InvImage.wf size (Prod.lex Nat.lt_wfRel Nat.lt_wfRel).wf
  refine Subrelation.wf (fun {call from_} h => ?_) hwf
  cases h with
  | child hd => exact Prod.Lex.right _ (sizeOf_child hd)
  | enter _ hfresh ht => exact Prod.Lex.left _ _ (fresh_enter hfresh ht)

-- ============================================================= descending

/-- A selector stands at the root or in the tree of a child. -/
theorem occurs_iff {c x : SelectorConfig} :
    Occurs c x ↔ x = c ∨ ∃ d ∈ c.children, Occurs d x := by
  constructor
  · rintro (_ | ⟨hd, hx⟩)
    · exact .inl rfl
    · exact .inr ⟨_, hd, hx⟩
  · rintro (rfl | ⟨d, hd, hx⟩)
    · exact .root _
    · exact .inside hd hx

/-- A name in the tree of a child is one in the tree. -/
theorem Names.inside {c d : SelectorConfig} {name : String}
    (hd : d ∈ c.children) (h : Names d name) : Names c name :=
  h.imp fun _ hx => ⟨.inside hd hx.1, hx.2⟩

/-- Names that a child leads along are those of its parent too. -/
theorem Leads.inside {c d : SelectorConfig} {names : List String}
    (hd : d ∈ c.children) (h : Leads templates d names) :
    Leads templates c names := by
  cases names with
  | nil => trivial
  | cons name rest => exact ⟨h.1.inside hd, h.2⟩

/-- What holds of a tree if it holds of the children holds of every tree. -/
@[elab_as_elim]
theorem children_induction {P : SelectorConfig → Prop}
    (h : ∀ c, (∀ d ∈ c.children, P d) → P c) (c : SelectorConfig) : P c :=
  h c fun d _ => children_induction h d
termination_by sizeOf c
decreasing_by exact sizeOf_child ‹_›

-- =================================================================== adopting

section Adopt

variable {path : String} {name : Option String} {c r : SelectorConfig}
  {e : ConfigError}

/-- What a selector that adopts becomes: itself without a name, else the
merge with what the name stands for. -/
theorem adopt_eq_ok (h : adopt lookup path trail name c = .ok r) :
    (name = none ∧ r = c)
      ∨ ∃ n p, name = some n ∧ lookup n path trail = .ok p ∧
      c.inherit p = .ok r := by
  cases name with
  | none => exact .inl ⟨rfl, (Except.ok.inj h).symm⟩
  | some n =>
    simp only [adopt] at h
    split at h
    · cases h
    · rename_i p hp
      split at h
      · rename_i merged hmerged
        exact .inr ⟨n, p, rfl, hp, by rw [hmerged, Except.ok.inj h]⟩
      · cases h

/-- Adopting fails for want of what the name stands for, or over its kind. -/
theorem adopt_eq_error (h : adopt lookup path trail name c = .error e) :
    (∃ n, name = some n ∧ lookup n path trail = .error e)
      ∨ ∃ expected found, e = .kindMismatch path expected found := by
  cases name with
  | none => cases h
  | some n =>
    simp only [adopt] at h
    split at h
    · rename_i e' he
      exact .inl ⟨n, rfl, by rw [he, Except.error.inj h]⟩
    · split at h
      · cases h
      · rename_i e' he
        rw [← Except.error.inj h, inherit_error he]
        exact .inr ⟨_, _, rfl⟩

/-- Inheriting keeps the kind. -/
theorem kind_adopt (h : adopt lookup path trail name c = .ok r) :
    r.kind = c.kind := by
  obtain ⟨-, rfl⟩ | ⟨n, p, -, -, hr⟩ := adopt_eq_ok h
  · rfl
  · exact (kind_inherit hr).2

/-- Adopting succeeds exactly if the name, where there is one, stands for a
selector of the same kind. -/
theorem exists_adopt_iff :
    (∃ r, adopt lookup path trail name c = .ok r) ↔
      ∀ n, name = some n →
        ∃ p, lookup n path trail = .ok p ∧ p.kind = c.kind := by
  constructor
  · rintro ⟨r, hr⟩ n hn
    obtain ⟨hnone, -⟩ | ⟨m, p, hm, hp, hmerged⟩ := adopt_eq_ok hr
    · cases hn.symm.trans hnone
    · obtain rfl := Option.some.inj (hn.symm.trans hm)
      exact ⟨p, hp, (kind_inherit hmerged).1.symm⟩
  · intro h
    cases name with
    | none => exact ⟨c, rfl⟩
    | some n =>
      obtain ⟨p, hp, hkind⟩ := h n rfl
      obtain ⟨r, hr, -⟩ := exists_inherit hkind.symm
      exact ⟨r, by simp only [adopt, hp, hr]⟩

end Adopt

-- ============================================================ trees resolved

/-- A selector with other children that names no template. -/
def bare (c : SelectorConfig) (children : List SelectorConfig) :
    SelectorConfig :=
  (c.setChildren children).setCommon { c.common with inheritFrom := none }

@[simp] theorem kind_bare (c : SelectorConfig) (cs : List SelectorConfig) :
    (c.bare cs).kind = c.kind := by
  cases c <;> rfl

@[simp] theorem inheritFrom_bare (c : SelectorConfig)
    (cs : List SelectorConfig) : (c.bare cs).common.inheritFrom = none := by
  cases c <;> rfl

/-- Children that were put in place are the children. -/
theorem children_bare {c : SelectorConfig} {cs : List SelectorConfig}
    {d : SelectorConfig} (hd : d ∈ (c.bare cs).children) : d ∈ cs := by
  cases c with
  | leaf => cases hd
  | union | product => exact hd

/-- Without a reference there is nothing to take away. -/
theorem bare_children {c : SelectorConfig} (h : c.common.inheritFrom = none) :
    c.bare c.children = c := by
  cases c <;> simp only [bare, setCommon, setChildren, children] <;>
    simp only [common] at h ⊢ <;> rw [← h]

/-- Every tree resolves its children first, and then adopts. -/
theorem resolveAt_eq (lookup : Lookup) (path : String) (trail : Trail)
    (c : SelectorConfig) : resolveAt lookup path trail c =
      match resolveAll lookup path trail 0 c.children with
      | .error e => .error e
      | .ok cs => adopt lookup path trail c.common.inheritFrom (c.bare cs) := by
  cases c <;> simp only [resolveAt] <;> rfl

section Resolve

variable {path : String} {c r : SelectorConfig} {cs rs : List SelectorConfig}
  {e : ConfigError}

/-- If children are resolved, each of them is, and nothing else. -/
theorem resolveAll_eq_ok {index : Nat}
    (h : resolveAll lookup path trail index cs = .ok rs) :
    (∀ r ∈ rs, ∃ d ∈ cs, ∃ path, resolveAt lookup path trail d = .ok r)
      ∧ ∀ d ∈ cs, ∃ path r, resolveAt lookup path trail d = .ok r := by
  induction cs generalizing index rs with
  | nil =>
    obtain rfl := Except.ok.inj h
    simp
  | cons c rest ih =>
    simp only [resolveAll] at h
    split at h
    · cases h
    · rename_i r hr
      split at h
      · cases h
      · rename_i rs' hrs
        obtain rfl := Except.ok.inj h
        obtain ⟨hfrom, hall⟩ := ih hrs
        constructor
        · intro r' hr'
          obtain rfl | hr' := List.mem_cons.1 hr'
          · exact ⟨c, List.mem_cons_self, _, hr⟩
          · obtain ⟨d, hd, hpath⟩ := hfrom r' hr'
            exact ⟨d, List.mem_cons_of_mem c hd, hpath⟩
        · intro d hd
          obtain rfl | hd := List.mem_cons.1 hd
          · exact ⟨_, r, hr⟩
          · exact hall d hd

/-- If children are refused, one of them is. -/
theorem resolveAll_eq_error {index : Nat}
    (h : resolveAll lookup path trail index cs = .error e) :
    ∃ d ∈ cs, ∃ path, resolveAt lookup path trail d = .error e := by
  induction cs generalizing index with
  | nil => cases h
  | cons c rest ih =>
    simp only [resolveAll] at h
    split at h
    · rename_i e' he
      exact ⟨c, List.mem_cons_self, _, by rw [he, Except.error.inj h]⟩
    · split at h
      · rename_i e' he
        obtain ⟨d, hd, hpath⟩ := ih (he.trans (congrArg _ (Except.error.inj h)))
        exact ⟨d, List.mem_cons_of_mem c hd, hpath⟩
      · cases h

/-- Children are resolved if each of them is. -/
theorem exists_resolveAll {index : Nat}
    (h : ∀ d ∈ cs, ∀ path, ∃ r, resolveAt lookup path trail d = .ok r) :
    ∃ rs, resolveAll lookup path trail index cs = .ok rs := by
  induction cs generalizing index with
  | nil => exact ⟨[], rfl⟩
  | cons c rest ih =>
    obtain ⟨r, hr⟩ := h c List.mem_cons_self (childPath path index)
    obtain ⟨rs, hrs⟩ :=
      @ih (index + 1) fun d hd => h d (List.mem_cons_of_mem c hd)
    exact ⟨r :: rs, by simp only [resolveAll, hr, hrs]⟩

/-- A resolved tree: its children are resolved, and it has adopted. -/
theorem resolveAt_eq_ok (h : resolveAt lookup path trail c = .ok r) :
    ∃ cs, resolveAll lookup path trail 0 c.children = .ok cs
      ∧ adopt lookup path trail c.common.inheritFrom (c.bare cs) = .ok r := by
  rw [resolveAt_eq] at h
  split at h
  · cases h
  · rename_i cs hcs
    exact ⟨cs, hcs, h⟩

/-- A resolved tree is of the kind of the tree. -/
theorem kind_resolveAt (h : resolveAt lookup path trail c = .ok r) :
    r.kind = c.kind := by
  obtain ⟨cs, -, hr⟩ := resolveAt_eq_ok h
  rw [kind_adopt hr, kind_bare]

/-- A tree resolves exactly if every name in it stands for a selector of the
kind of the selector that names it. -/
theorem exists_resolveAt_iff {Good : String → String → Prop}
    (hgood : ∀ n path kind, (∃ p, lookup n path trail = .ok p ∧ p.kind = kind) ↔
      Good n kind) :
    (∃ r, resolveAt lookup path trail c = .ok r) ↔
      ∀ x, Occurs c x → ∀ n, x.common.inheritFrom = some n → Good n x.kind := by
  induction c using children_induction generalizing path with
  | h c ih =>
    constructor
    · rintro ⟨r, hr⟩ x hx n hn
      obtain ⟨cs, hcs, hadopt⟩ := resolveAt_eq_ok hr
      obtain rfl | ⟨d, hd, hx⟩ := occurs_iff.1 hx
      · have hp := exists_adopt_iff.1 ⟨r, hadopt⟩ n hn
        rw [kind_bare] at hp
        exact (hgood n path x.kind).1 hp
      · obtain ⟨path', hd'⟩ := (resolveAll_eq_ok hcs).2 d hd
        exact (ih d hd).1 hd' x hx n hn
    · intro h
      obtain ⟨cs, hcs⟩ : ∃ cs,
          resolveAll lookup path trail 0 c.children = .ok cs :=
        exists_resolveAll fun d hd path => (ih d hd).2 fun x hx =>
          h x (.inside hd hx)
      obtain ⟨r, hr⟩ : ∃ r,
          adopt lookup path trail c.common.inheritFrom (c.bare cs) = .ok r := by
        refine exists_adopt_iff.2 fun n hn => ?_
        rw [kind_bare]
        exact (hgood n path c.kind).2 (h c (.root c) n hn)
      exact ⟨r, by rw [resolveAt_eq, hcs]; exact hr⟩

/-- Resolving fails over a name in the tree, or over its kind. -/
theorem resolveAt_eq_error (h : resolveAt lookup path trail c = .error e) :
    (∃ n path, Names c n ∧ lookup n path trail = .error e)
      ∨ ∃ path expected found, e = .kindMismatch path expected found := by
  induction c using children_induction generalizing path with
  | h c ih =>
    rw [resolveAt_eq] at h
    split at h
    · rename_i e' he
      obtain ⟨d, hd, path', hd'⟩ :=
        resolveAll_eq_error (he.trans (congrArg _ (Except.error.inj h)))
      obtain ⟨n, path'', hn, hlookup⟩ | hkind := ih d hd hd'
      · exact .inl ⟨n, path'', hn.inside hd, hlookup⟩
      · exact .inr hkind
    · obtain ⟨n, hn, hlookup⟩ | ⟨expected, found, rfl⟩ := adopt_eq_error h
      · exact .inl ⟨n, path, ⟨c, .root c, hn⟩, hlookup⟩
      · exact .inr ⟨path, expected, found, rfl⟩

theorem resolveAll_self {index : Nat}
    (h : ∀ d ∈ cs, ∀ path, resolveAt lookup path trail d = .ok d) :
    resolveAll lookup path trail index cs = .ok cs := by
  induction cs generalizing index with
  | nil => rfl
  | cons d rest ih =>
    simp only [resolveAll, h d List.mem_cons_self,
      ih fun d' hd' => h d' (List.mem_cons_of_mem d hd')]

/-- Children are resolved alike by lookups that resolve each of them alike.
-/
theorem resolveAll_congr {lookup' : Lookup} {index : Nat}
    (h : ∀ d ∈ cs, ∀ path, resolveAt lookup path trail d
      = resolveAt lookup' path trail d) :
    resolveAll lookup path trail index cs
      = resolveAll lookup' path trail index cs := by
  induction cs generalizing index with
  | nil => rfl
  | cons d rest ih =>
    simp only [resolveAll, h d List.mem_cons_self,
      ih fun d' hd' => h d' (List.mem_cons_of_mem d hd')]

/-- Only what the names stand for at the trail matters. -/
theorem resolveAt_congr {lookup' : Lookup}
    (h : ∀ n path, lookup n path trail = lookup' n path trail) :
    resolveAt lookup path trail c = resolveAt lookup' path trail c := by
  induction c using children_induction generalizing path with
  | h c ih =>
    rw [resolveAt_eq, resolveAt_eq, resolveAll_congr fun d hd path =>
      @ih d hd path]
    split
    · rfl
    · cases c.common.inheritFrom with
      | none => rfl
      | some n => simp only [adopt, h]

end Resolve

-- ======================================================= trees without names

/-- A tree is free of references at its root and in the trees of its
children. -/
theorem free_iff {c : SelectorConfig} :
    c.Free ↔ c.common.inheritFrom = none ∧ ∀ d ∈ c.children, d.Free :=
  forall_occurs_iff

/-- What two trees without references make up is without references. -/
theorem Free.inherit {c p r : SelectorConfig} (hc : c.Free) (hp : p.Free)
    (h : c.inherit p = .ok r) : r.Free := by
  obtain ⟨hcommon, hchildren⟩ := parts_inherit h
  refine free_iff.2 ⟨?_, fun d hd => ?_⟩
  · rw [hcommon]
    simp only [CommonSettings.inherit, Inherit.value, (free_iff.1 hc).1,
      (free_iff.1 hp).1, Option.or_none]
  · rw [hchildren] at hd
    obtain hd | hd := Inherit.mem_entries hd
    · exact (free_iff.1 hc).2 d hd
    · exact (free_iff.1 hp).2 d hd

/-- If names stand for trees without names, a tree resolves to one. -/
theorem free_resolveAt {path : String} {c r : SelectorConfig}
    (hlookup : ∀ n path p, lookup n path trail = .ok p → p.Free)
    (h : resolveAt lookup path trail c = .ok r) : r.Free := by
  induction c using children_induction generalizing path r with
  | h c ih =>
    obtain ⟨cs, hcs, hadopt⟩ := resolveAt_eq_ok h
    have hbare : (c.bare cs).Free := by
      refine free_iff.2 ⟨inheritFrom_bare c cs, fun d hd => ?_⟩
      obtain ⟨d', hd', path', hr'⟩ :=
        (resolveAll_eq_ok hcs).1 d (children_bare hd)
      exact ih d' hd' hr'
    obtain ⟨-, rfl⟩ | ⟨n, p, -, hp, hmerged⟩ := adopt_eq_ok hadopt
    · exact hbare
    · exact hbare.inherit (hlookup n path p hp) hmerged

/-- A tree without names resolves to itself, whatever names stand for. -/
theorem Free.resolveAt_self {path : String} {c : SelectorConfig} (h : c.Free) :
    resolveAt lookup path trail c = .ok c := by
  induction c using children_induction generalizing path with
  | h c ih =>
    obtain ⟨hroot, hchildren⟩ := free_iff.1 h
    rw [resolveAt_eq, resolveAll_self fun d hd path =>
      ih d hd (hchildren d hd), hroot]
    show Except.ok (c.bare c.children) = Except.ok c
    rw [bare_children hroot]

-- ========================================================== names at a trail

/-- A name stands for a selector of a kind at a trail: it is off the trail,
has a template of the kind, and so has every name in the template, one
name further on. -/
inductive Resolves (templates : Templates) : Trail → String → String → Prop
  | intro {trail : Trail} {name kind : String} {t : SelectorConfig}
      (hfresh : name ∉ trail)
      (ht : templates.find? name = some t) (hkind : t.kind = kind)
      (hnames : ∀ x, Occurs t x → ∀ n, x.common.inheritFrom = some n →
        Resolves templates (trail ++ [name]) n x.kind) :
          Resolves templates trail name kind

/-- A name on the trail is a cycle. -/
theorem lookup_of_mem {depth : Nat} {name path : String} (h : name ∈ trail) :
    lookupTemplate templates depth name path trail
      = .error (.cyclicTemplate path
        (" -> ".intercalate (trail ++ [name]))) := by
  cases depth <;> simp only [lookupTemplate, List.contains_iff_mem.2 h, if_true]

/-- A name without a template is unknown. -/
theorem lookup_of_none {depth : Nat} {name path : String}
    (hfresh : name ∉ trail) (h : templates.find? name = none) :
    lookupTemplate templates depth name path trail
      = .error (.unknownTemplate path name) := by
  cases depth <;> simp [lookupTemplate, hfresh, h]

/-- Any other name stands for its template resolved one name further on. A
depth of the templates off the trail suffices, and is kept up. -/
theorem lookup_of_some {depth : Nat} {name path : String} {t : SelectorConfig}
    (hdepth : fresh templates trail ≤ depth) (hfresh : name ∉ trail)
    (ht : templates.find? name = some t) :
    ∃ rest, fresh templates (trail ++ [name]) ≤ rest ∧ depth = rest + 1
      ∧ lookupTemplate templates depth name path trail
        = resolveAt (lookupTemplate templates rest) path
          (trail ++ [name]) t := by
  have hless := fresh_enter hfresh ht
  cases depth with
  | zero => omega
  | succ rest =>
      exact ⟨rest, by omega, rfl, by simp [lookupTemplate, hfresh, ht]⟩

/-- A lookup deep enough succeeds exactly for the names that stand for
something. -/
theorem lookup_iff {depth : Nat} (hdepth : fresh templates trail ≤ depth)
    (name path kind : String) :
    (∃ p, lookupTemplate templates depth name path trail = .ok p ∧
      p.kind = kind) ↔ Resolves templates trail name kind := by
  induction depth using Nat.strongRecOn generalizing trail name path kind with
  | _ depth ih =>
    by_cases hfresh : name ∈ trail
    · rw [lookup_of_mem hfresh]
      constructor
      · rintro ⟨p, hp, -⟩
        cases hp
      · rintro ⟨hoff, -⟩
        exact absurd hfresh hoff
    cases ht : templates.find? name with
    | none =>
      rw [lookup_of_none hfresh ht]
      constructor
      · rintro ⟨p, hp, -⟩
        cases hp
      · rintro ⟨-, hfound, -⟩
        cases ht.symm.trans hfound
    | some t =>
      obtain ⟨rest, hrest, rfl, heq⟩ := lookup_of_some hdepth hfresh ht
      have hnames := @exists_resolveAt_iff _ _ path t _
        fun n path kind => ih rest (Nat.lt_succ_self rest) hrest n path kind
      rw [heq]
      constructor
      · rintro ⟨p, hp, hkind⟩
        exact .intro hfresh ht ((kind_resolveAt hp).symm.trans hkind)
          (hnames.1 ⟨p, hp⟩)
      · rintro ⟨-, hfound, hkind, hall⟩
        obtain rfl := Option.some.inj (ht.symm.trans hfound)
        obtain ⟨p, hp⟩ := hnames.2 hall
        exact ⟨p, hp, (kind_resolveAt hp).trans hkind⟩

/-- Lookups deep enough are all the same. -/
theorem lookup_depth {depth depth' : Nat}
    (hdepth : fresh templates trail ≤ depth)
    (hdepth' : fresh templates trail ≤ depth') (name path : String) :
    lookupTemplate templates depth name path trail
      = lookupTemplate templates depth' name path trail := by
  induction depth using Nat.strongRecOn generalizing depth' trail name path with
  | _ depth ih =>
    by_cases hfresh : name ∈ trail
    · rw [lookup_of_mem hfresh, lookup_of_mem hfresh]
    cases ht : templates.find? name with
    | none => rw [lookup_of_none hfresh ht, lookup_of_none hfresh ht]
    | some t =>
      obtain ⟨rest, hrest, rfl, heq⟩ := lookup_of_some hdepth hfresh ht
      obtain ⟨rest', hrest', rfl, heq'⟩ := lookup_of_some hdepth' hfresh ht
      rw [heq, heq']
      exact resolveAt_congr fun n path =>
        ih rest (Nat.lt_succ_self rest) hrest hrest' n path

/-- What a name stands for names no template. -/
theorem free_lookup {depth : Nat} {name path : String} {p : SelectorConfig}
    (h : lookupTemplate templates depth name path trail = .ok p) : p.Free := by
  induction depth generalizing trail name path p with
  | zero =>
    simp only [lookupTemplate] at h
    split at h
    · cases h
    · split at h <;> cases h
  | succ depth ih =>
    simp only [lookupTemplate] at h
    split at h
    · cases h
    · split at h
      · cases h
      · exact free_resolveAt (fun n path p hp => ih hp) h

/-- A reported cycle carries on the trail from the name looked up, each name
being named in the template of the one before, up to a name that was
there already. -/
theorem lookup_cycle {depth : Nat} {name path path' chain : String}
    {c : SelectorConfig} (hdepth : fresh templates trail ≤ depth)
    (htrail : ∀ n ∈ trail, ∃ t, templates.find? n = some t)
    (hname : Names c name)
    (h : lookupTemplate templates depth name path trail
      = .error (.cyclicTemplate path' chain)) :
    ∃ before last, chain = " -> ".intercalate (trail ++ (before ++ [last]))
      ∧ last ∈ trail ++ before ∧ Leads templates c (before ++ [last]) := by
  induction depth using Nat.strongRecOn generalizing trail name path c with
  | _ depth ih =>
    by_cases hfresh : name ∈ trail
    · rw [lookup_of_mem hfresh] at h
      obtain ⟨-, rfl⟩ := ConfigError.cyclicTemplate.inj (Except.error.inj h)
      obtain ⟨t, ht⟩ := htrail name hfresh
      exact ⟨[], name, rfl, by simpa using hfresh, hname, t, ht, trivial⟩
    cases ht : templates.find? name with
    | none =>
      rw [lookup_of_none hfresh ht] at h
      cases Except.error.inj h
    | some t =>
      obtain ⟨rest, hrest, rfl, heq⟩ := lookup_of_some hdepth hfresh ht
      rw [heq] at h
      obtain ⟨n, path'', hn, hlookup⟩ | ⟨path'', expected, found, hkind⟩ :=
        resolveAt_eq_error h
      · have htrail' : ∀ m ∈ trail ++ [name],
            ∃ t, templates.find? m = some t := by
          intro m hm
          obtain hm | hm := List.mem_append.1 hm
          · exact htrail m hm
          · exact ⟨t, by rw [List.mem_singleton.1 hm, ht]⟩
        obtain ⟨before, last, hchain, hlast, hleads⟩ :=
          ih rest (Nat.lt_succ_self rest) hrest htrail' hn hlookup
        refine ⟨name :: before, last, ?_, ?_, hname, t, ht, hleads⟩
        · rw [hchain, List.append_assoc, List.singleton_append,
            List.cons_append]
        · simpa [or_assoc] using hlast
      · cases hkind

-- ============================================================ without trails

/-- What is named on the way from a tree stands for something, at some
longer trail. -/
theorem resolves_of_reaches {c x : SelectorConfig} {n : String}
    (hx : Reaches templates c x) (hn : x.common.inheritFrom = some n)
    (hnames : ∀ x, Occurs c x → ∀ n, x.common.inheritFrom = some n →
      Resolves templates trail n x.kind) :
    ∃ more, Resolves templates (trail ++ more) n x.kind := by
  induction hx generalizing trail with
  | here hx => exact ⟨[], by simpa using hnames _ hx n hn⟩
  | through hname ht _ ih =>
    obtain ⟨y, hy, hfrom⟩ := hname
    obtain ⟨-, ht', -, hnames'⟩ := hnames y hy _ hfrom
    obtain rfl := Option.some.inj (ht.symm.trans ht')
    obtain ⟨more, hmore⟩ := ih hn hnames'
    exact ⟨_ :: more, by simpa using hmore⟩

/-- If all names in a tree stand for something, no template met on the way is
referred to from its own tree. -/
theorem sound_of_resolves {c : SelectorConfig}
    (hnames : ∀ x, Occurs c x → ∀ n, x.common.inheritFrom = some n →
      Resolves templates trail n x.kind) : Sound templates c := by
  intro x hx n hn
  obtain ⟨more, -, ht, hkind, hnames'⟩ := resolves_of_reaches hx hn hnames
  refine ⟨_, ht, ?_, hkind.symm⟩
  rintro ⟨y, hy, hn'⟩
  obtain ⟨more', hoff, -⟩ := resolves_of_reaches hy hn' hnames'
  exact hoff (by simp)

/-- If no template met on the way is referred to from its own tree, and
none of the trail is met, every name stands for something: a template
entered cannot be met again. -/
theorem resolves_of_sound {c : SelectorConfig} (hsound : Sound templates c)
    (hoff : ∀ n, Refers templates c n → n ∉ trail) :
    ∀ x, Occurs c x → ∀ n, x.common.inheritFrom = some n →
      Resolves templates trail n x.kind := by
  induction hk : fresh templates trail using Nat.strongRecOn
      generalizing trail c with
  | _ k ih =>
    intro x hx n hn
    have hfresh := hoff n ⟨x, .here hx, hn⟩
    obtain ⟨t, ht, hcycle, hkind⟩ := hsound x (.here hx) n hn
    have hthrough {y : SelectorConfig} (hy : Reaches templates t y) :
        Reaches templates c y :=
      .through ⟨x, hx, hn⟩ ht hy
    refine .intro hfresh ht hkind.symm ?_
    refine ih _ (hk ▸ fresh_enter hfresh ht)
      (fun y hy => hsound y (hthrough hy)) ?_ rfl
    rintro m ⟨y, hy, hm⟩ hmem
    obtain hmem | hmem := List.mem_append.1 hmem
    · exact hoff m ⟨y, hthrough hy, hm⟩ hmem
    · exact hcycle ⟨y, hy, by rw [hm, List.mem_singleton.1 hmem]⟩

-- ================================================================ resolution

/-- A tree has a resolution exactly if every template met is there, of the
kind of what names it, and not referred to from its own tree. -/
theorem exists_resolve_iff (templates : Templates) (config : SelectorConfig) :
    (∃ r, resolve templates config = .ok r) ↔ Sound templates config := by
  have hdepth : fresh templates [] ≤ templates.length :=
    Nat.le_of_eq (fresh_nil templates)
  rw [resolve, exists_resolveAt_iff fun n path kind =>
    lookup_iff hdepth n path kind]
  exact ⟨sound_of_resolves, fun h => resolves_of_sound h fun _ _ =>
    List.not_mem_nil⟩

/-- Resolving a tree ends, on whatever templates: its calls are well
founded, and the depth it starts with is never used up. There is a
resolution exactly if every template met is there, of the kind of what
names it, and not referred to from its own tree. A resolution names no
template and resolves to itself. A reported cycle is one: each name is
named in the template of the one before, and the last one came before. -/
theorem resolve_exact (templates : Templates) (config : SelectorConfig) :
    WellFounded (Calls templates)
      ∧ (∀ depth, templates.length ≤ depth →
          resolveAt (lookupTemplate templates depth) config.kind [] config
            = resolve templates config)
      ∧ ((∃ r, resolve templates config = .ok r) ↔ Sound templates config)
      ∧ (∀ r, resolve templates config = .ok r →
          (∀ x, Occurs r x → x.common.inheritFrom = none)
            ∧ ∀ others, resolve others r = .ok r)
      ∧ ∀ path chain, resolve templates config
          = .error (.cyclicTemplate path chain) → ∃ before last, chain
            = " -> ".intercalate (before ++ [last]) ∧ last ∈ before ∧
            Leads templates config (before ++ [last]) := by
  have hfull : fresh templates [] ≤ templates.length :=
    Nat.le_of_eq (fresh_nil templates)
  refine ⟨calls_wellFounded templates, ?_,
    exists_resolve_iff templates config, ?_, ?_⟩
  · intro depth hdepth
    exact resolveAt_congr fun n path =>
      lookup_depth (Nat.le_trans hfull hdepth) hfull n path
  · intro r hr
    have hfree : r.Free := free_resolveAt (fun _ _ _ hp => free_lookup hp) hr
    exact ⟨hfree, fun _ => hfree.resolveAt_self⟩
  · intro path chain h
    obtain ⟨n, path', hn, hlookup⟩ | ⟨_, _, _, hkind⟩ := resolveAt_eq_error h
    · obtain ⟨before, last, hchain, hlast, hleads⟩ :=
        lookup_cycle hfull (fun _ hm => absurd hm List.not_mem_nil) hn hlookup
      exact ⟨before, last, by simpa using hchain, by simpa using hlast, hleads⟩
    · cases hkind

/-- Two children that inherit from one template, directly and through
another one, make no cycle. -/
example :
    let named (name : String) : SelectorConfig :=
      leaf { CommonSettings.unset with inheritFrom := some name }
        (.change none none)
    resolve [("base", ofVariable "priority"), ("same", named "base")]
        (union .unset [named "base", named "same"] none)
      = .ok (union .unset [ofVariable "priority",
        ofVariable "priority"] none) := rfl

end SelectorConfig

end PlanSearch

/-
The algebra of inheritance.

What a selector inherits can be grouped in any way: inheriting from a
parent and then from a grandparent is inheriting from the parent that has
already inherited. And a selector gets nothing new from a copy of itself.

Field by field this is the algebra of the first set value. Lists need
more, since an entry is left out where an equal one is there already:
grouping only asks that equality be symmetric and transitive, which it
is for selectors with any weights at all, while a selector finds itself
in its own list only if it equals itself. A weight that is no number
equals nothing, so that half is about trees without such weights.
-/
import PlanSearch.Config.Inherit
import PlanSearch.Proofs.Values

namespace PlanSearch

-- ========================================================== lists of entries

namespace Inherit

theorem value_self {α : Type} (x : Option α) : value x x = x := Option.or_self

theorem value_assoc {α : Type} (x y z : Option α) :
    value (value x y) z = value x (value y z) := Option.or_assoc

section Entries

variable {α : Type} [BEq α]

theorem entries_append (child xs ys : List α) :
    entries child (xs ++ ys) = entries (entries child xs) ys := by
  simp only [entries, List.foldl_append]

/-- Entries that are there already add nothing. -/
theorem entries_of_contains {child parent : List α}
    (h : ∀ a ∈ parent, child.contains a = true) :
    entries child parent = child := by
  induction parent with
  | nil => rfl
  | cons a parent ih =>
    have ha := h a List.mem_cons_self
    have hrest := ih fun b hb => h b (List.mem_cons_of_mem a hb)
    simpa [entries, ha] using hrest

/-- A list whose entries equal themselves gets nothing from itself. -/
theorem entries_self {xs : List α} (h : ∀ a ∈ xs, (a == a) = true) :
    entries xs xs = xs :=
  entries_of_contains fun a ha =>
    List.contains_iff_exists_mem_beq.2 ⟨a, ha, h a ha⟩

/-- The entries of a merge come from either side. -/
theorem mem_entries {child parent : List α} {a : α}
    (h : a ∈ entries child parent) : a ∈ child ∨ a ∈ parent := by
  induction parent generalizing child with
  | nil => exact .inl h
  | cons b parent ih =>
    obtain h | h := @ih (if child.contains b then child else child ++ [b]) h
    · split at h
      · exact .inl h
      · exact (List.mem_append.1 h).imp_right fun h => by
          simp [List.mem_singleton.1 h]
    · exact .inr (List.mem_cons_of_mem b h)

variable [PartialEquivBEq α]

/-- What equals an entry is contained as soon as the entry is. -/
theorem contains_of_beq {xs : List α} {a b : α} (hab : (a == b) = true)
    (h : xs.contains a = true) : xs.contains b = true := by
  obtain ⟨c, hc, hac⟩ := List.contains_iff_exists_mem_beq.1 h
  exact List.contains_iff_exists_mem_beq.2 ⟨c, hc, BEq.trans (BEq.symm hab) hac⟩

/-- A merge contains what either side contains. -/
theorem contains_entries (child parent : List α) (a : α) :
    (entries child parent).contains a
      = (child.contains a || parent.contains a) := by
  induction parent generalizing child with
  | nil => simp [entries]
  | cons b parent ih =>
    have step : entries child (b :: parent)
        = entries (if child.contains b then child else child ++ [b]) parent :=
          rfl
    rw [step, ih]
    by_cases hb : child.contains b = true
    · rw [if_pos hb, List.contains_cons]
      -- an entry left out is contained through the equal one that stays
      by_cases hab : (a == b) = true
      · simp [hab, contains_of_beq (BEq.symm hab) hb]
      · simp [hab]
    · rw [if_neg hb]
      simp only [List.contains_eq_any_beq, List.any_append,
        List.any_cons, List.any_nil, Bool.or_false, Bool.or_assoc]

/-- One more entry of the parent is one more entry of the merge. -/
theorem entries_push (child parent : List α) (a : α) :
    entries child (if parent.contains a then parent else parent ++ [a])
      = if (entries child parent).contains a then entries child parent
        else entries child parent ++ [a] := by
  by_cases ha : parent.contains a = true
  · rw [if_pos ha, if_pos (by rw [contains_entries, ha, Bool.or_true])]
  · rw [if_neg ha, entries_append]
    rfl

/-- Entries are inherited alike in either grouping. -/
theorem entries_assoc (xs ys zs : List α) :
    entries (entries xs ys) zs = entries xs (entries ys zs) := by
  induction zs generalizing ys with
  | nil => rfl
  | cons a zs ih =>
    calc entries (entries xs ys) (a :: zs)
        = entries (entries xs (if ys.contains a then ys else ys ++
            [a])) zs := by
          rw [entries_push]; rfl
      _ = entries xs (entries (if ys.contains a then ys else ys ++ [a]) zs) :=
        ih _
      _ = entries xs (entries ys (a :: zs)) := rfl

end Entries

end Inherit

-- ======================================================= records of settings

/-- Common settings inherit nothing new from themselves. -/
theorem CommonSettings.inherit_self (c : CommonSettings) : c.inherit c = c := by
  simp only [CommonSettings.inherit, Inherit.value_self]

/-- Common settings are inherited alike in either grouping. -/
theorem CommonSettings.inherit_assoc (c d e : CommonSettings) :
    (c.inherit d).inherit e = c.inherit (d.inherit e) := by
  simp only [CommonSettings.inherit, Inherit.value_assoc]

theorem SubPillarSettings.inherit_self (s : Option SubPillarSettings) :
    SubPillarSettings.inherit s s = s := by
  cases s with
  | none => rfl
  | some s => simp only [SubPillarSettings.inherit, Inherit.value_self]

/-- Settings on one level only are taken over whole, settings on several
are merged field by field; grouping changes neither. -/
theorem SubPillarSettings.inherit_assoc (s t u : Option SubPillarSettings) :
    SubPillarSettings.inherit (SubPillarSettings.inherit s t) u
      = SubPillarSettings.inherit s (SubPillarSettings.inherit t u) := by
  cases s <;> cases t <;> cases u <;>
    simp [SubPillarSettings.inherit, Inherit.value, Option.or_assoc]

theorem SegmentSettings.inherit_self (s : SegmentSettings) :
    s.inherit s = s := by
  simp only [SegmentSettings.inherit, Inherit.value_self]

/-- Settings of segments are inherited alike in either grouping. -/
theorem SegmentSettings.inherit_assoc (s t u : SegmentSettings) :
    (s.inherit t).inherit u = s.inherit (t.inherit u) := by
  simp only [SegmentSettings.inherit, Inherit.value_assoc]

namespace LeafConfig

/-- A leaf inherits nothing new from itself. -/
theorem inherit?_self (x : LeafConfig) : x.inherit? x = some x := by
  cases x <;>
    simp [inherit?, Inherit.value_self, Inherit.entries_self,
      SubPillarSettings.inherit_self, SegmentSettings.inherit_self]

/-- Leaves of different kinds do not inherit from each other. -/
theorem inherit?_eq_none {x y : LeafConfig} (h : x.kind ≠ y.kind) :
    x.inherit? y = none := by
  cases x <;> cases y <;> first | rfl | exact absurd rfl h

/-- A leaf inherits from any leaf of its kind, and stays of that kind. -/
theorem exists_inherit? {x y : LeafConfig} (h : x.kind = y.kind) :
    ∃ z, x.inherit? y = some z ∧ z.kind = x.kind := by
  cases x <;> cases y <;> first | exact ⟨_, rfl, rfl⟩ | simp [kind] at h

/-- Leaves of one kind inherit alike in either grouping. -/
theorem inherit?_assoc_of_kind {x y z : LeafConfig} (hxy : x.kind = y.kind)
    (hyz : y.kind = z.kind) :
    (x.inherit? y).bind (·.inherit? z)
      = (y.inherit? z).bind (x.inherit? ·) := by
  cases x <;> cases y <;> simp [kind] at hxy <;> cases z <;> simp [kind] at hyz
  all_goals
    simp only [inherit?, Option.bind_some, Inherit.value_assoc,
      Inherit.entries_assoc, SubPillarSettings.inherit_assoc,
      SegmentSettings.inherit_assoc]

/-- Leaves inherit alike in either grouping, or in neither. -/
theorem inherit?_assoc (x y z : LeafConfig) :
    (x.inherit? y).bind (·.inherit? z)
      = (y.inherit? z).bind (x.inherit? ·) := by
  by_cases hxy : x.kind = y.kind <;> by_cases hyz : y.kind = z.kind
  · exact inherit?_assoc_of_kind hxy hyz
  · obtain ⟨w, hw, hkind⟩ := exists_inherit? hxy
    rw [hw, inherit?_eq_none hyz]
    exact inherit?_eq_none (by rw [hkind, hxy]; exact hyz)
  · obtain ⟨w, hw, hkind⟩ := exists_inherit? hyz
    rw [inherit?_eq_none hxy, hw]
    exact (inherit?_eq_none (by rw [hkind]; exact hxy)).symm
  · rw [inherit?_eq_none hxy, inherit?_eq_none hyz]
    rfl

end LeafConfig

-- ===================================================== equality of selectors

/-- Common settings are equal if all are, weights as doubles are. -/
theorem CommonSettings.beq_iff (c d : CommonSettings) :
    (c == d) = true ↔ c.inheritFrom = d.inheritFrom ∧ c.order = d.order
      ∧ (c.weight == d.weight) = true ∧ c.limit = d.limit := by
  show (c.inheritFrom == d.inheritFrom && c.order == d.order &&
    c.weight == d.weight &&
    c.limit == d.limit) = true ↔ _
  simp only [Bool.and_eq_true, beq_iff_eq, and_assoc]

instance : PartialEquivBEq CommonSettings where
  symm {c d} h := by
    obtain ⟨hfrom, horder, hweight, hlimit⟩ := (CommonSettings.beq_iff c d).1 h
    exact (CommonSettings.beq_iff d c).2 ⟨hfrom.symm, horder.symm,
      BEq.symm hweight, hlimit.symm⟩
  trans {c d e} hcd hde := by
    obtain ⟨hfrom, horder, hweight, hlimit⟩ :=
      (CommonSettings.beq_iff c d).1 hcd
    obtain ⟨hfrom', horder', hweight', hlimit'⟩ :=
      (CommonSettings.beq_iff d e).1 hde
    exact (CommonSettings.beq_iff c e).2 ⟨hfrom.trans hfrom',
      horder.trans horder', BEq.trans hweight hweight', hlimit.trans hlimit'⟩

namespace SelectorConfig

mutual

/-- Equality of trees goes both ways. -/
theorem same_symm : ∀ {a b : SelectorConfig}, same a b = true → same b a = true
  | leaf .., b, h => by
    cases b <;> simp only [same, Bool.and_eq_true, beq_iff_eq,
      Bool.false_eq_true] at h ⊢
    exact ⟨BEq.symm h.1, h.2.symm⟩
  | union .., b, h => by
    cases b <;> simp only [same, Bool.and_eq_true, beq_iff_eq,
      Bool.false_eq_true] at h ⊢
    exact ⟨⟨BEq.symm h.1.1, sameAll_symm h.1.2⟩, h.2.symm⟩
  | product .., b, h => by
    cases b <;> simp only [same, Bool.and_eq_true, beq_iff_eq,
      Bool.false_eq_true] at h ⊢
    exact ⟨⟨BEq.symm h.1.1, sameAll_symm h.1.2⟩, h.2.symm⟩

theorem sameAll_symm : ∀ {as bs : List SelectorConfig}, sameAll as bs = true →
    sameAll bs as = true
  | [], bs, h => by
    cases bs <;> simp_all [sameAll]
  | a :: as, bs, h => by
    cases bs <;> simp only [sameAll, Bool.and_eq_true,
      Bool.false_eq_true] at h ⊢
    exact ⟨same_symm h.1, sameAll_symm h.2⟩

end

mutual

/-- Equality of trees is passed on. -/
theorem same_trans : ∀ {a b c : SelectorConfig},
    same a b = true → same b c = true → same a c = true
  | leaf .., b, c, hab, hbc => by
    cases b <;> simp only [same, Bool.and_eq_true, beq_iff_eq,
      Bool.false_eq_true] at hab
    cases c <;> simp only [same, Bool.and_eq_true, beq_iff_eq,
      Bool.false_eq_true] at hbc ⊢
    exact ⟨BEq.trans hab.1 hbc.1, hab.2.trans hbc.2⟩
  | union .., b, c, hab, hbc => by
    cases b <;> simp only [same, Bool.and_eq_true, beq_iff_eq,
      Bool.false_eq_true] at hab
    cases c <;> simp only [same, Bool.and_eq_true, beq_iff_eq,
      Bool.false_eq_true] at hbc ⊢
    exact ⟨⟨BEq.trans hab.1.1 hbc.1.1, sameAll_trans hab.1.2 hbc.1.2⟩,
      hab.2.trans hbc.2⟩
  | product .., b, c, hab, hbc => by
    cases b <;> simp only [same, Bool.and_eq_true, beq_iff_eq,
      Bool.false_eq_true] at hab
    cases c <;> simp only [same, Bool.and_eq_true, beq_iff_eq,
      Bool.false_eq_true] at hbc ⊢
    exact ⟨⟨BEq.trans hab.1.1 hbc.1.1, sameAll_trans hab.1.2 hbc.1.2⟩,
      hab.2.trans hbc.2⟩

theorem sameAll_trans : ∀ {as bs cs : List SelectorConfig},
    sameAll as bs = true → sameAll bs cs = true → sameAll as cs = true
  | [], bs, cs, hab, hbc => by
    cases bs <;> simp only [sameAll, Bool.false_eq_true] at hab
    exact hbc
  | a :: as, bs, cs, hab, hbc => by
    cases bs <;> simp only [sameAll, Bool.and_eq_true,
      Bool.false_eq_true] at hab
    cases cs <;> simp only [sameAll, Bool.and_eq_true,
      Bool.false_eq_true] at hbc ⊢
    exact ⟨same_trans hab.1 hbc.1, sameAll_trans hab.2 hbc.2⟩

end

instance : PartialEquivBEq SelectorConfig where
  symm h := same_symm h
  trans hab hbc := same_trans hab hbc

-- ========================================================= selectors in a tree

/-- A selector stands in a tree: at its root, or in the tree of a child. -/
inductive Occurs : SelectorConfig → SelectorConfig → Prop
  | root (c : SelectorConfig) : Occurs c c
  | inside {c d x : SelectorConfig} (hd : d ∈ c.children)
    (hx : Occurs d x) : Occurs c x

/-- What holds throughout a tree holds at its root and throughout the tree of
each child. -/
theorem forall_occurs_iff {P : SelectorConfig → Prop} {c : SelectorConfig} :
    (∀ x, Occurs c x → P x) ↔
    P c ∧ ∀ d ∈ c.children, ∀ x, Occurs d x → P x := by
  constructor
  · exact fun h => ⟨h c (.root c), fun d hd x hx => h x (.inside hd hx)⟩
  · rintro ⟨hroot, hchildren⟩ x (_ | ⟨hd, hx⟩)
    · exact hroot
    · exact hchildren _ hd x hx

/-- No selector of a tree has a weight that is no number. -/
def NumberWeights (c : SelectorConfig) : Prop :=
  ∀ x, Occurs c x → ∀ w, x.common.weight = some w → w.isNaN = false

/-- Weights are numbers at the root and in the trees of the children. -/
theorem numberWeights_iff {c : SelectorConfig} :
    c.NumberWeights ↔
      (∀ w, c.common.weight = some w → w.isNaN = false) ∧
      ∀ d ∈ c.children, d.NumberWeights :=
  forall_occurs_iff

@[simp] theorem numberWeights_leaf (c : CommonSettings) (x : LeafConfig) :
    (leaf c x).NumberWeights ↔ ∀ w, c.weight = some w → w.isNaN = false := by
  simp [numberWeights_iff (c := leaf c x), common, children]

@[simp] theorem numberWeights_union (c : CommonSettings)
    (children : List SelectorConfig) (factory : Option String) :
    (union c children factory).NumberWeights ↔
      (∀ w, c.weight = some w → w.isNaN = false) ∧
      ∀ d ∈ children, d.NumberWeights :=
  numberWeights_iff

theorem NumberWeights.child {c d : SelectorConfig} (h : c.NumberWeights)
    (hd : d ∈ c.children) : d.NumberWeights :=
  fun x hx => h x (.inside hd hx)

/-- Common settings whose weight is a number equal themselves. -/
theorem NumberWeights.common {c : SelectorConfig} (h : c.NumberWeights) :
    (c.common == c.common) = true := by
  refine (CommonSettings.beq_iff _ _).2 ⟨rfl, rfl, ?_, rfl⟩
  cases hw : c.common.weight with
  | none => rfl
  | some w => exact Binary64.same_self (h c (.root c) w hw)

mutual

/-- A tree whose weights are numbers equals itself. -/
theorem same_self : ∀ {c : SelectorConfig}, c.NumberWeights → same c c = true
  | leaf .., h => by
    simp only [same, Bool.and_eq_true, beq_self_eq_true, and_true]
    exact h.common
  | union _ children _, h => by
    simp only [same, Bool.and_eq_true, beq_self_eq_true, and_true]
    exact ⟨h.common, sameAll_self fun d hd => h.child hd⟩
  | product _ children _, h => by
    simp only [same, Bool.and_eq_true, beq_self_eq_true, and_true]
    exact ⟨h.common, sameAll_self fun d hd => h.child hd⟩

theorem sameAll_self :
    ∀ {cs : List SelectorConfig}, (∀ c ∈ cs, c.NumberWeights) →
      sameAll cs cs = true
  | [], _ => rfl
  | c :: rest, h => by
    simp only [sameAll, Bool.and_eq_true]
    exact ⟨same_self (h c List.mem_cons_self),
      sameAll_self fun d hd => h d (List.mem_cons_of_mem c hd)⟩

end

-- ================================================================ inheritance

theorem entries_children_self {cs : List SelectorConfig}
    (h : ∀ c ∈ cs, c.NumberWeights) : Inherit.entries cs cs = cs :=
  Inherit.entries_self fun c hc => same_self (h c hc)

/-- No leaf is a composite by its kind. -/
theorem kind_leaf_ne (x : LeafConfig) :
    x.kind ≠ "union" ∧ x.kind ≠ "cartesian_product" := by
  cases x <;> simp [LeafConfig.kind]

/-- Selectors of different kinds inherit nothing from each other. -/
theorem inherit_eq_mismatch {c p : SelectorConfig} (h : c.kind ≠ p.kind) :
    c.inherit p = .error (mismatch c p) := by
  cases c <;> cases p <;> first | rfl | exact absurd rfl h | skip
  case leaf.leaf => simp only [inherit, LeafConfig.inherit?_eq_none h]

/-- A leaf inherits its common settings and its own. -/
theorem inherit_leaf {c d : CommonSettings} {x y z : LeafConfig}
    (h : x.inherit? y = some z) :
    (leaf c x).inherit (leaf d y) = .ok (leaf (c.inherit d) z) := by
  simp only [inherit, h]

/-- A selector inherits from any selector of its kind, and stays of that
kind. -/
theorem exists_inherit {c p : SelectorConfig} (h : c.kind = p.kind) :
    ∃ r, c.inherit p = .ok r ∧ r.kind = c.kind := by
  cases c with
  | leaf _ x =>
    cases p with
    | leaf _ y =>
      obtain ⟨z, hz, hkind⟩ := LeafConfig.exists_inherit? h
      exact ⟨_, inherit_leaf hz, hkind⟩
    | union => exact absurd h (kind_leaf_ne x).1
    | product => exact absurd h (kind_leaf_ne x).2
  | union =>
    cases p with
    | leaf _ y => exact absurd h.symm (kind_leaf_ne y).1
    | union => exact ⟨_, rfl, rfl⟩
    | product => exact absurd h (by simp [kind])
  | product =>
    cases p with
    | leaf _ y => exact absurd h.symm (kind_leaf_ne y).2
    | union => exact absurd h (by simp [kind])
    | product => exact ⟨_, rfl, rfl⟩

/-- Inheriting fails in one way only. -/
theorem inherit_error {c p : SelectorConfig} {e : ConfigError}
    (h : c.inherit p = .error e) : e = mismatch c p := by
  by_cases hkind : c.kind = p.kind
  · obtain ⟨r, hr, -⟩ := exists_inherit hkind
    rw [hr] at h
    cases h
  · rw [inherit_eq_mismatch hkind] at h
    exact (Except.error.inj h).symm

/-- A selector inherits only from one of its kind, and stays of it. -/
theorem kind_inherit {c p r : SelectorConfig} (h : c.inherit p = .ok r) :
    c.kind = p.kind ∧ r.kind = c.kind := by
  by_cases hkind : c.kind = p.kind
  · obtain ⟨r', hr', hkind'⟩ := exists_inherit hkind
    rw [h] at hr'
    exact ⟨hkind, by rw [Except.ok.inj hr', hkind']⟩
  · rw [inherit_eq_mismatch hkind] at h
    cases h

/-- Whatever the shape, a merge merges the common settings and the children. -/
theorem parts_inherit {c p r : SelectorConfig} (h : c.inherit p = .ok r) :
    r.common = c.common.inherit p.common
      ∧ r.children = Inherit.entries c.children p.children := by
  cases c with
  | leaf common x =>
    cases p with
    | leaf common' y =>
      simp only [inherit] at h
      split at h
      · obtain rfl := Except.ok.inj h
        exact ⟨rfl, rfl⟩
      · cases h
    | union | product => cases h
  | union =>
    cases p with
    | union =>
      obtain rfl := Except.ok.inj h
      exact ⟨rfl, rfl⟩
    | leaf | product => cases h
  | product =>
    cases p with
    | product =>
      obtain rfl := Except.ok.inj h
      exact ⟨rfl, rfl⟩
    | leaf | union => cases h

/-- Only selectors of one shape are of one kind, so three of one kind are
merged field by field, and each field can be grouped in any way. -/
theorem inherit_assoc_of_kind {c p g : SelectorConfig} (hcp : c.kind = p.kind)
    (hpg : p.kind = g.kind) :
    (c.inherit p >>= (·.inherit g)) = (p.inherit g >>= (c.inherit ·)) := by
  cases p with
  | leaf _ y =>
    cases c with
    | union => exact absurd hcp.symm (kind_leaf_ne y).1
    | product => exact absurd hcp.symm (kind_leaf_ne y).2
    | leaf _ x =>
      cases g with
      | union => exact absurd hpg (kind_leaf_ne y).1
      | product => exact absurd hpg (kind_leaf_ne y).2
      | leaf _ z =>
        obtain ⟨xy, hxy, hkind⟩ := LeafConfig.exists_inherit? hcp
        obtain ⟨yz, hyz, -⟩ := LeafConfig.exists_inherit? hpg
        obtain ⟨xyz, hxyz, -⟩ :=
          LeafConfig.exists_inherit? (hkind.trans (hcp.trans hpg))
        have hassoc : x.inherit? yz = some xyz := by
          simpa [hxy, hyz, hxyz] using (LeafConfig.inherit?_assoc x y z).symm
        rw [inherit_leaf hxy, inherit_leaf hyz]
        show (leaf _ xy).inherit (leaf _ z) = (leaf _ x).inherit (leaf _ yz)
        rw [inherit_leaf hxyz, inherit_leaf hassoc,
          CommonSettings.inherit_assoc]
  | union =>
    cases c with
    | leaf _ x => exact absurd hcp (kind_leaf_ne x).1
    | product => exact absurd hcp (by simp [kind])
    | union =>
      cases g with
      | leaf _ z => exact absurd hpg.symm (kind_leaf_ne z).1
      | product => exact absurd hpg (by simp [kind])
      | union =>
        show Except.ok _ = Except.ok _
        rw [CommonSettings.inherit_assoc, Inherit.entries_assoc,
          Inherit.value_assoc]
  | product =>
    cases c with
    | leaf _ x => exact absurd hcp (kind_leaf_ne x).2
    | union => exact absurd hcp (by simp [kind])
    | product =>
      cases g with
      | leaf _ z => exact absurd hpg.symm (kind_leaf_ne z).2
      | union => exact absurd hpg (by simp [kind])
      | product =>
        show Except.ok _ = Except.ok _
        rw [CommonSettings.inherit_assoc, Inherit.entries_assoc,
          Inherit.value_assoc]

/-- Inheritance can be grouped in any way: both ways give one selector, or
both fail. The errors may differ, since they name different pairs. -/
theorem inherit_assoc (c p g : SelectorConfig) :
    (c.inherit p >>= (·.inherit g)).toOption
      = (p.inherit g >>= (c.inherit ·)).toOption := by
  by_cases hcp : c.kind = p.kind <;> by_cases hpg : p.kind = g.kind
  · rw [inherit_assoc_of_kind hcp hpg]
  · obtain ⟨r, hr, hkind⟩ := exists_inherit hcp
    rw [hr, inherit_eq_mismatch hpg]
    show (r.inherit g).toOption = none
    rw [inherit_eq_mismatch (by rw [hkind, hcp]; exact hpg)]
    rfl
  · obtain ⟨r, hr, hkind⟩ := exists_inherit hpg
    rw [hr, inherit_eq_mismatch hcp]
    show none = (c.inherit r).toOption
    rw [inherit_eq_mismatch (by rw [hkind]; exact hcp)]
    rfl
  · rw [inherit_eq_mismatch hcp, inherit_eq_mismatch hpg]
    rfl

/-- A selector without weights that are no numbers gets nothing from a copy
of itself. -/
theorem inherit_copy {c : SelectorConfig} (h : c.NumberWeights) :
    c.inherit c = .ok c := by
  cases c with
  | leaf c x =>
      rw [inherit_leaf (LeafConfig.inherit?_self x),
        CommonSettings.inherit_self]
  | union c children factory =>
    have hchildren : Inherit.entries children children = children :=
      entries_children_self fun d hd => h.child hd
    simp only [inherit, CommonSettings.inherit_self,
      Inherit.value_self, hchildren]
  | product c children ignore =>
    have hchildren : Inherit.entries children children = children :=
      entries_children_self fun d hd => h.child hd
    simp only [inherit, CommonSettings.inherit_self,
      Inherit.value_self, hchildren]

/-- A selector is itself again after inheriting from a copy of itself; and
inheriting from a parent and then from a grandparent is inheriting from
the parent that has inherited from the grandparent, where one way fails
exactly if the other does. -/
theorem inherit_idempotent_grouped (c p g : SelectorConfig)
    (hc : c.NumberWeights) : c.inherit c = .ok c
      ∧ (c.inherit p >>= (·.inherit g)).toOption
        = (p.inherit g >>= (c.inherit ·)).toOption :=
  ⟨inherit_copy hc, inherit_assoc c p g⟩

/-- A union with two equal children, whose parent and grandparent have a
pillar selector with another part of its settings set. -/
theorem inherit_idempotent_grouped_union :
    let pillar (sub : SubPillarSettings) : SelectorConfig :=
      leaf { CommonSettings.unset with weight := some .one }
        (.pillarSwap none (some sub) ["shift"])
    let child :=
      union .unset [swapAll, pillar ⟨some true, none, none⟩, swapAll] none
    let parent := union .unset [pillar ⟨none, some 2, none⟩,
      swapAll] (some "even")
    let grandparent :=
      union .unset [pillar ⟨none, none, some 3⟩,
          pillar ⟨none, some 2, none⟩] none
    child.NumberWeights ∧ child.inherit child = .ok child
      ∧ (child.inherit parent >>= (·.inherit grandparent)).toOption
        = (parent.inherit grandparent >>= (child.inherit ·)).toOption
      ∧ (parent.inherit grandparent >>= (child.inherit ·)).toOption
        = some (union .unset [swapAll, pillar ⟨some true, none, none⟩, swapAll,
            pillar ⟨none, some 2, none⟩, pillar ⟨none, none, some 3⟩]
                (some "even")) := by
  intro pillar child parent grandparent
  have hone : Binary64.one.isNaN = false := by decide
  have hchild : child.NumberWeights := by
    simp [child, pillar, swapAll, CommonSettings.unset, hone]
  obtain ⟨hself, hgrouped⟩ :=
    inherit_idempotent_grouped child parent grandparent hchild
  exact ⟨hchild, hself, hgrouped, rfl⟩

end SelectorConfig

end PlanSearch

/-
The pillars of a solution are all there are.

The entities that hold the same values make a group, and the runs of a
group whose length is asked for are its pillars. What the program lists
is said here without it: a set of entities is a group (`Pillar.Group`) if
it holds with each of its entities exactly those that hold the same. The
classes the program fills, entity by entity, are these sets
(`Pillar.mem_classes_iff`), and every run of a group is cut out of it in
one way only (`Pillar.nodup_ofGroup`).

# Values

Entities are compared by a `==` that goes both ways and carries over, but a
value need not equal itself. An entity that holds such a value founds a
class nobody can join, itself included (`Pillar.Together`), and the check of
a pillar refuses it: a move can be made of a pillar just if what its entities
hold equals itself (`Pillar.pillars_exact`).

# The classes

`Pillar.Filed` says what the classes are once the entities below a number
have been put into them. An entity whose key is known joins the one class
of that key and leaves the others as they are, so putting it there is a
map over the classes (`Pillar.put_of_mem`); an entity with a new key comes
last, behind all classes that are there.
-/
import Mathlib.Data.List.Sort
import PlanSearch.Config.Writing
import PlanSearch.Problem.Mixed
import PlanSearch.Proofs.Selector.Pillars

namespace PlanSearch

variable {S V : Type}

namespace Pillar

-- =================================================================== groups

variable {vars : List (BasicVariable S V)} {s : S}

section

variable [BEq V]

/-- Both entities are open in no variable, and hold the same in each. -/
def Alike (vars : List (BasicVariable S V)) (s : S) (d e : Nat) : Prop :=
  ∀ x ∈ vars, ∃ v w, x.get s d = some v ∧ x.get s e = some w ∧ (v == w) = true

/-- Both entities hold the same, or are one entity that holds something in
each variable: what it holds need not equal itself. -/
def Together (vars : List (BasicVariable S V)) (s : S) (d e : Nat) : Prop :=
  Alike vars s d e ∨ d = e ∧ ∀ x ∈ vars, (x.get s e).isSome = true

/-- Entities in ascending order: with each of them those that hold the same,
and no others. -/
structure Group (vars : List (BasicVariable S V)) (s : S) (g : List Nat) :
    Prop where
  nonempty : g ≠ []
  ascending : g.Pairwise (· < ·)
  maximal : ∀ e ∈ g, ∀ d,
    d ∈ g ↔ d < entityCount vars s ∧ Together vars s e d

/-- Entities are alike if their keys are equal. -/
theorem alike_iff {d e : Nat} : Alike vars s d e ↔
    ∃ k l, key vars s d = some k ∧ key vars s e = some l ∧ (k == l) = true := by
  induction vars with
  | nil => exact ⟨fun _ => ⟨[], [], rfl, rfl, rfl⟩, fun _ _ hx => nomatch hx⟩
  | cons x rest ih =>
      have hcons : Alike (x :: rest) s d e ↔
          (∃ v w, x.get s d = some v ∧ x.get s e = some w ∧ (v == w) = true) ∧
            Alike rest s d e := List.forall_mem_cons
      rw [hcons, ih]
      constructor
      · rintro ⟨⟨v, w, hv, hw, hvw⟩, k, l, hk, hl, hkl⟩
        refine ⟨v :: k, w :: l, key_cons.mpr ⟨v, k, hv, hk, rfl⟩,
          key_cons.mpr ⟨w, l, hw, hl, rfl⟩, ?_⟩
        rw [List.cons_beq_cons, hvw, hkl]
        rfl
      · rintro ⟨k, l, hk, hl, hkl⟩
        obtain ⟨v, ks, hv, hks, rfl⟩ := key_cons.mp hk
        obtain ⟨w, ls, hw, hls, rfl⟩ := key_cons.mp hl
        rw [List.cons_beq_cons, Bool.and_eq_true] at hkl
        exact ⟨⟨v, w, hv, hw, hkl.1⟩, ks, ls, hks, hls, hkl.2⟩

omit [BEq V] in
/-- An entity has a key if it is open in no variable. -/
theorem exists_key_iff {e : Nat} :
    (∃ k, key vars s e = some k) ↔ ∀ x ∈ vars, (x.get s e).isSome = true := by
  induction vars with
  | nil => exact ⟨fun _ _ hx => (nomatch hx), fun _ => ⟨[], rfl⟩⟩
  | cons x rest ih =>
      rw [List.forall_mem_cons, ← ih, Option.isSome_iff_exists]
      constructor
      · rintro ⟨k, hk⟩
        obtain ⟨v, ks, hv, hks, -⟩ := key_cons.mp hk
        exact ⟨⟨v, hv⟩, ks, hks⟩
      · rintro ⟨⟨v, hv⟩, ks, hks⟩
        exact ⟨v :: ks, key_cons.mpr ⟨v, ks, hv, hks, rfl⟩⟩

/-- Entities that belong together have a key. -/
theorem Together.exists_key {d e : Nat} (h : Together vars s d e) :
    ∃ k, key vars s d = some k := by
  rcases h with halike | ⟨rfl, hheld⟩
  · obtain ⟨k, -, hk, -⟩ := alike_iff.mp halike
    exact ⟨k, hk⟩
  · exact exists_key_iff.mpr hheld

/-- Where equality is reflexive, to be together is to be alike. -/
theorem together_iff_alike [ReflBEq V] {d e : Nat} :
    Together vars s d e ↔ Alike vars s d e := by
  refine ⟨fun h => h.elim id ?_, .inl⟩
  rintro ⟨rfl, hheld⟩ x hx
  obtain ⟨v, hv⟩ := Option.isSome_iff_exists.mp (hheld x hx)
  exact ⟨v, v, hv, hv, BEq.rfl⟩

-- ================================================================== classes

/-- An entity joins the class of its key. -/
def joinedBy (k : List V) (e : Nat) (c : List V × List Nat) :
    List V × List Nat :=
  if c.1 == k then (c.1, c.2 ++ [e]) else c

theorem joinedBy_fst (k : List V) (e : Nat) (c : List V × List Nat) :
    (joinedBy k e c).1 = c.1 := by
  unfold joinedBy
  split
  · rfl
  · rfl

/-- A class is joined by the entity if it has its key. -/
theorem mem_joinedBy {k : List V} {e : Nat} {c : List V × List Nat} {d : Nat} :
    d ∈ (joinedBy k e c).2 ↔ d ∈ c.2 ∨ (d = e ∧ (c.1 == k) = true) := by
  unfold joinedBy
  split
  · rename_i hkey
    rw [List.mem_append, List.mem_singleton]
    simp [hkey]
  · rename_i hkey
    simp [hkey]

/-- A key that no class has founds one. -/
theorem put_of_not_mem {k : List V} {e : Nat}
    {classes : List (List V × List Nat)}
    (h : ∀ c ∈ classes, ¬(c.1 == k) = true) :
    put k e classes = classes ++ [(k, [e])] := by
  induction classes with
  | nil => rfl
  | cons c rest ih =>
      obtain ⟨hc, hrest⟩ := List.forall_mem_cons.mp h
      rw [put, if_neg hc, ih hrest]
      rfl

/-- It keeps the entity that founded the class. -/
theorem head?_joinedBy {k : List V} {e founder : Nat} {c : List V × List Nat}
    (h : c.2.head? = some founder) :
    (joinedBy k e c).2.head? = some founder := by
  unfold joinedBy
  split
  · rw [List.head?_append, h]
    rfl
  · exact h

/-- What the classes are of the entities below a number: each with the entity
that founded it and all those whose keys equal its own, and each before those
that opened later. -/
structure Filed (vars : List (BasicVariable S V)) (s : S) (n : Nat)
    (classes : List (List V × List Nat)) : Prop where
  apart : classes.Pairwise fun a b => ¬(a.1 == b.1) = true
  founder : ∀ c ∈ classes, ∃ e, c.2.head? = some e ∧ key vars s e = some c.1
  ascending : ∀ c ∈ classes, c.2.Pairwise (· < ·)
  lt : ∀ c ∈ classes, ∀ d ∈ c.2, d < n
  mem_iff : ∀ c ∈ classes, ∀ d, d ∈ c.2 ↔ c.2.head? = some d ∨
    d < n ∧ ∃ k, key vars s d = some k ∧ (c.1 == k) = true
  complete : ∀ d < n, ∀ k, key vars s d = some k → ∃ c ∈ classes, d ∈ c.2
  inOrder : classes.Pairwise fun a b => ∃ d ∈ a.2, ∀ e ∈ b.2, d < e

variable {n : Nat} {k : List V} {classes : List (List V × List Nat)}

/-- No class is empty. -/
theorem Filed.nonempty (h : Filed vars s n classes) :
    ∀ c ∈ classes, c.2 ≠ [] := by
  intro c hc hnil
  obtain ⟨e, he, -⟩ := h.founder c hc
  rw [hnil] at he
  cases he

/-- An entity that is open somewhere is left out. -/
theorem Filed.skip (h : Filed vars s n classes) (hkey : key vars s n = none) :
    Filed vars s (n + 1) classes where
  apart := h.apart
  founder := h.founder
  ascending := h.ascending
  lt c hc d hd := Nat.lt_succ_of_lt (h.lt c hc d hd)
  mem_iff c hc d := by
    rw [h.mem_iff c hc d]
    refine or_congr_right ⟨fun ⟨hlt, hk⟩ => ⟨Nat.lt_succ_of_lt hlt, hk⟩, ?_⟩
    rintro ⟨hlt, k, hk, hck⟩
    rcases Nat.lt_succ_iff_lt_or_eq.mp hlt with hlt | rfl
    · exact ⟨hlt, k, hk, hck⟩
    · rw [hkey] at hk
      cases hk
  complete d hlt k hk := by
    rcases Nat.lt_succ_iff_lt_or_eq.mp hlt with hlt | rfl
    · exact h.complete d hlt k hk
    · rw [hkey] at hk
      cases hk
  inOrder := h.inOrder

/-- An entity with a known key joins its class. -/
theorem Filed.join (h : Filed vars s n classes) (hkey : key vars s n = some k)
    (known : ∃ c ∈ classes, (c.1 == k) = true) :
    Filed vars s (n + 1) (classes.map (joinedBy k n)) where
  apart := by
    refine List.pairwise_map.mpr (h.apart.imp fun hab => ?_)
    rwa [joinedBy_fst, joinedBy_fst]
  founder := by
    refine List.forall_mem_map.mpr fun c hc => ?_
    obtain ⟨e, he, hk⟩ := h.founder c hc
    exact ⟨e, head?_joinedBy he, by rwa [joinedBy_fst]⟩
  ascending := by
    refine List.forall_mem_map.mpr fun c hc => ?_
    unfold joinedBy
    split
    · refine List.pairwise_append.mpr
        ⟨h.ascending c hc, List.pairwise_singleton _ _, fun d hd e he => ?_⟩
      rw [List.mem_singleton.mp he]
      exact h.lt c hc d hd
    · exact h.ascending c hc
  lt := by
    refine List.forall_mem_map.mpr fun c hc d hd => ?_
    rcases mem_joinedBy.mp hd with hd | ⟨rfl, -⟩
    · exact Nat.lt_succ_of_lt (h.lt c hc d hd)
    · exact Nat.lt_succ_self _
  mem_iff := by
    refine List.forall_mem_map.mpr fun c hc d => ?_
    obtain ⟨e, he, -⟩ := h.founder c hc
    rw [mem_joinedBy, h.mem_iff c hc d, joinedBy_fst, head?_joinedBy he, he,
      or_assoc]
    refine or_congr_right ⟨?_, ?_⟩
    · rintro (⟨hlt, hd⟩ | ⟨rfl, hck⟩)
      · exact ⟨Nat.lt_succ_of_lt hlt, hd⟩
      · exact ⟨Nat.lt_succ_self _, k, hkey, hck⟩
    · rintro ⟨hlt, l, hl, hcl⟩
      rcases Nat.lt_succ_iff_lt_or_eq.mp hlt with hlt | rfl
      · exact .inl ⟨hlt, l, hl, hcl⟩
      · rw [hkey] at hl
        cases hl
        exact .inr ⟨rfl, hcl⟩
  complete d hlt l hl := by
    rcases Nat.lt_succ_iff_lt_or_eq.mp hlt with hlt | rfl
    · obtain ⟨c, hc, hd⟩ := h.complete d hlt l hl
      exact ⟨_, List.mem_map_of_mem hc, mem_joinedBy.mpr (.inl hd)⟩
    · obtain ⟨c, hc, hck⟩ := known
      exact ⟨_, List.mem_map_of_mem hc, mem_joinedBy.mpr (.inr ⟨rfl, hck⟩)⟩
  inOrder := by
    refine List.pairwise_map.mpr (h.inOrder.imp_of_mem fun {a b} ha _ hab => ?_)
    obtain ⟨d, hd, hfirst⟩ := hab
    refine ⟨d, mem_joinedBy.mpr (.inl hd), fun e he => ?_⟩
    rcases mem_joinedBy.mp he with he | ⟨rfl, -⟩
    · exact hfirst e he
    · exact h.lt a ha d hd

variable [PartialEquivBEq V]

/-- An entity with a key that is known joins the class of it. -/
theorem put_of_mem {k : List V} {e : Nat} {classes : List (List V × List Nat)}
    (apart : classes.Pairwise fun a b => ¬(a.1 == b.1) = true)
    (h : ∃ c ∈ classes, (c.1 == k) = true) :
    put k e classes = classes.map (joinedBy k e) := by
  induction classes with
  | nil =>
      obtain ⟨c, hc, -⟩ := h
      cases hc
  | cons c rest ih =>
      obtain ⟨hc, hrest⟩ := List.pairwise_cons.mp apart
      by_cases hkey : (c.1 == k) = true
      · have hothers : rest.map (joinedBy k e) = rest := by
          calc rest.map (joinedBy k e)
              = rest.map id := List.map_congr_left fun b hb => if_neg fun hbk =>
                  hc b hb (BEq.trans hkey (BEq.symm hbk))
            _ = rest := List.map_id rest
        rw [put, if_pos hkey, List.map_cons, hothers, joinedBy, if_pos hkey]
      · obtain ⟨d, hd, hdk⟩ := h
        have hmem : d ∈ rest := by
          rcases List.mem_cons.mp hd with rfl | hd
          · exact absurd hdk hkey
          · exact hd
        rw [put, if_neg hkey, ih hrest ⟨d, hmem, hdk⟩, List.map_cons, joinedBy,
          if_neg hkey]

/-- An entity with a new key opens a class, the last one. -/
theorem Filed.found (h : Filed vars s n classes) (hkey : key vars s n = some k)
    (fresh : ∀ c ∈ classes, ¬(c.1 == k) = true) :
    Filed vars s (n + 1) (classes ++ [(k, [n])]) where
  apart := by
    refine List.pairwise_append.mpr
      ⟨h.apart, List.pairwise_singleton _ _, fun a ha b hb => ?_⟩
    rw [List.mem_singleton.mp hb]
    exact fresh a ha
  founder := List.forall_mem_append.mpr
    ⟨h.founder, List.forall_mem_singleton.mpr ⟨n, rfl, hkey⟩⟩
  ascending := List.forall_mem_append.mpr ⟨h.ascending,
    List.forall_mem_singleton.mpr (List.pairwise_singleton _ _)⟩
  lt := by
    refine List.forall_mem_append.mpr
      ⟨fun c hc d hd => Nat.lt_succ_of_lt (h.lt c hc d hd),
        List.forall_mem_singleton.mpr fun d hd => ?_⟩
    rw [List.mem_singleton.mp hd]
    exact Nat.lt_succ_self n
  mem_iff := by
    refine List.forall_mem_append.mpr
      ⟨fun c hc d => ?_, List.forall_mem_singleton.mpr fun d => ?_⟩
    · rw [h.mem_iff c hc d]
      refine or_congr_right
        ⟨fun ⟨hlt, hd⟩ => ⟨Nat.lt_succ_of_lt hlt, hd⟩,
          fun ⟨hlt, l, hl, hcl⟩ => ?_⟩
      rcases Nat.lt_succ_iff_lt_or_eq.mp hlt with hlt | rfl
      · exact ⟨hlt, l, hl, hcl⟩
      · rw [hkey] at hl
        cases hl
        exact absurd hcl (fresh c hc)
    · rw [List.mem_singleton]
      refine ⟨fun hd => .inl (congrArg some hd.symm), ?_⟩
      rintro (hd | ⟨hlt, l, hl, hkl⟩)
      · exact (Option.some.inj hd).symm
      · rcases Nat.lt_succ_iff_lt_or_eq.mp hlt with hlt | rfl
        · -- the entity came before, so its key was known already
          obtain ⟨c, hc, hd⟩ := h.complete d hlt l hl
          have hlk : (l == k) = true := BEq.symm hkl
          rcases (h.mem_iff c hc d).mp hd with hhead | ⟨-, m, hm, hcm⟩
          · obtain ⟨e, he, hk⟩ := h.founder c hc
            cases hhead.symm.trans he
            cases hl.symm.trans hk
            exact absurd hlk (fresh c hc)
          · cases hl.symm.trans hm
            exact absurd (BEq.trans hcm hlk) (fresh c hc)
        · rfl
  complete d hlt l hl := by
    rcases Nat.lt_succ_iff_lt_or_eq.mp hlt with hlt | rfl
    · obtain ⟨c, hc, hd⟩ := h.complete d hlt l hl
      exact ⟨c, List.mem_append_left _ hc, hd⟩
    · exact ⟨(k, [d]), List.mem_append_right _ (List.mem_singleton.mpr rfl),
        List.mem_singleton.mpr rfl⟩
  inOrder := by
    refine List.pairwise_append.mpr
      ⟨h.inOrder, List.pairwise_singleton _ _, fun a ha b hb => ?_⟩
    obtain ⟨d, hd⟩ := List.exists_mem_of_ne_nil _ (h.nonempty a ha)
    refine ⟨d, hd, fun e he => ?_⟩
    rw [List.mem_singleton.mp hb] at he
    rw [List.mem_singleton.mp he]
    exact h.lt a ha d hd

/-- One step of the filing: the entity joins a class or opens one. -/
theorem Filed.put (h : Filed vars s n classes) (hkey : key vars s n = some k) :
    Filed vars s (n + 1) (Pillar.put k n classes) := by
  by_cases known : ∃ c ∈ classes, (c.1 == k) = true
  · rw [put_of_mem h.apart known]
    exact h.join hkey known
  · have fresh : ∀ c ∈ classes, ¬(c.1 == k) = true :=
      fun c hc hck => known ⟨c, hc, hck⟩
    rw [put_of_not_mem fresh]
    exact h.found hkey fresh

/-- The classes of a solution are filed by all its entities. -/
theorem filed (vars : List (BasicVariable S V)) (s : S) :
    Filed vars s (entityCount vars s) (Pillar.classes vars s) := by
  unfold Pillar.classes
  generalize entityCount vars s = n
  induction n with
  | zero =>
      exact ⟨.nil, fun _ hc => (nomatch hc), fun _ hc => (nomatch hc),
        fun _ hc => (nomatch hc), fun _ hc => (nomatch hc),
        fun _ hlt => absurd hlt (Nat.not_lt_zero _), .nil⟩
  | succ n ih =>
      rw [List.range_succ, List.foldl_append, List.foldl_cons, List.foldl_nil]
      cases hkey : key vars s n with
      | none => exact ih.skip hkey
      | some k => exact ih.put hkey

/-- With an entity of a class come those that hold the same. -/
theorem mem_class_iff {c : List V × List Nat} (hc : c ∈ Pillar.classes vars s)
    {e : Nat} (he : e ∈ c.2) {d : Nat} :
    d ∈ c.2 ↔ d < entityCount vars s ∧ Together vars s e d := by
  have hfiled := filed vars s
  obtain ⟨founder, hfounder, hk⟩ := hfiled.founder c hc
  constructor
  · intro hd
    refine ⟨hfiled.lt c hc d hd, ?_⟩
    rcases (hfiled.mem_iff c hc e).mp he with hehead | ⟨-, ke, hke, hce⟩ <;>
      rcases (hfiled.mem_iff c hc d).mp hd with hdhead | ⟨-, kd, hkd, hcd⟩
    · cases hehead.symm.trans hdhead
      cases hehead.symm.trans hfounder
      exact .inr ⟨rfl, exists_key_iff.mp ⟨_, hk⟩⟩
    · cases hehead.symm.trans hfounder
      exact .inl (alike_iff.mpr ⟨_, _, hk, hkd, hcd⟩)
    · cases hdhead.symm.trans hfounder
      exact .inl (alike_iff.mpr ⟨_, _, hke, hk, BEq.symm hce⟩)
    · exact .inl
        (alike_iff.mpr ⟨_, _, hke, hkd, BEq.trans (BEq.symm hce) hcd⟩)
  · rintro ⟨hlt, halike | ⟨rfl, -⟩⟩
    · obtain ⟨ke, kd, hke, hkd, hkeys⟩ := alike_iff.mp halike
      refine (hfiled.mem_iff c hc d).mpr (.inr ⟨hlt, kd, hkd, ?_⟩)
      rcases (hfiled.mem_iff c hc e).mp he with hehead | ⟨-, k, hk', hck⟩
      · cases hehead.symm.trans hfounder
        cases hk.symm.trans hke
        exact hkeys
      · cases hke.symm.trans hk'
        exact BEq.trans hck hkeys
    · exact he

/-- The classes are the groups. -/
theorem mem_classes_iff {g : List Nat} :
    g ∈ (Pillar.classes vars s).map Prod.snd ↔ Group vars s g := by
  have hfiled := filed vars s
  rw [List.mem_map]
  constructor
  · rintro ⟨c, hc, rfl⟩
    exact ⟨hfiled.nonempty c hc, hfiled.ascending c hc,
      fun e he d => mem_class_iff hc he⟩
  · intro hgroup
    obtain ⟨e, he⟩ := List.exists_mem_of_ne_nil g hgroup.nonempty
    obtain ⟨hlt, htogether⟩ := (hgroup.maximal e he e).mp he
    obtain ⟨k, hk⟩ := htogether.exists_key
    obtain ⟨c, hc, hec⟩ := hfiled.complete e hlt k hk
    refine ⟨c, hc, (hfiled.ascending c hc).eq_of_mem_iff hgroup.ascending
      fun d => ?_⟩
    rw [mem_class_iff hc hec, hgroup.maximal e he d]

-- ================================================================== pillars

variable {sub : SubPillars}

/-- The groups that are kept are those that yield a pillar. -/
theorem mem_groups_iff {g : List Nat} :
    g ∈ groups vars sub s ↔
      Group vars s g ∧ ∃ size, sub.Allows g.length size := by
  rw [SubPillars.exists_allows_iff, ← mem_classes_iff]
  exact List.mem_filter

/-- They come in the order of their first entities. -/
theorem pairwise_groups (vars : List (BasicVariable S V)) (sub : SubPillars)
    (s : S) :
    (groups vars sub s).Pairwise fun g h => ∃ d ∈ g, ∀ e ∈ h, d < e :=
  (List.pairwise_map.mpr (filed vars s).inOrder).filter _

omit [PartialEquivBEq V] in
/-- The pillars are the runs of the groups, of the sizes asked for. -/
theorem mem_all_iff {p : Pillar} : p ∈ all vars sub s ↔
    ∃ g, (groups vars sub s)[p.group]? = some g ∧ p.entities <:+: g ∧
      sub.Allows g.length p.entities.length := by
  unfold all
  rw [List.mem_flatMap]
  constructor
  · rintro ⟨⟨g, number⟩, hg, hp⟩
    obtain ⟨rfl, hrun⟩ := mem_ofGroup.mp hp
    exact ⟨g, List.mem_zipIdx_iff_getElem?.mp hg, hrun⟩
  · rintro ⟨g, hg, hrun⟩
    exact ⟨(g, p.group), List.mem_zipIdx_iff_getElem?.mpr hg,
      mem_ofGroup.mpr ⟨rfl, hrun⟩⟩

/-- No pillar is listed twice. -/
theorem nodup_all (least : 1 ≤ sub.minimum) : (all vars sub s).Nodup := by
  refine List.nodup_flatMap.mpr ⟨fun c hc => ?_, ?_⟩
  · have hg : c.1 ∈ groups vars sub s := List.fst_mem_of_mem_zipIdx hc
    have hascending := (mem_groups_iff.mp hg).1.ascending
    exact nodup_ofGroup least c.2 (hascending.imp fun hlt => Nat.ne_of_lt hlt)
  · have hnumbers : ((groups vars sub s).zipIdx.map Prod.snd).Nodup := by
      rw [List.zipIdx_map_snd]
      exact List.nodup_range'
    refine (List.pairwise_map.mp hnumbers).imp fun hne p hp hq => ?_
    exact hne ((mem_ofGroup.mp hp).1.symm.trans (mem_ofGroup.mp hq).1)

-- ==================================================================== moves

/-- What has been checked of a pillar before a move is made of it. -/
theorem sound_of_mem_all (least : 1 ≤ sub.minimum) {p : Pillar}
    (h : p ∈ all vars sub s) :
    p.entities ≠ [] ∧ p.entities.Nodup ∧
      (∀ e ∈ p.entities, e < entityCount vars s) ∧
      ∀ d ∈ p.entities, ∀ e ∈ p.entities, Together vars s d e := by
  obtain ⟨g, hg, hrun, hsize⟩ := mem_all_iff.mp h
  have hgroup := (mem_groups_iff.mp (List.mem_of_getElem? hg)).1
  have hmin : sub.minimum ≤ p.entities.length := by
    obtain ⟨low, high, hsizes, hlow, -⟩ := SubPillars.allows_iff.mp hsize
    exact (SubPillars.sizes_bounds hsizes).1.trans hlow
  have hin : ∀ e ∈ p.entities, e ∈ g := fun e he => hrun.subset he
  refine ⟨List.ne_nil_of_length_pos (least.trans hmin), ?_, fun e he => ?_,
    fun d hd e he => ?_⟩
  · exact (hgroup.ascending.imp fun hlt =>
      Nat.ne_of_lt hlt).sublist hrun.sublist
  · exact ((hgroup.maximal e (hin e he) e).mp (hin e he)).1
  · exact ((hgroup.maximal d (hin d hd) e).mp (hin e he)).2

/-- An entity of a pillar is open in none of its variables. -/
theorem assigned_of_mem_all (least : 1 ≤ sub.minimum) {p : Pillar}
    (h : p ∈ all vars sub s) {x : BasicVariable S V} (hx : x ∈ vars) :
    ∀ e ∈ p.entities, (x.get s e).isSome = true := by
  intro e he
  obtain ⟨-, -, -, htogether⟩ := sound_of_mem_all least h
  exact exists_key_iff.mp (htogether e he e he).exists_key x hx

/-- The entities of a pillar are known to every variable of their class. -/
theorem known_of_mem_all (least : 1 ≤ sub.minimum)
    (oneClass : ∀ x ∈ vars, ∀ y ∈ vars, x.OpenFor y s) {p : Pillar}
    (h : p ∈ all vars sub s) {x : BasicVariable S V} (hx : x ∈ vars) :
    ∀ e ∈ p.entities, e < x.count s := by
  intro e he
  obtain ⟨-, -, hlt, -⟩ := sound_of_mem_all least h
  obtain ⟨y, hy, hcount⟩ : ∃ y ∈ vars, entityCount vars s = y.count s := by
    cases vars with
    | nil => cases hx
    | cons y rest => exact ⟨y, List.mem_cons_self .., rfl⟩
  have hsome := assigned_of_mem_all least h hx e he
  refine Nat.lt_of_not_le fun hle => ?_
  rw [oneClass x hx y hy e (hcount ▸ hlt e he) hle] at hsome
  cases hsome

/-- A pillar of the list has no flaw, unless it is an entity that holds
something not equal to itself. -/
theorem flawless_iff (least : 1 ≤ sub.minimum)
    (oneClass : ∀ x ∈ vars, ∀ y ∈ vars, x.OpenFor y s) {p : Pillar}
    (h : p ∈ all vars sub s) {x : BasicVariable S V} (hx : x ∈ vars) :
    pillarFlaw x s p.entities = none ↔
      ∀ e ∈ p.entities, (x.get s e == x.get s e) = true := by
  obtain ⟨hne, hnodup, -, htogether⟩ := sound_of_mem_all least h
  rw [pillarFlaw_eq_none_iff hne (known_of_mem_all least oneClass h hx) hnodup
    (assigned_of_mem_all least h hx)]
  refine ⟨fun hagree e he => hagree e he e he, fun hself d hd e he => ?_⟩
  rcases htogether d hd e he with halike | ⟨rfl, -⟩
  · obtain ⟨v, w, hv, hw, hvw⟩ := halike x hx
    rw [hv, hw]
    exact hvw
  · exact hself d hd

/-- Pillars of different groups share no entity. -/
theorem apart_of_mem_all {p q : Pillar} (hp : p ∈ all vars sub s)
    (hq : q ∈ all vars sub s) (hpq : p.group ≠ q.group) :
    ∀ e ∈ p.entities, e ∉ q.entities := by
  intro e hep heq
  obtain ⟨g, hg, hgrun, -⟩ := mem_all_iff.mp hp
  obtain ⟨h, hh, hhrun, -⟩ := mem_all_iff.mp hq
  have hgroup := (mem_groups_iff.mp (List.mem_of_getElem? hg)).1
  have hgroup' := (mem_groups_iff.mp (List.mem_of_getElem? hh)).1
  -- an entity of both makes them one set
  have hsame : ∀ d, d ∈ g ↔ d ∈ h := fun d =>
    (hgroup.maximal e (hgrun.subset hep) d).trans
      (hgroup'.maximal e (hhrun.subset heq) d).symm
  obtain ⟨hglt, rfl⟩ := List.getElem?_eq_some_iff.mp hg
  obtain ⟨hhlt, rfl⟩ := List.getElem?_eq_some_iff.mp hh
  have hinOrder := List.pairwise_iff_getElem.mp (pairwise_groups vars sub s)
  rcases Nat.lt_or_gt_of_ne hpq with hlt | hlt
  · obtain ⟨d, hd, hfirst⟩ := hinOrder _ _ hglt hhlt hlt
    exact Nat.lt_irrefl d (hfirst d ((hsame d).mp hd))
  · obtain ⟨d, hd, hfirst⟩ := hinOrder _ _ hhlt hglt hlt
    exact Nat.lt_irrefl d (hfirst d ((hsame d).mpr hd))

/-- Two pillars of different groups can be exchanged if neither has a flaw. -/
theorem pairFlawless_iff (least : 1 ≤ sub.minimum)
    (oneClass : ∀ x ∈ vars, ∀ y ∈ vars, x.OpenFor y s) {p q : Pillar}
    (hp : p ∈ all vars sub s) (hq : q ∈ all vars sub s)
    (hpq : p.group ≠ q.group) {x : BasicVariable S V} (hx : x ∈ vars) :
    pillarPairFlaw x s p.entities q.entities = none ↔
      ∀ e ∈ p.entities ++ q.entities, (x.get s e == x.get s e) = true := by
  have hshared : p.entities.find? q.entities.contains = none :=
    List.find?_eq_none.mpr fun e he hmem =>
      apart_of_mem_all hp hq hpq e he (List.contains_iff_mem.mp hmem)
  rw [List.forall_mem_append, ← flawless_iff least oneClass hp hx,
    ← flawless_iff least oneClass hq hx, pillarPairFlaw, hshared,
    Option.or_eq_none_iff, Option.or_eq_none_iff]
  exact and_congr_right fun _ => and_iff_left rfl

/-- The groups are the maximal sets of entities that hold the same and can
yield a pillar, in the order of their first entities; the pillars are their
runs of the sizes asked for, each once; and a step on them can be made just if
what their entities hold equals itself. -/
theorem pillars_exact [Shown V] (vars : List (BasicVariable S V))
    (sub : SubPillars) (s : S) (least : 1 ≤ sub.minimum)
    (oneClass : ∀ x ∈ vars, ∀ y ∈ vars, x.OpenFor y s) :
    ((∀ g, g ∈ groups vars sub s ↔
        Group vars s g ∧ ∃ size, sub.Allows g.length size) ∧
      (groups vars sub s).Pairwise fun g h => ∃ d ∈ g, ∀ e ∈ h, d < e) ∧
    ((∀ p, p ∈ all vars sub s ↔ ∃ g, (groups vars sub s)[p.group]? = some g ∧
        p.entities <:+: g ∧ sub.Allows g.length p.entities.length) ∧
      (all vars sub s).Nodup) ∧
    (∀ p ∈ all vars sub s, ∀ x ∈ vars, ∀ value,
      (Step.pillarChange x p.entities value).make? s =
          .ok (.pillarChange x p.entities value) ↔
        ∀ e ∈ p.entities, (x.get s e == x.get s e) = true) ∧
    ∀ p ∈ all vars sub s, ∀ q ∈ all vars sub s, p.group ≠ q.group → ∀ x ∈ vars,
      ((Step.pillarSwap x p.entities q.entities).make? s =
          .ok (.pillarSwap x p.entities q.entities) ↔
        ∀ e ∈ p.entities ++ q.entities, (x.get s e == x.get s e) = true) := by
  refine ⟨⟨fun g => mem_groups_iff, pairwise_groups vars sub s⟩,
    ⟨fun p => mem_all_iff, nodup_all least⟩, fun p hp x hx value => ?_,
    fun p hp q hq hpq x hx => ?_⟩
  · rw [← flawless_iff least oneClass hp hx, Step.make?_pillarChange]
  · rw [← pairFlawless_iff least oneClass hp hq hpq hx, Step.make?_pillarSwap]

end

end Pillar

-- ================================================================ instances

namespace Mixed

/-- Two variables of one class. -/
def paired : List (BasicVariable Mixed Int) := (basics.take 2).map Prod.snd

/-- Four entities that hold something in both variables, and one that does
not. -/
def fourOfFive : Mixed :=
  ⟨⟨[some 1, some 1, some 2, some 1, none], []⟩,
    ⟨[some 3, some 3, some 3, some 3, some 3], []⟩,
    ⟨[], []⟩, ⟨[], []⟩, ⟨[], 0⟩, ⟨[], 0⟩, none⟩

end Mixed

/-- Items with a weight each, which need not be a number. -/
def Binary64.weight : BasicVariable (List (Option Binary64)) Binary64 where
  name := "weight"
  descriptor := 0
  count s := s.length
  get s item := (s[item]?).join
  set s item value := s.set item value
  values _ := []

/-- Two items of one weight, and two without a number between them. -/
def Binary64.twoOfFour : List (Option Binary64) :=
  [some one, some nan, some nan, some one]

/-- Two ways in which what holds the same is no pillar to move. Items whose
weight is no number hold nothing that equals what they hold, and still each
of them is listed, as a pillar that no step can be made of. And where no
variable is listed all entities hold the same, but none is counted. -/
theorem Pillar.pillars_depart :
    (let vars := [Binary64.weight]
      let s := Binary64.twoOfFour
      (1 ≤ SubPillars.none.minimum ∧ ∀ x ∈ vars, ∀ y ∈ vars, x.OpenFor y s) ∧
      (¬Alike vars s 1 1 ∧ groups vars .none s = [[0, 3], [1], [2]]) ∧
      (⟨1, [1]⟩ : Pillar) ∈ all vars .none s ∧
      ∀ value, (Step.pillarChange Binary64.weight [1] value).make? s =
        .error (.structural
          "pillar [1] is inconsistent: entity 1 does not hold Some(NaN)")) ∧
    (let vars : List (BasicVariable Mixed Int) := []
      let s := Mixed.fourOfFive
      (∀ d e, Alike vars s d e) ∧ groups vars .none s = []) := by
  refine ⟨⟨⟨by decide, ?_⟩, ⟨?_, by decide⟩, by decide, fun value => rfl⟩,
    fun _ _ _ hx => (nomatch hx), rfl⟩
  · intro x hx y hy
    rw [List.mem_singleton.mp hx, List.mem_singleton.mp hy]
    exact Binary64.weight.openFor_self _
  · intro halike
    obtain ⟨v, w, hv, hw, hvw⟩ := halike _ (List.mem_singleton.mpr rfl)
    cases hv
    cases hw
    exact absurd hvw (by decide)

/-- Pillars of one or two entities, out of a group of three and one of one. -/
theorem Pillar.pillars_exact_fourOfFive :
    let vars := Mixed.paired
    let sub : SubPillars := ⟨true, 1, 2⟩
    let s := Mixed.fourOfFive
    (1 ≤ sub.minimum ∧ ∀ x ∈ vars, ∀ y ∈ vars, x.OpenFor y s) ∧
    (Group vars s [0, 1, 3] ∧ groups vars sub s = [[0, 1, 3], [2]]) ∧
    ((all vars sub s).map Pillar.entities
      = [[0], [1], [3], [0, 1], [1, 3], [2]] ∧
      (all vars sub s).Nodup) ∧
    (∀ x ∈ vars, (Step.pillarChange x [1, 3] (some 2)).make? s =
      .ok (.pillarChange x [1, 3] (some 2))) ∧
    ∀ x ∈ vars, (Step.pillarSwap x [1, 3] [2]).make? s =
      .ok (.pillarSwap x [1, 3] [2]) := by
  intro vars sub s
  have least : 1 ≤ sub.minimum := by decide
  have oneClass : ∀ x ∈ vars, ∀ y ∈ vars, x.OpenFor y s := by
    have hcount : ∀ x ∈ vars, x.count s = 5 := by
      intro x hx
      rcases List.mem_cons.mp hx with rfl | hx
      · rfl
      · rw [List.mem_singleton.mp hx]
        rfl
    intro x hx y hy e hlt hle
    rw [hcount x hx] at hle
    rw [hcount y hy] at hlt
    omega
  obtain ⟨⟨hgroups, -⟩, ⟨-, hnodup⟩, hchange, hswap⟩ :=
    Pillar.pillars_exact vars sub s least oneClass
  have hall : (⟨0, [1, 3]⟩ : Pillar) ∈ all vars sub s ∧
      (⟨1, [2]⟩ : Pillar) ∈ all vars sub s := by
    decide
  refine ⟨⟨least, oneClass⟩, ⟨((hgroups [0, 1, 3]).mp ?_).1, by decide⟩,
    ⟨by decide, hnodup⟩, fun x hx => ?_, fun x hx => ?_⟩
  · decide
  · exact (hchange _ hall.1 x hx (some 2)).mpr fun _ _ => BEq.rfl
  · exact (hswap _ hall.1 _ hall.2 (by decide) x hx).mpr fun _ _ => BEq.rfl

end PlanSearch

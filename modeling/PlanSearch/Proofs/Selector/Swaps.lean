/-
What swaps do to the values.

A swap of two entities that exist permutes the contents of its variable,
and no other variable sees it. So does a swap made for several variables,
one after the other, as long as both entities exist in each of them. That
is not a matter of course. The selector draws its pairs from the entities
of the first of its variables, and nothing checks that the others have as
many; they may be of another class. So swaps keep all values exactly if no
variable has fewer entities than the first one (`Aligned`), and there are
pairs at all.
-/
import Mathlib.Logic.Equiv.Basic
import Mathlib.Data.List.Perm.Basic
import PlanSearch.Proofs.Move.Run
import PlanSearch.Proofs.Problems
import PlanSearch.Proofs.Selector.Drawn
import PlanSearch.Proofs.Selector.Leaves

namespace PlanSearch

variable {D S V Sc : Type}

-- ============================================================ vocabulary

/-- What the entities of a variable hold, in their order. -/
def BasicVariable.contents (x : BasicVariable S V) (s : S) : List (Option V) :=
  (List.range (x.count s)).map (x.get s)

/-- Every variable has the entities of the first one, or there are no two
of these. -/
def Aligned (targets : List (BasicVariable S V)) (s : S) : Prop :=
  Pillar.entityCount targets s < 2 ∨
    ∀ x ∈ targets, Pillar.entityCount targets s ≤ x.count s

instance (targets : List (BasicVariable S V)) (s : S) :
    Decidable (Aligned targets s) :=
  inferInstanceAs (Decidable (_ ∨ _))

/-- The basic variables of a class, if one is given, with one of the names,
if any is given. -/
def SelectorContext.matching (c : SelectorContext S V)
    (entityClass : Option String) (names : List String) :
    List (BasicVariable S V) :=
  ((c.basics.filter fun b => isAsked entityClass b.1).map Prod.snd).filter
    fun x => names.isEmpty || names.contains x.name

-- ================================================================= one swap

/-- Exchanging two numbers below another stays below it. -/
theorem swap_lt {n l r e : Nat} (hl : l < n) (hr : r < n) (he : e < n) :
    Equiv.swap l r e < n := by
  rw [Equiv.swap_apply_def]
  split
  · exact hr
  · split
    · exact hl
    · exact he

/-- Two positions exchanged rearrange the list. -/
theorem perm_map_swap {α : Type} {n l r : Nat} (f : Nat → α) (hl : l < n)
    (hr : r < n) : ((List.range n).map fun e => f (Equiv.swap l r e)).Perm
      ((List.range n).map f) := by
  have hswap : ((List.range n).map (Equiv.swap l r)).Perm (List.range n) := by
    refine (List.perm_ext_iff_of_nodup
      (List.nodup_range.map (Equiv.injective _))
      List.nodup_range).mpr fun e => ?_
    rw [List.mem_map, List.mem_range]
    constructor
    · rintro ⟨d, hd, rfl⟩
      exact swap_lt hl hr (List.mem_range.mp hd)
    · exact fun he =>
        ⟨_, List.mem_range.mpr (swap_lt hl hr he), Equiv.swap_apply_self l r e⟩
  have hmap := hswap.map f
  rwa [List.map_map] at hmap

namespace Step

variable [Planning S Sc] {vs : Variables S V} {x y : BasicVariable S V} {s : S}
  {l r : Nat}

/-- After a swap every entity holds what its counterpart held. -/
theorem get_swap (lawful : vs.Lawful) (hx : x ∈ vs.basics) (hl : l < x.count s)
    (hr : r < x.count s) {e : Nat} (he : e < x.count s) :
    x.get ((swap x l r).apply s) e = x.get s (Equiv.swap l r e) := by
  rw [Equiv.swap_apply_def]
  split
  · rename_i hel
    rw [hel]
    exact get_swap_left lawful hx hl
  · rename_i hel
    split
    · rename_i her
      rw [her]
      exact get_swap_right lawful hx hr
    · rename_i her
      exact (lawful.values x hx).get_setAll_of_notMem _ he (by simp [hel, her])

/-- A swap of two entities permutes the contents of its variable, and leaves
those of the others as they are. -/
theorem perm_contents_swap (lawful : vs.Lawful) (hx : x ∈ vs.basics)
    (hy : y ∈ vs.basics) (hl : l < x.count s) (hr : r < x.count s) :
    (y.contents ((swap x l r).apply s)).Perm (y.contents s) := by
  have hcount : y.count ((swap x l r).apply s) = y.count s :=
    count_apply lawful (t := swap x l r) hx hy
  unfold BasicVariable.contents
  rw [hcount]
  by_cases hcells : x.cells = y.cells
  · -- `y` is `x` under another name
    have hcountEq : y.count = x.count := congrArg Cells.count hcells.symm
    have hgetEq : y.get = x.get := congrArg Cells.get hcells.symm
    rw [hcountEq, hgetEq]
    rw [List.map_congr_left fun e he =>
      get_swap lawful hx hl hr (List.mem_range.mp he)]
    exact perm_map_swap (x.get s) hl hr
  · have apart := lawful.values_apart x hx y hy hcells
    have hsame : (List.range (y.count s)).map (y.get ((swap x l r).apply s))
        = (List.range (y.count s)).map (y.get s) :=
      List.map_congr_left fun e he => apart.get_setAll _ (List.mem_range.mp he)
    rw [hsame]

/-- Nor do swaps one after the other lose any. -/
theorem perm_contents_swaps (lawful : vs.Lawful) (hy : y ∈ vs.basics)
    (ts : List (Step S V))
    (swaps : ∀ t ∈ ts, ∃ x ∈ vs.basics, ∃ l < x.count s, ∃ r < x.count s,
      t = swap x l r) :
    (y.contents (applyAll ts s)).Perm (y.contents s) := by
  induction ts generalizing s with
  | nil => exact .rfl
  | cons t rest ih =>
      obtain ⟨x, hx, l, hl, r, hr, rfl⟩ := swaps t (List.mem_cons_self ..)
      refine (ih fun u hu => ?_).trans (perm_contents_swap lawful hx hy hl hr)
      -- a swap adds and removes no entity
      obtain ⟨z, hz, i, hi, j, hj, rfl⟩ := swaps u (List.mem_cons_of_mem _ hu)
      have hcount : z.count ((swap x l r).apply s) = z.count s :=
        count_apply lawful (t := swap x l r) hx hz
      exact ⟨z, hz, i, hcount ▸ hi, j, hcount ▸ hj, rfl⟩

end Step

-- =================================================================== pairs

namespace Leaf

variable {targets : List (BasicVariable S V)} {s : S}

/-- Of distinct items no item is paired with itself. -/
theorem ne_of_mem_pairsOf {α : Type} {items : List α} {p : α × α}
    (nodup : items.Nodup) (h : p ∈ pairsOf items) : p.1 ≠ p.2 := by
  induction items with
  | nil => cases h
  | cons a rest ih =>
      obtain ⟨ha, hrest⟩ := List.nodup_cons.mp nodup
      rcases List.mem_append.mp h with h | h
      · obtain ⟨b, hb, rfl⟩ := List.mem_map.mp h
        exact fun (hab : a = b) => ha (hab ▸ hb)
      · exact ih hrest h

theorem steps_together (ts : List (Step S V)) : (together ts).steps = ts := by
  have hstepsOf : ∀ us : List (Step S V),
      Move.stepsOf (us.map Move.step) = us := by
    intro us
    induction us with
    | nil => rfl
    | cons u rest ih => exact congrArg (u :: ·) ih
  unfold together
  split
  · rfl
  · exact hstepsOf ts

/-- A swap move swaps the entities in each of its variables. -/
theorem mem_steps_swapMove {l r : Nat} {t : Step S V} :
    t ∈ (swapMove targets l r).steps ↔ ∃ x ∈ targets, Step.swap x l r = t := by
  unfold swapMove
  rw [steps_together, List.mem_map]

/-- Two entities of the first variable, swapped in all of them. -/
def IsSwap (targets : List (BasicVariable S V)) (s : S) (m : Move S V) : Prop :=
  ∃ l r, l < Pillar.entityCount targets s ∧
    r < Pillar.entityCount targets s ∧ l ≠ r ∧
    m = swapMove targets l r

/-- Aligned variables have both entities of every pair. -/
theorem IsSwap.exists_lt {m : Move S V} (h : IsSwap targets s m)
    (aligned : Aligned targets s) : ∀ t ∈ m.steps, ∃ x ∈ targets,
    ∃ l < x.count s, ∃ r < x.count s, t = .swap x l r := by
  obtain ⟨l, r, hl, hr, hne, rfl⟩ := h
  intro t ht
  obtain ⟨x, hx, rfl⟩ := mem_steps_swapMove.mp ht
  rcases aligned with hfew | hall
  · omega
  · exact ⟨x, hx, l, Nat.lt_of_lt_of_le hl (hall x hx), r,
      Nat.lt_of_lt_of_le hr (hall x hx), rfl⟩

variable [BEq V]

/-- The moves of a swap leaf are swaps of two entities. -/
theorem isSwap_of_mem {m : Move S V} (h : m ∈ (Leaf.swap targets).moves s) :
    IsSwap targets s m := by
  obtain ⟨⟨l, r⟩, hpair, rfl⟩ := List.mem_map.mp h
  obtain ⟨hl, hr⟩ := mem_of_mem_pairsOf hpair
  exact ⟨l, r, List.mem_range.mp hl, List.mem_range.mp hr,
    ne_of_mem_pairsOf List.nodup_range hpair, rfl⟩

/-- Whatever a swap selector lists or draws is a swap. -/
theorem supplies_swap (targets : List (BasicVariable S V)) (s : S) :
    (Leaf.swap targets).Supplies False (IsSwap targets s) s := by
  refine ⟨fun m hm => isSwap_of_mem hm,
    fun sampler hsampler => ⟨fun held m hm => ?_, ?_⟩⟩
  · rw [← eq_of_guarded hsampler] at hm
    obtain ⟨⟨l, r⟩, hpair, hm⟩ := Chance.yields_bind hm
    obtain ⟨hl, hr, hne⟩ := of_yields_drawPair hpair
    cases Chance.yields_pure hm
    exact ⟨l, r, hl, hr, hne, rfl⟩
  · exact .inr (Plain.sure (.swap targets) hsampler).safe

/-- Aligned variables are just those of which no pair is missing an entity. -/
theorem aligned_iff (targets : List (BasicVariable S V)) (s : S) :
    Aligned targets s ↔ ∀ m ∈ (Leaf.swap targets).moves s, m.InRange s := by
  constructor
  · intro aligned m hm t ht
    obtain ⟨x, -, l, hl, r, hr, rfl⟩ :=
      (isSwap_of_mem hm).exists_lt aligned t ht
    intro e he
    rcases List.mem_cons.mp he with rfl | he
    · exact hl
    · rw [List.mem_singleton.mp he]
      exact hr
  · intro inRange
    refine Classical.or_iff_not_imp_left.mpr fun hmany x hx =>
      Nat.le_of_not_lt fun hshort => ?_
    -- the last entity of the first variable is one that `x` lacks
    have hlast : x.count s ≤ Pillar.entityCount targets s - 1 := by omega
    have hmem : ∀ {l r},
        (l, r) ∈ pairsOf (List.range (Pillar.entityCount targets s)) →
        (Step.swap x l r).InRange s := fun hpair =>
      inRange _ (List.mem_map.mpr ⟨_, hpair, rfl⟩) _
        (mem_steps_swapMove.mpr ⟨x, hx, rfl⟩)
    rcases mem_pairsOf_or
      (List.mem_range.mpr (by omega : 0 < Pillar.entityCount targets s))
      (List.mem_range.mpr (by omega : Pillar.entityCount targets s - 1 < _))
        (by omega)
      with hpair | hpair
    · exact absurd (hmem hpair _
        (List.mem_cons_of_mem _ (List.mem_cons_self ..))) (by omega)
    · exact absurd (hmem hpair _ (List.mem_cons_self ..)) (by omega)

end Leaf

-- ================================================================ building

/-- What is found by class and names is what matches them. -/
theorem SelectorContext.eq_matching {c : SelectorContext S V} {path : String}
    {entityClass : Option String} {names : List String}
    {xs : List (BasicVariable S V)}
    (h : c.namedBasicsFor path entityClass names = .ok xs) :
    xs = c.matching entityClass names := by
  obtain ⟨all, hall, h⟩ := exists_of_bind_ok h
  have hfound : all = (c.basics.filter fun b => isAsked entityClass b.1).map
      Prod.snd := by
    unfold basicsFor at hall
    dsimp only at hall
    split at hall
    · cases hall
    · cases hall
      refine congrArg (List.map Prod.snd) (List.filter_congr fun b _ => ?_)
      exact Bool.and_true _
  unfold matching
  rw [← hfound]
  split at h
  · rename_i hnames
    cases h
    simp only [hnames, Bool.true_or, List.filter_true]
  · rename_i hnames
    dsimp only at h
    split at h
    · cases h
    · cases h
      simp only [Bool.eq_false_of_not_eq_true hnames, Bool.false_or]

namespace SelectorConfig

open SelectorContext

variable [BEq V] {s : S} {c : SelectorContext S V} {common : CommonSettings}
  {entityClass : Option String} {names : List String}
  {built : BuiltSelector S V}

/-- A built swap selector is one of the matching variables. -/
theorem supplies_swap {outside : UInt64}
    (hbuild : (SelectorConfig.leaf common (.swap entityClass names)).build c
      outside = .ok built) :
    built.selector.Supplies False
      (Leaf.IsSwap (c.matching entityClass names) s) s := by
  obtain ⟨_, -, hbuild⟩ := exists_of_bind_ok hbuild
  rw [buildAt] at hbuild
  obtain ⟨_, -, hbuild⟩ := exists_of_bind_ok hbuild
  obtain ⟨leaves, hleaves, hbuild⟩ := exists_of_bind_ok hbuild
  obtain ⟨xs, hxs, hleaves⟩ := exists_of_bind_ok hleaves
  cases hleaves
  cases hbuild
  refine supplies_finished (supplies_joined (fun l hl => ?_) _ _)
  rw [List.mem_singleton.mp hl, eq_matching hxs]
  exact Leaf.supplies_swap _ s

variable [Planning S Sc] [Director D S Sc] [LawfulDirector D]
  {vs : Variables S V}

/-- Of aligned variables, and of no others, all pairs have their entities
everywhere. Then every move of every pass swaps entities that exist, and
executing it permutes what the entities of each variable hold. -/
theorem swap_permutes (lawful : vs.Lawful)
    (registered : ∀ b ∈ c.basics, b.2 ∈ vs.basics) {outside : UInt64}
    (hbuild : (SelectorConfig.leaf common (.swap entityClass names)).build c
      outside = .ok built)
    (d : D) :
    (Aligned (c.matching entityClass names) (Director.working d) ↔
      ∀ m ∈ (Leaf.swap (c.matching entityClass names)).moves
            (Director.working d),
        m.InRange (Director.working d)) ∧
    (Aligned (c.matching entityClass names) (Director.working d) →
      ∀ m, built.selector.Yields (Director.working d) m →
        (∀ t ∈ m.steps, ∃ x ∈ c.matching entityClass names,
          ∃ l < x.count (Director.working d),
            ∃ r < x.count (Director.working d), t = .swap x l r) ∧
        (m.run : Act D Unit).Leads (¬ Director.Quiet d) d fun _ done =>
          ∀ x ∈ vs.basics,
            (x.contents (Director.working done)).Perm
              (x.contents (Director.working d))) := by
  refine ⟨Leaf.aligned_iff _ _, fun aligned m hm => ?_⟩
  have hswaps :=
  (Selector.ok_of_yields hm (supplies_swap hbuild)).exists_lt aligned
  refine ⟨hswaps, ?_⟩
  obtain ⟨inv, hd, calls⟩ := Director.exists_announced d
  refine (m.leads_run calls hd).mono (fun _ done hdone x hx => ?_) id
  rw [hdone.2]
  refine Step.perm_contents_swaps lawful hx m.steps fun t ht => ?_
  obtain ⟨y, hy, swapped⟩ := hswaps t ht
  obtain ⟨b, hb, rfl⟩ := List.mem_map.mp (List.mem_filter.mp hy).1
  exact ⟨b.2, registered b (List.mem_filter.mp hb).1, swapped⟩

end SelectorConfig

/-- All variables of the plan, and no factories. -/
def Mixed.context : SelectorContext Mixed Int :=
  ⟨Mixed.world.basics, Mixed.world.chained, .empty, none⟩

theorem Mixed.registered :
    ∀ b ∈ Mixed.context.basics, b.2 ∈ Mixed.world.variables.basics :=
  fun _ hb => List.mem_map_of_mem hb

namespace SelectorConfig

/-- Three entities each of the two variables of a class, and one entity of
another class that is not asked for. -/
theorem swap_permutes_class :
    let s : Mixed :=
  ⟨⟨[some 1, some 2, none], []⟩, ⟨[some 3, some 3, some 4], []⟩,
      ⟨[some 5], []⟩, ⟨[], []⟩, ⟨[], 0⟩, ⟨[], 0⟩, none⟩
    let d := FullDirector.start Mixed.world.score s
    let tree : SelectorConfig := .leaf .unset (.swap (some "A") [])
    let targets := Mixed.context.matching (some "A") []
    let m : Move Mixed Int := Leaf.swapMove targets 0 1
    (Mixed.world.variables.Lawful ∧ Aligned targets s ∧ Director.Quiet d ∧
      ∃ built, tree.build Mixed.context 0 = .ok built ∧
        built.selector.Yields s m) ∧
    (∀ t ∈ m.steps, ∃ x ∈ targets, ∃ l < x.count s, ∃ r < x.count s,
      t = .swap x l r) ∧
      (m.run : Act (FullDirector Mixed HardSoft) Unit).Leads
        (¬ Director.Quiet d) d
        fun _ done => ∀ x ∈ Mixed.world.variables.basics,
          (x.contents done.working).Perm (x.contents s) := by
  intro s d tree targets m
  have aligned : Aligned targets s := by decide
  have hbuild : ∃ built, tree.build Mixed.context 0 = .ok built ∧
      built.selector.Yields s m := by
    refine ⟨_, rfl, 2, [], _, _, rfl, ?_⟩
    exact .now (show ExceptT.run (Reading.next s 1 _) [] = _ from rfl)
  obtain ⟨built, htree, hm⟩ := hbuild
  exact ⟨⟨Mixed.lawful, aligned, FullDirector.quiet d, built, htree, hm⟩,
    (swap_permutes Mixed.lawful Mixed.registered htree d).2 aligned m hm⟩

/-- A swap selector for all variables, of which one has a single entity: it
swaps that one with another that does not exist, and its value is lost. -/
theorem swap_loses_value :
    let s : Mixed :=
  ⟨⟨[some 1, some 2], []⟩, ⟨[some 3, some 4], []⟩, ⟨[some 5], []⟩,
      ⟨[some 6, some 7], []⟩, ⟨[], 0⟩, ⟨[], 0⟩, none⟩
    let d := FullDirector.start Mixed.world.score s
    let z := Mixed.basic "z" 2 Mixed.bz fun s c => { s with bz := c }
    let m : Move Mixed Int := Leaf.swapMove (Mixed.context.matching none []) 0 1
    (Mixed.world.variables.Lawful ∧ z ∈ Mixed.world.variables.basics ∧
      Director.Quiet d ∧
      ∃ built, (SelectorConfig.leaf .unset (.swap none [])).build Mixed.context
        0 = .ok built ∧
        built.selector.Yields s m) ∧
    (∃ t ∈ m.steps, t = .swap z 0 1 ∧ ¬ 1 < z.count s) ∧
      (m.run : Act (FullDirector Mixed HardSoft) Unit).Leads
        (¬ Director.Quiet d) d
        fun _ done => z.contents s = [some 5] ∧ z.contents done.working
            = [none] := by
  intro s d z m
  have hz : z ∈ Mixed.world.variables.basics := by
    simp [World.variables, Mixed.world, Mixed.parts, Mixed.basics, z]
  have hbuild : ∃ built,
      (SelectorConfig.leaf .unset (.swap none [])).build Mixed.context 0
      = .ok built ∧ built.selector.Yields s m := by
    refine ⟨_, rfl, 2, [], _, _, rfl, ?_⟩
    exact .now (show ExceptT.run (Reading.next s 1 _) [] = _ from rfl)
  refine ⟨⟨Mixed.lawful, hz, FullDirector.quiet d, hbuild⟩,
    ⟨.swap z 0 1, .tail _ (.tail _ (.head _)), rfl, by decide⟩, ?_⟩
  obtain ⟨inv, hd, calls⟩ := Director.exists_announced d
  refine (m.leads_run calls hd).mono (fun _ done hdone => ⟨rfl, ?_⟩) id
  rw [show done.working = m.apply s from hdone.2]
  rfl

end SelectorConfig

end PlanSearch

/-
What the leaves of a built tree supply.

A leaf makes steps about its own variables and makes no pillar step whose
pillars it has not checked, in the given order and by chance alike. So
every step of every move of a pass is `Step.Made`: it is about a variable
of the family, and its pillars hold one value each in the solution of the
pass. Moves from factories are made by someone else; that they are made
for the solution they were asked for is what `Registry.Made` says.

The values of a pillar are compared by a `==` that need not be identity,
so the statements are about any equivalence that it implies.
-/
import PlanSearch.Proofs.Move.Undo
import PlanSearch.Proofs.Selector.Supply
import PlanSearch.Selector.Build

namespace PlanSearch

variable {S V : Type} {vs : Variables S V} {same : Setoid (Option V)} {s : S}

-- ============================================================ vocabulary

/-- A step as the leaves make it for a solution. -/
structure Step.Made (vs : Variables S V) (same : Setoid (Option V)) (s : S)
    (t : Step S V) : Prop where
  scope : t.Over vs
  agree : t.PillarsAgree same s

/-- The factory lists only moves made for the solution. -/
def MoveList.Made (vs : Variables S V) (same : Setoid (Option V)) (s : S)
    (factory : MoveList S V) : Prop :=
  ∀ m ∈ factory.moves s, m.Each (Step.Made vs same s)

/-- The factory lists and draws only moves made for the solution. -/
structure MoveSource.Made (vs : Variables S V)
    (same : Setoid (Option V)) (s : S) (factory : MoveSource S V) : Prop where
  listed : ∀ m ∈ factory.moves s, m.Each (Step.Made vs same s)
  drawn : ∀ m, (factory.draw s).Yields (some m) → m.Each (Step.Made vs same s)

/-- The leaf is about variables of the family; a factory makes moves for
the solution. -/
def Leaf.Over (vs : Variables S V) (same : Setoid (Option V)) (s : S) :
    Leaf S V → Prop
  | .change x _ | .pillarChange x _ => x ∈ vs.basics
  | .swap xs | .pillarSwap xs _ => ∀ x ∈ xs, x ∈ vs.basics
  | .segmentChange x _ _ | .segmentSwap x _ _ | .tailSwap x => x ∈ vs.chained
  | .moveList factory => factory.Made vs same s
  | .moveSource factory => factory.Made vs same s

/-- The variables and factories that a configuration may refer to. -/
structure SelectorContext.Over (vs : Variables S V)
    (same : Setoid (Option V)) (s : S) (c : SelectorContext S V) : Prop where
  basics : ∀ b ∈ c.basics, b.2 ∈ vs.basics
  chained : ∀ x ∈ c.chained, x ∈ vs.chained
  lists : ∀ entry ∈ c.registry.lists, entry.2.Made vs same s
  sources : ∀ entry ∈ c.registry.sources, entry.2.Made vs same s

-- ============================================================ making moves

/-- A move of one step that was made. -/
theorem each_step {t : Step S V} (h : t.Made vs same s) :
    (Move.step t).Each (Step.Made vs same s) := by
  intro u hu
  rw [List.mem_singleton.mp hu]
  exact h

/-- Steps that were made, one after the other. -/
theorem each_together {ts : List (Step S V)} (h : ∀ t ∈ ts, t.Made vs same s) :
    (Leaf.together ts).Each (Step.Made vs same s) := by
  unfold Leaf.together
  split
  · exact each_step (h _ (List.mem_singleton.mpr rfl))
  · refine Move.mixes_each _ fun m hm => ?_
    obtain ⟨t, ht, rfl⟩ := List.mem_map.mp hm
    exact each_step (h t ht)

/-- Swaps of two entities in variables of the family are made. -/
theorem each_swapMove {targets : List (BasicVariable S V)}
    (h : ∀ x ∈ targets, x ∈ vs.basics) (left right : Nat) :
    (Leaf.swapMove targets left right).Each (Step.Made vs same s) := by
  refine each_together fun t ht => ?_
  obtain ⟨x, hx, rfl⟩ := List.mem_map.mp ht
  exact ⟨h x hx, trivial⟩

section

variable [BEq V]

/-- A pillar without a flaw holds one value. -/
theorem sharesValue_of_pillarFlaw
    (beq : ∀ a b : Option V, (a == b) = true → same.r a b)
    {x : BasicVariable S V} {pillar : List Nat}
    (h : pillarFlaw x s pillar = none) : SharesValue same x s pillar := by
  unfold pillarFlaw at h
  cases pillar with
  | nil => cases h
  | cons first rest =>
      refine ⟨x.get s first, fun e he => ?_⟩
      -- all checks but the last are about other flaws
      dsimp only at h
      split at h
      · cases h
      · split at h
        · cases h
        · split at h
          · cases h
          · have hnone :=
              List.find?_eq_none.mp (Option.map_eq_none_iff.mp h) e he
            exact beq _ _ (by simpa [bne] using hnone)

/-- Two pillars without a flaw share a value each, as far as equality tells.
-/
theorem sharesValue_of_pillarPairFlaw
    (beq : ∀ a b : Option V, (a == b) = true → same.r a b)
    {x : BasicVariable S V} {left right : List Nat}
    (h : pillarPairFlaw x s left right = none) :
    SharesValue same x s left ∧ SharesValue same x s right := by
  unfold pillarPairFlaw at h
  obtain ⟨hleft, h⟩ := Option.or_eq_none_iff.mp h
  obtain ⟨hright, -⟩ := Option.or_eq_none_iff.mp h
  exact ⟨sharesValue_of_pillarFlaw beq hleft,
    sharesValue_of_pillarFlaw beq hright⟩

/-- A change of a pillar without a flaw is made. -/
theorem each_pillarChangeMove
    (beq : ∀ a b : Option V, (a == b) = true → same.r a b)
    {x : BasicVariable S V} (hx : x ∈ vs.basics) {pillar : Pillar} {v : V}
    {m : Move S V} (h : Leaf.pillarChangeMove x s pillar v = some m) :
    m.Each (Step.Made vs same s) := by
  unfold Leaf.pillarChangeMove at h
  split at h
  · rename_i hnone
    cases h
    exact each_step ⟨hx,
      sharesValue_of_pillarFlaw beq (Option.isNone_iff_eq_none.mp hnone)⟩
  · cases h

/-- A swap of pillars without a flaw is made. -/
theorem each_pillarSwapMove
    (beq : ∀ a b : Option V, (a == b) = true → same.r a b)
    {targets : List (BasicVariable S V)} (hx : ∀ x ∈ targets, x ∈ vs.basics)
    {left right : Pillar} {m : Move S V}
    (h : Leaf.pillarSwapMove targets s left right = some m) :
    m.Each (Step.Made vs same s) := by
  unfold Leaf.pillarSwapMove at h
  split at h
  · rename_i hall
    cases h
    refine each_together fun t ht => ?_
    obtain ⟨x, hmem, rfl⟩ := List.mem_map.mp ht
    have hnone := List.all_eq_true.mp hall x hmem
    exact ⟨hx x hmem,
      sharesValue_of_pillarPairFlaw beq (Option.isNone_iff_eq_none.mp hnone)⟩
  · cases h

-- ========================================================== the given order

omit [BEq V] in
/-- What is listed along chains is listed only if there are chains. -/
theorem mem_of_index {x : ChainedVariable S}
    {listed : ChainIndex → List (Move S V)} {m : Move S V}
    (h : m ∈ match x.index s with
      | .error _ => []
      | .ok index => listed index) :
    ∃ index, x.index s = .ok index ∧ m ∈ listed index := by
  cases hindex : x.index s with
  | error flaw =>
      rw [hindex] at h
      cases h
  | ok index =>
      rw [hindex] at h
      exact ⟨index, rfl, h⟩

/-- What a leaf lists is made for the solution. -/
theorem Leaf.each_listed (beq : ∀ a b : Option V, (a == b) = true → same.r a b)
    {l : Leaf S V} (scope : l.Over vs same s) :
    ∀ m ∈ l.moves s, m.Each (Step.Made vs same s) := by
  intro m hm
  cases l with
  | change x skipNoops =>
      obtain ⟨e, -, hm⟩ := List.mem_flatMap.mp hm
      obtain ⟨v, -, rfl⟩ := List.mem_map.mp hm
      exact each_step ⟨scope, trivial⟩
  | swap targets =>
      obtain ⟨⟨left, right⟩, -, rfl⟩ := List.mem_map.mp hm
      exact each_swapMove scope left right
  | pillarChange x sub =>
      obtain ⟨pillar, -, hm⟩ := List.mem_flatMap.mp hm
      obtain ⟨v, -, hm⟩ := List.mem_filterMap.mp hm
      exact each_pillarChangeMove beq scope hm
  | pillarSwap targets sub =>
      obtain ⟨⟨left, right⟩, -, hm⟩ := List.mem_filterMap.mp hm
      dsimp only at hm
      split at hm
      · cases hm
      · exact each_pillarSwapMove beq scope hm
  | segmentChange x sizes reversing =>
      obtain ⟨index, -, hm⟩ := mem_of_index hm
      obtain ⟨segment, -, hm⟩ := List.mem_flatMap.mp hm
      obtain ⟨link, -, hm⟩ := List.mem_flatMap.mp hm
      obtain ⟨turn, -, rfl⟩ := List.mem_map.mp hm
      exact each_step ⟨scope, trivial⟩
  | segmentSwap x sizes reversing =>
      obtain ⟨index, -, hm⟩ := mem_of_index hm
      obtain ⟨⟨left, right⟩, -, hm⟩ := List.mem_flatMap.mp hm
      obtain ⟨turn, -, rfl⟩ := List.mem_map.mp hm
      exact each_step ⟨scope, trivial⟩
  | tailSwap x =>
      obtain ⟨index, -, hm⟩ := mem_of_index hm
      obtain ⟨e, -, hm⟩ := List.mem_flatMap.mp hm
      obtain ⟨link, -, rfl⟩ := List.mem_map.mp hm
      exact each_step ⟨scope, trivial⟩
  | moveList factory => exact scope m hm
  | moveSource factory => exact scope.listed m hm

-- ================================================================ by chance

omit [BEq V] in
/-- An attempt that takes what may not have come out takes what did. -/
theorem eq_some_of_ofOption {found : Option (Move S V)} {m : Move S V}
    (h : Leaf.Attempt.ofOption found = .take m) : found = some m := by
  cases found with
  | none => cases h
  | some n =>
      cases h
      rfl

theorem eq_of_guarded {α : Type} {guard : Prop} [Decidable guard] {a b : α}
    (h : (if guard then none else some a) = some b) : a = b := by
  split at h
  · cases h
  · exact Option.some.inj h

/-- Sampled changes are made. -/
theorem each_changeSampler {x : BasicVariable S V} (hx : x ∈ vs.basics)
    {skipNoops : Bool} {sampler : Sampler S V}
    (hsampler : Leaf.changeSampler x skipNoops s = some sampler)
    {held : List Nat} {m : Move S V} (hm : (sampler held).Yields (.take m)) :
    m.Each (Step.Made vs same s) := by
  rw [← eq_of_guarded hsampler] at hm
  obtain ⟨e, -, hm⟩ := Chance.yields_bind hm
  obtain ⟨v, -, hm⟩ := Chance.yields_bind hm
  cases v with
  | none => cases Chance.yields_pure hm
  | some v =>
      have htake := Chance.yields_pure hm
      split at htake
      · cases htake
      · cases htake
        exact each_step ⟨hx, trivial⟩

omit [BEq V] in
/-- Sampled swaps are made. -/
theorem each_swapSampler {targets : List (BasicVariable S V)}
    (hx : ∀ x ∈ targets, x ∈ vs.basics) {sampler : Sampler S V}
    (hsampler : Leaf.swapSampler targets s = some sampler) {held : List Nat}
    {m : Move S V} (hm : (sampler held).Yields (.take m)) :
    m.Each (Step.Made vs same s) := by
  rw [← eq_of_guarded hsampler] at hm
  obtain ⟨⟨left, right⟩, -, hm⟩ := Chance.yields_bind hm
  cases Chance.yields_pure hm
  exact each_swapMove hx left right

/-- Sampled changes of pillars are made. -/
theorem each_pillarChangeSampler
    (beq : ∀ a b : Option V, (a == b) = true → same.r a b)
    {x : BasicVariable S V} (hx : x ∈ vs.basics) {sub : SubPillars}
    {sampler : Sampler S V}
    (hsampler : Leaf.pillarChangeSampler x sub s = some sampler)
    {held : List Nat} {m : Move S V} (hm : (sampler held).Yields (.take m)) :
    m.Each (Step.Made vs same s) := by
  rw [← eq_of_guarded hsampler] at hm
  obtain ⟨number, -, hm⟩ := Chance.yields_bind hm
  obtain ⟨pillar, -, hm⟩ := Chance.yields_bind hm
  obtain ⟨v, -, hm⟩ := Chance.yields_bind hm
  cases v with
  | none => cases Chance.yields_pure hm
  | some v =>
      exact each_pillarChangeMove beq hx
        (eq_some_of_ofOption (Chance.yields_pure hm))

/-- Sampled swaps of pillars are made. -/
theorem each_pillarSwapSampler
    (beq : ∀ a b : Option V, (a == b) = true → same.r a b)
    {targets : List (BasicVariable S V)} (hx : ∀ x ∈ targets, x ∈ vs.basics)
    {sub : SubPillars} {sampler : Sampler S V}
    (hsampler : Leaf.pillarSwapSampler targets sub s = some sampler)
    {held : List Nat} {m : Move S V} (hm : (sampler held).Yields (.take m)) :
    m.Each (Step.Made vs same s) := by
  rw [← eq_of_guarded hsampler] at hm
  obtain ⟨⟨i, j⟩, -, hm⟩ := Chance.yields_bind hm
  obtain ⟨left, -, hm⟩ := Chance.yields_bind hm
  obtain ⟨right, -, hm⟩ := Chance.yields_bind hm
  exact each_pillarSwapMove beq hx (eq_some_of_ofOption (Chance.yields_pure hm))

omit [BEq V] in
/-- A sampled segment is moved by a step that is made. -/
theorem each_linkFor {x : ChainedVariable S} (hx : x ∈ vs.chained)
    {links : List Link} {reversing : Bool} {segment : List Nat} {m : Move S V}
    (h : (Leaf.linkFor x links reversing segment).Yields (.take m)) :
    m.Each (Step.Made vs same s) := by
  obtain ⟨link, -, h⟩ := Chance.yields_bind h
  cases link with
  | none => cases Chance.yields_pure h
  | some link =>
      dsimp only at h
      split at h
      · cases Chance.yields_pure h
      · obtain ⟨turn, -, h⟩ := Chance.yields_bind h
        cases Chance.yields_pure h
        exact each_step ⟨hx, trivial⟩

omit [BEq V] in
/-- Sampled moves of segments are made. -/
theorem each_segmentChangeSampler {x : ChainedVariable S} (hx : x ∈ vs.chained)
    {sizes : SegmentSizes} {reversing : Bool} {sampler : Sampler S V}
    (hsampler : Leaf.segmentChangeSampler x sizes reversing s = some sampler)
    {held : List Nat} {m : Move S V} (hm : (sampler held).Yields (.take m)) :
    m.Each (Step.Made vs same s) := by
  unfold Leaf.segmentChangeSampler at hsampler
  split at hsampler
  · cases hsampler
  · cases hsampler
    dsimp only at hm
    split at hm
    · obtain ⟨segment, -, hm⟩ := Chance.yields_bind hm
      cases segment with
      | none => cases Chance.yields_pure hm
      | some segment => exact each_linkFor hx hm
    · exact each_linkFor hx hm

omit [BEq V] in
/-- Sampled swaps of segments are made. -/
theorem each_segmentSwapSampler {x : ChainedVariable S} (hx : x ∈ vs.chained)
    {sizes : SegmentSizes} {reversing : Bool} {sampler : Sampler S V}
    (hsampler : Leaf.segmentSwapSampler x sizes reversing s = some sampler)
    {held : List Nat} {m : Move S V} (hm : (sampler held).Yields (.take m)) :
    m.Each (Step.Made vs same s) := by
  unfold Leaf.segmentSwapSampler at hsampler
  split at hsampler
  · cases hsampler
  · rw [← eq_of_guarded hsampler] at hm
    obtain ⟨left, -, hm⟩ := Chance.yields_bind hm
    obtain ⟨right, -, hm⟩ := Chance.yields_bind hm
    split at hm
    · split at hm
      · cases Chance.yields_pure hm
      · obtain ⟨turn, -, hm⟩ := Chance.yields_bind hm
        cases Chance.yields_pure hm
        exact each_step ⟨hx, trivial⟩
    · cases Chance.yields_pure hm

omit [BEq V] in
/-- Sampled swaps of tails are made. -/
theorem each_tailSwapSampler {x : ChainedVariable S} (hx : x ∈ vs.chained)
    {sampler : Sampler S V} (hsampler : Leaf.tailSwapSampler x s = some sampler)
    {held : List Nat} {m : Move S V} (hm : (sampler held).Yields (.take m)) :
    m.Each (Step.Made vs same s) := by
  unfold Leaf.tailSwapSampler at hsampler
  split at hsampler
  · cases hsampler
  · rw [← eq_of_guarded hsampler] at hm
    obtain ⟨e, -, hm⟩ := Chance.yields_bind hm
    obtain ⟨link, -, hm⟩ := Chance.yields_bind hm
    split at hm
    · have htake := Chance.yields_pure hm
      split at htake
      · cases htake
        exact each_step ⟨hx, trivial⟩
      · cases htake
    · cases Chance.yields_pure hm

/-- What a leaf draws is made for the solution. -/
theorem Leaf.each_drawn (beq : ∀ a b : Option V, (a == b) = true → same.r a b)
    {l : Leaf S V} (scope : l.Over vs same s) {sampler : Sampler S V}
    (hsampler : l.sampler s = some sampler) (held : List Nat) {m : Move S V}
    (hm : (sampler held).Yields (.take m)) : m.Each (Step.Made vs same s) := by
  cases l with
  | change x skipNoops => exact each_changeSampler scope hsampler hm
  | swap targets => exact each_swapSampler scope hsampler hm
  | pillarChange x sub => exact each_pillarChangeSampler beq scope hsampler hm
  | pillarSwap targets sub => exact each_pillarSwapSampler beq scope hsampler hm
  | segmentChange x sizes reversing =>
      exact each_segmentChangeSampler scope hsampler hm
  | segmentSwap x sizes reversing =>
      exact each_segmentSwapSampler scope hsampler hm
  | tailSwap x => exact each_tailSwapSampler scope hsampler hm
  | moveList factory =>
      rw [← eq_of_guarded hsampler] at hm
      obtain ⟨found, hfound, hm⟩ := Chance.yields_bind hm
      rw [eq_some_of_ofOption (Chance.yields_pure hm)] at hfound
      exact scope m (Chance.mem_of_yields_pick hfound)
  | moveSource factory =>
      cases hsampler
      obtain ⟨found, hfound, hm⟩ := Chance.yields_bind hm
      rw [eq_some_of_ofOption (Chance.yields_pure hm)] at hfound
      exact scope.drawn m hfound

theorem Leaf.supplies_made
    (beq : ∀ a b : Option V, (a == b) = true → same.r a b) {l : Leaf S V}
    (scope : l.Over vs same s) :
    l.Supplies True (Move.Each (Step.Made vs same s)) s where
  listed := Leaf.each_listed beq scope
  drawn _ hsampler :=
    ⟨fun held _ hm => Leaf.each_drawn beq scope hsampler held hm, .inl trivial⟩

-- ================================================================ building

namespace SelectorContext

omit [BEq V] in
/-- A basic variable that was found is one of the context. -/
theorem mem_of_basicsFor {c : SelectorContext S V} {path : String}
    {entityClass name : Option String} {xs : List (BasicVariable S V)}
    (h : c.basicsFor path entityClass name = .ok xs) :
    ∀ x ∈ xs, ∃ b ∈ c.basics, b.2 = x := by
  unfold basicsFor at h
  dsimp only at h
  split at h
  · cases h
  · cases h
    intro x hx
    obtain ⟨b, hb, rfl⟩ := List.mem_map.mp hx
    exact ⟨b, (List.mem_filter.mp hb).1, rfl⟩

omit [BEq V] in
/-- Basic variables found by their names are registered. -/
theorem mem_of_namedBasicsFor {c : SelectorContext S V} {path : String}
    {entityClass : Option String} {names : List String}
    {xs : List (BasicVariable S V)}
    (h : c.namedBasicsFor path entityClass names = .ok xs) :
    ∀ x ∈ xs, ∃ b ∈ c.basics, b.2 = x := by
  obtain ⟨all, hall, h⟩ := exists_of_bind_ok h
  have hbasics := mem_of_basicsFor hall
  split at h
  · cases h
    exact hbasics
  · dsimp only at h
    split at h
    · cases h
    · cases h
      exact fun x hx => hbasics x (List.mem_filter.mp hx).1

omit [BEq V] in
/-- Basic variables that are found belong to the family. -/
theorem over_basicsFor {c : SelectorContext S V} (hc : c.Over vs same s)
    {path : String} {entityClass name : Option String}
    {xs : List (BasicVariable S V)}
    (h : c.basicsFor path entityClass name = .ok xs) :
    ∀ x ∈ xs, x ∈ vs.basics := by
  intro x hx
  obtain ⟨b, hb, rfl⟩ := mem_of_basicsFor h x hx
  exact hc.basics b hb

omit [BEq V] in
theorem over_namedBasicsFor {c : SelectorContext S V} (hc : c.Over vs same s)
    {path : String} {entityClass : Option String} {names : List String}
    {xs : List (BasicVariable S V)}
    (h : c.namedBasicsFor path entityClass names = .ok xs) :
    ∀ x ∈ xs, x ∈ vs.basics := by
  intro x hx
  obtain ⟨b, hb, rfl⟩ := mem_of_namedBasicsFor h x hx
  exact hc.basics b hb

omit [BEq V] in
/-- Chained variables that are found belong to the family. -/
theorem over_chainedFor {c : SelectorContext S V} (hc : c.Over vs same s)
    {path : String} {name : Option String} {xs : List (ChainedVariable S)}
    (h : c.chainedFor path name = .ok xs) : ∀ x ∈ xs, x ∈ vs.chained := by
  unfold chainedFor at h
  dsimp only at h
  split at h
  · cases h
  · cases h
    exact fun x hx => hc.chained x (List.mem_filter.mp hx).1

omit [BEq V] in
/-- A factory that was found is a registered one. -/
theorem mem_of_factoryFor {α : Type} {path : String} {name : Option String}
    {entries : List (String × α)} {factory : α}
    (h : factoryFor path name entries = .ok factory) :
    ∃ entry ∈ entries, entry.2 = factory := by
  unfold factoryFor at h
  split at h
  · cases h
  · split at h
    · rename_i hfind
      cases h
      obtain ⟨entry, hentry, rfl⟩ := Option.map_eq_some_iff.mp hfind
      exact ⟨entry, List.mem_of_find?_eq_some hentry, rfl⟩
    · cases h

end SelectorContext

namespace SelectorConfig

open SelectorContext

omit [BEq V] in
/-- The leaves of a configuration are about what its context offers. -/
theorem over_leavesFor {c : SelectorContext S V} (hc : c.Over vs same s)
    {path : String} {settings : LeafConfig} {leaves : List (Leaf S V)}
    (h : leavesFor c path settings = .ok leaves) :
    ∀ l ∈ leaves, l.Over vs same s := by
  cases settings with
  | change entityClass name | pillarChange entityClass sub name =>
      obtain ⟨xs, hxs, h⟩ := exists_of_bind_ok h
      cases h
      intro l hl
      obtain ⟨x, hx, rfl⟩ := List.mem_map.mp hl
      exact over_basicsFor hc hxs x hx
  | swap entityClass names | pillarSwap entityClass sub names =>
      obtain ⟨xs, hxs, h⟩ := exists_of_bind_ok h
      cases h
      intro l hl
      rw [List.mem_singleton.mp hl]
      exact over_namedBasicsFor hc hxs
  | segmentChange segments | segmentSwap segments | tailSwap name =>
      obtain ⟨xs, hxs, h⟩ := exists_of_bind_ok h
      cases h
      intro l hl
      obtain ⟨x, hx, rfl⟩ := List.mem_map.mp hl
      exact over_chainedFor hc hxs x hx
  | moveList name =>
      obtain ⟨factory, hfactory, h⟩ := exists_of_bind_ok h
      cases h
      intro l hl
      rw [List.mem_singleton.mp hl]
      obtain ⟨entry, hentry, rfl⟩ := mem_of_factoryFor hfactory
      exact hc.lists entry hentry
  | moveSource name =>
      obtain ⟨factory, hfactory, h⟩ := exists_of_bind_ok h
      cases h
      intro l hl
      rw [List.mem_singleton.mp hl]
      obtain ⟨entry, hentry, rfl⟩ := mem_of_factoryFor hfactory
      exact hc.sources entry hentry

/-- Leaves put together supply what each of them does. -/
theorem supplies_joined {excuse : Prop} {ok : Move S V → Prop}
    {leaves : List (Leaf S V)} (h : ∀ l ∈ leaves, l.Supplies excuse ok s)
    (order : Order) (seed : UInt64) :
    (joined order seed leaves).Supplies excuse ok s := by
  unfold joined
  split
  · exact (h _ (List.mem_singleton.mpr rfl)).leaf _ _
  · refine .union fun c hc => ?_
    obtain ⟨l, hl, rfl⟩ := List.mem_map.mp hc
    exact (h l hl).leaf _ _

/-- A limit on the moves leaves what they are. -/
theorem supplies_finished {excuse : Prop} {ok : Move S V → Prop} {path : String}
    {order : Order} {common : CommonSettings} {reports : List SelectorReport}
    {selector : Selector S V} (h : selector.Supplies excuse ok s) :
    (finished path order common reports selector).selector.Supplies
      excuse ok s := by
  unfold finished
  cases common.limit with
  | none => exact h
  | some limit => exact .limited h

mutual

/-- A tree is built from leaves of its context. -/
theorem supplies_buildAt (beq : ∀ a b : Option V, (a == b) = true → same.r a b)
    {c : SelectorContext S V} (hc : c.Over vs same s) :
    ∀ (config : SelectorConfig) {path : String} {inherited : Order}
          {seed : UInt64}
      {built : BuiltSelector S V},
      buildAt c path inherited seed config = .ok built →
      built.selector.Supplies True (Move.Each (Step.Made vs same s)) s
  | .leaf common settings, path, inherited, seed, built, h => by
      obtain ⟨_, -, h⟩ := exists_of_bind_ok h
      obtain ⟨leaves, hleaves, h⟩ := exists_of_bind_ok h
      cases h
      have hover := over_leavesFor hc hleaves
      exact supplies_finished
        (supplies_joined (fun l hl => Leaf.supplies_made beq (hover l hl)) _ _)
  | .union common children factory, path, inherited, seed, built, h => by
      obtain ⟨_, -, h⟩ := exists_of_bind_ok h
      obtain ⟨below, hbelow, h⟩ := exists_of_bind_ok h
      obtain ⟨weights, -, h⟩ := exists_of_bind_ok h
      cases h
      exact supplies_finished
        (.union (supplies_buildAll beq hc children hbelow))
  | .product common children ignoreEmpty, path, inherited, seed, built, h => by
      obtain ⟨_, -, h⟩ := exists_of_bind_ok h
      obtain ⟨below, hbelow, h⟩ := exists_of_bind_ok h
      cases h
      exact supplies_finished
        (.product Move.mixes_each (supplies_buildAll beq hc children hbelow))

theorem supplies_buildAll (beq : ∀ a b : Option V, (a == b) = true → same.r a b)
    {c : SelectorContext S V} (hc : c.Over vs same s) :
    ∀ (children : List SelectorConfig) {path : String} {order : Order}
          {seed : UInt64}
      {index : Nat} {built : BuiltChildren S V},
      buildAll c path order seed index children = .ok built →
      ∀ x ∈ built.selectors, x.Supplies True (Move.Each (Step.Made vs same s)) s
  | [], path, order, seed, index, built, h => by
      cases h
      exact fun x hx => nomatch hx
  | child :: rest, path, order, seed, index, built, h => by
      obtain ⟨first, hfirst, h⟩ := exists_of_bind_ok h
      obtain ⟨others, hothers, h⟩ := exists_of_bind_ok h
      cases h
      exact List.forall_mem_cons.mpr
        ⟨supplies_buildAt beq hc child hfirst,
          supplies_buildAll beq hc rest hothers⟩

end

/-- Every step of every move of a pass over a built tree is made for the
solution of the pass. -/
theorem made_of_yields (beq : ∀ a b : Option V, (a == b) = true → same.r a b)
    {config : SelectorConfig} {c : SelectorContext S V} {outside : UInt64}
    {built : BuiltSelector S V} (hc : c.Over vs same s)
    (hbuild : config.build c outside = .ok built) {m : Move S V}
    (hm : built.selector.Yields s m) : ∀ t ∈ m.steps, t.Made vs same s := by
  obtain ⟨_, -, hbuild⟩ := exists_of_bind_ok hbuild
  exact Selector.ok_of_yields hm (supplies_buildAt beq hc config hbuild)

end SelectorConfig

end

end PlanSearch

/-
Trees about one variable, without products.

A context that offers one basic variable and no chained one leaves few
choices: changes and swaps of the variable, by single entities or by
pillars. Without products and without factories each move of such a tree
is a single step, and the step was checked against the solution of the
pass: it gives a value of the range, exchanges what two entities hold, or
exchanges pillars that hold one value each (`Step.Fits`).

`Selector.Admits` says which moves a pass can hand out, whatever is drawn.
`Selector.Draws` says of any supply of moves that it hands out no others
and never breaks off. The passes of the tree themselves are such a supply
(`Selector.About.draws_offered`), under every seed and wherever the
streams are at.

# The way back

A fitting step is a row of writes, and what it hands over to be taken back
is a row of writes to the same entities, each of what was found there
(`Step.Fits.exists_rewrites`). This is all that a trial needs to know.
-/
import PlanSearch.Proofs.Move.Trial
import PlanSearch.Proofs.Selector.Draws

namespace PlanSearch

variable {S V : Type} {s : S} {x : BasicVariable S V}

-- ============================================================ vocabulary

/-- The kinds of leaf that a configuration makes of one basic variable. -/
inductive Leaf.About (x : BasicVariable S V) : Leaf S V → Prop
  | change : About x (.change x false)
  | swap : About x (.swap [x])
  | pillarChange (sub : SubPillars) : About x (.pillarChange x sub)
  | pillarSwap (sub : SubPillars) : About x (.pillarSwap [x] sub)

/-- A tree of such leaves, without products. -/
inductive Selector.About (x : BasicVariable S V) : Selector S V → Prop
  | leaf {l : Leaf S V} {order : Order} {seed : UInt64} : l.About x →
    About x (.leaf l order seed)
  | union {children : List (Selector S V)} {weights : Weights S} {order : Order}
      {seed : UInt64} :
      (∀ c ∈ children, About x c) → About x (.union children weights order seed)
  | limited {limit : Nat} {inner : Selector S V} : About x inner →
    About x (.limited limit inner)

/-- Leaves whose moves are made by someone else. -/
def LeafConfig.isFactory : LeafConfig → Bool
  | .moveList _ | .moveSource _ => true
  | _ => false

/-- A configuration without products and without factories of moves. -/
inductive SelectorConfig.Simple : SelectorConfig → Prop
  | leaf {common : CommonSettings} {settings : LeafConfig} :
      settings.isFactory = false → Simple (.leaf common settings)
  | union {common : CommonSettings} {children : List SelectorConfig} {factory :
      Option String} :
      (∀ c ∈ children, Simple c) → Simple (.union common children factory)

/-- A step of such a tree, as it is checked against the solution. -/
inductive Step.Fits [BEq V] (x : BasicVariable S V) (s : S) : Step S V → Prop
  | change {e : Nat} {v : V} : v ∈ x.values s → Fits x s (.change x e (some v))
  | swap (l r : Nat) : Fits x s (.swap x l r)
  | pillarChange {pillar : List Nat} {v : V} :
      v ∈ x.values s → Fits x s (.pillarChange x pillar (some v))
  | pillarSwap {left right : List Nat} :
      pillarPairFlaw x s left right = none → Fits x s (.pillarSwap x left right)

/-- The move is a single step that fits. -/
def Move.Fits [BEq V] (x : BasicVariable S V) (s : S) (m : Move S V) : Prop :=
  ∃ t, m = .step t ∧ t.Fits x s

namespace Selector

variable [BEq V]

/-- A pass over the solution can hand out the move, whatever is drawn.
Nothing is said of products. -/
inductive Admits (s : S) : Selector S V → Move S V → Prop
  | listed {l : Leaf S V} {seed : UInt64} {m : Move S V} :
      m ∈ l.moves s → Admits s (.leaf l .given seed) m
  | drawn {l : Leaf S V} {seed : UInt64} {sampler : Sampler S V} {held :
      List Nat} {m : Move S V} :
      l.sampler s = some sampler → (sampler held).Yields (.take m) →
      Admits s (.leaf l .random seed) m
  | union {children : List (Selector S V)} {weights : Weights S} {order : Order}
      {seed : UInt64}
      {c : Selector S V} {m : Move S V} :
      c ∈ children → Admits s c m →
        Admits s (.union children weights order seed) m
  | limited {limit : Nat} {inner : Selector S V} {m : Move S V} :
      Admits s inner m → Admits s (.limited limit inner) m

/-- The supply hands out moves that the selector admits, and never breaks
off. -/
def Draws {P : Type} (selector : Selector S V)
    (supply : S → Act P (List (Move S V))) : Prop :=
  ∀ s p, (supply s).Leads False p fun moves _ => ∀ m ∈ moves,
    selector.Admits s m

end Selector

-- ================================================================= leaves

namespace Leaf

theorem About.plain {l : Leaf S V} (h : l.About x) : l.Plain := by
  cases h with
  | change => exact .change x
  | swap => exact .swap [x]
  | pillarChange sub => exact .pillarChange x sub
  | pillarSwap sub => exact .pillarSwap [x] sub

variable [BEq V]

/-- A change of a pillar to a value in range fits the variable. -/
theorem fits_pillarChangeMove {pillar : Pillar} {v : V} {m : Move S V}
    (hv : v ∈ x.values s) (h : pillarChangeMove x s pillar v = some m) :
    m.Fits x s := by
  unfold pillarChangeMove at h
  split at h
  · cases h
    exact ⟨_, rfl, .pillarChange hv⟩
  · cases h

/-- A swap of pillars fits the variable. -/
theorem fits_pillarSwapMove {left right : Pillar} {m : Move S V}
    (h : pillarSwapMove [x] s left right = some m) : m.Fits x s := by
  unfold pillarSwapMove at h
  split at h
  · rename_i hall
    cases h
    have hnone := List.all_eq_true.mp hall x (List.mem_singleton.mpr rfl)
    exact ⟨_, rfl, .pillarSwap (Option.isNone_iff_eq_none.mp hnone)⟩
  · cases h

/-- What is listed fits. -/
theorem About.fits_listed {l : Leaf S V} (h : l.About x) {m : Move S V}
    (hm : m ∈ l.moves s) : m.Fits x s := by
  cases h with
  | change =>
      obtain ⟨e, -, hm⟩ := List.mem_flatMap.mp hm
      obtain ⟨v, hv, rfl⟩ := List.mem_map.mp hm
      exact ⟨_, rfl, .change (List.mem_filter.mp hv).1⟩
  | swap =>
      obtain ⟨⟨left, right⟩, -, rfl⟩ := List.mem_map.mp hm
      exact ⟨_, rfl, .swap left right⟩
  | pillarChange sub =>
      obtain ⟨pillar, -, hm⟩ := List.mem_flatMap.mp hm
      obtain ⟨v, hv, hm⟩ := List.mem_filterMap.mp hm
      exact fits_pillarChangeMove hv hm
  | pillarSwap sub =>
      obtain ⟨⟨left, right⟩, -, hm⟩ := List.mem_filterMap.mp hm
      dsimp only at hm
      split at hm
      · cases hm
      · exact fits_pillarSwapMove hm

/-- And so does whatever can be drawn. -/
theorem About.fits_drawn {l : Leaf S V} (h : l.About x) {sampler : Sampler S V}
    (hsampler : l.sampler s = some sampler) {held : List Nat} {m : Move S V}
    (hm : (sampler held).Yields (.take m)) : m.Fits x s := by
  cases h with
  | change =>
      rw [← eq_of_guarded hsampler] at hm
      obtain ⟨e, -, hm⟩ := Chance.yields_bind hm
      obtain ⟨v, hv, hm⟩ := Chance.yields_bind hm
      cases v with
      | none => cases Chance.yields_pure hm
      | some v =>
          cases Chance.yields_pure hm
          exact ⟨_, rfl, .change (Chance.mem_of_yields_pick hv)⟩
  | swap =>
      rw [← eq_of_guarded hsampler] at hm
      obtain ⟨⟨left, right⟩, -, hm⟩ := Chance.yields_bind hm
      cases Chance.yields_pure hm
      exact ⟨_, rfl, .swap left right⟩
  | pillarChange sub =>
      rw [← eq_of_guarded hsampler] at hm
      obtain ⟨number, -, hm⟩ := Chance.yields_bind hm
      obtain ⟨pillar, -, hm⟩ := Chance.yields_bind hm
      obtain ⟨v, hv, hm⟩ := Chance.yields_bind hm
      cases v with
      | none => cases Chance.yields_pure hm
      | some v =>
          exact fits_pillarChangeMove (Chance.mem_of_yields_pick hv)
            (eq_some_of_ofOption (Chance.yields_pure hm))
  | pillarSwap sub =>
      rw [← eq_of_guarded hsampler] at hm
      obtain ⟨⟨i, j⟩, -, hm⟩ := Chance.yields_bind hm
      obtain ⟨left, -, hm⟩ := Chance.yields_bind hm
      obtain ⟨right, -, hm⟩ := Chance.yields_bind hm
      exact fits_pillarSwapMove (eq_some_of_ofOption (Chance.yields_pure hm))

end Leaf

-- ================================================================== trees

namespace Selector

variable [BEq V] {selector : Selector S V}

/-- All that the tree admits fits. -/
theorem About.fits (h : selector.About x) {m : Move S V}
    (hm : selector.Admits s m) : m.Fits x s := by
  induction hm with
  | listed hm =>
      cases h with
      | leaf hl => exact hl.fits_listed hm
  | drawn hsampler hm =>
      cases h with
      | leaf hl => exact hl.fits_drawn hsampler hm
  | union hmem _ ih =>
      cases h with
      | union hchildren => exact ih (hchildren _ hmem)
  | limited _ ih =>
      cases h with
      | limited hinner => exact ih hinner

/-- The tree supplies what it admits, and no draw of it breaks off. -/
theorem About.supplies {ok : Move S V → Prop} (h : selector.About x)
    (hok : ∀ m, selector.Admits s m → ok m) : selector.Supplies False ok s := by
  induction h with
  | @leaf l order seed hl =>
      cases order with
      | given => exact .listed fun m hm => hok m (.listed hm)
      | random =>
          refine .drawn fun sampler hsampler =>
            ⟨fun held m hm => hok m (.drawn hsampler hm), ?_⟩
          exact .inr (hl.plain.sure hsampler).safe
  | union _ ih =>
      exact .union fun c hc => ih c hc fun m hm => hok m (.union hc hm)
  | limited _ ih => exact .limited (ih fun m hm => hok m (.limited hm))

/-- So the first moves of its passes are drawn from it. -/
theorem About.draws_offered (h : selector.About x) (take : Nat) :
    selector.Draws fun s => selector.offered s take :=
  fun _ p => leads_offered (h.supplies fun _ hm => hm) take p

end Selector

-- ================================================================ building

namespace SelectorConfig

variable {c : SelectorContext S V} {entityClass : String}

/-- The one variable is all that is found. -/
theorem eq_of_basicsFor (hbasics : c.basics = [(entityClass, x)])
    {path : String} {asked name : Option String} {xs : List (BasicVariable S V)}
    (h : c.basicsFor path asked name = .ok xs) : xs = [x] := by
  unfold SelectorContext.basicsFor at h
  rw [hbasics, List.filter_singleton] at h
  dsimp only at h
  cases hasked : SelectorContext.isAsked asked entityClass &&
      SelectorContext.isAsked name x.name with
  | false =>
      rw [hasked] at h
      cases h
  | true =>
      rw [hasked] at h
      cases h
      rfl

/-- The one variable is all that is found by names. -/
theorem eq_of_namedBasicsFor (hbasics : c.basics = [(entityClass, x)])
    {path : String} {asked : Option String} {names : List String}
    {xs : List (BasicVariable S V)}
    (h : c.namedBasicsFor path asked names = .ok xs) : xs = [x] := by
  obtain ⟨all, hall, h⟩ := exists_of_bind_ok h
  rw [eq_of_basicsFor hbasics hall] at h
  split at h
  · cases h
    rfl
  · rename_i hnames
    dsimp only at h
    split at h
    · cases h
    · rename_i hnone
      cases h
      -- a name that does not match the variable would have been missed
      obtain ⟨name, hname⟩ :=
        List.exists_mem_of_ne_nil names fun g => hnames (by rw [g]; rfl)
      have hfound := List.find?_eq_none.mp hnone name hname
      rw [List.filter_singleton] at hfound ⊢
      cases hnamed : names.contains x.name with
      | false =>
          rw [hnamed] at hfound
          exact absurd rfl hfound
      | true => rfl

/-- No chained variable is found. -/
theorem not_chainedFor (hchained : c.chained = []) {path : String}
    {name : Option String} {xs : List (ChainedVariable S)} :
    c.chainedFor path name ≠ .ok xs := by
  unfold SelectorContext.chainedFor
  rw [hchained]
  exact nofun

/-- Configured leaves are about the one variable. -/
theorem about_leavesFor (hbasics : c.basics = [(entityClass, x)])
    (hchained : c.chained = []) {path : String} {settings : LeafConfig}
    (own : settings.isFactory = false) {leaves : List (Leaf S V)}
    (h : leavesFor c path settings = .ok leaves) : ∀ l ∈ leaves, l.About x := by
  cases settings with
  | change asked name =>
      obtain ⟨xs, hxs, h⟩ := exists_of_bind_ok h
      cases h
      rw [eq_of_basicsFor hbasics hxs]
      exact List.forall_mem_singleton.mpr .change
  | pillarChange asked sub name =>
      obtain ⟨xs, hxs, h⟩ := exists_of_bind_ok h
      cases h
      rw [eq_of_basicsFor hbasics hxs]
      exact List.forall_mem_singleton.mpr (.pillarChange _)
  | swap asked names =>
      obtain ⟨xs, hxs, h⟩ := exists_of_bind_ok h
      cases h
      rw [eq_of_namedBasicsFor hbasics hxs]
      exact List.forall_mem_singleton.mpr .swap
  | pillarSwap asked sub names =>
      obtain ⟨xs, hxs, h⟩ := exists_of_bind_ok h
      cases h
      rw [eq_of_namedBasicsFor hbasics hxs]
      exact List.forall_mem_singleton.mpr (.pillarSwap _)
  | segmentChange segments | segmentSwap segments | tailSwap name =>
      obtain ⟨xs, hxs, -⟩ := exists_of_bind_ok h
      exact absurd hxs (not_chainedFor hchained)
  | moveList name | moveSource name => cases own

/-- Leaves put together are about the variable if each is. -/
theorem about_joined {leaves : List (Leaf S V)} (h : ∀ l ∈ leaves, l.About x)
    (order : Order) (seed : UInt64) : (joined order seed leaves).About x := by
  unfold joined
  split
  · exact .leaf (h _ (List.mem_singleton.mpr rfl))
  · refine .union fun c hc => ?_
    obtain ⟨l, hl, rfl⟩ := List.mem_map.mp hc
    exact .leaf (h l hl)

theorem about_finished {path : String} {order : Order} {common : CommonSettings}
    {reports : List SelectorReport} {selector : Selector S V}
    (h : selector.About x) :
    (finished path order common reports selector).selector.About x := by
  unfold finished
  cases common.limit with
  | none => exact h
  | some limit => exact .limited h

mutual

/-- A built tree is about the one variable. -/
theorem about_buildAt (hbasics : c.basics = [(entityClass, x)])
    (hchained : c.chained = []) : ∀ (config : SelectorConfig) {path : String}
        {inherited : Order} {seed : UInt64}
      {built : BuiltSelector S V}, config.Simple →
      buildAt c path inherited seed config = .ok built → built.selector.About x
  | .leaf common settings, path, inherited, seed, built, simple, h => by
      cases simple with
      | leaf own =>
          obtain ⟨_, -, h⟩ := exists_of_bind_ok h
          obtain ⟨leaves, hleaves, h⟩ := exists_of_bind_ok h
          cases h
          exact about_finished
            (about_joined (about_leavesFor hbasics hchained own hleaves) _ _)
  | .union common children factory, path, inherited, seed, built,
      simple, h => by
      cases simple with
      | union hchildren =>
          obtain ⟨_, -, h⟩ := exists_of_bind_ok h
          obtain ⟨below, hbelow, h⟩ := exists_of_bind_ok h
          obtain ⟨weights, -, h⟩ := exists_of_bind_ok h
          cases h
          exact about_finished
            (.union (about_buildAll hbasics hchained children hchildren hbelow))
  | .product common children ignoreEmpty, path, inherited, seed, built, simple,
    h => nomatch simple

/-- Built children are about the one variable. -/
theorem about_buildAll (hbasics : c.basics = [(entityClass, x)])
    (hchained : c.chained = []) : ∀ (children : List SelectorConfig)
        {path : String} {order : Order} {seed : UInt64}
      {index : Nat} {built : BuiltChildren S V},
      (∀ child ∈ children, child.Simple) →
      buildAll c path order seed index children = .ok built →
      ∀ t ∈ built.selectors, t.About x
  | [], path, order, seed, index, built, simple, h => by
      cases h
      exact fun t ht => nomatch ht
  | child :: rest, path, order, seed, index, built, simple, h => by
      obtain ⟨first, hfirst, h⟩ := exists_of_bind_ok h
      obtain ⟨others, hothers, h⟩ := exists_of_bind_ok h
      cases h
      obtain ⟨hchild, hrest⟩ := List.forall_mem_cons.mp simple
      exact List.forall_mem_cons.mpr
        ⟨about_buildAt hbasics hchained child hchild hfirst,
        about_buildAll hbasics hchained rest hrest hothers⟩

end

/-- A tree built over one basic variable is about it. -/
theorem about_build (hbasics : c.basics = [(entityClass, x)])
    (hchained : c.chained = []) {config : SelectorConfig}
    (simple : config.Simple) {outside : UInt64} {built : BuiltSelector S V}
    (hbuild : config.build c outside = .ok built) : built.selector.About x := by
  obtain ⟨_, -, hbuild⟩ := exists_of_bind_ok hbuild
  exact about_buildAt hbasics hchained config simple hbuild

end SelectorConfig

-- ============================================================ the way back

namespace Step

/-- The writes of a step, and those it hands over to be taken back: to the
same entities, and of what was found there. -/
structure Rewrites (x : BasicVariable S V) (s : S) (t : Step S V)
    (old new : List (Nat × Option V)) : Prop where
  batch : t.batch? s = some (x.batch old new)
  entities : old.map Prod.fst = new.map Prod.fst
  found : ∀ change ∈ old, change.2 = x.get s change.1
  /-- What is written is a value of the range, or was held before. -/
  given : ∀ change ∈ new, (∃ v ∈ x.values s, change.2 = some v) ∨
    ∃ e, change.2 = x.get s e

variable {t : Step S V} {old new : List (Nat × Option V)}

/-- A step that rewrites does so in one batch. -/
theorem Rewrites.apply_eq (h : t.Rewrites x s old new) :
    t.apply s = x.setAll s new := by
  unfold apply
  rw [h.batch]
  rfl

/-- The way back is the batch of what was held before. -/
theorem Rewrites.waysBack_eq (h : t.Rewrites x s old new) :
    waysBack [t] s = [fun u => x.setAll u old] := by
  show [] ++ t.wayBack s = _
  unfold wayBack
  rw [h.batch]
  rfl

theorem found_held (entities : List Nat) :
    ∀ change ∈ x.held s entities, change.2 = x.get s change.1 := by
  intro change hmem
  obtain ⟨e, -, rfl⟩ := List.mem_map.mp hmem
  rfl

/-- A step that fits the variable rewrites it in one batch. -/
theorem Fits.exists_rewrites [BEq V] [LawfulBEq V] (h : t.Fits x s) :
    ∃ old new, t.Rewrites x s old new := by
  cases h with
  | @change e v hv =>
      refine ⟨_, _, rfl, rfl, found_held [e],
        fun change hmem => .inl ⟨v, hv, ?_⟩⟩
      rw [List.mem_singleton.mp hmem]
  | swap l r =>
      refine ⟨_, _, rfl, rfl, found_held [l, r], fun change hmem => .inr ?_⟩
      rcases List.mem_cons.mp hmem with rfl | hmem
      · exact ⟨r, rfl⟩
      · rw [List.mem_singleton.mp hmem]
        exact ⟨l, rfl⟩
  | @pillarChange pillar v hv =>
      refine ⟨_, _, rfl, ?_, found_held pillar,
        fun change hmem => .inl ⟨v, hv, ?_⟩⟩
      · simp [BasicVariable.held, Function.comp_def]
      · obtain ⟨e, -, rfl⟩ := List.mem_map.mp hmem
        rfl
  | @pillarSwap left right hnone =>
      have hshared : SharesValue (literal (Option V)) x s left ∧
          SharesValue (literal (Option V)) x s right :=
        sharesValue_of_pillarPairFlaw (fun _ _ => eq_of_beq) hnone
      obtain ⟨⟨v, hv⟩, ⟨w, hw⟩⟩ := hshared
      obtain ⟨hleft, hrest⟩ := Option.or_eq_none_iff.mp hnone
      obtain ⟨hright, -⟩ := Option.or_eq_none_iff.mp hrest
      cases left with
      | nil => cases hleft
      | cons l ls =>
          cases right with
          | nil => cases hright
          | cons r rs =>
              -- what the first entities hold is what all of their pillars hold
              have hl := hv l (List.mem_cons_self ..)
              have hr := hw r (List.mem_cons_self ..)
              refine ⟨_, _, rfl, ?_, fun change hmem => ?_,
                fun change hmem => .inr ?_⟩
              · simp [Function.comp_def]
              · rcases List.mem_append.mp hmem with hmem | hmem
                · obtain ⟨e, he, rfl⟩ := List.mem_map.mp hmem
                  exact hl.trans (hv e he).symm
                · obtain ⟨e, he, rfl⟩ := List.mem_map.mp hmem
                  exact hr.trans (hw e he).symm
              · rcases List.mem_append.mp hmem with hmem | hmem
                · obtain ⟨e, -, rfl⟩ := List.mem_map.mp hmem
                  exact ⟨r, rfl⟩
                · obtain ⟨e, -, rfl⟩ := List.mem_map.mp hmem
                  exact ⟨l, rfl⟩

end Step

end PlanSearch

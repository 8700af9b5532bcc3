/-
What building an index does, step by step.

The successors are collected entity by entity. `Collected` is what has
been established when a certain entity is next: the list holds exactly the
links of the entities before it, none of them twice, and their targets
are all right. At the end it is the reverse of the links, and following
it from an anchor counts off what the anchor reaches.

Each stage either keeps its promise or answers with a flaw that the links
do show, and `ofLinks_spec` puts the stages together.
-/
import PlanSearch.Proofs.Chain.WellFormed

namespace PlanSearch.ChainIndex

variable {anchors n : Nat} {links rest : List (Option Link)} {seen : Successors}
  {chains : List (List Nat)} {link : Link} {a p e d fuel : Nat}
  {flaw : ChainFlaw} {positions : Positions}

-- ================================================================ targets

/-- What a link may point at: an anchor there is, or another entity that is
assigned. -/
def Allowed (anchors : Nat) (links : List (Option Link)) (e : Nat) : Link → Prop
  | .anchor a => a < anchors
  | .entity p => p ≠ e ∧ Assigned links p

/-- A target is allowed, or its flaw is one the links show. -/
theorem targetFlaw_spec (h : Follows links e link) :
    (targetFlaw anchors links e link = none ∧ Allowed anchors links e link)
      ∨ ∃ flaw, targetFlaw anchors links e link = some flaw ∧
      Shows anchors links flaw := by
  cases link with
  | anchor a =>
      by_cases hlt : a < anchors
      · exact .inl ⟨if_pos hlt, hlt⟩
      · exact .inr ⟨_, if_neg hlt, h, Nat.le_of_not_lt hlt⟩
  | entity p =>
      by_cases hself : p = e
      · refine .inr ⟨_, if_pos hself, ?_⟩
        subst hself
        exact h
      · unfold targetFlaw
        simp only [if_neg hself]
        cases hat : links[p]? with
        | none => exact .inr ⟨_, rfl, h, List.getElem?_eq_none_iff.mp hat⟩
        | some slot =>
            cases slot with
            | none => exact .inr ⟨_, rfl, h, hat⟩
            | some link => exact .inl ⟨rfl, hself, link, hat⟩

-- ============================================================= successors

/-- A successor that is found was seen. -/
theorem mem_of_after (h : seen.after link = some e) : (link, e) ∈ seen := by
  obtain ⟨⟨l, d⟩, hfind, rfl⟩ := Option.map_eq_some_iff.mp h
  have hbeq := List.find?_some hfind
  have hl : l = link := eq_of_beq hbeq
  subst hl
  exact List.mem_of_find?_eq_some hfind

/-- Without a successor found, none was seen. -/
theorem notMem_of_after (h : seen.after link = none) (e : Nat) :
    (link, e) ∉ seen := by
  intro hmem
  have hnone := List.find?_eq_none.mp (Option.map_eq_none_iff.mp h)
    (link, e) hmem
  exact hnone (beq_self_eq_true link)

/-- What is established of the entities before one. -/
structure Collected (anchors : Nat) (links : List (Option Link)) (n : Nat)
    (seen : Successors) : Prop where
  mem_iff : ∀ link e, (link, e) ∈ seen ↔ e < n ∧ Follows links e link
  single : ∀ link d e, (link, d) ∈ seen → (link, e) ∈ seen → d = e
  targets : ∀ link e, (link, e) ∈ seen → Allowed anchors links e link

theorem Collected.nil : Collected anchors links 0 [] where
  mem_iff link e := by
    constructor
    · intro h
      cases h
    · intro g
      obtain ⟨h, -⟩ := g
      cases h
  single _ _ _ h _ := by cases h
  targets _ _ h := by cases h

/-- An unassigned entity adds nothing, -/
theorem Collected.skip (h : Collected anchors links n seen)
    (hat : links[n]? = some none) : Collected anchors links (n + 1) seen where
  mem_iff link e := by
    rw [h.mem_iff]
    constructor
    · intro g
      obtain ⟨hlt, hfollows⟩ := g
      exact ⟨Nat.lt_succ_of_lt hlt, hfollows⟩
    · intro g
      obtain ⟨hlt, hfollows⟩ := g
      refine ⟨Nat.lt_of_le_of_ne (Nat.le_of_lt_succ hlt)
        fun heq => ?_, hfollows⟩
      subst heq
      cases hat.symm.trans hfollows
  single := h.single
  targets := h.targets

/-- and an assigned one whose link nobody has, that link. -/
theorem Collected.add (h : Collected anchors links n seen)
    (hat : Follows links n link) (htarget : Allowed anchors links n link)
    (hafter : seen.after link = none) :
    Collected anchors links (n + 1) (seen ++ [(link, n)]) where
  mem_iff l e := by
    rw [List.mem_append, List.mem_singleton, h.mem_iff]
    constructor
    · intro g
      rcases g with ⟨hlt, hfollows⟩ | heq
      · exact ⟨Nat.lt_succ_of_lt hlt, hfollows⟩
      · obtain ⟨rfl, rfl⟩ := Prod.mk.inj heq
        exact ⟨Nat.lt_succ_self e, hat⟩
    · intro g
      obtain ⟨hlt, hfollows⟩ := g
      rcases Nat.lt_or_eq_of_le (Nat.le_of_lt_succ hlt) with hlt | rfl
      · exact .inl ⟨hlt, hfollows⟩
      · exact .inr (by rw [hfollows.link_unique hat])
  single l d e hd he := by
    rw [List.mem_append, List.mem_singleton] at hd he
    rcases hd with hd | hd
    · rcases he with he | he
      · exact h.single l d e hd he
      · obtain ⟨rfl, -⟩ := Prod.mk.inj he
        exact absurd hd (notMem_of_after hafter d)
    · rcases he with he | he
      · obtain ⟨rfl, -⟩ := Prod.mk.inj hd
        exact absurd he (notMem_of_after hafter e)
      · exact (Prod.mk.inj hd).2.trans (Prod.mk.inj he).2.symm
  targets l e hmem := by
    rw [List.mem_append, List.mem_singleton] at hmem
    rcases hmem with hmem | heq
    · exact h.targets l e hmem
    · obtain ⟨rfl, rfl⟩ := Prod.mk.inj heq
      exact htarget

theorem drop_eq_cons {slot : Option Link} (h : links.drop n = slot :: rest) :
    links[n]? = some slot ∧ links.drop (n + 1) = rest := by
  constructor
  · rw [← List.head?_drop, h]
    rfl
  · rw [← List.tail_drop, h]
    rfl

/-- Collecting goes on to the last entity, or up to one whose link shows a
flaw. -/
theorem collect_spec (hseen : Collected anchors links n seen)
    (hrest : links.drop n = rest) :
    (∃ all, collect anchors links n rest seen = .ok all
        ∧ Collected anchors links links.length all)
      ∨ ∃ flaw, collect anchors links n rest seen = .error flaw ∧
      Shows anchors links flaw := by
  induction rest generalizing n seen with
  | nil =>
      have hlength : links.length ≤ n := List.drop_eq_nil_iff.mp hrest
      refine .inl ⟨seen, rfl, ?_, hseen.single, hseen.targets⟩
      intro link e
      rw [hseen.mem_iff]
      constructor
      · intro h
        obtain ⟨-, hfollows⟩ := h
        exact ⟨hfollows.lt_length, hfollows⟩
      · intro h
        obtain ⟨hlt, hfollows⟩ := h
        exact ⟨Nat.lt_of_lt_of_le hlt hlength, hfollows⟩
  | cons slot rest ih =>
      obtain ⟨hat, hnext⟩ := drop_eq_cons hrest
      cases slot with
      | none => exact ih (hseen.skip hat) hnext
      | some link =>
          unfold collect
          rcases targetFlaw_spec hat
            with ⟨hnone, htarget⟩ | ⟨flaw, hsome, hshows⟩
          · rw [hnone]
            -- whoever had the link before, the later entity shows the flaw
            cases hafter : seen.after link with
            | some other =>
                obtain ⟨hlt, hother⟩ :=
                  (hseen.mem_iff link other).mp (mem_of_after hafter)
                exact .inr ⟨_, rfl, hlt, hother, hat⟩
            | none => exact ih (hseen.add hat htarget hafter) hnext
          · rw [hsome]
            exact .inr ⟨flaw, rfl, hshows⟩

/-- At the end, the successors are the links read backwards. -/
theorem Collected.after_iff (h : Collected anchors links links.length seen) :
    seen.after link = some e ↔ Follows links e link := by
  constructor
  · intro hafter
    exact ((h.mem_iff link e).mp (mem_of_after hafter)).2
  · intro hfollows
    have hmem := (h.mem_iff link e).mpr ⟨hfollows.lt_length, hfollows⟩
    cases hafter : seen.after link with
    | none => exact absurd hmem (notMem_of_after hafter e)
    | some d => rw [h.single link d e (mem_of_after hafter) hmem]

-- ================================================================= chains

/-- A walk along the successors counts off what a link reaches. -/
theorem getElem?_walk
    (hafter : ∀ link e, seen.after link = some e ↔ Follows links e link) :
    (walk seen a fuel link n positions).1[p]? = some e ↔
      p < fuel ∧ Reached links link p e := by
  induction fuel generalizing link p n positions with
  | zero =>
      constructor
      · intro h
        cases h
      · intro g
        obtain ⟨h, -⟩ := g
        cases h
  | succ fuel ih =>
      unfold walk
      cases hfirst : seen.after link with
      | none =>
          constructor
          · intro h
            cases h
          · intro g
            obtain ⟨-, hreach⟩ := g
            obtain ⟨d, hd⟩ := hreach.exists_of_le (Nat.zero_le p)
            rw [(hafter link d).mpr hd] at hfirst
            cases hfirst
      | some first =>
          -- the successor that was found is the only entity behind the link
          have hunique : ∀ d, Follows links d link ↔ first = d := by
            intro d
            rw [← hafter link d, hfirst, Option.some_inj]
          dsimp only
          cases p with
          | zero =>
              rw [List.getElem?_cons_zero, reached_zero, hunique,
                Option.some_inj]
              exact (and_iff_right (Nat.succ_pos fuel)).symm
          | succ p =>
              rw [List.getElem?_cons_succ, ih, reached_succ_start,
                Nat.succ_lt_succ_iff]
              constructor
              · intro g
                obtain ⟨hlt, hreach⟩ := g
                exact ⟨hlt, first, (hunique first).mpr rfl, hreach⟩
              · intro g
                obtain ⟨hlt, d, hd, hreach⟩ := g
                rw [(hunique d).mp hd]
                exact ⟨hlt, hreach⟩

/-- So do the walks from several anchors. -/
theorem stands_walkAll
    (hafter : ∀ link e, seen.after link = some e ↔ Follows links e link)
    {starts : List Nat} :
    Stands (walkAll seen fuel starts positions).1 n p e ↔
      ∃ a, starts[n]? = some a ∧ p < fuel ∧ Reached links (.anchor a) p e := by
  induction starts generalizing n positions with
  | nil =>
      constructor
      · intro h
        exact (stands_nil h).elim
      · intro g
        obtain ⟨a, h, -⟩ := g
        cases h
  | cons start rest ih =>
      cases n with
      | zero =>
          refine (getElem?_walk hafter).trans ⟨fun h => ⟨start, rfl, h⟩, ?_⟩
          rintro ⟨a, ha, h⟩
          cases ha
          exact h
      | succ n => exact ih

/-- There is a chain for every anchor. -/
theorem length_walkAll (starts : List Nat) :
    (walkAll seen fuel starts positions).1.length = starts.length := by
  induction starts generalizing positions with
  | nil => rfl
  | cons start rest ih => exact congrArg Nat.succ ih

-- ================================================================== table

variable {before after between : Positions}

/-- Into one table the entities of a chain have been entered, counted from a
position on. -/
structure Entered (a n : Nat) (chain : List Nat) (before after : Positions) :
    Prop where
  length : after.length = before.length
  here : chain.Nodup → ∀ p e, chain[p]? = some e → e < before.length →
    after.place e = some (a, n + p)
  elsewhere : ∀ e ∉ chain, after.place e = before.place e

/-- A table tells the place that was written last. -/
theorem place_set (h : e < before.length) (place : Nat × Nat) :
    Positions.place (before.set e (some place)) e = some place := by
  unfold Positions.place
  rw [List.getElem?_set_self h]
  rfl

/-- Writing the place of one entity leaves those of others. -/
theorem place_set_of_ne (h : e ≠ d) (place : Nat × Nat) :
    Positions.place (before.set e (some place)) d = before.place d := by
  unfold Positions.place
  rw [List.getElem?_set_ne h]

/-- The first entity is entered, and the others after it. -/
theorem Entered.cons {chain : List Nat}
    (h : Entered a (n + 1) chain (before.set e (some (a, n))) after) :
    Entered a n (e :: chain) before after where
  length := h.length.trans (List.length_set ..)
  here := by
    intro hnodup p d hd hlt
    obtain ⟨hnew, hchain⟩ := List.nodup_cons.mp hnodup
    cases p with
    | zero =>
        cases hd
        -- it is not on the rest of the chain, where it would be moved
        exact (h.elsewhere e hnew).trans (place_set hlt (a, n))
    | succ p =>
        rw [h.here hchain p d hd (by rwa [List.length_set]), Nat.add_right_comm]
        rfl
  elsewhere := by
    intro d hd
    rw [List.mem_cons, not_or] at hd
    obtain ⟨hne, hchain⟩ := hd
    exact (h.elsewhere d hchain).trans (place_set_of_ne (Ne.symm hne) (a, n))

/-- A walk enters the chain it returns. -/
theorem entered_walk :
    Entered a n (walk seen a fuel link n positions).1 positions
      (walk seen a fuel link n positions).2 := by
  have hnothing : ∀ {n : Nat} {positions : Positions},
      Entered a n [] positions positions :=
    ⟨rfl, fun _ p e h => (nomatch h), fun _ _ => rfl⟩
  induction fuel generalizing link n positions with
  | zero => exact hnothing
  | succ fuel ih =>
      unfold walk
      cases seen.after link with
      | none => exact hnothing
      | some entity => exact ih.cons

/-- Into one table the entities of chains have been entered, each chain under
its own anchor. -/
structure EnteredAll (starts : List Nat) (chains : List (List Nat))
    (before after : Positions) : Prop where
  length : after.length = before.length
  here : chains.flatten.Nodup → ∀ n p e, Stands chains n p e →
    e < before.length → ∀ a, starts[n]? = some a → after.place e = some (a, p)
  elsewhere : ∀ e ∉ chains.flatten, after.place e = before.place e

/-- The first chain is entered, and the others after it. -/
theorem EnteredAll.cons {starts chain : List Nat}
    (first : Entered a 0 chain before between)
    (rest : EnteredAll starts chains between after) :
    EnteredAll (a :: starts) (chain :: chains) before after where
  length := rest.length.trans first.length
  here := by
    intro hnodup n p e hstands hlt b hb
    obtain ⟨hchain, hchains, hapart⟩ := List.nodup_append.mp hnodup
    cases n with
    | zero =>
        cases hb
        -- the other chains do not have it, so it stays where it was entered
        have hon : e ∉ chains.flatten := fun he =>
          hapart e (List.mem_of_getElem? hstands) e he rfl
        rw [rest.elsewhere e hon,
          first.here hchain p e hstands hlt, Nat.zero_add]
    | succ n =>
        exact rest.here hchains n p e hstands (by rwa [first.length]) b hb
  elsewhere := by
    intro e he
    rw [List.flatten_cons, List.mem_append, not_or] at he
    exact (rest.elsewhere e he.2).trans (first.elsewhere e he.1)

/-- The walks from several anchors enter the chains they return. -/
theorem enteredAll_walkAll (starts : List Nat) :
    EnteredAll starts (walkAll seen fuel starts positions).1 positions
      (walkAll seen fuel starts positions).2 := by
  induction starts generalizing positions with
  | nil => exact ⟨rfl, fun _ _ _ _ h => (stands_nil h).elim, fun _ _ => rfl⟩
  | cons start rest ih => exact .cons entered_walk ih

/-- At the start no entity has a place. -/
theorem place_replicate (count e : Nat) :
    Positions.place (List.replicate count none) e = none := by
  unfold Positions.place
  rw [List.getElem?_replicate]
  split <;> rfl

/-- Walks that leave no entity twice fill a table with where all of them
stand. -/
theorem tabled_walkAll {count : Nat}
    (nodup : (walkAll seen fuel (List.range anchors)
      (List.replicate count none)).1.flatten.Nodup)
    (known : ∀ e ∈ (walkAll seen fuel (List.range anchors)
      (List.replicate count none)).1.flatten, e < count) :
    Tabled ⟨(walkAll seen fuel (List.range anchors)
      (List.replicate count none)).1,
      (walkAll seen fuel (List.range anchors)
        (List.replicate count none)).2⟩ := by
  have hentered : EnteredAll (List.range anchors)
      (walkAll seen fuel (List.range anchors) (List.replicate count none)).1
      (List.replicate count none)
      (walkAll seen fuel (List.range anchors)
        (List.replicate count none)).2 :=
    enteredAll_walkAll _
  have hlength : (walkAll seen fuel (List.range anchors)
      (List.replicate count none)).1.length = (List.range anchors).length :=
    length_walkAll _
  -- how the table was filled no longer matters
  generalize walkAll seen fuel (List.range anchors) (List.replicate count none)
    = walked at *
  obtain ⟨chains, positions⟩ := walked
  dsimp only at *
  have hplace : ∀ {e a p}, Stands chains a p e →
      positions.place e = some (a, p) := by
    intro e a p hstands
    have hlt : e < (List.replicate count
        (none : Option (Nat × Nat))).length := by
      rw [List.length_replicate]
      exact known e (mem_flatten_iff.mpr ⟨a, p, hstands⟩)
    have ha : a < anchors := by
      have h := hstands.lt_length
      rwa [hlength, List.length_range] at h
    exact hentered.here nodup a p e hstands hlt a (List.getElem?_range ha)
  intro e a p
  refine ⟨fun hlocate => ?_, hplace⟩
  by_cases hon : e ∈ chains.flatten
  · obtain ⟨b, q, hstands⟩ := mem_flatten_iff.mp hon
    cases hlocate.symm.trans (hplace hstands)
    exact hstands
  · have hnone := (hentered.elsewhere e hon).trans (place_replicate count e)
    cases hlocate.symm.trans hnone

-- ================================================================ orphans

/-- What a look through the entities from one on has found: none that is
nowhere, or one. -/
def Looked (links : List (Option Link)) (positions : Positions) (n : Nat) :
    Option Nat → Prop
  | none => ∀ e, n ≤ e → Assigned links e → (positions.place e).isSome = true
  | some e => Assigned links e ∧ (positions.place e).isNone = true

/-- An entity that has a place or is unassigned can be passed. -/
theorem Looked.back {found : Option Nat}
    (h : Looked links positions (n + 1) found)
    (hhere : Assigned links n → (positions.place n).isSome = true) :
    Looked links positions n found := by
  cases found with
  | some e => exact h
  | none =>
      intro e hle hassigned
      rcases Nat.lt_or_eq_of_le hle with hlt | rfl
      · exact h e hlt hassigned
      · exact hhere hassigned

/-- The look ends with what it says. -/
theorem looked_firstRootless (positions : Positions)
    (hrest : links.drop n = rest) :
    Looked links positions n (firstRootless positions n rest) := by
  induction rest generalizing n with
  | nil =>
      intro e hle g
      obtain ⟨link, hfollows⟩ := g
      have hlength : links.length ≤ n := List.drop_eq_nil_iff.mp hrest
      exact absurd hfollows.lt_length
        (Nat.not_lt.mpr (Nat.le_trans hlength hle))
  | cons slot rest ih =>
      obtain ⟨hat, hnext⟩ := drop_eq_cons hrest
      cases slot with
      | none =>
          refine (ih hnext).back fun hassigned => ?_
          obtain ⟨link, hfollows⟩ := hassigned
          cases hat.symm.trans hfollows
      | some link =>
          unfold firstRootless
          by_cases hnone : (positions.place n).isNone = true
          · rw [if_pos hnone]
            exact ⟨⟨link, hat⟩, hnone⟩
          · rw [if_neg hnone]
            refine (ih hnext).back fun _ => ?_
            rw [Option.isNone_iff_eq_none] at hnone
            exact Option.isSome_iff_ne_none.mpr hnone

-- ================================================================ building

/-- The chains of an index are the ways along the links, and its table has
the places of all entities. -/
structure Traces (anchors : Nat) (links : List (Option Link))
    (index : ChainIndex) : Prop where
  length : index.chains.length = anchors
  stands_iff : ∀ a p e,
    Stands index.chains a p e ↔ Reached links (.anchor a) p e
  places : index.positions.length = links.length
  tabled : index.Tabled

/-- On the chains is what is rooted. -/
theorem Traces.mem_flatten_iff {index : ChainIndex}
    (h : Traces anchors links index) :
    e ∈ index.chains.flatten ↔ Rooted links e := by
  rw [ChainIndex.mem_flatten_iff]
  constructor
  · intro g
    obtain ⟨a, p, hstands⟩ := g
    exact ((h.stands_iff a p e).mp hstands).rooted
  · intro hrooted
    obtain ⟨a, p, hreach⟩ := hrooted.exists_reached
    exact ⟨a, p, (h.stands_iff a p e).mpr hreach⟩

/-- Walking along the collected successors from every anchor traces the
links. The fuel suffices, since no way is longer than there are entities. -/
theorem Collected.traces (h : Collected anchors links links.length seen) :
    let walked := walkAll seen links.length (List.range anchors)
      (List.replicate links.length none)
    Traces anchors links ⟨walked.1, walked.2⟩ := by
  intro walked
  have hstands : ∀ a p e,
      Stands walked.1 a p e ↔ Reached links (.anchor a) p e := by
    intro a p e
    refine (stands_walkAll fun _ _ => h.after_iff).trans ?_
    constructor
    · rintro ⟨b, hb, -, hreach⟩
      obtain ⟨hlt, hget⟩ := List.getElem?_eq_some_iff.mp hb
      rw [List.getElem_range] at hget
      rwa [hget]
    · intro hreach
      have hanchor : a < anchors := by
        refine hreach.anchor_lt fun e a hfollows => ?_
        exact h.targets _ e ((h.mem_iff _ e).mpr ⟨hfollows.lt_length, hfollows⟩)
      exact ⟨a, List.getElem?_range hanchor, hreach.distance_lt, hreach⟩
  constructor
  case length => exact (length_walkAll _).trans List.length_range
  case stands_iff => exact hstands
  case places => exact (enteredAll_walkAll _).length.trans List.length_replicate
  case tabled =>
    refine tabled_walkAll (nodup_of_place_unique fun a p b q e ha hb => ?_)
      fun e he => ?_
    · exact ((hstands a p e).mp ha).place_unique ((hstands b q e).mp hb)
    · obtain ⟨a, p, hp⟩ := ChainIndex.mem_flatten_iff.mp he
      exact ((hstands a p e).mp hp).lt_length

/-- All that can still be wrong with collected links is the way back to an
anchor. -/
theorem Collected.wellFormed (h : Collected anchors links links.length seen)
    (rooted : ∀ e, Assigned links e → Rooted links e) :
    WellFormed anchors links := by
  have hmem : ∀ {link e}, Follows links e link → (link, e) ∈ seen :=
    fun hfollows => (h.mem_iff _ _).mpr ⟨hfollows.lt_length, hfollows⟩
  have hentity : ∀ e p, Follows links e (.entity p) →
      p ≠ e ∧ Assigned links p :=
    fun e p hfollows => h.targets _ e (hmem hfollows)
  constructor
  case anchor_exists => exact fun e a hfollows => h.targets _ e (hmem hfollows)
  case entity_exists =>
    intro e p hfollows
    obtain ⟨link, hlink⟩ := (hentity e p hfollows).2
    exact hlink.lt_length
  case not_itself => exact fun e hfollows => (hentity e e hfollows).1 rfl
  case assigned => exact fun e p hfollows => (hentity e p hfollows).2
  case single =>
    exact fun d e link hd he => h.single link d e (hmem hd) (hmem he)
  case rooted => exact rooted

/-- An index is built of well-formed links only, and otherwise a flaw that
the links show is named. -/
theorem ofLinks_spec (anchors : Nat) (links : List (Option Link)) :
    (∃ index, ofLinks anchors links = .ok index ∧ WellFormed anchors links
        ∧ Traces anchors links index)
      ∨ ∃ flaw, ofLinks anchors links = .error flaw ∧
      Shows anchors links flaw := by
  unfold ofLinks
  have hstart : links.drop 0 = links := rfl
  rcases collect_spec .nil hstart with
    ⟨all, hcollect, hall⟩ | ⟨flaw, hcollect, hshows⟩
  · rw [hcollect]
    dsimp only
    have htraces := hall.traces
    -- how the chains were walked no longer matters, only what they trace
    generalize walkAll all links.length (List.range anchors)
      (List.replicate links.length none) = walked at htraces ⊢
    obtain ⟨chains, positions⟩ := walked
    dsimp only at htraces ⊢
    have hlooked := looked_firstRootless positions hstart
    cases hfirst : firstRootless positions 0 links with
    | none =>
        rw [hfirst] at hlooked
        refine .inl ⟨⟨chains, positions⟩, rfl,
          hall.wellFormed fun e hassigned => ?_, htraces⟩
        have hplace := hlooked e (Nat.zero_le e) hassigned
        exact htraces.mem_flatten_iff.mp (htraces.tabled.isSome_iff.mp hplace)
    | some e =>
        rw [hfirst] at hlooked
        refine .inr ⟨.rootless e, rfl, hlooked.1, fun hrooted => ?_⟩
        have hplace := htraces.tabled.isSome_iff.mpr
          (htraces.mem_flatten_iff.mpr hrooted)
        exact Option.not_isSome_iff_eq_none.mpr
          (Option.isNone_iff_eq_none.mp hlooked.2) hplace
  · rw [hcollect]
    exact .inr ⟨flaw, rfl, hshows⟩

/-- A circle beside a chain is named by its first entity. -/
example : ofLinks 1 [some (.anchor 0), some (.entity 2), some (.entity 1)]
    = .error (.rootless 1) := rfl

end PlanSearch.ChainIndex

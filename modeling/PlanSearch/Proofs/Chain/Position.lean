/-
Where entities stand in chains.

`Stands chains a p e` says that the chain of anchor `a` has `e` at position
`p`. All look-ups of an index are statements about it, provided that its
table has the entities where they stand (`Tabled`): an entity is located
there, its previous link is what stands before it, and the next entity is
the one after it. Chains in which no entity stands twice have one such table
(`Tabled.eq_ofChains`).

The links of all chains (`linksOf`) are counted from a first anchor, since
that is how the recursion over the chains goes.
-/
import Mathlib.Data.List.GetD
import Mathlib.Data.List.Nodup
import PlanSearch.Chain.Rearrange

namespace PlanSearch.ChainIndex

variable {chains : List (List Nat)} {a b p q e d : Nat}

-- =============================================================== positions

/-- The chain of an anchor has the entity at a position. -/
def Stands (chains : List (List Nat)) (a p e : Nat) : Prop :=
  (chains.getD a [])[p]? = some e

theorem stands_nil : ¬ Stands [] a p e := by
  intro h
  cases h

theorem Stands.lt_length (h : Stands chains a p e) : a < chains.length := by
  refine Nat.lt_of_not_le fun hle => ?_
  unfold Stands at h
  rw [List.getD_eq_default _ _ hle] at h
  cases h

/-- No entity stands where another one does. -/
theorem Stands.entity_unique (h : Stands chains a p e)
    (g : Stands chains a p d) : e = d :=
  Option.some.inj (h.symm.trans g)

/-- The entities of the chains are those that stand somewhere. -/
theorem mem_flatten_iff : e ∈ chains.flatten ↔ ∃ a p, Stands chains a p e := by
  induction chains with
  | nil =>
      constructor
      · intro h
        cases h
      · intro g
        obtain ⟨a, p, h⟩ := g
        exact (stands_nil h).elim
  | cons chain rest ih =>
      rw [List.flatten_cons, List.mem_append, ih, List.mem_iff_getElem?]
      constructor
      · intro g
        rcases g with ⟨p, h⟩ | ⟨a, p, h⟩
        · exact ⟨0, p, h⟩
        · exact ⟨a + 1, p, h⟩
      · intro g
        obtain ⟨a, p, h⟩ := g
        cases a with
        | zero => exact .inl ⟨p, h⟩
        | succ a => exact .inr ⟨a, p, h⟩

/-- Where all entities differ, an entity stands in one place. -/
theorem Stands.place_unique (nodup : chains.flatten.Nodup)
    (h : Stands chains a p e) (g : Stands chains b q e) : a = b ∧ p = q := by
  induction chains generalizing a b with
  | nil => exact (stands_nil h).elim
  | cons chain rest ih =>
      rw [List.flatten_cons, List.nodup_append] at nodup
      obtain ⟨hchain, hrest, hapart⟩ := nodup
      -- one chain has an entity once, and two chains share none
      cases a with
      | zero =>
          cases b with
          | zero =>
              obtain ⟨hp, hpe⟩ := List.getElem?_eq_some_iff.mp h
              obtain ⟨hq, hqe⟩ := List.getElem?_eq_some_iff.mp g
              exact ⟨rfl, (List.Nodup.getElem_inj_iff hchain).mp
                (hpe.trans hqe.symm)⟩
          | succ b =>
              exact absurd rfl (hapart e (List.mem_of_getElem? h) e
                (mem_flatten_iff.mpr ⟨b, q, g⟩))
      | succ a =>
          cases b with
          | zero =>
              exact absurd rfl (hapart e (List.mem_of_getElem? g) e
                (mem_flatten_iff.mpr ⟨a, p, h⟩))
          | succ b =>
              obtain ⟨rfl, rfl⟩ := ih hrest h g
              exact ⟨rfl, rfl⟩

/-- And where every entity stands in one place, all entities differ. -/
theorem nodup_of_place_unique
    (h : ∀ a p b q e, Stands chains a p e → Stands chains b q e →
      a = b ∧ p = q) :
    chains.flatten.Nodup := by
  induction chains with
  | nil => exact List.nodup_nil
  | cons chain rest ih =>
      rw [List.flatten_cons, List.nodup_append]
      refine ⟨?_, ih fun a p b q e ha hb => ?_, ?_⟩
      · rw [List.nodup_iff_injective_get]
        intro i j hij
        have hi : Stands (chain :: rest) 0 i.val (chain.get i) :=
          List.getElem?_eq_getElem i.isLt
        have hj : Stands (chain :: rest) 0 j.val (chain.get i) := by
          rw [hij]
          exact List.getElem?_eq_getElem j.isLt
        exact Fin.ext (h 0 i.val 0 j.val _ hi hj).2
      · obtain ⟨hab, hpq⟩ := h (a + 1) p (b + 1) q e ha hb
        exact ⟨Nat.succ.inj hab, hpq⟩
      · intro e he d hd g
        subst g
        obtain ⟨p, hp⟩ := List.mem_iff_getElem?.mp he
        obtain ⟨b, q, hq⟩ := mem_flatten_iff.mp hd
        have hplace := (h 0 p (b + 1) q e hp hq).1
        omega

/-- Families of chains with the same entities in the same places are the
same. -/
theorem eq_of_stands {others : List (List Nat)}
    (hlength : chains.length = others.length)
    (h : ∀ a p e, Stands chains a p e ↔ Stands others a p e) :
    chains = others := by
  refine List.ext_getElem hlength fun a ha hb => ?_
  refine List.ext_getElem? fun p => ?_
  refine Option.ext fun e => ?_
  have hplace := h a p e
  unfold Stands at hplace
  rw [List.getD_eq_getElem _ _ ha, List.getD_eq_getElem _ _ hb] at hplace
  exact hplace

-- =================================================================== links

/-- What stands before a position of a chain whose first entity follows a
link. -/
def before (link : Link) (chain : List Nat) : Nat → Option Link
  | 0 => some link
  | p + 1 => chain[p]?.map Link.entity

/-- Along a chain each entity has the link before its position. -/
theorem mem_linksAlong {link l : Link} {chain : List Nat} :
    (e, l) ∈ linksAlong link chain ↔
    ∃ p, chain[p]? = some e ∧ before link chain p = some l := by
  induction chain generalizing link with
  | nil =>
      constructor
      · intro h
        cases h
      · intro g
        obtain ⟨p, h, -⟩ := g
        cases h
  | cons first rest ih =>
      show (e, l) ∈ (first, link) :: linksAlong (.entity first) rest ↔ _
      rw [List.mem_cons, ih]
      constructor
      · intro g
        rcases g with h | ⟨p, hp, hl⟩
        · obtain ⟨rfl, rfl⟩ := Prod.mk.inj h
          exact ⟨0, rfl, rfl⟩
        · refine ⟨p + 1, hp, ?_⟩
          cases p with
          | zero => exact hl
          | succ p => exact hl
      · intro g
        obtain ⟨p, hp, hl⟩ := g
        cases p with
        | zero => exact .inl (by rw [Option.some.inj hp, Option.some.inj hl])
        | succ p =>
            refine .inr ⟨p, hp, ?_⟩
            cases p with
            | zero => exact hl
            | succ p => exact hl

/-- The links of all chains, counted from an anchor. -/
theorem mem_linksOf {n : Nat} {link : Link} :
    (e, link) ∈ linksOf n chains ↔
      ∃ a p, Stands chains a p e ∧
        before (.anchor (n + a)) (chains.getD a []) p = some link := by
  induction chains generalizing n with
  | nil =>
      constructor
      · intro h
        cases h
      · intro g
        obtain ⟨a, p, h, -⟩ := g
        exact (stands_nil h).elim
  | cons chain rest ih =>
      show (e, link) ∈ linksAlong (.anchor n) chain ++ linksOf (n + 1) rest ↔ _
      rw [List.mem_append, mem_linksAlong, ih]
      constructor
      · intro g
        rcases g with ⟨p, hp, hl⟩ | ⟨a, p, hp, hl⟩
        · exact ⟨0, p, hp, hl⟩
        · refine ⟨a + 1, p, hp, ?_⟩
          rw [Nat.add_right_comm, Nat.add_assoc] at hl
          exact hl
      · intro g
        obtain ⟨a, p, hp, hl⟩ := g
        cases a with
        | zero => exact .inl ⟨p, hp, hl⟩
        | succ a =>
            refine .inr ⟨a, p, hp, ?_⟩
            rw [Nat.add_right_comm, Nat.add_assoc]
            exact hl

/-- The first entity of a chain follows the anchor. -/
theorem mem_linksOf_anchor : (e, .anchor a) ∈ linksOf 0 chains ↔
    Stands chains a 0 e := by
  rw [mem_linksOf]
  constructor
  · intro g
    obtain ⟨b, p, hp, hl⟩ := g
    rw [Nat.zero_add] at hl
    cases p with
    | zero =>
        cases hl
        exact hp
    | succ p =>
        obtain ⟨d, -, hd⟩ := Option.map_eq_some_iff.mp hl
        cases hd
  · intro h
    exact ⟨a, 0, h, by rw [Nat.zero_add]; rfl⟩

/-- Every other one follows the entity before it. -/
theorem mem_linksOf_entity :
    (e, .entity d) ∈ linksOf 0 chains ↔
    ∃ a p, Stands chains a p d ∧ Stands chains a (p + 1) e := by
  rw [mem_linksOf]
  constructor
  · intro h
    obtain ⟨a, p, hp, hl⟩ := h
    cases p with
    | zero => cases hl
    | succ p =>
        obtain ⟨c, hc, hd⟩ := Option.map_eq_some_iff.mp hl
        cases hd
        exact ⟨a, p, hc, hp⟩
  · intro h
    obtain ⟨a, p, hd, he⟩ := h
    exact ⟨a, p + 1, he, Option.map_eq_some_iff.mpr ⟨d, hd, rfl⟩⟩

/-- Every entity that stands somewhere has a link. -/
theorem exists_mem_linksOf (h : Stands chains a p e) :
    ∃ link, (e, link) ∈ linksOf 0 chains := by
  cases p with
  | zero => exact ⟨.anchor a, mem_linksOf_anchor.mpr h⟩
  | succ p =>
      have hlt : p + 1 < (chains.getD a []).length :=
        (List.getElem?_eq_some_iff.mp h).1
      exact ⟨.entity _, mem_linksOf_entity.mpr
        ⟨a, p, List.getElem?_eq_getElem (Nat.lt_of_succ_lt hlt), h⟩⟩

/-- What is linked stands somewhere. -/
theorem exists_stands_of_mem_linksOf {link : Link}
    (h : (e, link) ∈ linksOf 0 chains) : ∃ a p, Stands chains a p e := by
  obtain ⟨a, p, hp, -⟩ := mem_linksOf.mp h
  exact ⟨a, p, hp⟩

/-- Where all entities differ, each has one link. -/
theorem link_unique (nodup : chains.flatten.Nodup) {first second : Link}
    (h : (e, first) ∈ linksOf 0 chains) (g : (e, second) ∈ linksOf 0 chains) :
    first = second := by
  obtain ⟨a, p, hp, hl⟩ := mem_linksOf.mp h
  obtain ⟨b, q, hq, gl⟩ := mem_linksOf.mp g
  obtain ⟨rfl, rfl⟩ := hp.place_unique nodup hq
  exact Option.some.inj (hl.symm.trans gl)

/-- And each link is that of one entity. -/
theorem entity_unique (nodup : chains.flatten.Nodup) {link : Link}
    (h : (d, link) ∈ linksOf 0 chains) (g : (e, link) ∈ linksOf 0 chains) :
    d = e := by
  cases link with
  | anchor a =>
      exact (mem_linksOf_anchor.mp h).entity_unique (mem_linksOf_anchor.mp g)
  | entity c =>
      obtain ⟨a, p, hc, hd⟩ := mem_linksOf_entity.mp h
      obtain ⟨b, q, gc, ge⟩ := mem_linksOf_entity.mp g
      obtain ⟨rfl, rfl⟩ := hc.place_unique nodup gc
      exact hd.entity_unique ge

-- ============================================================== in a search

/-- The search finds a place where the entity stands. -/
theorem stands_of_findIn {n : Nat} (h : findIn e n chains = some (b, p)) :
    ∃ a, b = n + a ∧ Stands chains a p e := by
  induction chains generalizing n with
  | nil => cases h
  | cons chain rest ih =>
      unfold findIn at h
      cases hidx : chain.idxOf? e with
      | some position =>
          rw [hidx] at h
          cases h
          refine ⟨0, rfl, ?_⟩
          obtain ⟨hlt, heq, -⟩ := List.idxOf?_eq_some_iff.mp hidx
          exact List.getElem?_eq_some_iff.mpr ⟨hlt, heq⟩
      | none =>
          rw [hidx] at h
          obtain ⟨a, rfl, ha⟩ := ih h
          exact ⟨a + 1, by omega, ha⟩

/-- The search finds every entity of the chains. -/
theorem findIn_isSome {n : Nat} (h : e ∈ chains.flatten) :
    (findIn e n chains).isSome := by
  induction chains generalizing n with
  | nil => cases h
  | cons chain rest ih =>
      unfold findIn
      cases hidx : chain.idxOf? e with
      | some position => rfl
      | none =>
          rw [List.flatten_cons, List.mem_append] at h
          exact ih (h.resolve_left (List.idxOf?_eq_none_iff.mp hidx))

/-- An entity is found where it stands. -/
theorem findIn_iff (nodup : chains.flatten.Nodup) :
    findIn e 0 chains = some (a, p) ↔ Stands chains a p e := by
  constructor
  · intro h
    obtain ⟨b, rfl, hb⟩ := stands_of_findIn h
    rw [Nat.zero_add]
    exact hb
  · intro h
    obtain ⟨⟨b, q⟩, hfind⟩ := Option.isSome_iff_exists.mp
      (findIn_isSome (n := 0) (mem_flatten_iff.mpr ⟨a, p, h⟩))
    obtain ⟨c, rfl, hc⟩ := stands_of_findIn hfind
    obtain ⟨rfl, rfl⟩ := h.place_unique nodup hc
    rw [hfind, Nat.zero_add]

-- ============================================================= in the table

/-- The table of an index has the entities where they stand. -/
def Tabled (index : ChainIndex) : Prop :=
  ∀ e a p, index.locate e = some (a, p) ↔ Stands index.chains a p e

variable {index : ChainIndex}

/-- A table has one place for an entity, so no entity stands twice. -/
theorem Tabled.nodup (h : index.Tabled) : index.chains.flatten.Nodup := by
  refine nodup_of_place_unique fun a p b q e ha hb => ?_
  cases ((h e a p).mpr ha).symm.trans ((h e b q).mpr hb)
  exact ⟨rfl, rfl⟩

/-- Looking an entity up and searching for it come to the same. -/
theorem Tabled.locate_eq (h : index.Tabled) (e : Nat) :
    index.locate e = findIn e 0 index.chains :=
  Option.ext fun (a, p) => (h e a p).trans (findIn_iff h.nodup).symm

/-- On the chains is what the table knows. -/
theorem Tabled.isSome_iff (h : index.Tabled) :
    (index.locate e).isSome = true ↔ e ∈ index.chains.flatten := by
  rw [mem_flatten_iff, Option.isSome_iff_exists]
  constructor
  · rintro ⟨⟨a, p⟩, hlocate⟩
    exact ⟨a, p, (h e a p).mp hlocate⟩
  · rintro ⟨a, p, hstands⟩
    exact ⟨(a, p), (h e a p).mpr hstands⟩

/-- The index of chains: so many entities are looked for in them. -/
def ofChains (count : Nat) (chains : List (List Nat)) : ChainIndex :=
  ⟨chains, (List.range count).map fun e => findIn e 0 chains⟩

@[simp]
theorem chains_ofChains (count : Nat) (chains : List (List Nat)) :
    (ofChains count chains).chains = chains := rfl

/-- In an index of chains the table tells what a search would find. -/
theorem locate_ofChains {count : Nat} (h : e < count) :
    (ofChains count chains).locate e = findIn e 0 chains := by
  show ((((List.range count).map fun e => findIn e 0 chains))[e]?).join = _
  rw [List.getElem?_map, List.getElem?_range h]
  rfl

/-- Chains of known entities are tabled in their index. -/
theorem tabled_ofChains {count : Nat} (nodup : chains.flatten.Nodup)
    (known : ∀ e ∈ chains.flatten, e < count) :
    (ofChains count chains).Tabled := by
  intro e a p
  by_cases hlt : e < count
  · rw [locate_ofChains hlt]
    exact findIn_iff nodup
  · refine iff_of_false (fun h => ?_) fun h => ?_
    · have hnone : ((List.range count).map fun e => findIn e 0 chains)[e]?
          = none := by
        rw [List.getElem?_eq_none_iff, List.length_map, List.length_range]
        exact Nat.le_of_not_lt hlt
      have hplace : (((List.range count).map fun e =>
          findIn e 0 chains)[e]?).join
          = some (a, p) := h
      rw [hnone] at hplace
      cases hplace
    · exact hlt (known e (mem_flatten_iff.mpr ⟨a, p, h⟩))

/-- And there is no other index that has them. -/
theorem Tabled.eq_ofChains (h : index.Tabled) :
    index = ofChains index.positions.length index.chains := by
  refine congrArg (ChainIndex.mk index.chains) (List.ext_getElem? fun e => ?_)
  rw [List.getElem?_map]
  by_cases hlt : e < index.positions.length
  · have hplace : index.positions[e]? = some (index.locate e) := by
      unfold locate Positions.place
      rw [List.getElem?_eq_getElem hlt]
      rfl
    rw [List.getElem?_range hlt, hplace, h.locate_eq]
    rfl
  · have hle : index.positions.length ≤ e := Nat.le_of_not_lt hlt
    rw [List.getElem?_eq_none hle,
      List.getElem?_eq_none (by rwa [List.length_range])]
    rfl

-- ================================================================ look-ups

/-- An entity is located where it stands. -/
theorem locate_iff (tabled : index.Tabled) :
    index.locate e = some (a, p) ↔ Stands index.chains a p e := tabled e a p

/-- What stands before a position is read off the chain. -/
theorem toOption_linkBefore (a : Nat) (chain : List Nat) (p : Nat) :
    (linkBefore a chain p).toOption = before (.anchor a) chain p := by
  cases p with
  | zero => rfl
  | succ p =>
      unfold linkBefore before
      dsimp only
      cases chain[p]? with
      | none => rfl
      | some d => rfl

/-- The previous link of an entity is the one that stands before it. -/
theorem previousLink_iff (tabled : index.Tabled) {link : Link} :
    index.previousLink e = some link ↔ (e, link) ∈ linksOf 0 index.chains := by
  rw [mem_linksOf]
  unfold previousLink
  constructor
  · intro h
    cases hlocate : index.locate e with
    | none =>
        rw [hlocate] at h
        cases h
    | some place =>
        rw [hlocate] at h
        dsimp only at h
        rw [toOption_linkBefore] at h
        refine ⟨place.1, place.2, (locate_iff tabled).mp hlocate, ?_⟩
        rw [Nat.zero_add]
        exact h
  · rintro ⟨a, p, hstands, hbefore⟩
    rw [Nat.zero_add] at hbefore
    rw [(locate_iff tabled).mpr hstands]
    exact (toOption_linkBefore ..).trans hbefore

/-- There is always one to read. -/
theorem exists_linkBefore (tabled : index.Tabled)
    (h : index.locate e = some (a, p)) :
    ∃ link, linkBefore a (index.chain a) p = .ok link ∧
      index.previousLink e = some link := by
  obtain ⟨link, hlink⟩ := exists_mem_linksOf ((locate_iff tabled).mp h)
  have hprevious := (previousLink_iff tabled).mpr hlink
  refine ⟨link, ?_, hprevious⟩
  unfold previousLink at hprevious
  rw [h] at hprevious
  dsimp only at hprevious
  cases hbefore : linkBefore a (index.chain a) p with
  | error fault =>
      rw [hbefore] at hprevious
      cases hprevious
  | ok found =>
      rw [hbefore] at hprevious
      exact congrArg Except.ok (Option.some.inj hprevious)

/-- The next entity is the one that follows it. -/
theorem next_iff (tabled : index.Tabled) :
    index.next e = some d ↔
      ∃ a p, Stands index.chains a p e ∧ Stands index.chains a (p + 1) d := by
  unfold next
  constructor
  · intro h
    cases hlocate : index.locate e with
    | none =>
        rw [hlocate] at h
        cases h
    | some place =>
        rw [hlocate] at h
        exact ⟨place.1, place.2, (locate_iff tabled).mp hlocate, h⟩
  · intro g
    obtain ⟨a, p, he, hd⟩ := g
    rw [(locate_iff tabled).mpr he]
    exact hd

/-- It is the entity whose previous link is the one asked about. -/
theorem next_iff_previousLink (tabled : index.Tabled) :
    index.next e = some d ↔ index.previousLink d = some (.entity e) := by
  rw [next_iff tabled, previousLink_iff tabled, mem_linksOf_entity]

/-- Splitting by the table is splitting by a search. -/
theorem splitPoint_eq_splitIn (tabled : index.Tabled) (link : Link) :
    index.splitPoint link = splitIn index.chains link := by
  cases link with
  | anchor a => rfl
  | entity e =>
      unfold splitPoint splitIn
      dsimp only
      rw [tabled.locate_eq]

/-- The first entity of a chain has nothing but the anchor before it, -/
theorem linkBefore_zero {chain : List Nat} {link : Link} :
    linkBefore a chain 0 = .ok link ↔ link = .anchor a := by
  show Except.ok (.anchor a) = Except.ok link ↔ _
  rw [Except.ok.injEq, eq_comm]

/-- and every other one has an entity there. -/
theorem linkBefore_succ {chain : List Nat} {link : Link} :
    linkBefore a chain (p + 1) = .ok link ↔
      ∃ e, chain[p]? = some e ∧ link = .entity e := by
  simp only [linkBefore]
  cases chain[p]? with
  | none =>
      constructor
      · intro h
        cases h
      · intro g
        obtain ⟨e, h, -⟩ := g
        cases h
  | some d =>
      constructor
      · intro h
        cases h
        exact ⟨d, rfl, rfl⟩
      · intro g
        obtain ⟨e, h, rfl⟩ := g
        rw [Option.some.inj h]

/-- The split point of a link is the place it stands before. -/
theorem splitIn_iff_linkBefore (nodup : chains.flatten.Nodup) {link : Link} :
    splitIn chains link = some (a, p) ↔
      a < chains.length ∧ linkBefore a (chains.getD a []) p = .ok link := by
  cases link with
  | anchor b =>
      unfold splitIn
      dsimp only
      constructor
      · intro h
        by_cases hlt : b < chains.length
        · rw [if_pos hlt] at h
          cases h
          exact ⟨hlt, linkBefore_zero.mpr rfl⟩
        · rw [if_neg hlt] at h
          cases h
      · intro g
        obtain ⟨hlt, hbefore⟩ := g
        cases p with
        | zero =>
            cases linkBefore_zero.mp hbefore
            exact if_pos hlt
        | succ p =>
            obtain ⟨e, -, he⟩ := linkBefore_succ.mp hbefore
            cases he
  | entity e =>
      unfold splitIn
      rw [Option.map_eq_some_iff]
      constructor
      · intro g
        obtain ⟨⟨b, q⟩, hfind, hplace⟩ := g
        cases hplace
        have hstands := (findIn_iff nodup).mp hfind
        exact ⟨hstands.lt_length, linkBefore_succ.mpr ⟨e, hstands, rfl⟩⟩
      · intro g
        obtain ⟨-, hbefore⟩ := g
        cases p with
        | zero => cases linkBefore_zero.mp hbefore
        | succ p =>
            obtain ⟨d, hd, he⟩ := linkBefore_succ.mp hbefore
            cases he
            exact ⟨(a, p), (findIn_iff nodup).mpr hd, rfl⟩

/-- The same is read off the table of an index. -/
theorem splitPoint_iff (tabled : index.Tabled) {link : Link} :
    index.splitPoint link = some (a, p) ↔
      a < index.chains.length ∧ linkBefore a (index.chain a) p = .ok link := by
  rw [splitPoint_eq_splitIn tabled]
  exact splitIn_iff_linkBefore tabled.nodup

/-- An entity stands where something put behind its previous link would. -/
theorem splitPoint_previousLink (tabled : index.Tabled) (e : Nat) :
    (index.previousLink e).bind index.splitPoint = index.locate e := by
  cases hlocate : index.locate e with
  | none =>
      unfold previousLink
      rw [hlocate]
      rfl
  | some place =>
      obtain ⟨link, hbefore, hlink⟩ := exists_linkBefore tabled hlocate
      have hlt := ((locate_iff tabled).mp hlocate).lt_length
      rw [hlink]
      exact (splitPoint_iff tabled).mpr ⟨hlt, hbefore⟩

end PlanSearch.ChainIndex

/-
An index and the links it was built of say the same.

`Faithful` collects what that means for each question an index answers.
Both directions go through the places of entities: the index of
well-formed links has an entity where the links reach it, and conversely
chains without repetition have the links their entities stand behind, so
that building from these finds the same chains again.
-/
import Mathlib.Data.List.Count
import PlanSearch.Proofs.Chain.Build

namespace PlanSearch.ChainIndex

variable {anchors : Nat} {links : List (Option Link)} {link : Link}
  {index : ChainIndex} {chains : List (List Nat)} {a p e : Nat}

-- ============================================================== from links

/-- What an index says is what the links say. -/
structure Faithful (anchors : Nat) (links : List (Option Link))
    (index : ChainIndex) : Prop where
  length : index.chains.length = anchors
  /-- The table has a place for each entity, -/
  places : index.positions.length = links.length
  /-- and in it where the entity stands. -/
  table : ∀ (e a p : Nat), index.positions[e]? = some (some (a, p)) ↔
    (index.chain a)[p]? = some e
  once : ∀ e, Assigned links e → index.chains.flatten.count e = 1
  nowhere : ∀ e, ¬ Assigned links e → e ∉ index.chains.flatten
  previous : ∀ e, index.previousLink e = (links[e]?).join
  locate : ∀ e a p, index.locate e = some (a, p) ↔ (index.chain a)[p]? = some e
  next : ∀ e d, index.next e = some d ↔
    ∃ a p, (index.chain a)[p]? = some e ∧ (index.chain a)[p + 1]? = some d
  split : ∀ link a n, index.splitPoint link = some (a, n) ↔
    a < anchors ∧ linkBefore a (index.chain a) n = .ok link
  /-- What stands before a located entity can be read off its chain. -/
  before : ∀ e a p, index.locate e = some (a, p) →
    ∃ link, linkBefore a (index.chain a) p = .ok link ∧
      index.previousLink e = some link
  /-- Going on to the next entity and back to the previous link are inverse. -/
  next_previous : ∀ e d, index.next e = some d ↔
    index.previousLink d = some (.entity e)
  /-- What is put behind an entity's previous link stands where the entity
  did. -/
  split_previous : ∀ e, (index.previousLink e).bind index.splitPoint
    = index.locate e

theorem Traces.nodup (h : Traces anchors links index) :
    index.chains.flatten.Nodup := h.tabled.nodup

/-- The links along the chains are the links they were built of. -/
theorem Traces.mem_linksOf_iff (h : Traces anchors links index)
    (wellFormed : WellFormed anchors links) :
    (e, link) ∈ linksOf 0 index.chains ↔ Follows links e link := by
  cases link with
  | anchor a => rw [mem_linksOf_anchor, h.stands_iff, reached_zero]
  | entity d =>
      rw [mem_linksOf_entity]
      constructor
      · intro g
        obtain ⟨a, p, hd, he⟩ := g
        obtain ⟨c, hc, hfollows⟩ :=
          reached_succ.mp ((h.stands_iff a (p + 1) e).mp he)
        rw [hd.entity_unique ((h.stands_iff a p c).mpr hc)]
        exact hfollows
      · intro hfollows
        have hrooted := wellFormed.rooted d (wellFormed.assigned e d hfollows)
        obtain ⟨a, p, hreach⟩ := hrooted.exists_reached
        exact ⟨a, p, (h.stands_iff a p d).mpr hreach,
          (h.stands_iff a (p + 1) e).mpr ⟨d, hreach, hfollows⟩⟩

/-- An index that traces the links answers for them. -/
theorem Traces.faithful (h : Traces anchors links index)
    (wellFormed : WellFormed anchors links) : Faithful anchors links index := by
  have hmem : ∀ e, e ∈ index.chains.flatten ↔ Assigned links e := by
    intro e
    rw [h.mem_flatten_iff]
    exact ⟨Rooted.assigned, wellFormed.rooted e⟩
  have hprevious : ∀ e link, index.previousLink e = some link ↔
      (links[e]?).join = some link := by
    intro e link
    rw [previousLink_iff h.tabled, h.mem_linksOf_iff wellFormed,
      Option.join_eq_some_iff]
    exact Iff.rfl
  have htable : ∀ (e a p : Nat), index.positions[e]? = some (some (a, p)) ↔
      index.locate e = some (a, p) := fun e a p => Option.join_eq_some_iff.symm
  constructor
  case length => exact h.length
  case places => exact h.places
  case table => exact fun e a p => (htable e a p).trans (locate_iff h.tabled)
  case once => exact fun e he =>
    List.count_eq_one_of_mem h.nodup ((hmem e).mpr he)
  case nowhere => exact fun e he hin => he ((hmem e).mp hin)
  case previous => exact fun e => Option.ext (hprevious e)
  case locate => exact fun e a p => locate_iff h.tabled
  case next => exact fun e d => next_iff h.tabled
  case split =>
    intro link a n
    rw [splitPoint_iff h.tabled, h.length]
  case before => exact fun e a p hlocate => exists_linkBefore h.tabled hlocate
  case next_previous => exact fun e d => next_iff_previousLink h.tabled
  case split_previous => exact splitPoint_previousLink h.tabled

-- ============================================================ from chains

variable (hlinks : ∀ e link,
  Follows links e link ↔ (e, link) ∈ linksOf 0 chains)

include hlinks in
/-- Links that are those of chains reach an entity where it stands. -/
theorem reached_iff_stands (nodup : chains.flatten.Nodup) :
    Reached links (.anchor a) p e ↔ Stands chains a p e := by
  induction p generalizing e with
  | zero => rw [reached_zero, hlinks, mem_linksOf_anchor]
  | succ p ih =>
      rw [reached_succ]
      constructor
      · intro h
        obtain ⟨d, hreach, hfollows⟩ := h
        have hd := ih.mp hreach
        -- `e` stands behind `d` on some chain, and that is the one `d` was
        -- reached on
        obtain ⟨b, q, hb, he⟩ :=
          mem_linksOf_entity.mp ((hlinks e _).mp hfollows)
        obtain ⟨rfl, rfl⟩ := hd.place_unique nodup hb
        exact he
      · intro he
        have hlt : p + 1 < (chains.getD a []).length :=
          (List.getElem?_eq_some_iff.mp he).1
        have hd : Stands chains a p (chains.getD a [])[p] :=
          List.getElem?_eq_getElem (Nat.lt_of_succ_lt hlt)
        exact ⟨_, ih.mpr hd,
          (hlinks e _).mpr (mem_linksOf_entity.mpr ⟨a, p, hd, he⟩)⟩

include hlinks in
/-- The links of chains without repetition are well formed. -/
theorem wellFormed_of_linksOf (nodup : chains.flatten.Nodup) :
    WellFormed chains.length links := by
  have hassigned : ∀ {a p e}, Stands chains a p e → Assigned links e := by
    intro a p e h
    obtain ⟨link, hlink⟩ := exists_mem_linksOf h
    exact ⟨link, (hlinks e link).mpr hlink⟩
  have hentity : ∀ {e p}, Follows links e (.entity p) →
      ∃ a q, Stands chains a q p ∧ Stands chains a (q + 1) e :=
    fun h => mem_linksOf_entity.mp ((hlinks _ _).mp h)
  constructor
  case anchor_exists =>
    intro e a h
    exact (mem_linksOf_anchor.mp ((hlinks e _).mp h)).lt_length
  case entity_exists =>
    intro e p h
    obtain ⟨a, q, hp, -⟩ := hentity h
    obtain ⟨link, hlink⟩ := hassigned hp
    exact hlink.lt_length
  case not_itself =>
    intro e h
    obtain ⟨a, q, hp, he⟩ := hentity h
    exact Nat.succ_ne_self q (he.place_unique nodup hp).2
  case assigned =>
    intro e p h
    obtain ⟨a, q, hp, -⟩ := hentity h
    exact hassigned hp
  case single =>
    intro d e link hd he
    exact entity_unique nodup ((hlinks d link).mp hd) ((hlinks e link).mp he)
  case rooted =>
    intro e g
    obtain ⟨link, h⟩ := g
    obtain ⟨a, p, hp⟩ := exists_stands_of_mem_linksOf ((hlinks e link).mp h)
    exact ((reached_iff_stands hlinks nodup).mpr hp).rooted

include hlinks in
/-- Chains are found again in their links. -/
theorem ofLinks_of_linksOf (nodup : chains.flatten.Nodup) :
    ofLinks chains.length links = .ok (ofChains links.length chains) := by
  have hwell := wellFormed_of_linksOf hlinks nodup
  rcases ofLinks_spec chains.length links
    with ⟨index, hok, -, htraces⟩ | ⟨flaw, -, hshows⟩
  · have hchains : index.chains = chains := by
      refine eq_of_stands htraces.length fun a p e => ?_
      rw [htraces.stands_iff, reached_iff_stands hlinks nodup]
    rw [hok, ← hchains, ← htraces.places, ← htraces.tabled.eq_ofChains]
  · exact absurd hshows (hwell.not_shows flaw)

/-- What is linked is an entity of the chains. -/
theorem mem_flatten_of_mem_linksOf (h : (e, link) ∈ linksOf 0 chains) :
    e ∈ chains.flatten := by
  obtain ⟨a, p, hp⟩ := exists_stands_of_mem_linksOf h
  exact mem_flatten_iff.mpr ⟨a, p, hp⟩

end PlanSearch.ChainIndex

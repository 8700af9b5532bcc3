/-
Writing what differs.

A rearrangement is carried out by writing the links in which the new chains
differ from the old ones. Links that are left alone are right already: the
entity had this link before, or it is on no chain, then or now. So after
the writes every entity follows what it stands behind in the new chains
(`follows_diff`), and the index of the solution has these chains.
-/
import PlanSearch.Proofs.Chain.Faithful
import PlanSearch.Proofs.Chain.Rearrange
import PlanSearch.Proofs.Variables

namespace PlanSearch

namespace ChainIndex

variable {index : ChainIndex} {chains : List (List Nat)} {e : Nat} {link : Link}

/-- What is written: the links of the new chains that the old ones lack. -/
theorem mem_diff {held : Option Link} :
    (e, held) ∈ index.diff chains ↔ ∃ link, held = some link ∧
      (e, link) ∈ linksOf 0 chains ∧ index.previousLink e ≠ some link := by
  unfold diff
  rw [List.mem_filterMap]
  constructor
  · intro h
    obtain ⟨⟨d, link⟩, hlink, hkept⟩ := h
    dsimp only at hkept
    split at hkept
    case isTrue => cases hkept
    case isFalse hne =>
      cases hkept
      exact ⟨link, rfl, hlink, hne⟩
  · intro g
    obtain ⟨link, rfl, hlink, hne⟩ := g
    exact ⟨(e, link), hlink, if_neg hne⟩

/-- The diff names the entities whose link differs. -/
theorem mem_keys_diff :
    e ∈ (index.diff chains).map Prod.fst ↔
      ∃ link, (e, link) ∈ linksOf 0 chains ∧
        index.previousLink e ≠ some link := by
  constructor
  · intro h
    obtain ⟨⟨d, held⟩, hmem, rfl⟩ := List.mem_map.mp h
    obtain ⟨link, -, hlink, hne⟩ := mem_diff.mp hmem
    exact ⟨link, hlink, hne⟩
  · intro g
    obtain ⟨link, hlink, hne⟩ := g
    exact List.mem_map.mpr ⟨(e, some link),
      mem_diff.mpr ⟨link, rfl, hlink, hne⟩, rfl⟩

/-- Along a chain its entities are linked in their order. -/
theorem map_fst_linksAlong (link : Link) (chain : List Nat) :
    (linksAlong link chain).map Prod.fst = chain := by
  induction chain generalizing link with
  | nil => rfl
  | cons e rest ih => exact congrArg (e :: ·) (ih (.entity e))

/-- Every place of the chains has its link. -/
theorem map_fst_linksOf (anchor : Nat) (chains : List (List Nat)) :
    (linksOf anchor chains).map Prod.fst = chains.flatten := by
  induction chains generalizing anchor with
  | nil => rfl
  | cons chain rest ih =>
      show (linksAlong (.anchor anchor) chain ++
        linksOf (anchor + 1) rest).map Prod.fst = _
      rw [List.map_append, map_fst_linksAlong, ih, List.flatten_cons]

/-- Nothing is written twice. -/
theorem nodup_keys_diff (index : ChainIndex) (nodup : chains.flatten.Nodup) :
    ((index.diff chains).map Prod.fst).Nodup := by
  rw [← map_fst_linksOf 0] at nodup
  refine List.Nodup.sublist ?_ nodup
  unfold diff
  induction linksOf 0 chains with
  | nil => exact .slnil
  | cons l rest ih =>
      obtain ⟨e, link⟩ := l
      by_cases h : index.previousLink e = some link
      · simp only [List.filterMap_cons, if_pos h]
        exact .cons _ ih
      · simp only [List.filterMap_cons, if_neg h]
        exact .cons_cons _ ih

end ChainIndex

namespace ChainedVariable

open ChainIndex

variable {S : Type} {x : ChainedVariable S} {s : S} {index : ChainIndex}
  {chains : List (List Nat)} {e : Nat} {link : Link}

/-- The links of a variable are what it holds. -/
theorem follows_links : Follows (x.links s) e link ↔
    e < x.count s ∧ x.get s e = some link := by
  unfold Follows links
  rw [List.getElem?_map]
  by_cases hlt : e < x.count s
  · rw [List.getElem?_range hlt, Option.map_some, Option.some_inj,
      and_iff_right hlt]
  · rw [List.getElem?_eq_none
      (by rw [List.length_range]; exact Nat.le_of_not_lt hlt)]
    exact iff_of_false (fun h => by cases h) fun h => hlt h.1

/-- There is a link, or none, for each entity. -/
theorem length_links : (x.links s).length = x.count s :=
  (List.length_map ..).trans List.length_range

/-- An index that was built has the ways along the links. -/
theorem traces_of_index (h : x.index s = .ok index) :
    WellFormed (x.anchors s) (x.links s) ∧
    Traces (x.anchors s) (x.links s) index := by
  unfold ChainedVariable.index at h
  rcases ofLinks_spec (x.anchors s) (x.links s) with
    ⟨built, hok, hwell, htraces⟩ | ⟨flaw, herror, -⟩
  · cases hok.symm.trans h
    exact ⟨hwell, htraces⟩
  · cases herror.symm.trans h

/-- It has its entities in the table, -/
theorem tabled_of_index (h : x.index s = .ok index) : index.Tabled :=
  (traces_of_index h).2.tabled

/-- and none of them stands twice. -/
theorem nodup_of_index (h : x.index s = .ok index) :
    index.chains.flatten.Nodup :=
  (tabled_of_index h).nodup

/-- The entities of the index are those that hold a link. -/
theorem mem_flatten_of_index (h : x.index s = .ok index) :
    e ∈ index.chains.flatten ↔ e < x.count s ∧ (x.get s e).isSome := by
  obtain ⟨hwell, htraces⟩ := traces_of_index h
  have hassigned : e ∈ index.chains.flatten ↔ Assigned (x.links s) e :=
    htraces.mem_flatten_iff.trans ⟨Rooted.assigned, hwell.rooted e⟩
  rw [hassigned, Option.isSome_iff_exists]
  constructor
  · intro g
    obtain ⟨link, hfollows⟩ := g
    obtain ⟨hlt, hget⟩ := follows_links.mp hfollows
    exact ⟨hlt, link, hget⟩
  · intro g
    obtain ⟨hlt, link, hget⟩ := g
    exact ⟨link, follows_links.mpr ⟨hlt, hget⟩⟩

/-- What an entity follows in the index it holds as its link. -/
theorem previousLink_eq_get (h : x.index s = .ok index) (he : e < x.count s) :
    index.previousLink e = x.get s e := by
  obtain ⟨hwell, htraces⟩ := traces_of_index h
  rw [(htraces.faithful hwell).previous e, links, List.getElem?_map,
    List.getElem?_range he]
  rfl

variable (own : x.cells.Lawful) (h : x.index s = .ok index)
  (rearranged : Rearranged index.chains chains)

include own in
/-- Links keep the number of entities. -/
theorem count_setAll (changes : LinkChanges) :
    x.count (x.setAll s changes) = x.count s :=
  own.count_setAll changes s

include own h rearranged in
/-- An entity of the new chains follows what it stands behind there. -/
theorem get_diff_of_mem (hlink : (e, link) ∈ linksOf 0 chains) :
    x.get (x.setAll s (index.diff chains)) e = some link := by
  obtain ⟨hwell, htraces⟩ := traces_of_index h
  have nodup := rearranged.nodup htraces.nodup
  have hflat : e ∈ index.chains.flatten :=
    rearranged.perm.mem_iff.mp (mem_flatten_of_mem_linksOf hlink)
  have he : e < x.cells.count s := ((mem_flatten_of_index h).mp hflat).1
  by_cases hsame : index.previousLink e = some link
  · -- the link is not written, and it was there before
    have hkey : e ∉ (index.diff chains).map Prod.fst := by
      intro hkey
      obtain ⟨other, hother, hne⟩ := mem_keys_diff.mp hkey
      exact hne (hsame.trans (congrArg some (link_unique nodup hlink hother)))
    have hfollows :=
      (htraces.mem_linksOf_iff hwell).mp
        ((previousLink_iff htraces.tabled).mp hsame)
    exact (own.get_setAll_of_notMem _ he hkey).trans
      (follows_links.mp hfollows).2
  · have hkey := mem_keys_diff.mpr ⟨link, hlink, hsame⟩
    refine own.get_setAll_of_mem (· = some link) _ he hkey ?_
    intro change hchange hfst
    obtain ⟨d, held⟩ := change
    obtain rfl : d = e := hfst
    obtain ⟨other, rfl, hother, -⟩ := mem_diff.mp hchange
    exact congrArg some (link_unique nodup hother hlink)

include own h rearranged in
/-- After the writes the links are those of the new chains. -/
theorem follows_diff :
    Follows (x.links (x.setAll s (index.diff chains))) e link ↔
    (e, link) ∈ linksOf 0 chains := by
  rw [follows_links, count_setAll own]
  constructor
  · intro g
    obtain ⟨hlt, hget⟩ := g
    have hon : ∃ other, (e, other) ∈ linksOf 0 chains := by
      refine Classical.byContradiction fun hoff => ?_
      -- an entity on no new chain is not written, so it was on an old one
      have hkey : e ∉ (index.diff chains).map Prod.fst := by
        intro hkey
        obtain ⟨other, hother, -⟩ := mem_keys_diff.mp hkey
        exact hoff ⟨other, hother⟩
      have hold : x.get s e = some link :=
        (own.get_setAll_of_notMem _ hlt hkey).symm.trans hget
      have hflat : e ∈ index.chains.flatten :=
        (mem_flatten_of_index h).mpr ⟨hlt, by rw [hold]; rfl⟩
      obtain ⟨a, p, hstands⟩ :=
        mem_flatten_iff.mp (rearranged.perm.mem_iff.mpr hflat)
      exact hoff (exists_mem_linksOf hstands)
    obtain ⟨other, hother⟩ := hon
    rw [get_diff_of_mem own h rearranged hother] at hget
    cases hget
    exact hother
  · intro hlink
    have hflat := rearranged.perm.mem_iff.mp (mem_flatten_of_mem_linksOf hlink)
    exact ⟨((mem_flatten_of_index h).mp hflat).1,
      get_diff_of_mem own h rearranged hlink⟩

include own h rearranged in
/-- Writing the diff makes the chains of a solution the new ones. -/
theorem index_diff
    (anchors : x.anchors (x.setAll s (index.diff chains)) = x.anchors s) :
    x.index (x.setAll s (index.diff chains)) =
      .ok (.ofChains (x.count s) chains) := by
  obtain ⟨-, htraces⟩ := traces_of_index h
  unfold ChainedVariable.index
  rw [anchors, ← htraces.length, ← rearranged.length, ← count_setAll own,
    ← length_links]
  exact ofLinks_of_linksOf (fun _ _ => follows_diff own h rearranged)
    (rearranged.nodup htraces.nodup)

end ChainedVariable

end PlanSearch

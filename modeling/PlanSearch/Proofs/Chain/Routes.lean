/-
Routes, written as links and read back as chains.

The routing problem makes chains into a solution by writing, visit by
visit, the link each stands behind. As long as no visit is on two routes
or twice on one, every visit keeps the link it was given, and the index
of the solution has the routes again.
-/
import PlanSearch.Proofs.Chain.Diff
import PlanSearch.Proofs.Chain.Faithful
import PlanSearch.Proofs.Problems

namespace PlanSearch

namespace Routing

open ChainIndex

variable {chains : List (List Nat)} {count : Nat}

/-- No visit driven to yet. -/
def unvisited (chains : List (List Nat)) (count : Nat) : Routing :=
  ⟨chains.map fun _ => 0, visitsAlong count, none⟩

/-- Visits without routes are as many as asked for. -/
theorem count_unvisited : previous.count (unvisited chains count) = count := by
  show ((List.range count).map _).length = count
  rw [List.length_map, List.length_range]

/-- Visits without routes follow nothing. -/
theorem get_unvisited {e : Nat} (h : e < count) :
    previous.get (unvisited chains count) e = none := by
  show (((List.range count).map _)[e]?).bind Visit.previous = none
  rw [List.getElem?_map, List.getElem?_range h]
  rfl

/-- The links that make the visits stand in chains. -/
def routeChanges (chains : List (List Nat)) : LinkChanges :=
  (linksOf 0 chains).map fun l => (l.1, some l.2)

/-- Routes are entered link by link. -/
theorem mem_routeChanges {e : Nat} {held : Option Link} :
    (e, held) ∈ routeChanges chains ↔
    ∃ link, (e, link) ∈ linksOf 0 chains ∧ held = some link := by
  constructor
  · intro h
    obtain ⟨⟨d, link⟩, hlink, heq⟩ := List.mem_map.mp h
    obtain ⟨rfl, rfl⟩ := Prod.mk.inj heq
    exact ⟨link, hlink, rfl⟩
  · intro g
    obtain ⟨link, hlink, rfl⟩ := g
    exact List.mem_map.mpr ⟨(e, link), hlink, rfl⟩

/-- The solution with the visits standing in chains. -/
def routes (chains : List (List Nat)) (count : Nat) : Routing :=
  previous.setAll (unvisited chains count) (routeChanges chains)

/-- Chains are written as links, one visit after the other. -/
theorem ofChains_eq (known : ∀ e ∈ chains.flatten, e < count) :
    ofChains chains count = .ok (routes chains count) := by
  have hall : ((linksOf 0 chains).all fun l => l.1 < count) = true := by
    rw [List.all_eq_true]
    intro l hl
    exact decide_eq_true (known l.1 (mem_flatten_of_mem_linksOf hl))
  -- writing links into the solution is the same fold, over its visits
  have hfold : ∀ (ls : List (Nat × Link)) (depots : List Int)
          (visits : List Visit)
      (stored : Option HardSoft),
      previous.setAll ⟨depots, visits, stored⟩
        (ls.map fun l => (l.1, some l.2)) =
        ⟨depots, ls.foldl (fun visits l => visits.modify l.1 fun v =>
          { v with previous := some l.2 }) visits, stored⟩ := by
    intro ls
    induction ls with
    | nil => exact fun _ _ _ => rfl
    | cons l rest ih => exact fun depots _ stored => ih depots _ stored
  unfold ofChains routes routeChanges unvisited
  rw [if_pos hall, hfold]
  rfl

theorem count_routes : previous.count (routes chains count) = count :=
  (lawful_previous.count_setAll (routeChanges chains) _).trans count_unvisited

/-- The anchors are the vehicles, one for each chain. -/
theorem anchors_routes :
    previous.anchors (routes chains count) = chains.length := by
  have hkeep : ∀ (changes : LinkChanges) (s : Routing),
      previous.anchors (previous.setAll s changes) = previous.anchors s := by
    intro changes
    induction changes with
    | nil => exact fun s => rfl
    | cons change rest ih =>
        exact fun s => ih (previous.set s change.1 change.2)
  unfold routes
  rw [hkeep]
  exact List.length_map ..

/-- A visit on a route follows what it stands behind, -/
theorem get_routes_of_mem (nodup : chains.flatten.Nodup)
    (known : ∀ e ∈ chains.flatten, e < count) {e : Nat} {link : Link}
    (h : (e, link) ∈ linksOf 0 chains) :
    previous.get (routes chains count) e = some link := by
  have hlt : e < previous.count (unvisited chains count) := by
    rw [count_unvisited]
    exact known e (mem_flatten_of_mem_linksOf h)
  have hkey : e ∈ (routeChanges chains).map Prod.fst :=
    List.mem_map.mpr ⟨(e, some link), mem_routeChanges.mpr ⟨link, h, rfl⟩, rfl⟩
  refine lawful_previous.get_setAll_of_mem (· = some link)
    (routeChanges chains) hlt hkey ?_
  intro g hchange hgiven
  obtain ⟨d, held⟩ := g
  subst hgiven
  obtain ⟨other, hother, rfl⟩ := mem_routeChanges.mp hchange
  exact congrArg some (link_unique nodup hother h)

/-- and one on no route follows nothing. -/
theorem get_routes_of_notMem {e : Nat} (hlt : e < count)
    (h : ∀ link, (e, link) ∉ linksOf 0 chains) :
    previous.get (routes chains count) e = none := by
  have hkey : e ∉ (routeChanges chains).map Prod.fst := by
    intro hkey
    obtain ⟨⟨d, held⟩, hchange, rfl⟩ := List.mem_map.mp hkey
    obtain ⟨link, hlink, -⟩ := mem_routeChanges.mp hchange
    exact h link hlink
  have hcount : e < previous.count (unvisited chains count) := by
    rw [count_unvisited]
    exact hlt
  exact (lawful_previous.get_setAll_of_notMem (routeChanges chains)
    hcount hkey).trans
    (get_unvisited hlt)

/-- The links of the visits are those of the chains. -/
theorem follows_routes (nodup : chains.flatten.Nodup)
    (known : ∀ e ∈ chains.flatten, e < count) (e : Nat) (link : Link) :
    Follows (previous.links (routes chains count)) e link ↔
    (e, link) ∈ linksOf 0 chains := by
  rw [ChainedVariable.follows_links, count_routes]
  constructor
  · intro g
    obtain ⟨hlt, hget⟩ := g
    by_cases hon : ∃ other, (e, other) ∈ linksOf 0 chains
    · obtain ⟨other, hother⟩ := hon
      rw [get_routes_of_mem nodup known hother] at hget
      exact Option.some.inj hget ▸ hother
    · rw [get_routes_of_notMem hlt fun other hother => hon ⟨other, hother⟩]
        at hget
      cases hget
  · intro h
    exact ⟨known e (mem_flatten_of_mem_linksOf h),
      get_routes_of_mem nodup known h⟩

/-- Routes written into a solution are the chains read from it. -/
theorem index_routes (nodup : chains.flatten.Nodup)
    (known : ∀ e ∈ chains.flatten, e < count) :
    previous.index (routes chains count) = .ok (.ofChains count chains) := by
  have hlength : (previous.links (routes chains count)).length = count :=
    ChainedVariable.length_links.trans count_routes
  unfold ChainedVariable.index
  rw [anchors_routes, ofLinks_of_linksOf (follows_routes nodup known) nodup,
    hlength]

end Routing

-- ============================================================== the whole

namespace ChainIndex

/-- Building accepts exactly the links that are chains, names a flaw that
is there in all others, and loses nothing: the index answers for the links,
and routes come back as they were written. -/
theorem ofLinks_exact :
    (∀ anchors links, (∃ index, ofLinks anchors links = .ok index) ↔
        WellFormed anchors links)
      ∧ (∀ anchors links, ¬ WellFormed anchors links →
          ∃ flaw, ofLinks anchors links = .error flaw ∧ Shows anchors links flaw
            ∧ ∃ text, flaw.error = .structural text)
      ∧ (∀ anchors links index, ofLinks anchors links = .ok index →
          Faithful anchors links index)
      ∧ ∀ (chains : List (List Nat)) (count : Nat),
          (∀ chain ∈ chains, chain.Nodup) → chains.Pairwise List.Disjoint →
          (∀ chain ∈ chains, ∀ e ∈ chain, e < count) →
          ∃ s, Routing.ofChains chains count = .ok s
            ∧ Routing.previous.index s = .ok (.ofChains count chains) := by
  refine ⟨fun anchors links => ?_, fun anchors links hnot => ?_,
    fun anchors links index h => ?_,
      fun chains count hchains hapart hknown => ?_⟩
  · rcases ofLinks_spec anchors links
      with ⟨index, hok, hwell, -⟩ | ⟨flaw, herror, hshows⟩
    · exact iff_of_true ⟨index, hok⟩ hwell
    · refine iff_of_false (fun h => ?_) fun hwell => hwell.not_shows flaw hshows
      obtain ⟨index, hok⟩ := h
      cases herror.symm.trans hok
  · rcases ofLinks_spec anchors links
      with ⟨index, -, hwell, -⟩ | ⟨flaw, herror, hshows⟩
    · exact absurd hwell hnot
    · exact ⟨flaw, herror, hshows, flaw.message, rfl⟩
  · rcases ofLinks_spec anchors links
      with ⟨built, hok, hwell, htraces⟩ | ⟨flaw, herror, -⟩
    · cases hok.symm.trans h
      exact htraces.faithful hwell
    · cases herror.symm.trans h
  · have hnodup : chains.flatten.Nodup :=
      List.nodup_flatten.mpr ⟨hchains, hapart⟩
    have hin : ∀ e ∈ chains.flatten, e < count := by
      intro e he
      obtain ⟨chain, hchain, hmem⟩ := List.mem_flatten.mp he
      exact hknown chain hchain e hmem
    exact ⟨_, Routing.ofChains_eq hin, Routing.index_routes hnodup hin⟩

/-- Two routes, beside a visit that is on none and a depot where none
starts; and a circle, from which no way leads to an anchor. -/
theorem ofLinks_exact_routes :
    WellFormed 3 [some (.anchor 1), none, some (.entity 0), some (.anchor 0)]
      ∧ Faithful 3 [some (.anchor 1), none, some (.entity 0), some (.anchor 0)]
          ⟨[[3], [0, 2], []], [some (1, 0), none, some (1, 1), some (0, 0)]⟩
      ∧ (∃ flaw, ofLinks 1 [some (.entity 1), some (.entity 0)] = .error flaw
          ∧ Shows 1 [some (.entity 1), some (.entity 0)] flaw
          ∧ ∃ text, flaw.error = .structural text)
      ∧ ∃ s, Routing.ofChains [[3], [0, 2], []] 4 = .ok s
          ∧ Routing.previous.index s = .ok (.ofChains 4 [[3], [0, 2], []]) := by
  obtain ⟨hiff, hflaw, hfaithful, hround⟩ := ofLinks_exact
  have hroutes : ofLinks 3 [some (.anchor 1), none, some (.entity 0),
      some (.anchor 0)] =
      .ok ⟨[[3], [0, 2], []], [some (1, 0), none, some (1, 1), some (0, 0)]⟩ :=
    rfl
  have hcircle : ¬ WellFormed 1 [some (.entity 1), some (.entity 0)] := by
    intro hwell
    obtain ⟨index, hindex⟩ := (hiff 1 _).mpr hwell
    cases hindex
  exact ⟨(hiff 3 _).mp ⟨_, hroutes⟩, hfaithful 3 _ _ hroutes, hflaw 1 _ hcircle,
    hround _ 4 (by decide) (by simp [List.Disjoint]) (by decide)⟩

end ChainIndex

end PlanSearch

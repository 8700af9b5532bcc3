/-
Tails that stay where they are.

A tail is attached behind a link that its first entity does not follow, so
one would expect that something changes. Between two chains it does, and
so it does behind a link further on. Behind a link before the entity the
run between is turned around, and a run of one entity is the same either
way round. That is the case where the link is the one which the entity's
predecessor follows (`Reattached.eq_iff`).

The selector on tails leaves out two links for each entity, the entity
itself and the link it follows, but not this third one. So of what comes up
in its passes exactly the turns of a single entity are not doable, and
executing one of them touches nothing.
-/
import PlanSearch.Proofs.Move.Doable
import PlanSearch.Proofs.Selector.Drawn
import PlanSearch.Proofs.Selector.Segments
import PlanSearch.Proofs.Selector.Supply

namespace PlanSearch

open ChainIndex

variable {D S V Sc : Type}

-- ==================================================================== chains

namespace ChainIndex

variable {chains others : List (List Nat)} {ahead behind run front : List Nat}
  {a d e : Nat} {link : Link}

/-- A chain is left alone exactly if it is replaced by itself. -/
theorem set_eq_self_iff {chain other : List Nat} (h : chains[a]? = some chain) :
    chains.set a other = chains ↔ other = chain := by
  constructor
  · intro heq
    have hother := getElem?_set_cut h other
    rw [heq, h] at hother
    exact (Option.some.inj hother).symm
  · rintro rfl
    obtain ⟨ha, rfl⟩ := List.getElem?_eq_some_iff.mp h
    exact List.set_getElem_self ha

/-- A run without repetitions reads the same backwards only if it is too
short to be told apart. -/
theorem length_le_one_of_reverse (nodup : run.Nodup) (h : run.reverse = run) :
    run.length ≤ 1 := by
  cases run with
  | nil => exact Nat.zero_le 1
  | cons d rest =>
      rw [List.reverse_cons] at h
      cases hrest : rest.reverse with
      | nil =>
          rw [List.reverse_eq_nil_iff.mp hrest]
          exact Nat.le_refl 1
      | cons f more =>
          -- the last entity of the rest would come first
          rw [hrest] at h
          obtain ⟨rfl, -⟩ := List.cons.inj h
          have hmem : f ∈ rest :=
            List.mem_reverse.mp (hrest ▸ List.mem_cons_self ..)
          exact absurd hmem (List.nodup_cons.mp nodup).1

/-- The link behind an entity is the entity. -/
theorem Upto.eq_entity (h : Upto a link (front ++ [e])) : link = .entity e := by
  generalize hpart : front ++ [e] = part at h
  cases h with
  | anchor => simp at hpart
  | entity other c =>
      obtain ⟨-, hlast⟩ := List.append_inj' hpart rfl
      rw [List.cons.inj hlast |>.1]

/-- An entity follows a link where it stands right behind it. -/
theorem mem_linksOf_upto (nodup : chains.flatten.Nodup)
    (hcut : chains[a]? = some (ahead ++ behind)) (hupto : Upto a link ahead) :
    (d, link) ∈ linksOf 0 chains ↔ Stands chains a ahead.length d := by
  cases hupto with
  | anchor => exact mem_linksOf_anchor
  | entity front c =>
      have hc : Stands chains a front.length c :=
        stands_iff_cut.mpr ⟨front, behind, by
          rw [hcut, List.append_assoc]; rfl, rfl⟩
      rw [mem_linksOf_entity, List.length_append]
      constructor
      · rintro ⟨b, p, hb, hd⟩
        obtain ⟨rfl, rfl⟩ := hc.place_unique nodup hb
        exact hd
      · exact fun hd => ⟨a, front.length, hc, hd⟩

/-- And with one entity between where it stands one place further. -/
theorem second_iff_upto (nodup : chains.flatten.Nodup)
    (hcut : chains[a]? = some (ahead ++ behind)) (hupto : Upto a link ahead) :
    (∃ d, (d, link) ∈ linksOf 0 chains ∧ (e, .entity d) ∈ linksOf 0 chains) ↔
      Stands chains a (ahead.length + 1) e := by
  constructor
  · rintro ⟨d, hd, he⟩
    obtain ⟨b, p, hb, he⟩ := mem_linksOf_entity.mp he
    obtain ⟨rfl, rfl⟩ :=
      ((mem_linksOf_upto nodup hcut hupto).mp hd).place_unique nodup hb
    exact he
  · intro he
    have hlt : ahead.length + 1 < (chains.getD a []).length :=
      (List.getElem?_eq_some_iff.mp he).1
    have hd : Stands chains a ahead.length (chains.getD a [])[ahead.length] :=
      List.getElem?_eq_getElem (Nat.lt_of_succ_lt hlt)
    exact ⟨_, (mem_linksOf_upto nodup hcut hupto).mpr hd,
      mem_linksOf_entity.mpr ⟨a, _, hd, he⟩⟩

/-- Attaching a tail behind a link that it does not follow leaves the chains
as they are exactly if one entity stands between. -/
theorem Reattached.eq_iff (nodup : chains.flatten.Nodup)
    (h : Reattached chains e link others) (hlink : link ≠ .entity e)
    (hown : (e, link) ∉ linksOf 0 chains) : others = chains ↔
    ∃ d, (d, link) ∈ linksOf 0 chains ∧ (e, .entity d) ∈ linksOf 0 chains := by
  cases h with
  | @across a b front tail ahead behind hab hfront hahead hupto =>
      have he : Stands chains a front.length e :=
        stands_iff_cut.mpr ⟨front, tail, hfront, rfl⟩
      rw [second_iff_upto nodup hahead hupto]
      refine iff_of_false (fun heq => hown ?_) fun hthere =>
        hab (he.place_unique nodup hthere).1
      have hset : (chains.set a (front ++ behind))[b]?
          = some (ahead ++ behind) := by
        rw [List.getElem?_set_ne hab]
        exact hahead
      have hother := getElem?_set_cut hset (ahead ++ e :: tail)
      rw [heq, hahead] at hother
      obtain rfl := List.append_cancel_left (Option.some.inj hother)
      have hstands := stands_iff_cut.mpr ⟨ahead, tail, hahead, rfl⟩
      exact (mem_linksOf_upto nodup hahead hupto).mpr hstands
  | @onward a front run behind hcut hupto =>
      have hchain := (List.nodup_flatten.mp nodup).1 _
        (List.mem_of_getElem? hcut)
      have hrun : (e :: run).Nodup :=
        (List.nodup_append.mp (List.nodup_append.mp hchain).1).2.1
      have he : Stands chains a front.length e :=
        stands_iff_cut.mpr ⟨front, run ++ behind, by
          rw [hcut, List.append_assoc]; rfl, rfl⟩
      rw [second_iff_upto nodup hcut hupto, set_eq_self_iff hcut]
      refine iff_of_false (fun heq => hlink ?_) fun hthere => ?_
      · have hturned := List.append_cancel_left (List.append_cancel_right heq)
        have hone := length_le_one_of_reverse hrun hturned
        obtain rfl : run = [] :=
          List.eq_nil_of_length_eq_zero (by simpa using hone)
        exact hupto.eq_entity
      · have hplace := (he.place_unique nodup hthere).2
        rw [List.length_append] at hplace
        omega
  | @backward a ahead run tail hcut hupto =>
      have hchain := (List.nodup_flatten.mp nodup).1 _
        (List.mem_of_getElem? hcut)
      have hrun : run.Nodup :=
        (List.nodup_append.mp (List.nodup_append.mp hchain).1).2.1
      have he : Stands chains a (ahead ++ run).length e :=
        stands_iff_cut.mpr ⟨ahead ++ run, tail, hcut, rfl⟩
      have hcut' : chains[a]? = some (ahead ++ (run ++ e :: tail)) := by
        rw [hcut, List.append_assoc]
      rw [second_iff_upto nodup hcut' hupto, set_eq_self_iff hcut]
      rw [List.length_append] at he
      constructor
      · intro heq
        have hturned := List.append_cancel_left (List.append_cancel_right heq)
        have hone := length_le_one_of_reverse hrun hturned
        have hsome : run.length ≠ 0 := by
          intro hzero
          rw [hzero] at he
          exact hown ((mem_linksOf_upto nodup hcut' hupto).mpr he)
        obtain hlength : run.length = 1 := by omega
        rwa [hlength] at he
      · intro hthere
        have hplace := (he.place_unique nodup hthere).2
        obtain ⟨d, rfl⟩ :=
          List.length_eq_one_iff.mp (Nat.add_left_cancel hplace)
        rfl

end ChainIndex

-- ================================================================= one step

/-- One entity stands between a link and an entity. -/
def ChainedVariable.OneBetween (x : ChainedVariable S) (s : S) (link : Link)
    (e : Nat) : Prop :=
  ∃ d, x.get s e = some (.entity d) ∧ x.get s d = some link

section

variable {x : ChainedVariable S} {s : S} {index : ChainIndex} {e : Nat}
  {link : Link} {chains : List (List Nat)}

/-- The links of the index are those that the solution holds. -/
theorem ChainedVariable.mem_linksOf_iff_get (h : x.index s = .ok index) :
    (e, link) ∈ linksOf 0 index.chains ↔
    e < x.count s ∧ x.get s e = some link := by
  obtain ⟨hwell, htraces⟩ := traces_of_index h
  exact (htraces.mem_linksOf_iff hwell).trans follows_links

/-- One entity between link and entity, in the chains as in the solution. -/
theorem ChainedVariable.oneBetween_iff (h : x.index s = .ok index)
    (he : e < x.count s) :
    (∃ d, (d, link) ∈ linksOf 0 index.chains ∧
      (e, .entity d) ∈ linksOf 0 index.chains) ↔ x.OneBetween s link e := by
  constructor
  · rintro ⟨d, hd, hbefore⟩
    exact ⟨d, ((mem_linksOf_iff_get h).mp hbefore).2,
      ((mem_linksOf_iff_get h).mp hd).2⟩
  · rintro ⟨d, hbefore, hd⟩
    have hmem := (mem_linksOf_iff_get h).mpr ⟨he, hbefore⟩
    -- who is followed stands in a chain, and so is an entity of the solution
    obtain ⟨a, p, hstands, -⟩ := mem_linksOf_entity.mp hmem
    have hlt :=
      ((mem_flatten_of_index h).mp (mem_flatten_iff.mpr ⟨a, p, hstands⟩)).1
    exact ⟨d, (mem_linksOf_iff_get h).mpr ⟨hlt, hd⟩, hmem⟩

/-- There is nothing to write exactly if the chains are the old ones. -/
theorem ChainedVariable.diff_eq_nil_iff (own : x.cells.Lawful)
    (h : x.index s = .ok index) (rearranged : Rearranged index.chains chains) :
    index.diff chains = [] ↔ chains = index.chains := by
  constructor
  · intro hnil
    have hnew := index_diff own h rearranged (by rw [hnil]; rfl)
    rw [hnil] at hnew
    cases h.symm.trans hnew
    rfl
  · rintro rfl
    refine List.eq_nil_iff_forall_not_mem.mpr fun change hchange => ?_
    obtain ⟨link, -, hlink, hne⟩ := mem_diff.mp hchange
    exact hne ((previousLink_iff (tabled_of_index h)).mpr hlink)

variable [BEq V]

/-- A move of one step is doable if the step is. -/
theorem Move.isDoable_step (t : Step S V) (s : S) :
    (Move.step t).isDoable s = t.isDoable s := Bool.or_false _

/-- A tail that fits stays where it is exactly if one entity stands between. -/
theorem Step.isDoable_tailSwap_iff (own : x.cells.Lawful)
    (h : x.index s = .ok index) (fits : Leaf.FitsTail x s (e, link)) :
    (tailSwap x e link : Step S V).isDoable s = true ↔
    ¬ x.OneBetween s link e := by
  obtain ⟨hentity, hlink, hne, hother⟩ := fits
  have tabled := ChainedVariable.tabled_of_index h
  obtain ⟨others, hothers⟩ := (swapTails_iff tabled).mpr
    ⟨(ChainedVariable.present_iff_has h).mpr hentity,
      (ChainedVariable.present_iff_has h).mpr hlink, hne⟩
  have hchanges : (tailSwap x e link : Step S V).linkChanges s
      = index.diff others := by
    refine linkChanges_of_ok ?_
    show plan x s _ = _
    rw [plan_of_index h, hothers]
    rfl
  have hown : (e, link) ∉ linksOf 0 index.chains :=
    fun hmem => hother ((ChainedVariable.mem_linksOf_iff_get h).mp hmem).2
  rw [isDoable, hchanges, Bool.not_eq_true', Bool.eq_false_iff, ne_eq,
    List.isEmpty_iff,
    ChainedVariable.diff_eq_nil_iff own h (rearranged_swapTails tabled hothers),
    (reattached_swapTails tabled hothers).eq_iff tabled.nodup hne hown,
    ChainedVariable.oneBetween_iff h hentity.1]

/-- Where it is doable, some entity follows another link afterwards. -/
theorem Step.exists_get_tailSwap_ne (own : x.cells.Lawful)
    (doable : (tailSwap x e link : Step S V).isDoable s = true) :
    ∃ c < x.count s,
      x.get s c ≠ x.get ((tailSwap x e link : Step S V).apply s) c := by
  rw [apply_eq_setAllLinks (x := x) rfl]
  cases hplanned : (tailSwap x e link : Step S V).linkPlan s with
  | error flaw =>
      rw [isDoable, linkChanges_of_error hplanned] at doable
      cases doable
  | ok changes =>
      obtain ⟨found, chains, hfound, hchains, rfl⟩ := plan_ok hplanned
      rw [isDoable, linkChanges_of_ok hplanned] at doable
      rw [linkChanges_of_ok hplanned]
      have rearranged :=
        rearranged_swapTails (ChainedVariable.tabled_of_index hfound) hchains
      refine exists_get_diff_ne own hfound rearranged fun hnil => ?_
      rw [hnil] at doable
      cases doable

variable [Director D S Sc]

/-- Where it is not, nothing is touched. -/
theorem Step.leads_tailSwap_idle {d : D}
    (idle : (tailSwap x e link : Step S V).isDoable (Director.working d)
      = false) :
    ((tailSwap x e link : Step S V).run : Act D Unit).Leads False d
      fun _ done => done = d := by
  have hnil := List.isEmpty_iff.mp (Bool.eq_true_of_not_eq_false' idle)
  refine Act.leads_bind (Act.leads_get ?_)
  rw [batch?, hnil]
  exact Act.leads_pure rfl

end

-- =================================================================== passes

variable [BEq V]

namespace Leaf

/-- The move comes up: in some pass over the solution, in either order, or
in an attempt to draw one, whatever the attempts before have kept. -/
inductive ComesUp (l : Leaf S V) (s : S) (m : Move S V) : Prop
  | passed (order : Order) (seed : UInt64) : (Selector.leaf l order seed).Yields
    s m → ComesUp l s m
  | drawn (sampler : Sampler S V) (held : List Nat) :
      l.sampler s = some sampler →
        (sampler held).Yields (.take m) → ComesUp l s m

variable {x : ChainedVariable S} {s : S} {index : ChainIndex} {m : Move S V}

/-- A leaf supplies what comes up. -/
theorem ComesUp.ok {l : Leaf S V} {excuse : Prop} {ok : Move S V → Prop}
    (h : l.ComesUp s m) (supplies : l.Supplies excuse ok s) : ok m := by
  cases h with
  | passed order seed hyields =>
      exact Selector.ok_of_yields hyields (supplies.leaf order seed)
  | drawn sampler held hsampler hyields =>
      exact (supplies.drawn sampler hsampler).taken held m hyields

/-- Each move of a leaf comes up in the given order. -/
theorem comesUp_of_mem {l : Leaf S V} (h : m ∈ l.moves s) : l.ComesUp s m := by
  have hlisted : ∀ moves : List (Move S V), m ∈ moves →
      (Reading.listed moves).Yields s m := by
    intro moves hm
    induction moves with
    | nil => cases hm
    | cons n rest ih =>
        have hnext : (Reading.next s 1 (.listed (n :: rest))).run []
            = (.ok (.move n, .listed rest), []) := rfl
        rcases List.mem_cons.mp hm with rfl | hm
        · exact .now hnext
        · exact .later hnext (ih hm)
  exact .passed .given 0 ⟨1, [], _, _, rfl, hlisted _ h⟩

/-- The moves of the leaf are the tail swaps that fit. -/
theorem mem_moves_tailSwap (hindex : x.index s = .ok index) :
    m ∈ (Leaf.tailSwap x : Leaf S V).moves s ↔
      ∃ e link, FitsTail x s (e, link) ∧ m = .step (.tailSwap x e link) := by
  obtain ⟨items, -, hmem, hmoves⟩ := exists_items_tailSwap (V := V) hindex
  rw [hmoves, List.mem_map]
  constructor
  · rintro ⟨⟨e, link⟩, hitem, rfl⟩
    exact ⟨e, link, (hmem _).mp hitem, rfl⟩
  · rintro ⟨e, link, fits, rfl⟩
    exact ⟨(e, link), (hmem _).mpr fits, rfl⟩

/-- The leaf supplies its own moves and nothing else. -/
theorem supplies_tailSwap (x : ChainedVariable S) (s : S) :
    (Leaf.tailSwap x : Leaf S V).Supplies False
      (· ∈ (Leaf.tailSwap x : Leaf S V).moves s) s :=
  ⟨fun _ hm => hm, fun _ hsampler =>
    ⟨fun _ _ hm => mem_moves_of_yields_tailSwap hsampler hm,
      .inr (safe_tailSwap hsampler)⟩⟩

variable [Planning S Sc] [Director D S Sc] [LawfulDirector D]
  {vs : Variables S V}

omit [Planning S Sc] [LawfulDirector D] in
/-- As a move, a tail that is not doable touches nothing either. -/
theorem leads_tail_idle {e : Nat} {link : Link} {d : D}
    (idle : (Step.tailSwap x e link : Step S V).isDoable (Director.working d)
      = false) :
    ((Move.step (.tailSwap x e link) : Move S V).run : Act D Unit).Leads False d
      fun _ done => done = d := by
  refine Act.leads_bind ((Step.leads_tailSwap_idle idle).mono ?_ id)
  exact fun _ _ hdone => Act.leads_pure hdone

/-- Whatever comes up is a tail and a link that it does not follow. It is
doable, and executing it gives some entity another link, unless one entity
stands between the link and the tail; then executing it touches nothing. -/
theorem tail_doable_unless_oneBetween (lawful : vs.Lawful)
    (hx : x ∈ vs.chained) (d : D)
    (hindex : x.index (Director.working d) = .ok index)
    (hm : (Leaf.tailSwap x).ComesUp (Director.working d) m) :
    ∃ e link, m = .step (.tailSwap x e link) ∧
      (m.isDoable (Director.working d) = true ↔
        ¬ x.OneBetween (Director.working d) link e) ∧
      (m.isDoable (Director.working d) = true →
        (m.run : Act D Unit).Leads (¬ Director.Quiet d) d fun _ done =>
          ∃ c < x.count (Director.working d),
            x.get (Director.working d) c ≠ x.get (Director.working done) c) ∧
      (m.isDoable (Director.working d) = false →
        (m.run : Act D Unit).Leads False d fun _ done => done = d) := by
  obtain ⟨e, link, fits, rfl⟩ :=
    (mem_moves_tailSwap hindex).mp
      (hm.ok (supplies_tailSwap x (Director.working d)))
  have own := lawful.links x hx
  rw [Move.isDoable_step]
  refine ⟨e, link, rfl, Step.isDoable_tailSwap_iff own hindex fits,
    fun doable => ?_, leads_tail_idle⟩
  obtain ⟨inv, hd, calls⟩ := Director.exists_announced d
  have hrun := (Move.step (.tailSwap x e link) : Move S V).leads_run calls hd
  refine hrun.mono ?_ id
  intro _ done hdone
  rw [hdone.2]
  exact Step.exists_get_tailSwap_ne own doable

/-- The tail at entity 1 of the first track, behind the anchor of the
second. -/
theorem tail_doable_unless_oneBetween_tracks :
    let d := Mixed.twoTracks
    let m : Move Mixed Int := .step (.tailSwap Mixed.previous 1 (.anchor 1))
    (Mixed.world.variables.Lawful ∧
      Mixed.previous ∈ Mixed.world.variables.chained ∧
      Mixed.previous.index d.working
        = .ok (.ofChains 7 [[0, 1, 2, 3], [4, 5]]) ∧
      (Leaf.tailSwap Mixed.previous).ComesUp d.working m ∧ Director.Quiet d) ∧
    m.isDoable d.working = true ∧
      (m.run : Act (FullDirector Mixed HardSoft) Unit).Leads
          (¬ Director.Quiet d) d fun _ done =>
        ∃ c < Mixed.previous.count d.working,
          Mixed.previous.get d.working c
              ≠ Mixed.previous.get done.working c := by
  intro d m
  have hm : (Leaf.tailSwap Mixed.previous).ComesUp d.working m :=
    comesUp_of_mem ((mem_moves_tailSwap Mixed.index_twoTracks).mpr
      ⟨1, .anchor 1, ⟨by decide, by decide, nofun, by decide⟩, rfl⟩)
  obtain ⟨e, link, -, -, hchanges, -⟩ :=
    tail_doable_unless_oneBetween (d := d) Mixed.lawful
    Mixed.previous_mem Mixed.index_twoTracks hm
  have doable : m.isDoable d.working = true := rfl
  exact ⟨⟨Mixed.lawful, Mixed.previous_mem, Mixed.index_twoTracks, hm,
    FullDirector.quiet d⟩, doable, hchanges doable⟩

/-- The tail at entity 1 also comes up, in either order, with the anchor of
its own track, and entity 0 stands between: turning that one around leaves
the director as it was. -/
theorem tail_turns_one_entity :
    let d := Mixed.twoTracks
    let m : Move Mixed Int := .step (.tailSwap Mixed.previous 1 (.anchor 0))
    Mixed.previous.index d.working = .ok (.ofChains 7 [[0, 1, 2, 3], [4, 5]]) ∧
      m ∈ (Leaf.tailSwap Mixed.previous).moves d.working ∧
      (∃ sampler, (Leaf.tailSwap Mixed.previous).sampler d.working
        = some sampler ∧
        (sampler []).Yields (.take m)) ∧
      m.isDoable d.working = false ∧
      (m.run : Act (FullDirector Mixed HardSoft) Unit).Leads False d
          fun _ done => done = d := by
  intro d m
  have hmoves : m ∈ (Leaf.tailSwap Mixed.previous).moves d.working :=
    (mem_moves_tailSwap Mixed.index_twoTracks).mpr
      ⟨1, .anchor 0, ⟨by decide, by decide, nofun, by decide⟩, rfl⟩
  obtain ⟨sampler, hsampler⟩ : ∃ sampler : Sampler Mixed Int,
      tailSwapSampler Mixed.previous d.working = some sampler := ⟨_, rfl⟩
  have hdrawn : (sampler []).Yields (.take m) :=
    yields_tailSwap hsampler Mixed.index_twoTracks (by decide) (by decide)
      (by decide) []
  have idle : (Step.tailSwap Mixed.previous 1 (.anchor 0) :
      Step Mixed Int).isDoable d.working = false := by decide
  exact ⟨Mixed.index_twoTracks, hmoves, ⟨sampler, hsampler, hdrawn⟩,
    (Move.isDoable_step ..).trans idle, leads_tail_idle idle⟩

end Leaf

end PlanSearch

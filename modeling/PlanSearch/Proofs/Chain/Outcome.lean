/-
What rearrangements come to.

Each rearrangement of chains is described twice more here, without numbers
and without the order in which it is worked out: when it is possible at
all, and what chains it leads to. Two segments can change places if they
have no entity in common, and each then stands between what the other one
stood between (`Exchanged`). A segment can move behind any link that is not
one of its own entities (`Relocated`). A tail can be attached behind any
link but its own first entity: between two chains the tails behind are
exchanged, within one chain the run between is turned around (`Reattached`).

In all three cases `_iff` says when there is an answer, and the other lemma
what it is. Of two segments of one chain the later one is replaced first;
otherwise it would no longer stand where it was found.
-/
import PlanSearch.Proofs.Chain.Cuts

namespace PlanSearch.ChainIndex

variable {index : ChainIndex} {chains others : List (List Nat)}
  {left right newLeft newRight segment : List Nat}
  {front middle back ahead behind : List Nat} {a e : Nat} {link : Link}
  {reversing : Bool}

-- =============================================================== exchange

/-- Two segments in each other's place, each in a new form. -/
inductive Exchanged (chains : List (List Nat))
    (left right newLeft newRight : List Nat) : List (List Nat) → Prop
  /-- of two chains, -/
  | apart {a b : Nat} {front back ahead behind : List Nat} : a ≠ b →
      chains[a]? = some (front ++ left ++ back) →
        chains[b]? = some (ahead ++ right ++ behind) →
      Exchanged chains left right newLeft newRight
        ((chains.set a (front ++ newRight ++ back)).set b
          (ahead ++ newLeft ++ behind))
  /-- of one, where the left one comes first, -/
  | onward {a : Nat} {front middle back : List Nat} :
      chains[a]? = some (front ++ left ++ middle ++ right ++ back) →
      Exchanged chains left right newLeft newRight
        (chains.set a (front ++ newRight ++ middle ++ newLeft ++ back))
  /-- or the right one. -/
  | backward {a : Nat} {front middle back : List Nat} :
      chains[a]? = some (front ++ right ++ middle ++ left ++ back) →
      Exchanged chains left right newLeft newRight
        (chains.set a (front ++ newLeft ++ middle ++ newRight ++ back))

/-- The later one of two segments of a chain is replaced, and then the
earlier one. -/
theorem replaceAt_replaceAt_cut
    (h : chains[a]? = some (front ++ left ++ middle ++ right ++ back)) :
    replaceAt (replaceAt chains a (front ++ left ++ middle).length
      right.length newRight)
        a front.length left.length newLeft =
      chains.set a (front ++ newLeft ++ middle ++ newRight ++ back) := by
  have hset : (chains.set a (front ++ left ++ middle ++ newRight ++ back))[a]? =
      some (front ++ left ++ (middle ++ newRight ++ back)) := by
    rw [getElem?_set_cut h]
    simp only [List.append_assoc]
  rw [replaceAt_cut h, replaceAt_cut hset, List.set_set]
  simp only [List.append_assoc]

/-- The run between front and back. -/
theorem runAt_cut (front run back : List Nat) :
    runAt (front ++ run ++ back) front.length run.length = run := by
  unfold runAt
  rw [List.append_assoc, List.drop_left, List.take_left]

/-- Segments of one chain are not mixed up by being looked for one by one. -/
theorem exists_middle_of_disjoint (hright : right ≠ [])
    (hdisjoint : left.Disjoint right)
    (h : front ++ left ++ back = ahead ++ right ++ behind)
    (hle : front.length ≤ ahead.length) : ∃ middle, ahead = front ++ left ++
    middle ∧ back = middle ++ right ++ behind := by
  have hends : front.length + left.length ≤ ahead.length := by
    refine run_end_le hle (runAt_cut front left back) ?_ hright hdisjoint
    rw [h]
    exact runAt_cut ahead right behind
  rw [← List.length_append] at hends
  rw [List.append_assoc ahead] at h
  obtain ⟨middle, hahead, hback⟩ := exists_middle h hends
  exact ⟨middle, hahead, hback.trans (List.append_assoc ..).symm⟩

/-- Swapped segments stand in each other's place. -/
theorem exchanged_swapSegments (tabled : index.Tabled)
    (h : index.swapSegments left right reversing = .ok others) :
    Exchanged index.chains left right (turned reversing left)
      (turned reversing right) others := by
  obtain ⟨a, p, b, q, hleft, hright, hdisjoint, hothers⟩ := swapSegments_inv h
  obtain ⟨hleftNe, front, back, hfront, rfl⟩ :=
    (locateSegment_iff tabled).mp hleft
  obtain ⟨hrightNe, ahead, behind, hahead, rfl⟩ :=
    (locateSegment_iff tabled).mp hright
  rcases hothers with ⟨⟨rfl, hle⟩, rfl⟩ | ⟨hplace, rfl⟩
  · have hsame := Option.some.inj (hfront.symm.trans hahead)
    obtain ⟨middle, rfl, rfl⟩ :=
      exists_middle_of_disjoint hrightNe hdisjoint hsame hle
    rw [replaceAt_replaceAt_cut hahead]
    exact .onward hahead
  · by_cases hab : a = b
    · subst hab
      have hle : ahead.length ≤ front.length :=
        Nat.le_of_not_le fun hle => hplace ⟨rfl, hle⟩
      have hsame := Option.some.inj (hahead.symm.trans hfront)
      obtain ⟨middle, rfl, rfl⟩ :=
        exists_middle_of_disjoint hleftNe
          (fun _ hr hl => hdisjoint hl hr) hsame hle
      rw [replaceAt_replaceAt_cut hfront]
      exact .backward hfront
    · have hset : (index.chains.set a
          (front ++ turned reversing right ++ back))[b]? =
          some (ahead ++ right ++ behind) := by
        rw [List.getElem?_set_ne hab]
        exact hahead
      rw [replaceAt_cut hfront, replaceAt_cut hset]
      exact .apart hab hfront hahead

/-- Two segments can change places if they share no entity. -/
theorem swapSegments_iff (tabled : index.Tabled) :
    (∃ others, index.swapSegments left right reversing = .ok others) ↔
      Segment index.chains left ∧ Segment index.chains right ∧
      left.Disjoint right := by
  rw [segment_iff_located tabled, segment_iff_located tabled]
  constructor
  · rintro ⟨others, h⟩
    obtain ⟨a, p, b, q, hleft, hright, hdisjoint, -⟩ := swapSegments_inv h
    exact ⟨⟨a, p, hleft⟩, ⟨b, q, hright⟩, hdisjoint⟩
  · rintro ⟨⟨a, p, hleft⟩, ⟨b, q, hright⟩, hdisjoint⟩
    have hapart : ¬ left.any right.contains = true := by
      rw [List.any_eq_true]
      rintro ⟨e, hl, hr⟩
      exact hdisjoint hl (List.contains_iff_mem.mp hr)
    unfold swapSegments
    rw [hleft, hright]
    dsimp only
    rw [if_neg hapart]
    by_cases hplace : a = b ∧ p ≤ q
    · exact ⟨_, if_pos hplace⟩
    · exact ⟨_, if_neg hplace⟩

-- ============================================================= relocation

/-- A segment taken out of its chain and put in, in a new form, directly
behind a link. -/
inductive Relocated (chains : List (List Nat))
    (segment : List Nat) (link : Link) (run : List Nat) : List (List Nat) → Prop
  | intro {a b : Nat} {front back ahead behind : List Nat} :
      chains[a]? = some (front ++ segment ++ back) →
      (chains.set a (front ++ back))[b]? = some (ahead ++ behind) →
        Upto b link ahead →
      Relocated chains segment link run
        ((chains.set a (front ++ back)).set b (ahead ++ run ++ behind))

/-- A segment taken out of its chain. -/
theorem replaceAt_cutOut (h : chains[a]? = some (front ++ segment ++ back)) :
    replaceAt chains a front.length segment.length []
      = chains.set a (front ++ back) := by
  rw [replaceAt_cut h, List.append_nil]

/-- A run put in where nothing is taken out. -/
theorem replaceAt_put (h : chains[a]? = some (ahead ++ behind))
    (run : List Nat) : replaceAt chains a ahead.length 0 run
      = chains.set a (ahead ++ run ++ behind) := by
  rw [← List.append_nil ahead] at h
  exact replaceAt_cut h run

/-- What is left when a segment is taken out: every other entity. -/
theorem perm_cutOut (h : chains[a]? = some (front ++ segment ++ back)) :
    (segment ++ (chains.set a (front ++ back)).flatten).Perm
      chains.flatten := by
  have hperm := perm_replaceAt chains front.length segment.length []
    (lt_length_of_cut h)
  rwa [replaceAt_cutOut h, getD_cut h, runAt_cut] at hperm

/-- Without the segment no entity stands twice either. -/
theorem nodup_cutOut (h : chains[a]? = some (front ++ segment ++ back))
    (nodup : chains.flatten.Nodup) :
    (chains.set a (front ++ back)).flatten.Nodup :=
  (List.nodup_append.mp ((perm_cutOut h).nodup_iff.mpr nodup)).2.1

/-- The links that are still there are those outside the segment. -/
theorem present_cutOut (h : chains[a]? = some (front ++ segment ++ back))
    (nodup : chains.flatten.Nodup) :
      Present (chains.set a (front ++ back)) link ↔
      Present chains link ∧ link ∉ segment.map Link.entity := by
  cases link with
  | anchor b =>
      show b < (chains.set a (front ++ back)).length ↔ b < chains.length ∧ _
      rw [List.length_set]
      refine (and_iff_left ?_).symm
      simp
  | entity e =>
      show e ∈ (chains.set a (front ++ back)).flatten ↔ e ∈ chains.flatten ∧ _
      have hperm := perm_cutOut h
      obtain ⟨-, -, hapart⟩ := List.nodup_append.mp (hperm.nodup_iff.mpr nodup)
      rw [← hperm.mem_iff, List.mem_append, List.mem_map_of_injective fun _ _ =>
        Link.entity.inj]
      constructor
      · exact fun he => ⟨.inr he, fun hs => hapart e hs e he rfl⟩
      · exact fun he => he.1.resolve_left he.2

/-- A moved segment stands behind its link. -/
theorem relocated_moveSegment (tabled : index.Tabled)
    (h : index.moveSegment segment link reversing = .ok others) :
    Relocated index.chains segment link (turned reversing segment) others := by
  obtain ⟨a, start, b, split, hlocate, hsplit, rfl⟩ := moveSegment_inv h
  obtain ⟨-, front, back, hfront, rfl⟩ := (locateSegment_iff tabled).mp hlocate
  rw [replaceAt_cutOut hfront] at hsplit ⊢
  obtain ⟨ahead, behind, hahead, hupto, rfl⟩ :=
    (splitIn_iff (nodup_cutOut hfront tabled.nodup)).mp hsplit
  rw [replaceAt_put hahead]
  exact .intro hfront hahead hupto

/-- A segment can move behind every link that is there and is none of its
own entities. -/
theorem moveSegment_iff (tabled : index.Tabled) :
    (∃ others, index.moveSegment segment link reversing = .ok others) ↔
      Segment index.chains segment ∧ Present index.chains link ∧
        link ∉ segment.map Link.entity := by
  rw [segment_iff_located tabled]
  constructor
  · rintro ⟨others, h⟩
    obtain ⟨a, start, b, split, hlocate, hsplit, -⟩ := moveSegment_inv h
    obtain ⟨-, front, back, hfront, rfl⟩ :=
      (locateSegment_iff tabled).mp hlocate
    rw [replaceAt_cutOut hfront] at hsplit
    refine ⟨⟨a, _, hlocate⟩, (present_cutOut hfront tabled.nodup).mp ?_⟩
    exact (present_iff_split (nodup_cutOut hfront tabled.nodup)).mpr ⟨b,
      split, hsplit⟩
  · rintro ⟨⟨a, start, hlocate⟩, hpresent, houtside⟩
    obtain ⟨-, front, back, hfront, rfl⟩ :=
      (locateSegment_iff tabled).mp hlocate
    have hleft := (present_cutOut hfront tabled.nodup).mpr ⟨hpresent, houtside⟩
    obtain ⟨b, split, hsplit⟩ :=
      (present_iff_split (nodup_cutOut hfront tabled.nodup)).mp hleft
    have hcut : (index.chains.modify a fun c =>
        replaceRun c front.length segment.length []) =
        index.chains.set a (front ++ back) := replaceAt_cutOut hfront
    unfold moveSegment
    rw [hlocate]
    dsimp only
    rw [hcut, hsplit]
    cases link with
    | anchor b => exact ⟨_, rfl⟩
    | entity e =>
        have hown : segment.contains e = false := by
          refine Bool.eq_false_iff.mpr fun he => houtside ?_
          exact List.mem_map_of_mem (List.contains_iff_mem.mp he)
        dsimp only
        rw [hown]
        exact ⟨_, rfl⟩

-- =========================================================== reattachment

/-- The tail that starts at an entity attached behind a link. -/
inductive Reattached (chains : List (List Nat)) (e : Nat) (link : Link) :
    List (List Nat) → Prop
  /-- Behind a link of another chain: what followed the link takes its place. -/
  | across {a b : Nat} {front tail ahead behind : List Nat} : a ≠ b →
      chains[a]? = some (front ++ e :: tail) →
        chains[b]? = some (ahead ++ behind) →
      Upto b link ahead →
      Reattached chains e link
        ((chains.set a (front ++ behind)).set b (ahead ++ e :: tail))
  /-- Behind a link further on: the run up to there is turned around. -/
  | onward {a : Nat} {front run behind : List Nat} :
      chains[a]? = some (front ++ e :: run ++ behind) →
        Upto a link (front ++ e :: run) →
      Reattached chains e link
        (chains.set a (front ++ (e :: run).reverse ++ behind))
  /-- Behind a link before it: the run from there on is. -/
  | backward {a : Nat} {ahead run tail : List Nat} :
      chains[a]? = some (ahead ++ run ++ e :: tail) → Upto a link ahead →
      Reattached chains e link
        (chains.set a (ahead ++ run.reverse ++ e :: tail))

/-- The run between front and back is reversed. -/
theorem reverseRun_cut (front run back : List Nat) :
    reverseRun (front ++ run ++ back) front.length (front ++ run).length =
      front ++ run.reverse ++ back := by
  unfold reverseRun
  rw [List.take_left, List.drop_left, List.drop_left, List.append_assoc front,
    List.take_left]

/-- The tail is attached behind its link. -/
theorem reattached_swapTails (tabled : index.Tabled)
    (h : index.swapTails e link = .ok others) :
    Reattached index.chains e link others := by
  obtain ⟨a, p, b, q, hlocate, hsplit, hothers⟩ := swapTails_inv h
  obtain ⟨front, tail, hfront, rfl⟩ :=
    stands_iff_cut.mp ((locate_iff tabled).mp hlocate)
  rw [splitPoint_eq_splitIn tabled] at hsplit
  obtain ⟨ahead, behind, hahead, hupto, rfl⟩ :=
    (splitIn_iff tabled.nodup).mp hsplit
  rcases hothers with ⟨rfl, rfl⟩ | ⟨hab, rfl⟩
  · have hsame := Option.some.inj (hfront.symm.trans hahead)
    rcases Nat.lt_or_ge front.length ahead.length with hlt | hge
    · -- the link stands behind the entity
      rw [List.append_cons] at hsame
      obtain ⟨run, rfl, rfl⟩ :=
        exists_middle hsame (by rwa [List.length_append])
      rw [List.append_assoc front] at hahead hupto hlt ⊢
      rw [modify_cut hahead, Nat.min_eq_left (Nat.le_of_lt hlt),
        Nat.max_eq_right (Nat.le_of_lt hlt), reverseRun_cut]
      exact .onward hahead hupto
    · obtain ⟨run, rfl, rfl⟩ := exists_middle hsame.symm hge
      rw [modify_cut hfront, Nat.min_eq_right hge, Nat.max_eq_left hge,
        reverseRun_cut]
      exact .backward hfront hupto
  · unfold ChainIndex.chain
    rw [getD_cut hfront, getD_cut hahead, List.drop_left, List.drop_left,
      modify_cut hfront, List.take_left]
    have hset : (index.chains.set a (front ++ behind))[b]?
        = some (ahead ++ behind) := by
      rw [List.getElem?_set_ne hab]
      exact hahead
    rw [modify_cut hset, List.take_left]
    exact .across hab hfront hahead hupto

/-- Any entity that is on a chain has a tail to be attached behind any
other link. -/
theorem swapTails_iff (tabled : index.Tabled) :
    (∃ others, index.swapTails e link = .ok others) ↔
      Present index.chains (.entity e) ∧ Present index.chains link ∧
      link ≠ .entity e := by
  have hpresent : Present index.chains link ↔
      ∃ a p, index.splitPoint link = some (a, p) := by
    rw [splitPoint_eq_splitIn tabled]
    exact present_iff_split tabled.nodup
  rw [hpresent]
  constructor
  · rintro ⟨others, h⟩
    obtain ⟨a, p, b, q, hlocate, hsplit, -⟩ := swapTails_inv h
    refine ⟨mem_flatten_iff.mpr ⟨a, p, (locate_iff tabled).mp hlocate⟩,
      ⟨b, q, hsplit⟩, ?_⟩
    rintro rfl
    unfold swapTails at h
    rw [if_pos rfl] at h
    cases h
  · rintro ⟨hentity, ⟨b, q, hsplit⟩, hne⟩
    obtain ⟨a, p, hstands⟩ := mem_flatten_iff.mp hentity
    unfold swapTails
    rw [if_neg hne, (locate_iff tabled).mpr hstands]
    dsimp only
    rw [hsplit]
    dsimp only
    by_cases hab : a = b
    · exact ⟨_, if_pos hab⟩
    · exact ⟨_, if_neg hab⟩

end PlanSearch.ChainIndex

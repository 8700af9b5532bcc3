/-
Chains fall into parts.

Code finds its way in chains by numbers: an anchor and a position. What it
does there is easier to say by parts: a chain is what stands before a
segment, the segment, and what stands behind it. The lemmas here take the
one to the other. A look-up answers with the length of the part in front
(`locateSegment_iff`, `splitIn_iff`), and finds something exactly if there
is such a part. Replacing by numbers replaces the part between
(`replaceAt_cut`, `modify_cut`).
-/
import PlanSearch.Proofs.Chain.Rearrange

namespace PlanSearch.ChainIndex

variable {index : ChainIndex} {chains : List (List Nat)}
  {chain run front back ahead behind segment : List Nat} {a p e : Nat}
  {link : Link}

-- ================================================================== places

theorem getD_cut (h : chains[a]? = some chain) : chains.getD a [] = chain := by
  rw [List.getD_eq_getElem?_getD, h, Option.getD_some]

theorem lt_length_of_cut (h : chains[a]? = some chain) : a < chains.length :=
  (List.getElem?_eq_some_iff.mp h).1

/-- An entity stands where so many others stand in front of it. -/
theorem stands_iff_cut : Stands chains a p e ↔
    ∃ front back, chains[a]? = some (front ++ e :: back) ∧
      front.length = p := by
  constructor
  · intro h
    have ha := h.lt_length
    unfold Stands at h
    rw [List.getD_eq_getElem _ _ ha] at h
    obtain ⟨hp, rfl⟩ := List.getElem?_eq_some_iff.mp h
    refine ⟨chains[a].take p, chains[a].drop (p + 1), ?_, ?_⟩
    · rw [← List.drop_eq_getElem_cons hp, List.take_append_drop,
        List.getElem?_eq_getElem ha]
    · rw [List.length_take, Nat.min_eq_left (Nat.le_of_lt hp)]
  · rintro ⟨front, back, h, rfl⟩
    unfold Stands
    rw [getD_cut h, List.getElem?_append_right (Nat.le_refl _), Nat.sub_self]
    rfl

/-- An entity of the chains cuts one of them in two. -/
theorem mem_flatten_iff_cut :
    e ∈ chains.flatten ↔ ∃ (a : Nat) (front back : List Nat),
      chains[a]? = some (front ++ e :: back) := by
  rw [mem_flatten_iff]
  constructor
  · rintro ⟨a, p, hstands⟩
    obtain ⟨front, back, hcut, -⟩ := stands_iff_cut.mp hstands
    exact ⟨a, front, back, hcut⟩
  · rintro ⟨a, front, back, hcut⟩
    exact ⟨a, front.length, stands_iff_cut.mpr ⟨front, back, hcut, rfl⟩⟩

/-- The part of an anchor's chain up to and including a link: nothing up to
the anchor itself. -/
inductive Upto (a : Nat) : Link → List Nat → Prop
  | anchor : Upto a (.anchor a) []
  | entity (front : List Nat) (e : Nat) : Upto a (.entity e) (front ++ [e])

/-- What is put in behind a link comes after the part up to it. -/
theorem splitIn_iff (nodup : chains.flatten.Nodup) :
    splitIn chains link = some (a, p) ↔
    ∃ ahead behind, chains[a]? = some (ahead ++ behind) ∧ Upto a link ahead ∧
      ahead.length = p := by
  refine (splitIn_iff_linkBefore nodup).trans ?_
  constructor
  · rintro ⟨ha, hbefore⟩
    cases p with
    | zero =>
        cases linkBefore_zero.mp hbefore
        exact ⟨[], _, List.getElem?_eq_getElem ha, .anchor, rfl⟩
    | succ p =>
        obtain ⟨e, hstands, rfl⟩ := linkBefore_succ.mp hbefore
        obtain ⟨front, behind, hcut, rfl⟩ := stands_iff_cut.mp hstands
        refine ⟨front ++ [e], behind, ?_, .entity front e, List.length_append⟩
        rw [List.append_assoc]
        exact hcut
  · rintro ⟨ahead, behind, hcut, hupto, rfl⟩
    refine ⟨lt_length_of_cut hcut, ?_⟩
    cases hupto with
    | anchor => exact linkBefore_zero.mpr rfl
    | entity front e =>
        rw [List.append_assoc] at hcut
        rw [List.length_append]
        exact linkBefore_succ.mpr ⟨e,
          stands_iff_cut.mpr ⟨front, behind, hcut, rfl⟩, rfl⟩

/-- The link is there: it is the anchor of a chain, or an entity of one. -/
def Present (chains : List (List Nat)) : Link → Prop
  | .anchor a => a < chains.length
  | .entity e => e ∈ chains.flatten

/-- A link of the chains is one behind which they can be split. -/
theorem present_iff_split (nodup : chains.flatten.Nodup) :
    Present chains link ↔ ∃ a p, splitIn chains link = some (a, p) := by
  simp only [splitIn_iff nodup]
  constructor
  · intro h
    cases link with
    | anchor a => exact ⟨a, 0, [], _, List.getElem?_eq_getElem h, .anchor, rfl⟩
    | entity e =>
        obtain ⟨a, front, behind, hcut⟩ := mem_flatten_iff_cut.mp h
        refine ⟨a, _, front ++ [e], behind, ?_, .entity front e, rfl⟩
        rw [List.append_assoc]
        exact hcut
  · rintro ⟨a, p, ahead, behind, hcut, hupto, -⟩
    cases hupto with
    | anchor => exact lt_length_of_cut hcut
    | entity front e =>
        rw [List.append_assoc] at hcut
        exact mem_flatten_iff_cut.mpr ⟨a, front, behind, hcut⟩

-- ================================================================ segments

/-- A run of consecutive entities of one chain, and not an empty one. -/
def Segment (chains : List (List Nat)) (run : List Nat) : Prop :=
  run ≠ [] ∧ ∃ chain ∈ chains, run <:+: chain

instance (chains : List (List Nat)) (run : List Nat) :
    Decidable (Segment chains run) :=
  inferInstanceAs (Decidable (_ ∧ _))

/-- A segment is located behind the part of its chain in front of it. -/
theorem locateSegment_iff (tabled : index.Tabled) :
    index.locateSegment segment = .ok (a, p) ↔ segment ≠ [] ∧
      ∃ front back, index.chains[a]? = some (front ++ segment ++ back) ∧
        front.length = p := by
  constructor
  · intro h
    obtain ⟨ha, hne, hrun⟩ := locateSegment_spec h
    rw [List.getD_eq_getElem _ _ ha] at hrun
    have hcut := take_runAt_drop index.chains[a] p segment.length
    rw [hrun] at hcut
    refine ⟨hne, _, _,
      (List.getElem?_eq_getElem ha).trans (congrArg some hcut.symm), ?_⟩
    rw [List.length_take, Nat.min_eq_left (le_length_of_run hrun hne)]
  · rintro ⟨hne, front, back, hcut, rfl⟩
    obtain ⟨first, rest, rfl⟩ := List.exists_cons_of_ne_nil hne
    have hfirst : Stands index.chains a front.length first :=
      stands_iff_cut.mpr ⟨front, rest ++ back, by
        rw [hcut, List.append_assoc]; rfl, rfl⟩
    have hrun :
        ((index.chain a).drop front.length).take (first :: rest).length
            = first :: rest := by
      unfold ChainIndex.chain
      rw [getD_cut hcut, List.append_assoc, List.drop_left, List.take_left]
    unfold locateSegment
    dsimp only
    rw [(locate_iff tabled).mpr hfirst]
    exact if_pos hrun

/-- The segments of the chains are those that are located. -/
theorem segment_iff_located (tabled : index.Tabled) :
    Segment index.chains segment ↔
    ∃ a p, index.locateSegment segment = .ok (a, p) := by
  constructor
  · rintro ⟨hne, chain, hchain, front, back, hcut⟩
    obtain ⟨a, ha⟩ := List.mem_iff_getElem?.mp hchain
    exact ⟨a, front.length,
      (locateSegment_iff tabled).mpr ⟨hne, front, back, hcut ▸ ha, rfl⟩⟩
  · rintro ⟨a, p, h⟩
    obtain ⟨hne, front, back, hcut, -⟩ := (locateSegment_iff tabled).mp h
    exact ⟨hne, _, List.mem_of_getElem? hcut, front, back, rfl⟩

/-- Of two cuts of a chain the later one leaves a part between them. -/
theorem exists_middle (h : front ++ back = ahead ++ behind)
    (hle : front.length ≤ ahead.length) :
    ∃ middle, ahead = front ++ middle ∧ back = middle ++ behind := by
  have hfront : front <+: ahead ++ behind := h ▸ List.prefix_append front back
  obtain ⟨middle, rfl⟩ :=
    List.prefix_of_prefix_length_le hfront (List.prefix_append ahead behind) hle
  rw [List.append_assoc] at h
  exact ⟨middle, rfl, List.append_cancel_left h⟩

-- ============================================================= replacements

/-- Changing one chain puts the changed one in its place. -/
theorem modify_cut (h : chains[a]? = some chain) (f : List Nat → List Nat) :
    chains.modify a f = chains.set a (f chain) := by
  rw [List.modify_eq_set, h, Option.getD_some]

/-- The run between front and back is replaced. -/
theorem replaceAt_cut (h : chains[a]? = some (front ++ run ++ back))
    (other : List Nat) : replaceAt chains a front.length run.length other
      = chains.set a (front ++ other ++ back) := by
  unfold replaceAt replaceRun
  rw [modify_cut h, ← List.length_append, List.drop_left,
    List.append_assoc front run, List.take_left]

theorem getElem?_set_cut (h : chains[a]? = some chain) (other : List Nat) :
    (chains.set a other)[a]? = some other :=
  List.getElem?_set_self (lt_length_of_cut h)

end PlanSearch.ChainIndex

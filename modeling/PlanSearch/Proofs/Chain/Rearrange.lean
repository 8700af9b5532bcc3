/-
Rearranging keeps the entities.

A rearrangement takes runs out of chains and puts runs in. Where a run of a
chain is replaced, the entities of the old run are traded for those of the
new one and no others (`perm_replaceAt`). Every rearrangement is two such
trades, or one that only turns a run around, and in the end each run that
was taken out has been put in once. So the chains are as many as before,
and they hold the same entities, each as often (`Rearranged`).
-/
import Mathlib.Data.List.Perm.Basic
import PlanSearch.Chain.Rearrange
import PlanSearch.Proofs.Chain.Position

namespace PlanSearch.ChainIndex

variable {index : ChainIndex} {chains others : List (List Nat)}
  {chain run segment left right : List Nat}
  {a b p q e start count : Nat} {link : Link} {reversing : Bool}

/-- As many chains, put together of the same entities. -/
structure Rearranged (chains others : List (List Nat)) : Prop where
  length : others.length = chains.length
  perm : others.flatten.Perm chains.flatten

/-- Rearranging makes no entity stand twice. -/
theorem Rearranged.nodup (h : Rearranged chains others)
    (nodup : chains.flatten.Nodup) : others.flatten.Nodup :=
  h.perm.nodup_iff.mpr nodup

-- =================================================================== runs

/-- A run of a chain: so many entities from a position on. -/
def runAt (chain : List Nat) (start count : Nat) : List Nat :=
  (chain.drop start).take count

/-- A chain is what stands before a run, the run, and what stands behind it.
-/
theorem take_runAt_drop (chain : List Nat) (start count : Nat) :
    chain.take start ++ runAt chain start count ++
    chain.drop (start + count) = chain := by
  unfold runAt
  rw [← List.drop_drop, List.append_assoc, List.take_append_drop,
    List.take_append_drop]

/-- The old run is traded for the new one. -/
theorem perm_replaceRun (chain : List Nat) (start count : Nat)
    (run : List Nat) :
    (runAt chain start count ++ replaceRun chain start count run).Perm
      (run ++ chain) := by
  rw [List.perm_iff_count]
  intro e
  have hchain := congrArg (List.count e) (take_runAt_drop chain start count)
  simp only [replaceRun, List.count_append] at hchain ⊢
  omega

/-- A segment has the same entities in either direction. -/
theorem perm_turned : (turned reversing segment).Perm segment := by
  cases reversing with
  | false => exact List.Perm.refl segment
  | true => exact List.reverse_perm segment

/-- Turning a run around trades nothing. -/
theorem perm_reverseRun (chain : List Nat) (start stop : Nat)
    (h : start ≤ stop) : (reverseRun chain start stop).Perm chain := by
  have hrun : chain.take stop = chain.take start ++
      (chain.take stop).drop start := by
    conv_lhs => rw [← List.take_append_drop start (chain.take stop)]
    rw [List.take_take, Nat.min_eq_left h]
  unfold reverseRun
  calc chain.take start ++ ((chain.take stop).drop start).reverse ++
      chain.drop stop
      |>.Perm (chain.take start ++ (chain.take stop).drop start ++
          chain.drop stop) :=
        ((List.reverse_perm _).append_left _).append_right _
    _ = chain := by rw [← hrun, List.take_append_drop]

/-- Changing one chain trades its entities for those of the new one. -/
theorem perm_modify (f : List Nat → List Nat) (h : a < chains.length) :
    (chains.getD a [] ++ (chains.modify a f).flatten).Perm
      (f (chains.getD a []) ++ chains.flatten) := by
  induction chains generalizing a with
  | nil => cases h
  | cons chain rest ih =>
      cases a with
      | zero =>
          show (chain ++ (f chain ++ rest.flatten)).Perm (f chain ++
            (chain ++ rest.flatten))
          exact List.perm_append_comm_assoc ..
      | succ a =>
          show (rest.getD a [] ++ (chain ++ (rest.modify a f).flatten)).Perm
            (f (rest.getD a []) ++ (chain ++ rest.flatten))
          refine (List.perm_append_comm_assoc ..).trans ?_
          refine ((ih (Nat.lt_of_succ_lt_succ h)).append_left chain).trans ?_
          exact List.perm_append_comm_assoc ..

/-- The chains with a run of one of them replaced. -/
def replaceAt (chains : List (List Nat)) (a start count : Nat)
    (run : List Nat) : List (List Nat) :=
  chains.modify a fun c => replaceRun c start count run

theorem length_replaceAt :
    (replaceAt chains a start count run).length = chains.length :=
  List.length_modify ..

/-- The run is replaced in its chain. -/
theorem getD_replaceAt_self (h : a < chains.length) :
    (replaceAt chains a start count run).getD a [] =
      replaceRun (chains.getD a []) start count run := by
  unfold replaceAt
  rw [List.getD_eq_getElem _ _ h,
    List.getD_eq_getElem _ _ (by rwa [List.length_modify]),
    List.getElem_modify, if_pos rfl]

/-- Other chains stay as they are. -/
theorem getD_replaceAt_of_ne (h : a ≠ b) :
    (replaceAt chains a start count run).getD b [] = chains.getD b [] := by
  unfold replaceAt
  rw [List.getD_eq_getElem?_getD, List.getD_eq_getElem?_getD,
    List.getElem?_modify]
  simp [h]

/-- Replacing a run of one chain trades that run. -/
theorem perm_replaceAt (chains : List (List Nat)) {a : Nat} (start count : Nat)
    (run : List Nat) (h : a < chains.length) :
    (runAt (chains.getD a []) start count ++
        (replaceAt chains a start count run).flatten).Perm
      (run ++ chains.flatten) := by
  have hchain := perm_modify (fun c => replaceRun c start count run) h
  have hrun := perm_replaceRun (chains.getD a []) start count run
  rw [List.perm_iff_count] at hchain hrun ⊢
  intro e
  have hchain := hchain e
  have hrun := hrun e
  simp only [replaceAt, List.count_append] at hchain hrun ⊢
  omega

-- ============================================================== look-ups

/-- A run with entities is one of a chain there is. -/
theorem lt_length_of_run (h : runAt (chains.getD a []) start count = run)
    (hne : run ≠ []) : a < chains.length := by
  refine Nat.lt_of_not_le fun hle => hne ?_
  rw [← h, List.getD_eq_default _ _ hle]
  unfold runAt
  rw [List.drop_nil, List.take_nil]

/-- A segment that is located is a run of its chain, and not an empty one. -/
theorem locateSegment_spec (h : index.locateSegment segment = .ok (a, start)) :
    a < index.chains.length ∧ segment ≠ [] ∧
      runAt (index.chains.getD a []) start segment.length = segment := by
  unfold locateSegment at h
  cases segment with
  | nil => cases h
  | cons first rest =>
      dsimp only at h
      cases hlocate : index.locate first with
      | none =>
          rw [hlocate] at h
          cases h
      | some place =>
          rw [hlocate] at h
          dsimp only at h
          split at h
          case isFalse => cases h
          case isTrue hrun =>
            cases h
            exact ⟨lt_length_of_run hrun nofun, nofun, hrun⟩

/-- What is put behind a link is put into one of the chains. -/
theorem lt_length_of_splitIn (h : splitIn chains link = some (a, p)) :
    a < chains.length := by
  cases link with
  | anchor b =>
      unfold splitIn at h
      dsimp only at h
      split at h
      case isFalse => cases h
      case isTrue hlt =>
        cases h
        exact hlt
  | entity e =>
      obtain ⟨⟨b, q⟩, hfind, hplace⟩ := Option.map_eq_some_iff.mp h
      obtain ⟨c, rfl, hstands⟩ := stands_of_findIn hfind
      cases hplace
      rw [Nat.zero_add]
      exact hstands.lt_length

-- ======================================================== rearrangements

/-- A segment that moves is cut out where it is located and put in where the
link stands by then. -/
theorem moveSegment_inv
    (h : index.moveSegment segment link reversing = .ok others) :
    ∃ a start b split, index.locateSegment segment = .ok (a, start) ∧
      splitIn (replaceAt index.chains a start segment.length []) link
        = some (b, split) ∧
      others = replaceAt
        (replaceAt index.chains a start segment.length []) b split 0
          (turned reversing segment) := by
  unfold moveSegment at h
  split at h
  case h_1 => cases h
  case h_2 a start hlocate =>
    dsimp only at h
    split at h
    case h_1 => cases h
    case h_2 =>
      split at h
      case h_1 b split _ hsplit =>
        cases h
        exact ⟨a, start, b, split, hlocate, hsplit, rfl⟩
      case h_2 => cases h
      case h_3 => cases h

/-- A moved segment is taken out of one chain and put into one. -/
theorem rearranged_moveSegment
    (h : index.moveSegment segment link reversing = .ok others) :
    Rearranged index.chains others := by
  obtain ⟨a, start, b, split, hlocate, hsplit, rfl⟩ := moveSegment_inv h
  obtain ⟨ha, -, hrun⟩ := locateSegment_spec hlocate
  have hcut := perm_replaceAt index.chains start segment.length [] ha
  have hput :=
    perm_replaceAt (replaceAt index.chains a start segment.length []) split 0
    (turned reversing segment) (lt_length_of_splitIn hsplit)
  rw [hrun, List.nil_append] at hcut
  refine ⟨by rw [length_replaceAt, length_replaceAt], ?_⟩
  exact hput.trans ((perm_turned.append_right _).trans hcut)

/-- Segments that change places share no entity, and the later one is
replaced first. -/
theorem swapSegments_inv
    (h : index.swapSegments left right reversing = .ok others) :
    ∃ a p b q, index.locateSegment left = .ok (a, p) ∧ index.locateSegment right
      = .ok (b, q) ∧ left.Disjoint right ∧
      ((a = b ∧ p ≤ q) ∧
          others = replaceAt
            (replaceAt index.chains b q right.length (turned reversing left)) a
              p left.length (turned reversing right) ∨
        ¬ (a = b ∧ p ≤ q) ∧
          others = replaceAt
            (replaceAt index.chains a p left.length (turned reversing right)) b
              q right.length (turned reversing left)) := by
  unfold swapSegments at h
  cases hleft : index.locateSegment left with
  | error flaw =>
      rw [hleft] at h
      cases h
  | ok leftPlace =>
      cases hright : index.locateSegment right with
      | error flaw =>
          rw [hleft, hright] at h
          cases h
      | ok rightPlace =>
          rw [hleft, hright] at h
          refine ⟨leftPlace.1, leftPlace.2, rightPlace.1,
            rightPlace.2, rfl, rfl, ?_⟩
          dsimp only at h
          split at h
          case isTrue => cases h
          case isFalse hapart =>
            refine ⟨fun e hl hr => hapart ?_, ?_⟩
            · exact List.any_eq_true.mpr ⟨e, hl, List.contains_iff_mem.mpr hr⟩
            · split at h
              case isTrue hplace =>
                cases h
                exact .inl ⟨hplace, rfl⟩
              case isFalse hplace =>
                cases h
                exact .inr ⟨hplace, rfl⟩

/-- Of two runs of a chain without a common entity the one that starts
first ends before the other starts. -/
theorem run_end_le (hle : p ≤ q) (hleft : runAt chain p left.length = left)
    (hright : runAt chain q right.length = right) (hne : right ≠ [])
    (hapart : left.Disjoint right) : p + left.length ≤ q := by
  refine Nat.le_of_not_lt fun hlt => ?_
  obtain ⟨first, rest, rfl⟩ := List.exists_cons_of_ne_nil hne
  -- the first entity of the later run would be one of the earlier run
  have hfirst : chain[q]? = some first := by
    have h := congrArg (·[0]?) hright
    simpa [runAt, List.getElem?_take] using h
  have hin : left[q - p]? = some first := by
    rw [← hleft]
    unfold runAt
    rw [List.getElem?_take, if_pos (by omega), List.getElem?_drop,
      Nat.add_sub_cancel' hle, hfirst]
  exact hapart (List.mem_of_getElem? hin) (List.mem_cons_self ..)

/-- A run that ends before another one is not touched when that is
replaced, nor is a run of another chain. -/
theorem runAt_replaceAt (hb : b < chains.length)
    (hq : q ≤ (chains.getD b []).length) (h : a ≠ b ∨ p + count ≤ q) {n : Nat} :
    runAt ((replaceAt chains b q n run).getD a []) p count
      = runAt (chains.getD a []) p count := by
  by_cases hab : a = b
  · subst hab
    have hle := h.resolve_left fun hne => hne rfl
    rw [getD_replaceAt_self hb]
    unfold runAt replaceRun
    refine List.ext_getElem? fun i => ?_
    rw [List.getElem?_take, List.getElem?_take, List.getElem?_drop,
      List.getElem?_drop]
    by_cases hi : i < count
    · rw [if_pos hi, if_pos hi, List.append_assoc, List.getElem?_append_left,
        List.getElem?_take, if_pos (by omega)]
      rw [List.length_take]
      omega
    · rw [if_neg hi, if_neg hi]
  · rw [getD_replaceAt_of_ne (Ne.symm hab)]

/-- Two runs in each other's place: the second one is where it was when the
first one has been replaced. -/
theorem rearranged_trade {newLeft newRight : List Nat} (ha : a < chains.length)
    (hb : b < chains.length)
    (hleft : runAt (chains.getD a []) p left.length = left)
    (hright : runAt ((replaceAt chains a p left.length newRight).getD b []) q
      right.length = right)
    (hnewLeft : newLeft.Perm left) (hnewRight : newRight.Perm right) :
    Rearranged chains
      (replaceAt (replaceAt chains a p left.length newRight) b q right.length
        newLeft) := by
  have hfirst := perm_replaceAt chains p left.length newRight ha
  have hsecond := perm_replaceAt (replaceAt chains a p left.length newRight)
    q right.length
    newLeft (by rwa [length_replaceAt])
  rw [hleft] at hfirst
  rw [hright] at hsecond
  refine ⟨by rw [length_replaceAt, length_replaceAt], ?_⟩
  rw [List.perm_iff_count] at hfirst hsecond hnewLeft hnewRight ⊢
  intro e
  have hfirst := hfirst e
  have hsecond := hsecond e
  have hnewLeft := hnewLeft e
  have hnewRight := hnewRight e
  simp only [List.count_append] at hfirst hsecond
  omega

theorem le_length_of_run (h : runAt chain start segment.length = segment)
    (hne : segment ≠ []) : start ≤ chain.length := by
  refine Nat.le_of_not_lt fun hlt => hne ?_
  rw [← h]
  unfold runAt
  rw [List.drop_eq_nil_of_le (Nat.le_of_lt hlt), List.take_nil]

/-- Segments change places as they are, or both turned around. -/
theorem rearranged_swapSegments
    (h : index.swapSegments left right reversing = .ok others) :
    Rearranged index.chains others := by
  obtain ⟨a, p, b, q, hleft, hright, hapart, hothers⟩ := swapSegments_inv h
  obtain ⟨ha, hleftNe, hleftRun⟩ := locateSegment_spec hleft
  obtain ⟨hb, hrightNe, hrightRun⟩ := locateSegment_spec hright
  rcases hothers with ⟨⟨hab, hle⟩, rfl⟩ | ⟨hplace, rfl⟩
  · subst hab
    refine rearranged_trade ha ha hrightRun ?_ perm_turned perm_turned
    rw [runAt_replaceAt ha (le_length_of_run hrightRun hrightNe)
      (.inr (run_end_le hle hleftRun hrightRun hrightNe hapart)), hleftRun]
  · refine rearranged_trade ha hb hleftRun ?_ perm_turned perm_turned
    rw [runAt_replaceAt ha (le_length_of_run hleftRun hleftNe) ?_, hrightRun]
    by_cases hab : b = a
    · subst hab
      have hle : q ≤ p := Nat.le_of_not_le fun hle => hplace ⟨rfl, hle⟩
      exact .inr (run_end_le hle hrightRun hleftRun hleftNe
        fun _ hr hl => hapart hl hr)
    · exact .inl hab

/-- Tails are exchanged between two chains; within one, the run between is
turned around. -/
theorem swapTails_inv (h : index.swapTails e link = .ok others) :
    ∃ a p b q, index.locate e = some (a, p) ∧
      index.splitPoint link = some (b, q) ∧
      (a = b ∧ others = index.chains.modify a
        (fun c => reverseRun c (min p q) (max p q)) ∨ a ≠ b ∧ others =
          (index.chains.modify a fun c => c.take p ++
              (index.chain b).drop q).modify b
            fun c => c.take q ++ (index.chain a).drop p) := by
  unfold swapTails at h
  split at h
  case isTrue => cases h
  case isFalse =>
    cases hlocate : index.locate e with
    | none =>
        rw [hlocate] at h
        cases h
    | some left =>
        cases hsplit : index.splitPoint link with
        | none =>
            rw [hlocate, hsplit] at h
            cases h
        | some right =>
            rw [hlocate, hsplit] at h
            refine ⟨left.1, left.2, right.1, right.2, rfl, rfl, ?_⟩
            dsimp only at h
            split at h
            case isTrue hab =>
              cases h
              exact .inl ⟨hab, rfl⟩
            case isFalse hab =>
              cases h
              exact .inr ⟨hab, rfl⟩

/-- Replacing all of a chain from a position on. -/
theorem replaceAt_tail (chains : List (List Nat)) (a p : Nat) (run : List Nat) :
    replaceAt chains a p ((chains.getD a []).drop p).length run =
      chains.modify a fun c => c.take p ++ run := by
  induction chains generalizing a with
  | nil => simp [replaceAt]
  | cons chain rest ih =>
      cases a with
      | zero =>
          show replaceRun chain p (chain.drop p).length run :: rest
            = (chain.take p ++ run) :: rest
          unfold replaceRun
          rw [List.drop_eq_nil_of_le (by rw [List.length_drop]; omega),
            List.append_nil]
      | succ a => exact congrArg (chain :: ·) (ih a)

theorem runAt_tail (chain : List Nat) (p : Nat) :
    runAt chain p (chain.drop p).length = chain.drop p := List.take_length

/-- Tails that are exchanged leave every entity on a chain. -/
theorem rearranged_swapTails (tabled : index.Tabled)
    (h : index.swapTails e link = .ok others) :
    Rearranged index.chains others := by
  obtain ⟨a, p, b, q, hlocate, hsplit, hothers⟩ := swapTails_inv h
  have ha := ((locate_iff tabled).mp hlocate).lt_length
  have hb := ((splitPoint_iff tabled).mp hsplit).1
  rcases hothers with ⟨-, rfl⟩ | ⟨hab, rfl⟩
  · have hmodify := perm_modify (fun c => reverseRun c (min p q) (max p q)) ha
    have hrun := perm_reverseRun (index.chains.getD a []) (min p q)
      (max p q) (by omega)
    refine ⟨List.length_modify .., ?_⟩
    exact (List.perm_append_left_iff _).mp (hmodify.trans (hrun.append_right _))
  · -- a tail is a run that goes to the end of its chain
    unfold chain
    rw [← replaceAt_tail, ← replaceAt_tail, getD_replaceAt_of_ne hab]
    refine rearranged_trade ha hb (runAt_tail ..) ?_ (List.Perm.refl _)
      (List.Perm.refl _)
    rw [getD_replaceAt_of_ne hab, runAt_tail]

end PlanSearch.ChainIndex

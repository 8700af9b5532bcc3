/-
A random union loses and duplicates no move.

Its children are read in turns, in whatever order the picks say, and taken
out of the list as they end. The moves that come of it are an interleaving
of the complete passes of the children that have weight: each hands out
its own moves in its own order, and the union ends when all of them have
ended (`random_union_interleaves`).

# Shares

A union under way is a list of children with their weights, and each of
them stands for the moves it has still to hand out (`Share`). An answer of
the union changes one share: it loses its first move, or it is used up and
taken out. The others are as they were, because a child counts within its
own part of the tree.

# The picks

A pick is a fraction of the total weight, and made again if it is not
below the total. That it comes to be below is assumed of the stream
(`Stream.Picks`). That the total is above zero as long as a child is left
is not assumed: it is a sum of weights above zero.
-/
import PlanSearch.Proofs.Decimal.Totals
import PlanSearch.Proofs.Selector.Answers
import PlanSearch.Proofs.Selector.Complete
import PlanSearch.Proofs.Selector.Groups

namespace PlanSearch

-- ============================================================ interleavings

/-- The whole is made by taking the first of what is left of some part, over
and over, until nothing is left of any. -/
inductive Interleaved {α : Type} : List (List α) → List α → Prop
  | done {parts : List (List α)} : (∀ part ∈ parts, part = []) →
    Interleaved parts []
  | take {parts : List (List α)} {i : Nat} {a : α} {rest whole : List α} :
      parts[i]? = some (a :: rest) → Interleaved (parts.set i rest) whole →
      Interleaved parts (a :: whole)

namespace Interleaved

variable {α : Type} {parts : List (List α)} {whole : List α}

/-- Nothing is lost and nothing is there twice. -/
theorem perm (h : Interleaved parts whole) : whole.Perm parts.flatten := by
  induction h with
  | done hempty =>
      rw [List.flatten_eq_nil_iff.mpr hempty]
  | @take parts i a rest whole hi _ ih =>
      obtain ⟨hlt, hget⟩ := List.getElem?_eq_some_iff.mp hi
      rw [List.set_eq_take_append_cons_drop, if_pos hlt, List.flatten_append,
        List.flatten_cons] at ih
      have hparts : parts.flatten =
          (parts.take i).flatten ++
              (a :: rest ++ (parts.drop (i + 1)).flatten) := by
        conv_lhs => rw [← List.take_append_drop i parts,
          List.drop_eq_getElem_cons hlt, hget]
        rw [List.flatten_append, List.flatten_cons]
      rw [hparts]
      exact (ih.cons a).trans List.perm_middle.symm

/-- Each part keeps its order. -/
theorem sublist (h : Interleaved parts whole) {part : List α}
    (hpart : part ∈ parts) : part.Sublist whole := by
  induction h generalizing part with
  | done hempty =>
      rw [hempty part hpart]
  | @take parts i a rest whole hi _ ih =>
      obtain ⟨j, hj⟩ := List.mem_iff_getElem?.mp hpart
      by_cases hij : i = j
      · subst hij
        obtain ⟨hlt, -⟩ := List.getElem?_eq_some_iff.mp hi
        cases hi.symm.trans hj
        refine (ih (List.mem_iff_getElem?.mpr ⟨i, ?_⟩)).cons_cons a
        rw [List.getElem?_set_self hlt]
      · refine (ih (List.mem_iff_getElem?.mpr ⟨j, ?_⟩)).cons a
        rw [List.getElem?_set_ne hij, hj]

/-- A part that is used up makes no difference. -/
theorem of_eraseIdx {i : Nat} (hi : parts[i]? = some [])
    (h : Interleaved (parts.eraseIdx i) whole) : Interleaved parts whole := by
  generalize hothers : parts.eraseIdx i = others at h
  induction h generalizing parts with
  | done hempty =>
      refine .done fun part hpart => ?_
      obtain ⟨j, hj⟩ := List.mem_iff_getElem?.mp hpart
      by_cases hij : j = i
      · subst hij
        exact Option.some.inj (hj.symm.trans hi)
      · subst hothers
        exact hempty part (List.mem_eraseIdx_iff_getElem?.mpr ⟨j, hij, hj⟩)
  | @take others j a rest whole hj _ ih =>
      subst hothers
      rw [List.getElem?_eraseIdx] at hj
      split at hj
      · refine .take hj (ih ?_ (List.set_eraseIdx_gt (by omega)).symm)
        rw [List.getElem?_set_ne (by omega), hi]
      · refine .take hj (ih ?_ (List.set_eraseIdx_le (by omega)).symm)
        rw [List.getElem?_set_ne (by omega), hi]

end Interleaved

-- ================================================================ the picks

variable {S V : Type} [BEq V] {s : S}

/-- Along the stream, and whichever of the weights are left, a pick comes to
be below their sum. -/
def Stream.Picks (stream : Stream) (weights : List Float) : Prop :=
  ∀ left : List Float, left.Sublist weights → 0.0 < left.foldl (· + ·) 0.0 →
    ∀ n, Stream.Falls (left.foldl (· + ·) 0.0)
      ((fun stream => stream.doubleWord.2)^[n] stream)

/-- From steady weights every stream picks. -/
theorem Weights.Steady.picks {weights : List Float} (h : Weights.Steady weights)
    (stream : Stream) : stream.Picks weights :=
  fun left hleft hpos _ => h left hleft hpos _

/-- Weights whose sums have all the places of a double: each pick comes out at
the first attempt. -/
theorem Weights.steady_of_full {weights : List Float}
    (hfull : ∀ left : List Float, left.Sublist weights →
        0.0 < left.foldl (· + ·) 0.0 →
      ∃ m e h, (left.foldl (· + ·) 0.0).toModel.unpack
        = .finite .positive m e h ∧ 2 ^ 52 ≤ m) :
    Weights.Steady weights := by
  intro left hleft hpos stream
  obtain ⟨m, e, h, hunpack, hplaces⟩ := hfull left hleft hpos
  exact .now (stream.fraction_lt hunpack hplaces)

theorem Stream.Picks.sublist {stream : Stream} {weights left : List Float}
    (h : stream.Picks weights) (hleft : left.Sublist weights) :
    stream.Picks left :=
  fun others hothers => h others (hothers.trans hleft)

/-- A stream still picks after a draw. -/
theorem Stream.Picks.fraction {stream : Stream} {weights : List Float}
    (h : stream.Picks weights) (total : Float) :
    (stream.fraction total).2.Picks weights :=
  fun left hleft hpos n => h left hleft hpos (n + 1)

namespace Reading

omit [BEq V] in
/-- A pick falls to one of the children that are left. -/
theorem place_lt {live : List (Float × Reading S V)} (h : live ≠ [])
    (pick : Float) : place live pick < live.length := by
  induction live generalizing pick with
  | nil => exact absurd rfl h
  | cons l rest ih =>
      cases rest with
      | nil => exact Nat.zero_lt_one
      | cons next rest =>
          rw [place]
          split
          · exact Nat.zero_lt_succ _
          · exact Nat.succ_lt_succ (ih (List.cons_ne_nil next rest) _)
          · exact nofun

end Reading

/-- Weights above zero add up to more than zero. -/
theorem zero_lt_foldl {weights : List Float}
    (h : ∀ weight ∈ weights, 0.0 < weight) {total : Float}
    (htotal : 0.0 < total) : 0.0 < weights.foldl (· + ·) total := by
  induction weights generalizing total with
  | nil => exact htotal
  | cons weight rest ih =>
      obtain ⟨hweight, hrest⟩ := List.forall_mem_cons.mp h
      exact ih hrest (Binary64.zero_lt_add htotal hweight)

/-- A sum of weights above zero is above zero. -/
theorem zero_lt_sum {weights : List Float} (hne : weights ≠ [])
    (h : ∀ weight ∈ weights, 0.0 < weight) :
    0.0 < weights.foldl (· + ·) 0.0 := by
  obtain ⟨weight, rest, rfl⟩ := List.exists_cons_of_ne_nil hne
  obtain ⟨hweight, hrest⟩ := List.forall_mem_cons.mp h
  exact zero_lt_foldl hrest (Binary64.zero_lt_zero_add hweight)

-- ================================================================ the shares

/-- A child of a random union that has not ended, and the moves that it has
still to hand out. -/
structure Share (S V : Type) where
  weight : Float
  reading : Reading S V
  /-- Which child of the union it is. -/
  place : Nat
  left : List (Move S V)

/-- The children as the union keeps them. -/
def Share.live (shares : List (Share S V)) : List (Float × Reading S V) :=
  shares.map fun h => (h.weight, h.reading)

/-- The child has weight, and what it hands out from here is what is left
of it. -/
structure Share.Stands (s : S) (path : List Nat) (passes : Passes)
    (h : Share S V) : Prop where
  above : 0.0 < h.weight
  rooted : h.reading.Rooted (path ++ [h.place])
  reads : h.reading.Reads s passes h.left

/-- A share stands where the passes below its place are alike. -/
theorem Share.Stands.alike {path : List Nat} {passes others : Passes}
    {h : Share S V} (stands : h.Stands s path passes)
    (halike : passes.Alike (path ++ [h.place] <+: ·) others) :
    h.Stands s path others :=
  ⟨stands.above, stands.rooted, stands.reads.alike stands.rooted halike⟩

namespace Share

/-- How many answers the children have still to give, their ends included. -/
def size (shares : List (Share S V)) : Nat :=
  (shares.map fun h => h.left.length + 1).sum

variable {shares : List (Share S V)} {k : Nat} {h g : Share S V}

omit [BEq V] in
/-- A share with fewer moves left makes all of them fewer. -/
theorem size_set (hk : shares[k]? = some h)
    (hlt : g.left.length < h.left.length) :
    size (shares.set k g) < size shares := by
  induction shares generalizing k with
  | nil => cases hk
  | cons first rest ih =>
      cases k with
      | zero =>
          cases hk
          simp only [size, List.set_cons_zero, List.map_cons, List.sum_cons]
          omega
      | succ k =>
          have hrest := ih hk
          simp only [size, List.set_cons_succ, List.map_cons, List.sum_cons]
            at hrest ⊢
          omega

omit [BEq V] in
/-- A share less makes all of them fewer. -/
theorem size_eraseIdx (hk : shares[k]? = some h) :
    size (shares.eraseIdx k) < size shares := by
  induction shares generalizing k with
  | nil => cases hk
  | cons first rest ih =>
      cases k with
      | zero =>
          simp only [size, List.eraseIdx_cons_zero, List.map_cons,
            List.sum_cons]
          omega
      | succ k =>
          have hrest := ih hk
          simp only [size, List.eraseIdx_cons_succ, List.map_cons,
            List.sum_cons] at hrest ⊢
          omega

omit [BEq V] in
/-- What does not tell two shares apart does not see one replace the other.
-/
theorem map_set {α : Type} (f : Share S V → α) (hk : shares[k]? = some h)
    (hf : f g = f h) : (shares.set k g).map f = shares.map f := by
  obtain ⟨hlt, rfl⟩ := List.getElem?_eq_some_iff.mp hk
  have hmapped : k < (shares.map f).length := by rwa [List.length_map]
  have hget : (shares.map f)[k] = f shares[k] := List.getElem_map f
  rw [List.map_set, hf, ← hget]
  exact List.set_getElem_self _

omit [BEq V] in
/-- A replaced share replaces what is read. -/
theorem live_set (shares : List (Share S V)) (k : Nat) (g : Share S V) :
    live (shares.set k g) = (live shares).set k (g.weight, g.reading) :=
  List.map_set

omit [BEq V] in
theorem live_eraseIdx (shares : List (Share S V)) (k : Nat) :
    live (shares.eraseIdx k) = (live shares).eraseIdx k :=
  (List.eraseIdx_map _ _ _).symm

/-- The shares of a union stand, each of them for another child. -/
structure AllStand (s : S) (path : List Nat) (passes : Passes)
    (shares : List (Share S V)) : Prop where
  each : ∀ h ∈ shares, h.Stands s path passes
  places : (shares.map Share.place).Nodup

namespace AllStand

variable {path : List Nat} {passes after : Passes} {turn : Turn S V}
  {later : Reading S V}

theorem get (stand : AllStand s path passes shares) (hk : shares[k]? = some h) :
    h.Stands s path passes :=
  stand.each h (List.mem_of_getElem? hk)

theorem rooted (stand : AllStand s path passes shares) :
    ∀ l ∈ live shares, l.2.Rooted path := by
  intro l hl
  obtain ⟨g, hg, rfl⟩ := List.mem_map.mp hl
  exact (stand.each g hg).rooted.mono (List.prefix_append path _)

/-- What one child does leaves the shares of the others standing. -/
theorem others (stand : AllStand s path passes shares)
    (hk : shares[k]? = some h)
    (hnext : Act.Reaches (fun fuel => Reading.next s fuel h.reading) passes
      (turn, later) after)
    {j : Nat} (hj : shares[j]? = some g) (hne : j ≠ k) :
    g.Stands s path after := by
  have hplaces : g.place ≠ h.place := by
    intro heq
    obtain ⟨hlt, -⟩ := List.getElem?_eq_some_iff.mp hj
    refine hne
      ((List.getElem?_inj (by rwa [List.length_map]) stand.places).mp ?_)
    rw [List.getElem?_map, List.getElem?_map, hj, hk, Option.map_some,
      Option.map_some, heq]
  obtain ⟨-, hapart⟩ := hnext.apart fun fuel =>
    (Reading.zoned s (path ++ [h.place]) fuel).next _ (stand.get hk).rooted
  refine (stand.get hj).alike fun other hother =>
    (hapart other fun hbelow => hplaces ?_).symm
  exact child_unique hother hbelow

/-- The share of a child that has ended is taken out. -/
theorem eraseIdx (stand : AllStand s path passes shares)
    (hk : shares[k]? = some h)
    (hnext : Act.Reaches (fun fuel => Reading.next s fuel h.reading) passes
      (turn, later) after) :
    AllStand s path after (shares.eraseIdx k) where
  each g hg := by
    obtain ⟨j, hjk, hj⟩ := List.mem_eraseIdx_iff_getElem?.mp hg
    exact stand.others hk hnext hj hjk
  places := stand.places.sublist ((List.eraseIdx_sublist shares k).map _)

/-- The share of a child that has handed out a move is what it has left. -/
theorem set {left : List (Move S V)} (stand : AllStand s path passes shares)
    (hk : shares[k]? = some h)
    (hnext : Act.Reaches (fun fuel => Reading.next s fuel h.reading) passes
      (turn, later) after)
    (hleft : later.Reads s after left) :
    AllStand s path after (shares.set k ⟨h.weight, later, h.place, left⟩) where
  each g hg := by
    obtain ⟨j, hj⟩ := List.mem_iff_getElem?.mp hg
    by_cases hjk : k = j
    · subst hjk
      rw [List.getElem?_set_self (List.getElem?_eq_some_iff.mp hk).1] at hj
      cases hj
      obtain ⟨hkept, -⟩ := hnext.apart fun fuel =>
        (Reading.zoned s (path ++ [h.place]) fuel).next _ (stand.get hk).rooted
      exact ⟨(stand.get hk).above, hkept, hleft⟩
    · rw [List.getElem?_set_ne hjk] at hj
      exact stand.others hk hnext hj (Ne.symm hjk)
  places := by
    rw [map_set (g := ⟨h.weight, later, h.place, left⟩) Share.place hk rfl]
    exact stand.places

end AllStand

end Share

namespace Reading

variable {path : List Nat} {passes after : Passes} {shares : List (Share S V)}
  {stream onward : Stream} {k : Nat} {h : Share S V} {later : Reading S V}
  {moves : List (Move S V)}

/-- A child that has ended is taken out, and the union goes on without it. -/
theorem reads_without (stand : Share.AllStand s path passes shares)
    (hask : ∀ fuel, next s (fuel + 1) (.weighted (Share.live shares) stream) =
      next s fuel h.reading >>= handOn s fuel
      (Share.live shares) onward k h.weight)
    (hended : Act.Reaches (fun fuel => next s fuel h.reading) passes
      (.ended, later) after)
    (hreads : (Reading.weighted (Share.live (shares.eraseIdx k)) onward).Reads s
      after moves) :
    (Reading.weighted (Share.live shares) stream).Reads s passes moves := by
  refine hreads.of_reaches fun answer final hreaches => Act.Reaches.later ?_
  rw [Share.live_eraseIdx] at hreaches
  simp only [hask]
  refine hended.bind
    (fun fuel => (zoned s path fuel).next _ (.weighted ?_)) hreaches
  exact fun l hl => stand.rooted l (List.mem_of_mem_eraseIdx hl)

/-- A move of a child is handed on, and the child goes on from there. -/
theorem reads_with {m : Move S V} {left : List (Move S V)}
    (hask : ∀ fuel, next s (fuel + 1) (.weighted (Share.live shares) stream) =
      next s fuel h.reading >>= handOn s fuel
      (Share.live shares) onward k h.weight)
    (hmove : Act.Reaches (fun fuel => next s fuel h.reading) passes
      (.move m, later) after)
    (hreads : (Reading.weighted
      (Share.live (shares.set k ⟨h.weight, later, h.place, left⟩)) onward).Reads
        s after moves) :
    (Reading.weighted (Share.live shares) stream).Reads s passes
      (m :: moves) := by
  rw [Share.live_set] at hreads
  refine .move (Act.Reaches.later ?_) hreads
  simp only [hask]
  exact hmove.bind_pure fun _ => rfl

/-- The child that the pick falls to is asked. If it hands out a move, its
share loses its first one, and if it has ended, its share is taken out. -/
theorem exists_reads_pick (stand : Share.AllStand s path passes shares)
    (hsome : ¬((Share.live shares).isEmpty ||
      !decide (0.0 < totalWeight (Share.live shares))) = true)
    (hpick : (stream.fraction (totalWeight (Share.live shares))).1 <
      totalWeight (Share.live shares))
    (hrest : ∀ (others : List (Share S V)) (after : Passes),
        Share.size others < Share.size shares →
      Share.AllStand s path after others →
      (others.map Share.weight).Sublist (shares.map Share.weight) →
      ∃ moves, (Reading.weighted (Share.live others)
        (stream.fraction (totalWeight (Share.live shares))).2).Reads
          s after moves ∧
        Interleaved (others.map Share.left) moves) :
    ∃ moves, (Reading.weighted (Share.live shares) stream).Reads s
      passes moves ∧ Interleaved (shares.map Share.left) moves := by
  have hask := fun fuel => next_weighted_pick (s := s) fuel hsome hpick
  have hplace : place (Share.live shares)
      (stream.fraction (totalWeight (Share.live shares))).1 <
      (Share.live shares).length :=
    place_lt (fun hnil => hsome (by rw [hnil]; rfl)) _
  generalize place (Share.live shares)
    (stream.fraction (totalWeight (Share.live shares))).1 = k
    at hask hplace
  generalize (stream.fraction (totalWeight (Share.live shares))).2
    = onward at hask hrest
  obtain ⟨h, hk⟩ : ∃ h, shares[k]? = some h :=
    ⟨_, List.getElem?_eq_getElem
      (by rwa [Share.live, List.length_map] at hplace)⟩
  have hlive : (Share.live shares)[k]? = some (h.weight, h.reading) := by
    rw [Share.live, List.getElem?_map, hk, Option.map_some]
  have hleft : (shares.map Share.left)[k]? = some h.left := by
    rw [List.getElem?_map, hk, Option.map_some]
  simp only [hlive] at hask
  generalize hlefts : h.left = left at hleft
  have hreads := (stand.get hk).reads
  rw [hlefts] at hreads
  cases hreads with
  | @ended _ ended _ after hended =>
      obtain ⟨moves, hreads, hmoves⟩ :=
        hrest (shares.eraseIdx k) after (Share.size_eraseIdx hk)
        (stand.eraseIdx hk hended) ((List.eraseIdx_sublist shares k).map _)
      rw [← List.eraseIdx_map] at hmoves
      exact ⟨moves, reads_without stand hask hended hreads,
        hmoves.of_eraseIdx hleft⟩
  | @move _ rest _ after m left hmove hafter =>
      let g : Share S V := ⟨h.weight, rest, h.place, left⟩
      have hless : Share.size (shares.set k g) < Share.size shares :=
        Share.size_set hk (by rw [hlefts]; exact Nat.lt_succ_self _)
      have hweights : ((shares.set k g).map Share.weight).Sublist
          (shares.map Share.weight) := by
        rw [Share.map_set (g := g) Share.weight hk rfl]
      obtain ⟨moves, hreads, hmoves⟩ :=
        hrest (shares.set k g) after hless (stand.set hk hmove hafter) hweights
      rw [List.map_set] at hmoves
      exact ⟨m :: moves, reads_with hask hmove hreads, .take hleft hmoves⟩

/-- A random union with shares that stand hands out an interleaving of what
is left of them. -/
theorem exists_reads_weighted (stand : Share.AllStand s path passes shares)
    (hpicks : stream.Picks (shares.map Share.weight)) :
    ∃ moves, (Reading.weighted (Share.live shares) stream).Reads s
      passes moves ∧ Interleaved (shares.map Share.left) moves := by
  induction hsize : Share.size shares using Nat.strong_induction_on
    generalizing shares stream passes with
  | _ size ih =>
      subst hsize
      have hweights : (Share.live shares).map Prod.fst
          = shares.map Share.weight := by
        rw [Share.live, List.map_map]
        rfl
      obtain rfl | hne := eq_or_ne shares []
      · have hended : Act.Reaches
            (fun fuel => next s fuel (.weighted [] stream : Reading S V))
            passes (.ended, .weighted [] stream) passes := by
          refine Act.Reaches.later (Act.reaches_of_run fun fuel => ?_)
          rw [Reading.next]
          rfl
        exact ⟨[], .ended hended, .done (List.forall_mem_nil _)⟩
      have habove : ∀ weight ∈ shares.map Share.weight, 0.0 < weight := by
        intro weight hweight
        obtain ⟨h, hmem, rfl⟩ := List.mem_map.mp hweight
        exact (stand.each h hmem).above
      have htotal :=
        zero_lt_sum (fun hnil => hne (List.map_eq_nil_iff.mp hnil)) habove
      have hfalls := hpicks _ (List.Sublist.refl _) htotal 0
      rw [Function.iterate_zero_apply, ← hweights, ← totalWeight_eq] at hfalls
      rw [← hweights, ← totalWeight_eq] at htotal
      have hsome : ¬((Share.live shares).isEmpty ||
          !decide (0.0 < totalWeight (Share.live shares))) = true := by
        have hlive : Share.live shares ≠ [] :=
          fun hnil => hne (List.map_eq_nil_iff.mp hnil)
        simp [htotal, hlive]
      have hpicked : ∀ stream : Stream, stream.Picks (shares.map Share.weight) →
          (stream.fraction (totalWeight (Share.live shares))).1
            < totalWeight (Share.live shares) →
          ∃ moves, (Reading.weighted (Share.live shares) stream).Reads s
            passes moves ∧
            Interleaved (shares.map Share.left) moves := by
        intro stream hpicks hbelow
        refine exists_reads_pick stand hsome hbelow ?_
        intro others after hsize hothers hsub
        exact ih _ hsize hothers ((hpicks.fraction _).sublist hsub) rfl
      induction hfalls with
      | now hbelow => exact hpicked _ hpicks hbelow
      | @later stream _ ihfalls =>
          by_cases hbelow :
              (stream.fraction (totalWeight (Share.live shares))).1 <
              totalWeight (Share.live shares)
          · exact hpicked _ hpicks hbelow
          · obtain ⟨moves, hreads, hmoves⟩ := ihfalls (hpicks.fraction _)
            refine ⟨moves, hreads.of_reaches
              fun answer after hreaches => ?_, hmoves⟩
            refine Act.Reaches.later ?_
            simp only [next_weighted_again _ hsome hbelow]
            exact hreaches

-- ================================================================== opening

/-- The children that have weight are opened one after the other, and each
stands for the whole of its pass. -/
theorem exists_reaches_openWeighted {full : Nat → List (Move S V)}
    {children : List ((Selector S V × Float) × Nat)}
    (hdistinct : (children.map Prod.snd).Nodup)
    (hfull : ∀ c ∈ children.filter fun c => decide (0.0 < c.1.2),
      c.1.1.Reads s (path ++ [c.2]) passes (full c.2)) :
    ∃ shares after, Act.Reaches
        (fun fuel => openWeighted s fuel children path) passes
          (Share.live shares) after ∧
      (∀ h ∈ shares, h.Stands s path after) ∧
      (shares.map fun h => (h.weight, h.place, h.left)) =
        (children.filter fun c => decide (0.0 < c.1.2)).map
          (fun c => (c.1.2, c.2, full c.2)) ∧
      after.Alike (fun other => ∀ c ∈ children,
        ¬ path ++ [c.2] <+: other) passes := by
  induction children generalizing passes with
  | nil =>
      refine ⟨[], passes, Act.Reaches.later ?_, List.forall_mem_nil _, rfl,
        Passes.Alike.refl _ passes⟩
      simp only [openWeighted]
      exact Act.reaches_of_run fun _ => rfl
  | cons c rest ih =>
      rw [List.map_cons, List.nodup_cons] at hdistinct
      obtain ⟨hnew, hrest⟩ := hdistinct
      by_cases hweight : 0.0 < c.1.2
      · rw [List.filter_cons_of_pos (by simpa using hweight)] at hfull ⊢
        obtain ⟨hc, hothers⟩ := List.forall_mem_cons.mp hfull
        obtain ⟨reading, opened, hopen, hreads⟩ := hc
        obtain ⟨hrooted, hapart⟩ := hopen.apart fun fuel =>
          (zoned s (path ++ [c.2]) fuel).openOn c.1.1 _ (List.prefix_refl _)
        obtain ⟨shares, after, hlive, hstands, hshares, hafter⟩ :=
          ih hrest fun d hd => by
          refine (hothers d hd).alike fun other hother =>
            (hapart other fun hbelow => ?_).symm
          rw [child_unique hbelow hother] at hnew
          exact hnew (List.mem_map_of_mem (List.mem_of_mem_filter hd))
        refine ⟨⟨c.1.2, reading, c.2, full c.2⟩ :: shares, after,
          Act.Reaches.later ?_, ?_, ?_, ?_⟩
        · simp only [openWeighted, if_pos hweight]
          have hwithin : ∀ fuel, Act.Within (path <+: ·) (do
              let live ← openWeighted s fuel rest path
              return (c.1.2, reading) :: live) fun _ => True := fun fuel =>
            ((zoned s path fuel).openWeighted rest path
              (List.prefix_refl path)).bind
              fun live _ => Act.within_pure trivial
          exact hopen.bind hwithin (hlive.bind_pure fun _ => rfl)
        · refine List.forall_mem_cons.mpr ⟨⟨hweight, hrooted, ?_⟩, hstands⟩
          refine hreads.alike hrooted fun other hother =>
            (hafter other fun d hd hbelow => ?_).symm
          rw [child_unique hother hbelow] at hnew
          exact hnew (List.mem_map_of_mem hd)
        · rw [List.map_cons, List.map_cons, hshares]
        · intro other hother
          obtain ⟨hc, hothers⟩ := List.forall_mem_cons.mp hother
          rw [hafter other hothers, hapart other hc]
      · rw [List.filter_cons_of_neg (by simpa using hweight)] at hfull ⊢
        obtain ⟨shares, after, hlive, hstands, hshares, hafter⟩ :=
          ih hrest hfull
        refine ⟨shares, after, Act.Reaches.later ?_, hstands, hshares, ?_⟩
        · simp only [openWeighted, if_neg hweight]
          exact hlive
        · exact hafter.mono fun other hother =>
            (List.forall_mem_cons.mp hother).2

end Reading

namespace Weights

/-- What is no positive number, or none at all, has no weight. -/
theorem not_zero_lt_normalized {weights : List Binary64} {i : Nat}
    {w : Binary64} {x : Float} (hw : weights[i]? = some w)
    (hnone : (w.isFinite && w.isAboveZero) = false)
    (hx : (normalized weights)[i]? = some x) : ¬ 0.0 < x := by
  have hcleaned : (weights.map fun w => if (w.isFinite && w.isAboveZero) = true
      then w.toFloat
      else 0.0)[i]? = some 0.0 := by
    rw [List.getElem?_map, hw, Option.map_some, hnone]
    rfl
  unfold normalized at hx
  dsimp only at hx
  split at hx
  · rw [List.getElem?_map, hcleaned, Option.map_some] at hx
    cases hx
    exact Binary64.not_zero_lt_div _
  · rw [hcleaned] at hx
    cases hx
    decide

end Weights

namespace Selector

/-- The children of a union that have weight in the solution, with their
weights and places. -/
def weighed (s : S) (children : List (Selector S V)) (weights : Weights S) :
    List ((Selector S V × Float) × Nat) :=
  (children.zip (Weights.normalized
    (weights.of s children.length))).zipIdx.filter
    fun c => decide (0.0 < c.1.2)

section

variable {children : List (Selector S V)} {weights : Weights S}

omit [BEq V] in
/-- Children have places of their own. -/
theorem nodup_places (children : List (Selector S V)) (weights : List Float) :
    (((children.zip weights).zipIdx).map Prod.snd).Nodup := by
  rw [List.zipIdx_map_snd]
  exact List.nodup_range'

omit [BEq V] in
/-- A child whose weight is not positive and finite is not among those that
have weight. -/
theorem place_ne_of_mem_weighed {i : Nat} {w : Binary64}
    (hw : (weights.of s children.length)[i]? = some w)
    (hnone : (w.isFinite && w.isAboveZero) = false) :
    ∀ c ∈ weighed s children weights, c.2 ≠ i := by
  rintro c hc rfl
  obtain ⟨hmem, habove⟩ := List.mem_filter.mp hc
  have hzip := List.mem_zipIdx_iff_getElem?.mp hmem
  obtain ⟨-, hweight⟩ := List.getElem?_zip_eq_some.mp hzip
  exact Weights.not_zero_lt_normalized hw hnone hweight (by simpa using habove)

/-- Once a random union is open, a share stands for each child that has
weight. The union itself is counted after its children, as if they were not
there. -/
theorem exists_reaches_union {path : List Nat} {passes : Passes}
    {full : Nat → List (Move S V)} (seed : UInt64)
    (hfull : ∀ c ∈ weighed s children weights,
      c.1.1.Reads s (path ++ [c.2]) passes (full c.2)) :
    ∃ shares after, Act.Reaches
        (fun fuel => Reading.openOn s fuel
          (.union children weights .random seed) path) passes
        (.weighted (Share.live shares)
          (Seed.stream seed (passes.count path))) after ∧
      (∀ h ∈ shares, h.Stands s path after) ∧
      (shares.map fun h => (h.weight, h.place, h.left)) =
        (weighed s children weights).map fun c => (c.1.2, c.2, full c.2) := by
  obtain ⟨shares, opened, hlive, hstands, hshares, hopened⟩ :=
    Reading.exists_reaches_openWeighted (nodup_places children _) hfull
  have hcount : (opened.open path).1 = passes.count path := by
    rw [Passes.open_fst]
    exact hopened path fun _ _ => child_not_above
  refine ⟨shares, (opened.open path).2, Act.Reaches.later ?_,
    fun h hmem => ?_, hshares⟩
  · rw [← hcount]
    simp only [Reading.openOn]
    have hwithin : Act.Within (path <+: ·) (do
        let passes ← (get : Act Passes Passes)
        set (passes.open path).2
        return Reading.weighted (Share.live shares)
          (Seed.stream seed (passes.open path).1))
          fun _ => True :=
      Act.within_open (List.prefix_refl path)
        (fun n => Reading.weighted (Share.live shares) (Seed.stream seed n))
          fun _ => trivial
    exact hlive.bind (fun _ => hwithin) (Act.reaches_of_run fun _ => rfl)
  · refine (hstands h hmem).alike fun other hother => ?_
    have hne : path ≠ other := fun heq => child_not_above (heq ▸ hother)
    rw [Passes.count_open, if_neg hne]

end

/-- A pass of a random union, given what the children that have weight
would hand out if each were read alone from here. Whatever words the stream
is of, as long as a pick comes out on it for whichever weights are left, the
union hands out an interleaving of these passes and then ends: no move is
lost or there twice, and each child's are in its own order. A child whose
weight is not positive and finite is not among them. -/
theorem random_union_interleaves {children : List (Selector S V)}
    {weights : Weights S} {seed : UInt64} {path : List Nat} {passes : Passes}
    {full : Nat → List (Move S V)} (hfull : ∀ c ∈ weighed s children weights,
      c.1.1.Reads s (path ++ [c.2]) passes (full c.2)) :
    let parts := (weighed s children weights).map fun c => full c.2
    (∃ live after, Act.Reaches
        (fun fuel => Reading.openOn s fuel
          (.union children weights .random seed) path) passes
        (.weighted live (Seed.stream seed (passes.count path))) after ∧
      ∀ stream : Stream,
        stream.Picks ((weighed s children weights).map fun c => c.1.2) →
        ∃ moves, (Reading.weighted live stream).Reads s after moves ∧
          Interleaved parts moves ∧
          moves.Perm parts.flatten ∧ ∀ part ∈ parts, part.Sublist moves) ∧
      ∀ i w, (weights.of s children.length)[i]? = some w →
        (w.isFinite && w.isAboveZero) = false →
            ∀ c ∈ weighed s children weights, c.2 ≠ i := by
  intro parts
  refine ⟨?_, fun i w hw hnone => place_ne_of_mem_weighed hw hnone⟩
  obtain ⟨shares, after, hopen, hstands, hshares⟩ :=
    exists_reaches_union seed hfull
  have hfield {α : Type} (f : Float × Nat × List (Move S V) → α) :
      (shares.map fun h => f (h.weight, h.place, h.left)) =
        (weighed s children weights).map fun c => f (c.1.2, c.2, full c.2) := by
    have hmapped := congrArg (List.map f) hshares
    rwa [List.map_map, List.map_map] at hmapped
  have hweights : shares.map Share.weight = (weighed s children weights).map
      fun c => c.1.2 :=
    hfield fun share => share.1
  have hplaces : shares.map Share.place
      = (weighed s children weights).map Prod.snd :=
    hfield fun share => share.2.1
  have hleft : shares.map Share.left = parts := hfield fun share => share.2.2
  have hdistinct : (shares.map Share.place).Nodup := by
    rw [hplaces]
    exact (nodup_places children _).sublist (List.filter_sublist.map _)
  refine ⟨Share.live shares, after, hopen, fun stream hpicks => ?_⟩
  rw [← hweights] at hpicks
  obtain ⟨moves, hreads, hmoves⟩ :=
    Reading.exists_reads_weighted ⟨hstands, hdistinct⟩ hpicks
  rw [hleft] at hmoves
  exact ⟨moves, hreads, hmoves, hmoves.perm,
    fun part hpart => hmoves.sublist hpart⟩

/-- Swaps and changes of pillars, and between them draws that never end and
have no weight. -/
theorem random_union_interleaves_neverEnding :
    let s := Mixed.fourOfFive
    let swaps : Leaf Mixed Int := .swap Mixed.paired
    let trades : Leaf Mixed Int := .pillarSwap Mixed.paired ⟨true, 1, 2⟩
    let children := [leaf swaps .given 0, leaf swaps .random 1,
      leaf trades .given 0]
    let weights : Weights Mixed := .fixed [Binary64.one, ⟨0⟩, Binary64.one]
    let parts := [swaps.moves s, trades.moves s]
    parts.map List.length = [10, 5] ∧
    ∃ live after, Act.Reaches
        (fun fuel => Reading.openOn s fuel
          (.union children weights .random 7) []) []
        (.weighted live (Seed.stream 7 0)) after ∧
      ∃ moves, (Reading.weighted live (Seed.stream 7 0)).Reads s after moves ∧
        Interleaved parts moves ∧ moves.Perm parts.flatten := by
  intro s swaps trades children weights parts
  have hnormalized : Weights.normalized (weights.of s children.length)
      = [1.0, 0.0, 1.0] := by
    decide
  have hzero : ¬ (0.0 : Float) < 0.0 := by decide
  have hone : (0.0 : Float) < 1.0 := by decide
  have hweighed : weighed s children weights =
      [((leaf swaps .given 0, 1.0), 0), ((leaf trades .given 0, 1.0), 2)] := by
    rw [weighed, hnormalized]
    simp [children, hzero, hone]
  -- both sums that come up, of one weight and of two, have all their places
  have hsteady : Weights.Steady [1.0, 1.0] := by
    refine Weights.steady_of_full fun left hleft hpos => ?_
    have hcases : left = [] ∨ left = [1.0] ∨ left = [1.0, 1.0] := by
      simpa [List.sublists_cons] using List.mem_sublists.mpr hleft
    obtain rfl | rfl | rfl := hcases
    · exact absurd hpos hzero
    · exact ⟨2 ^ 52, -52, by decide, rfl, le_refl _⟩
    · exact ⟨2 ^ 52, -51, by decide, rfl, le_refl _⟩
  have hlisted : ∀ (l : Leaf Mixed Int) path passes,
      (leaf l .given 0).Reads s path passes (l.moves s) := by
    intro l path passes
    have hinOrder : (leaf l .given 0 : Selector Mixed Int).InOrder fun _ =>
      True := .leaf trivial
    exact (hinOrder.offers s).reads path passes
  let full : Nat → List (Move Mixed Int) :=
    fun i => if i = 0 then swaps.moves s else trades.moves s
  have hfull : ∀ c ∈ weighed s children weights,
      c.1.1.Reads s ([] ++ [c.2]) [] (full c.2) := by
    rw [hweighed]
    intro c hc
    obtain rfl | hc := List.mem_cons.mp hc
    · exact hlisted swaps _ _
    · obtain rfl := List.mem_singleton.mp hc
      exact hlisted trades _ _
  obtain ⟨⟨live, after, hopen, hstream⟩, -⟩ :=
    @random_union_interleaves Mixed Int _ s children weights 7 [] [] full hfull
  rw [hweighed] at hstream
  obtain ⟨moves, hreads, hmoves, hperm, -⟩ :=
    hstream (Seed.stream 7 0) (hsteady.picks _)
  exact ⟨by decide, live, after, hopen, moves, hreads, hmoves, hperm⟩

end Selector

end PlanSearch

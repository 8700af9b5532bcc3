/-
Scores as an ordered group.

A score is a list of integers that fit their words, and everything is
proved there. `ints` loses nothing (`ints_injective`), and an operation
answers with the score of the exact integers or not at all (`Exact`), so
a law of scores is a law of lists of integers of one length. What is left
of the words is where the operations end: as soon as one level leaves its
range.

# The order

Levels are compared from the front, and one that differs decides. The
three ways to say so come to the same: level by level along a chain of
comparisons (`compare_eq_chain`), part by part wherever the list is cut
(`compare_eq_parts`), and as the lexicographic order of lists
(`compare_lt_iff`). Adding something to both sides moves every level by
the same amount, so no comparison on the way changes (`compare_add`).
-/
import Mathlib.Algebra.Order.Group.Int
import Mathlib.Data.List.Basic
import PlanSearch.Proofs.Checked
import PlanSearch.Proofs.Scores

namespace PlanSearch.Score

variable {shape : Shape} {a b c x y : Score shape} {ns : List Int}

-- ================================================================== integers

/-- A score is known by its integers. -/
theorem ints_injective (h : a.ints = b.ints) : a = b :=
  ext_levels (List.map_injective_iff.mpr (fun _ _ => Int64.toInt_inj.mp) h)

theorem length_ints (a : Score shape) : a.ints.length = shape.levels.length :=
  (List.length_map _).trans a.length_eq

/-- The number is one of a 64-bit word. -/
def Within (n : Int) : Prop :=
  Int64.minValue.toInt ≤ n ∧ n ≤ Int64.maxValue.toInt

/-- A level holds exactly the numbers of its word. -/
theorem fitsLevel_iff {n : Int} : Checked.fitsLevel n = true ↔ Within n :=
  decide_eq_true_iff

/-- The levels of a score are numbers of a word. -/
theorem within_of_mem_ints : ∀ n ∈ a.ints, Within n := by
  intro n hn
  obtain ⟨level, -, rfl⟩ := List.mem_map.mp hn
  exact fitsLevel_iff.mp (Checked.fitsLevel_toInt level)

/-- The result is the score of the given levels where these are words, and a
refusal where they are not. -/
structure Exact (ns : List Int) (result : Except Fault (Score shape)) :
    Prop where
  fits : (∀ n ∈ ns, Within n) → ∃ c, result = .ok c ∧ c.ints = ns
  refuses : (∃ n ∈ ns, ¬ Within n) → result = .error .arithmetic

/-- A score is made of integers that fit, and of no others. -/
theorem exact_ofInts (h : ns.length = shape.levels.length) :
    Exact ns (ofInts shape ns h) where
  fits hall := by
    have hfits : ns.all Checked.fitsLevel = true :=
      List.all_eq_true.mpr fun n hn => fitsLevel_iff.mpr (hall n hn)
    refine ⟨_, if_pos hfits, ?_⟩
    show (ns.map Int64.ofInt).map Int64.toInt = ns
    rw [List.map_map]
    refine (List.map_congr_left fun n hn => ?_).trans (List.map_id ns)
    exact Checked.toInt_ofInt_of_fits (fitsLevel_iff.mpr (hall n hn))
  refuses := by
    rintro ⟨n, hn, hout⟩
    exact if_neg fun hall =>
      hout (fitsLevel_iff.mp (List.all_eq_true.mp hall n hn))

/-- An answer is the exact one, and the exact one is found. -/
theorem Exact.ok_iff {result : Except Fault (Score shape)}
    (h : Exact ns result) : result = .ok c ↔ c.ints = ns := by
  constructor
  · intro hok
    by_cases hall : ∀ n ∈ ns, Within n
    · obtain ⟨d, hd, hints⟩ := h.fits hall
      cases hd.symm.trans hok
      exact hints
    · obtain ⟨n, hn⟩ := not_forall.mp hall
      obtain ⟨hmem, hout⟩ := Classical.not_imp.mp hn
      cases (h.refuses ⟨n, hmem, hout⟩).symm.trans hok
  · intro hints
    subst hints
    obtain ⟨d, hd, hints⟩ := h.fits within_of_mem_ints
    rw [hd, ints_injective hints]

-- =============================================================== operations

/-- Sums are exact or refused. -/
theorem exact_add (a b : Score shape) :
    Exact (List.zipWith (· + ·) a.ints b.ints) (a.add b) :=
  exact_ofInts _

/-- Differences are exact or refused. -/
theorem exact_sub (a b : Score shape) :
    Exact (List.zipWith (· - ·) a.ints b.ints) (a.sub b) :=
  exact_ofInts _

/-- Negation is exact or refused. -/
theorem exact_neg (a : Score shape) : Exact (a.ints.map (- ·)) a.neg :=
  exact_ofInts _

theorem zipWith_sub_zipWith_add {ks ls : List Int} (h : ks.length = ls.length) :
    List.zipWith (· - ·) (List.zipWith (· + ·) ks ls) ls = ks := by
  refine List.ext_getElem (by simp [h]) fun i _ _ => ?_
  rw [List.getElem_zipWith, List.getElem_zipWith, add_sub_cancel_right]

/-- What was added can be subtracted again. -/
theorem sub_eq_of_add_eq (h : a.add b = .ok c) : c.sub b = .ok a := by
  rw [(exact_sub c b).ok_iff, (exact_add a b).ok_iff.mp h]
  exact (zipWith_sub_zipWith_add
    ((length_ints a).trans (length_ints b).symm)).symm

/-- Sums do not depend on the order, refusals included. -/
theorem add_comm (a b : Score shape) : a.add b = b.add a := by
  have hcomm : List.zipWith (· + ·) a.ints b.ints
      = List.zipWith (· + ·) b.ints a.ints :=
    List.zipWith_comm_of_comm Int.add_comm
  unfold add
  simp only [hcomm]

/-- Adding zero changes nothing. -/
theorem add_zero (a : Score shape) : a.add (zero shape) = .ok a := by
  rw [(exact_add a _).ok_iff]
  have hzero : (zero shape).ints = List.replicate a.ints.length 0 := by
    rw [length_ints]
    simp [ints, zero, uniform, List.map_const']
  rw [hzero]
  refine List.ext_getElem (by simp) fun i _ _ => ?_
  simp

/-- A score and its negation add up to zero. -/
theorem add_neg (h : a.neg = .ok b) : a.add b = .ok (zero shape) := by
  have hb := (exact_neg a).ok_iff.mp h
  rw [(exact_add a b).ok_iff, hb]
  refine List.ext_getElem (by simp [length_ints]) fun i _ _ => ?_
  simp [ints, zero, uniform]

/-- Sums that are reached in both ways are the same. -/
theorem add_assoc (hx : a.add b = .ok x) (hy : b.add c = .ok y) :
    x.add c = a.add y := by
  have hints : List.zipWith (· + ·) x.ints c.ints
      = List.zipWith (· + ·) a.ints y.ints := by
    rw [(exact_add a b).ok_iff.mp hx, (exact_add b c).ok_iff.mp hy]
    refine List.ext_getElem (by simp [length_ints]) fun i _ _ => ?_
    simp [Int.add_assoc]
  unfold add
  simp only [hints]

-- ==================================================================== order

theorem compare_toInt (k l : Int64) :
    compare k.toInt l.toInt = compare k l := by
  show compareOfLessAndEq _ _ = compareOfLessAndEq _ _
  unfold compareOfLessAndEq
  simp only [Int64.lt_iff_toInt_lt, Int64.toInt_inj]

/-- Scores are compared as their integers are, from the front. -/
theorem compare_eq_ints (a b : Score shape) :
    compare a b = List.compareLex compare a.ints b.ints := by
  rw [compare_eq_levels]
  unfold ints
  show List.compareLex compare _ _ = _
  generalize a.levels = ks
  generalize b.levels = ls
  induction ks generalizing ls with
  | nil => cases ls <;> rfl
  | cons k ks ih =>
      cases ls with
      | nil => rfl
      | cons l ls =>
          rw [List.map_cons, List.map_cons, List.compareLex_cons_cons,
            List.compareLex_cons_cons, compare_toInt, ih]

/-- Moving every level moves no comparison. -/
theorem compareLex_zipWith_add {ks ls ms : List Int}
    (hks : ks.length = ms.length) (hls : ls.length = ms.length) :
    List.compareLex compare (List.zipWith (· + ·) ks ms)
      (List.zipWith (· + ·) ls ms) = List.compareLex compare ks ls := by
  induction ms generalizing ks ls with
  | nil =>
      rw [List.length_eq_zero_iff.mp hks, List.length_eq_zero_iff.mp hls]
      rfl
  | cons m ms ih =>
      obtain ⟨k, ks, rfl⟩ := List.exists_cons_of_length_eq_add_one hks
      obtain ⟨l, ls, rfl⟩ := List.exists_cons_of_length_eq_add_one hls
      have hhead : compare (k + m) (l + m) = compare k l := by
        rw [← cmp_eq_compare, ← cmp_eq_compare, cmp_add_right]
      rw [List.zipWith_cons_cons, List.zipWith_cons_cons,
        List.compareLex_cons_cons, List.compareLex_cons_cons, hhead,
        ih (Nat.succ_injective hks) (Nat.succ_injective hls)]

/-- Adding a score to both sides changes no comparison. -/
theorem compare_add (hx : a.add c = .ok x) (hy : b.add c = .ok y) :
    compare x y = compare a b := by
  rw [compare_eq_ints, compare_eq_ints, (exact_add a c).ok_iff.mp hx,
    (exact_add b c).ok_iff.mp hy]
  exact compareLex_zipWith_add ((length_ints a).trans (length_ints c).symm)
    ((length_ints b).trans (length_ints c).symm)

/-- The order is the lexicographic one. -/
theorem compare_lt_iff : compare a b = .lt ↔ a.levels < b.levels := by
  rw [compare_eq_levels]
  show List.compareLex compare _ _ = .lt ↔ _
  generalize a.levels = ks
  generalize b.levels = ls
  induction ks generalizing ls with
  | nil => cases ls <;> simp [List.compareLex_nil_nil, List.compareLex_nil_cons]
  | cons k ks ih =>
      cases ls with
      | nil => simp [List.compareLex_cons_nil]
      | cons l ls =>
          rw [List.compareLex_cons_cons, List.cons_lt_cons_iff,
            Ordering.then_eq_lt, ih, Std.compare_eq_lt,
            Std.LawfulEqOrd.compare_eq_iff_eq]

theorem compare_gt_iff : compare a b = .gt ↔ b.levels < a.levels :=
  Std.OrientedCmp.gt_iff_lt.trans compare_lt_iff

/-- What a chain of comparisons has found so far it starts with. -/
theorem foldl_then (found : Ordering) (later : List Ordering) :
    later.foldl .then found = found.then (later.foldl .then .eq) := by
  induction later generalizing found with
  | nil => exact Ordering.then_eq.symm
  | cons next later ih =>
      rw [List.foldl_cons, List.foldl_cons, ih, ih (Ordering.eq.then next),
        Ordering.eq_then, Ordering.then_assoc]

/-- The levels compared along a chain. -/
theorem compare_eq_chain (a b : Score shape) :
    compare a b = (List.zipWith compare a.levels b.levels).foldl .then .eq := by
  rw [compare_eq_levels]
  show List.compareLex compare _ _ = _
  have hlength : a.levels.length = b.levels.length :=
    a.length_eq.trans b.length_eq.symm
  generalize a.levels = ks at hlength
  generalize b.levels = ls at hlength
  induction ks generalizing ls with
  | nil =>
      rw [List.length_eq_zero_iff.mp hlength.symm]
      rfl
  | cons k ks ih =>
      obtain ⟨l, ls, rfl⟩ := List.exists_cons_of_length_eq_add_one hlength.symm
      rw [List.compareLex_cons_cons, List.zipWith_cons_cons,
        List.foldl_cons, foldl_then, Ordering.eq_then,
        ih ls (Nat.succ_injective hlength)]

/-- Lists of one length are compared before what follows them. -/
theorem compareLex_append {ks ls : List Int64} (ks' ls' : List Int64)
    (hlength : ks.length = ls.length) :
    List.compareLex compare (ks ++ ks') (ls ++ ls')
      = (List.compareLex compare ks ls).then
        (List.compareLex compare ks' ls') := by
  induction ks generalizing ls with
  | nil =>
      rw [List.length_eq_zero_iff.mp hlength.symm]
      rfl
  | cons k ks ih =>
      obtain ⟨l, ls, rfl⟩ := List.exists_cons_of_length_eq_add_one hlength.symm
      rw [List.cons_append, List.cons_append, List.compareLex_cons_cons,
        List.compareLex_cons_cons, ih (Nat.succ_injective hlength),
        Ordering.then_assoc]

/-- The levels compared in two parts. -/
theorem compare_eq_parts (a b : Score shape) (n : Nat) :
    compare a b = (compare (a.levels.take n) (b.levels.take n)).then
      (compare (a.levels.drop n) (b.levels.drop n)) := by
  rw [compare_eq_levels]
  have hlength : (a.levels.take n).length = (b.levels.take n).length := by
    rw [List.length_take, List.length_take, a.length_eq, b.length_eq]
  have hparts := compareLex_append (a.levels.drop n) (b.levels.drop n) hlength
  rw [List.take_append_drop, List.take_append_drop] at hparts
  exact hparts

theorem minValue_le (level : Int64) :
    (compare Int64.minValue level).isLE = true := by
  rw [← compare_toInt, Std.isLE_compare]
  exact (fitsLevel_iff.mp (Checked.fitsLevel_toInt level)).1

/-- No score is below the least one. -/
theorem least_le (a : Score shape) : (compare (least shape) a).isLE = true := by
  rw [compare_eq_levels]
  show (List.compareLex compare _ _).isLE = true
  unfold least uniform
  have hlength := a.length_eq
  generalize a.levels = ls at hlength
  dsimp only
  generalize shape.levels = kinds at hlength
  induction kinds generalizing ls with
  | nil =>
      rw [List.length_eq_zero_iff.mp hlength]
      rfl
  | cons kind kinds ih =>
      obtain ⟨l, ls, rfl⟩ := List.exists_cons_of_length_eq_add_one hlength
      rw [List.map_cons, List.compareLex_cons_cons, Ordering.isLE_then_iff_and]
      exact ⟨minValue_le l, .inr (ih ls (Nat.succ_injective hlength))⟩

-- =================================================================== levels

theorem ofLevels_eq_ok {levels : List Int64} :
    ofLevels shape levels = .ok a ↔ levels = a.levels := by
  unfold ofLevels
  constructor
  · intro h
    split at h
    case isTrue => cases h; rfl
    case isFalse => cases h
  · rintro rfl
    rw [dif_pos a.length_eq]

/-- Levels make a score if there are as many as the shape has. -/
theorem exists_ofLevels {levels : List Int64} :
    (∃ a, ofLevels shape levels = .ok a) ↔ levels.length = shape.size := by
  constructor
  · rintro ⟨a, h⟩
    rw [ofLevels_eq_ok.mp h]
    exact a.length_eq
  · exact fun h => ⟨⟨levels, h⟩, dif_pos h⟩

-- =============================================================== in one piece

/-- Scores of a shape are an ordered group, as far as words reach. -/
structure OrderedGroup (shape : Shape) : Prop where
  lt_iff : ∀ a b : Score shape, compare a b = .lt ↔ a.levels < b.levels
  gt_iff : ∀ a b : Score shape, compare a b = .gt ↔ b.levels < a.levels
  eq_iff : ∀ a b : Score shape, compare a b = .eq ↔ a = b
  trans : ∀ a b c : Score shape, compare a b = .lt → compare b c = .lt →
    compare a c = .lt
  least : ∀ a : Score shape, (compare (least shape) a).isLE = true
  /-- Level by level, the most significant first. -/
  chain : ∀ a b : Score shape,
    compare a b = (List.zipWith compare a.levels b.levels).foldl .then .eq
  /-- In two parts, wherever the levels are cut. -/
  parts : ∀ (a b : Score shape) (n : Nat),
    compare a b = (compare (a.levels.take n) (b.levels.take n)).then
      (compare (a.levels.drop n) (b.levels.drop n))
  /-- Levels and scores stand for each other. -/
  ofLevels : ∀ (levels : List Int64) (a : Score shape),
    ofLevels shape levels = .ok a ↔ levels = a.levels
  takes : ∀ levels : List Int64,
    (∃ a, Score.ofLevels shape levels = .ok a) ↔ levels.length = shape.size
  add : ∀ a b : Score shape,
    Exact (List.zipWith (· + ·) a.ints b.ints) (a.add b)
  sub : ∀ a b : Score shape,
    Exact (List.zipWith (· - ·) a.ints b.ints) (a.sub b)
  neg : ∀ a : Score shape, Exact (a.ints.map (- ·)) a.neg
  comm : ∀ a b : Score shape, a.add b = b.add a
  zero : ∀ a : Score shape, a.add (zero shape) = .ok a
  assoc : ∀ a b c x y : Score shape, a.add b = .ok x → b.add c = .ok y →
    x.add c = a.add y
  add_neg : ∀ a b : Score shape, a.neg = .ok b →
    a.add b = .ok (Score.zero shape)
  add_sub : ∀ a b c : Score shape, a.add b = .ok c → c.sub b = .ok a
  /-- Adding the same to both keeps the order. -/
  compare_add : ∀ a b c x y : Score shape, a.add c = .ok x → b.add c = .ok y →
    (compare a b = .lt ↔ compare x y = .lt)

/-- Scores of every shape are an ordered group. -/
theorem orderedGroup (shape : Shape) : OrderedGroup shape where
  lt_iff _ _ := compare_lt_iff
  gt_iff _ _ := compare_gt_iff
  eq_iff _ _ := Std.LawfulEqOrd.compare_eq_iff_eq
  trans _ _ _ := Std.TransCmp.lt_trans
  least := least_le
  chain := compare_eq_chain
  parts := compare_eq_parts
  ofLevels _ _ := ofLevels_eq_ok
  takes _ := exists_ofLevels
  add := exact_add
  sub := exact_sub
  neg := exact_neg
  comm := add_comm
  zero := add_zero
  assoc _ _ _ _ _ := add_assoc
  add_neg _ _ := add_neg
  add_sub _ _ _ := sub_eq_of_add_eq
  compare_add _ _ _ _ _ hx hy := by rw [compare_add hx hy]

end PlanSearch.Score

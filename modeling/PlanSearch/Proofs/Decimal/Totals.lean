/-
Sums of weights, and fractions of them.

Of the machine numbers that weights are, two things are wanted. A sum of
weights above zero is above zero again (`zero_lt_add`), for rounding never
drops the highest place of a number that has one at or above the least
exponent. And a fraction of a total is below the total (`fraction_lt`).
That needs a total with all of its 53 places: a fraction is less than one
by one part in 2 ^ 52 at least, and so much is no less than the last of the
places. With fewer places a fraction may be rounded up to the total.
-/
import PlanSearch.Proofs.Decimal.Rounding
import PlanSearch.Random.Stream

namespace PlanSearch

namespace Binary64

open Float.Model Float.Model.UnpackedFloat

-- ====================================================================== sums

theorem lt_iff (x y : Float) :
    x < y ↔ x.toModel.unpack.compare y.toModel.unpack = some .lt := by
  have hlt : x < y ↔ (x.toModel.unpack.lt y.toModel.unpack) = true := by
    change decide (x.toModel.unpack.lt y.toModel.unpack = true) = true ↔ _
    exact decide_eq_true_iff
  rw [hlt, UnpackedFloat.lt, beq_iff_eq]

/-- Above zero, as a double has it. -/
inductive Above : UnpackedFloat → Prop
  | infinity : Above (.infinity .positive)
  | finite {m : Nat} {e : Int} {h : 0 < m} : Fits m e →
    Above (.finite .positive m e h)

/-- What is above zero unpacks to a number above it. -/
theorem zero_lt_iff (x : Float) : 0.0 < x ↔ Above x.toModel.unpack := by
  have hzero : (Float.toModel 0.0).unpack = .zero .positive := rfl
  rw [lt_iff, hzero]
  constructor
  · intro hlt
    cases hx : x.toModel.unpack with
    | infinity s =>
        cases s with
        | positive => exact .infinity
        | negative =>
            rw [hx] at hlt
            cases hlt
    | notANumber =>
        rw [hx] at hlt
        cases hlt
    | zero s =>
        rw [hx] at hlt
        cases hlt
    | finite s m e h =>
        cases s with
        | positive => exact .finite (fits_of_unpack hx).1
        | negative =>
            rw [hx] at hlt
            cases hlt
  · intro habove
    generalize x.toModel.unpack = u at habove
    cases habove with
    | infinity => rfl
    | finite _ => rfl

/-- What is above zero stays so in a double. -/
theorem Above.unpack_pack {u : UnpackedFloat} (h : Above u) :
    Above (UnpackedFloat.unpack Format.binary64
      (UnpackedFloat.pack Format.binary64 u)) := by
  cases h with
  | infinity => exact .infinity
  | @finite m e _ fits =>
      by_cases hmost : e ≤ 971
      · rw [fits.unpack_pack hmost]
        exact .finite fits
      · rw [unpack_pack_beyond (by omega)]
        exact .infinity

/-- Rounding drops the highest place of no number that has one at or above
the least exponent, and what is left fits a double. -/
theorem fits_rounded {m : Nat} {e : Int} (hm : 0 < m) (he : -1074 ≤ m.log2 + e)
    (hfull : 52 ≤ m.log2 ∨ e ≤ -1074) :
    rounded m (places m e) ≠ 0 ∧
      (rounded m (places m e) < 2 ^ 53 →
        Fits (rounded m (places m e)) (e + places m e)) := by
  have hplaces : places m e ≤ m.log2 := by
    unfold places
    omega
  have hkept : 2 ^ (m.log2 - places m e) ≤ rounded m (places m e) := by
    refine Nat.le_trans ?_ (div_le_rounded m (places m e))
    rw [Nat.le_div_iff_mul_le (Nat.two_pow_pos _), ← Nat.pow_add,
      Nat.sub_add_cancel hplaces]
    exact Nat.log2_self_le (Nat.ne_of_gt hm)
  refine ⟨Nat.ne_of_gt (Nat.lt_of_lt_of_le (Nat.two_pow_pos _) hkept),
    fun hbits => ?_⟩
  by_cases hlog : m.log2 = 52 + places m e
  · rw [hlog, Nat.add_sub_cancel] at hkept
    refine ⟨hbits, ?_, .inl hkept⟩
    unfold places
    omega
  · refine ⟨hbits, ?_, .inr ?_⟩ <;>
      unfold places at hlog ⊢ <;> omega

/-- Rounding drops to zero no number with a place at or above the least
exponent. -/
theorem above_roundWithAccuracy {m : Nat} {e : Int} (hm : 0 < m)
    (he : -1074 ≤ m.log2 + e) (hfull : 52 ≤ m.log2 ∨ e ≤ -1074) :
    Above (roundWithAccuracy Format.binary64 .positive m e .exact) := by
  obtain ⟨hpos, hfits⟩ := fits_rounded hm he hfull
  rw [round_eq, dif_neg hpos]
  by_cases hbits : rounded m (places m e) < 2 ^ 53
  · rw [if_pos hbits]
    exact .finite (hfits hbits)
  · rw [if_neg hbits]
    refine .finite ⟨by decide, ?_, .inl (Nat.le_refl _)⟩
    unfold places
    omega

/-- A whole number of places is not rounded to zero. -/
theorem above_round {m : Nat} {e : Int} (hm : 0 < m) (he : -1074 ≤ e) :
    Above (UnpackedFloat.round Format.binary64 .positive m e) := by
  unfold UnpackedFloat.round decreaseExponent
  dsimp only
  rw [target_eq, Nat.shiftLeft_eq]
  generalize hk : (e - max ((m.log2 : Int) + e - 52) (-1074)).toNat = k
  have hlog : (m * 2 ^ k).log2 = m.log2 + k := by
    refine (Nat.log2_eq_iff (by positivity)).2 ⟨?_, ?_⟩
    · rw [Nat.pow_add]
      exact Nat.mul_le_mul_right _ (Nat.log2_self_le (Nat.ne_of_gt hm))
    · rw [Nat.add_right_comm, Nat.pow_add]
      exact Nat.mul_lt_mul_of_pos_right Nat.lt_log2_self (Nat.two_pow_pos k)
  refine above_roundWithAccuracy (by positivity) (by omega) ?_
  omega

/-- A number above zero is rounded as it is. -/
theorem normalize_of_pos {m : Nat} {e : Int} {s : Sign} (hm : 0 < m) :
    UnpackedFloat.normalize Format.binary64 m e s =
      UnpackedFloat.round Format.binary64 .positive m e := by
  have hcompare : compare (m : Int) 0 = .gt := Std.compare_eq_gt.2 (by omega)
  rw [UnpackedFloat.normalize, hcompare]
  rfl

/-- The sum of two numbers above zero is above zero. -/
theorem Above.add {u v : UnpackedFloat} (hu : Above u) (hv : Above v) :
    Above (UnpackedFloat.add Format.binary64 u v) := by
  cases hu with
  | infinity =>
      cases hv with
      | infinity => exact .infinity
      | finite _ => exact .infinity
  | @finite m e hm fits =>
      cases hv with
      | infinity => exact .infinity
      | @finite n k hn others =>
          have hsum : 0 < m <<< (e - min e k).toNat := by
            rw [Nat.shiftLeft_eq]
            positivity
          unfold UnpackedFloat.add decreaseExponent
          dsimp only [Sign.apply]
          rw [← Nat.cast_add, normalize_of_pos (Nat.add_pos_left hsum _)]
          exact above_round (Nat.add_pos_left hsum _)
            (le_min fits.least others.least)

/-- Numbers above zero add up to one above zero. -/
theorem zero_lt_add {x y : Float} (hx : 0.0 < x) (hy : 0.0 < y) :
    0.0 < x + y := by
  rw [zero_lt_iff] at hx hy ⊢
  exact (hx.add hy).unpack_pack

/-- Nothing added to a number above zero leaves it there. -/
theorem zero_lt_zero_add {y : Float} (hy : 0.0 < y) : 0.0 < 0.0 + y := by
  rw [zero_lt_iff] at hy ⊢
  have hadd : (0.0 + y).toModel.unpack = UnpackedFloat.unpack Format.binary64
      (UnpackedFloat.pack Format.binary64
        (UnpackedFloat.add Format.binary64 (.zero .positive)
          y.toModel.unpack)) := rfl
  rw [hadd]
  cases hunpack : y.toModel.unpack <;> rw [hunpack] at hy <;> cases hy
  · exact Above.unpack_pack .infinity
  · exact Above.unpack_pack (.finite ‹_›)

/-- Zero shared out is not above zero. -/
theorem not_zero_lt_div (x : Float) : ¬ 0.0 < 0.0 / x := by
  have hdiv : (0.0 / x).toModel.unpack = UnpackedFloat.unpack Format.binary64
      (UnpackedFloat.pack Format.binary64
        (UnpackedFloat.div Format.binary64 (.zero .positive)
          x.toModel.unpack)) := rfl
  have hnone : ∀ u : UnpackedFloat, (∃ s, u = .zero s) ∨
      u = .notANumber → ¬ Above
      (UnpackedFloat.unpack Format.binary64
          (UnpackedFloat.pack Format.binary64 u)) := by
    have hnan : UnpackedFloat.unpack Format.binary64
        (UnpackedFloat.pack Format.binary64 .notANumber) = .notANumber := rfl
    rintro u (⟨s, rfl⟩ | rfl)
    · rw [unpack_pack_zero]
      exact nofun
    · rw [hnan]
      exact nofun
  rw [zero_lt_iff, hdiv]
  refine hnone _ ?_
  cases x.toModel.unpack with
  | infinity s => exact .inl ⟨_, rfl⟩
  | notANumber => exact .inr rfl
  | zero s => exact .inr rfl
  | finite s m e h => exact .inl ⟨_, rfl⟩

-- ================================================================= fractions

/-- The bits of a draw are those of a number from one on, below two. -/
theorem unpack_ofBits (w : UInt64) :
    ∃ k, k < 2 ^ 52 ∧
      (Float.ofBits ((w >>> 12) ||| 0x3ff0000000000000)).toModel.unpack =
        .finite .positive (2 ^ 52 + k) (-52)
          (Nat.add_pos_left (by decide) k) := by
  have hw := w.toNat_lt
  have hbits : ((w >>> 12) ||| 0x3ff0000000000000).toNat =
      1023 * 2 ^ 52 + w.toNat / 2 ^ 12 := by
    have hor : ((w >>> 12) ||| 0x3ff0000000000000).toNat
        = 1023 <<< 52 ||| w.toNat / 2 ^ 12 := by
      rw [UInt64.toNat_or, Nat.or_comm, UInt64.toNat_shiftRight,
        Nat.shiftRight_eq_div_pow]
      rfl
    rw [hor, ← Nat.shiftLeft_add_eq_or_of_lt (by omega), Nat.shiftLeft_eq]
  generalize ((w >>> 12) ||| 0x3ff0000000000000) = x at hbits
  have hexponent : @unpackExponent Format.binary64 x.toBitVec = 1023#11 := by
    refine BitVec.eq_of_toNat_eq ?_
    rw [← exponentField_eq]
    show x.toNat / 2 ^ 52 % 2 ^ 11 = 1023
    omega
  have hmantissa : (@unpackMantissa Format.binary64 x.toBitVec).toNat
      = w.toNat / 2 ^ 12 := by
    simp only [unpackMantissa, BitVec.toNat_cast, BitVec.extractLsb_toNat,
      UInt64.toNat_toBitVec, hbits]
    omega
  have hsign : @unpackSign Format.binary64 x.toBitVec = 0#1 := by
    refine BitVec.eq_of_toNat_eq ?_
    delta unpackSign
    simp only [BitVec.toNat_cast, BitVec.extractLsb_toNat,
      UInt64.toNat_toBitVec, Nat.shiftRight_eq_div_pow]
    show x.toNat / 2 ^ 63 % 2 ^ 1 = 0
    omega
  have hunpack : UnpackedFloat.unpack Format.binary64 x.toBitVec =
      .finite .positive (2 ^ 52 + w.toNat / 2 ^ 12) (-52)
          (Nat.add_pos_left (by decide) _) := by
    unfold UnpackedFloat.unpack
    dsimp only
    rw [hexponent, if_neg (by decide), if_neg (by decide)]
    refine finite_congr (congrArg Sign.ofBitVec hsign) ?_ rfl
    rw [toNat_one_append, hmantissa]
  have hmodel : (Float.ofBits x).toModel.unpack
      = UnpackedFloat.unpack Format.binary64
      (UnpackedFloat.pack Format.binary64
        (UnpackedFloat.unpack Format.binary64 x.toBitVec)) := rfl
  refine ⟨w.toNat / 2 ^ 12, by omega, ?_⟩
  rw [hmodel, hunpack]
  exact Fits.unpack_pack ⟨by omega, by decide, .inl (by omega)⟩ (by decide)

/-- What is less than one by at least one place stays below a total that
has all its places. -/
theorem round_lt {k s m : Nat} {e : Int} (hk : 0 < k) (hbelow : k < 2 ^ 52)
    (hlow : 2 ^ 52 ≤ k * 2 ^ s) (hhigh : k * 2 ^ s < 2 ^ 53)
    (htotal : 2 ^ 52 ≤ m) (hbits : m < 2 ^ 53) (he : -1074 ≤ e) :
    ∃ n e' h, roundWithAccuracy Format.binary64 .positive (k * 2 ^ s * m)
      (-52 - s + e) .exact = .finite .positive n e' h ∧ Fits n e' ∧
      (e' < e ∨ e' = e ∧ n < m) := by
  have hs : 1 ≤ s ∧ s ≤ 52 := by
    constructor
    · by_contra hzero
      obtain rfl : s = 0 := by omega
      omega
    · by_contra hlarge
      have hpow : 2 ^ 53 ≤ 2 ^ s := Nat.pow_le_pow_right (by decide) (by omega)
      exact absurd (Nat.lt_of_le_of_lt (Nat.le_mul_of_pos_left _ hk) hhigh)
        (Nat.not_lt.2 hpow)
  -- the product, exactly, as a multiple of the least place of the total
  have hproduct : k * 2 ^ s * m ≤ (m - 1) * 2 ^ (52 + s) := by
    have hround : k * m ≤ (m - 1) * 2 ^ 52 :=
      calc k * m ≤ (2 ^ 52 - 1) * m := Nat.mul_le_mul_right m (by omega)
        _ ≤ (m - 1) * 2 ^ 52 := by omega
    calc k * 2 ^ s * m = k * m * 2 ^ s := Nat.mul_right_comm k (2 ^ s) m
      _ ≤ (m - 1) * 2 ^ 52 * 2 ^ s := Nat.mul_le_mul_right _ hround
      _ = (m - 1) * 2 ^ (52 + s) := by rw [Nat.mul_assoc, ← Nat.pow_add]
  have hpos : 2 ^ 52 * 2 ^ 52 ≤ k * 2 ^ s * m := Nat.mul_le_mul hlow htotal
  have hlt : k * 2 ^ s * m < 2 ^ 53 * 2 ^ 53 := Nat.mul_lt_mul'' hhigh hbits
  generalize k * 2 ^ s * m = product at hproduct hpos hlt ⊢
  have hlog : 104 ≤ product.log2 ∧ product.log2 < 106 :=
    ⟨(Nat.le_log2 (by omega)).2 (by omega),
      (Nat.log2_lt (by omega)).2 (by omega)⟩
  obtain ⟨hne, hfits⟩ :=
    fits_rounded (m := product) (e := -52 - s + e) (by omega) (by omega)
    (.inl (by omega))
  -- how far below the exponent of the total that of the rounded product is
  obtain ⟨d, hd⟩ : ∃ d : Nat,
      -52 - s + e + places product (-52 - s + e) + d = e := by
    refine ⟨(e - (-52 - s + e + places product (-52 - s + e))).toNat, ?_⟩
    unfold places
    omega
  have hle : rounded product (places product (-52 - s + e))
      ≤ (m - 1) * 2 ^ d := by
    refine rounded_le_of_le (Nat.le_trans hproduct (Nat.le_of_eq ?_))
    rw [Nat.mul_assoc, ← Nat.pow_add]
    congr 2
    omega
  rw [round_eq, dif_neg hne]
  by_cases hsmall : rounded product (places product (-52 - s + e)) < 2 ^ 53
  · rw [if_pos hsmall]
    refine ⟨_, _, Nat.pos_of_ne_zero hne, rfl, hfits hsmall, ?_⟩
    cases d with
    | zero => exact .inr ⟨by omega, by omega⟩
    | succ d => exact .inl (by omega)
  · rw [if_neg hsmall]
    refine ⟨2 ^ 52, _, by decide, rfl,
      ⟨by decide, ?_, .inl (Nat.le_refl _)⟩, ?_⟩
    · unfold places
      omega
    · obtain _ | _ | d := d
      · omega
      · exact .inr ⟨by omega, by omega⟩
      · exact .inl (by omega)

/-- One taken off a number from one on, below two: what is left is exact. -/
theorem sub_one {k : Nat} (hk : 0 < k) (hbelow : k < 2 ^ 52) :
    ∃ (s : Nat) (h : 0 < k * 2 ^ s), 2 ^ 52 ≤ k * 2 ^ s ∧
      Fits (k * 2 ^ s) (-52 - s) ∧ UnpackedFloat.sub Format.binary64
        (.finite .positive (2 ^ 52 + k) (-52) (Nat.add_pos_left (by decide) k))
        (.finite .positive (2 ^ 52) (-52) (by decide)) =
      .finite .positive (k * 2 ^ s) (-52 - s) h := by
  have hlog : k.log2 < 52 := (Nat.log2_lt (Nat.ne_of_gt hk)).2 hbelow
  obtain ⟨s, hs⟩ : ∃ s : Nat, k.log2 + s = 52 := ⟨52 - k.log2, by omega⟩
  have hlow : 2 ^ 52 ≤ k * 2 ^ s := by
    rw [← hs, Nat.pow_add]
    exact Nat.mul_le_mul_right _ (Nat.log2_self_le (Nat.ne_of_gt hk))
  have hhigh : k * 2 ^ s < 2 ^ 53 := by
    have hpow : (2 : Nat) ^ 53 = 2 ^ (k.log2 + 1) * 2 ^ s := by
      rw [← Nat.pow_add]
      congr 1
      omega
    rw [hpow]
    exact Nat.mul_lt_mul_of_pos_right Nat.lt_log2_self (Nat.two_pow_pos s)
  have hpos : 0 < k * 2 ^ s := Nat.lt_of_lt_of_le (by decide) hlow
  refine ⟨s, hpos, hlow, ⟨hhigh, by omega, .inl hlow⟩, ?_⟩
  have hsub : UnpackedFloat.sub Format.binary64
      (.finite .positive (2 ^ 52 + k) (-52) (Nat.add_pos_left (by decide) k))
      (.finite .positive (2 ^ 52) (-52) (by decide)) =
      UnpackedFloat.normalize Format.binary64 k (-52) .positive := by
    unfold UnpackedFloat.sub decreaseExponent
    dsimp only [Sign.apply]
    congr 1
    simp
  have hshift : ((-52 : Int) - max ((k.log2 : Int) + -52 - 52) (-1074)).toNat
    = s := by omega
  rw [hsub, normalize_of_pos hk]
  unfold UnpackedFloat.round decreaseExponent
  dsimp only
  have hnone : places (k * 2 ^ s) (-52 - s) = 0 :=
    places_eq_zero hhigh (by omega)
  rw [target_eq, hshift, Nat.shiftLeft_eq, round_twice, hnone, rounded_zero,
    Nat.cast_zero, Int.add_zero, hnone, Nat.pow_zero, Nat.div_one,
    Nat.cast_zero, Int.add_zero]
  exact number_of_pos hpos

end Binary64

open Float.Model Float.Model.UnpackedFloat Binary64

/-- A fraction of a total that has all its places is below it. -/
theorem Stream.fraction_lt {top : Float} {m : Nat} {e : Int} {h : 0 < m}
    (htop : top.toModel.unpack = .finite .positive m e h) (hfull : 2 ^ 52 ≤ m)
    (stream : Stream) : (stream.fraction top).1 < top := by
  obtain ⟨w, hw⟩ : ∃ w : UInt64, (stream.fraction top).1 =
      (Float.ofBits ((w >>> 12) ||| 0x3ff0000000000000) - 1.0) * top := ⟨_, rfl⟩
  obtain ⟨fits, hmost⟩ := fits_of_unpack htop
  obtain ⟨k, hbelow, hbits⟩ := unpack_ofBits w
  have hone : (Float.toModel 1.0).unpack
    = .finite .positive (2 ^ 52) (-52) (by decide) := rfl
  have hsub (x : Float) : (x - 1.0).toModel.unpack
      = UnpackedFloat.unpack Format.binary64
      (UnpackedFloat.pack Format.binary64
        (UnpackedFloat.sub Format.binary64 x.toModel.unpack
          (Float.toModel 1.0).unpack)) := rfl
  have hmul (x : Float) : (x * top).toModel.unpack
      = UnpackedFloat.unpack Format.binary64
      (UnpackedFloat.pack Format.binary64
        (UnpackedFloat.mul Format.binary64 x.toModel.unpack
          top.toModel.unpack)) := rfl
  rw [hw, lt_iff, hmul, hsub, htop, hone, hbits]
  obtain rfl | hk := Nat.eq_zero_or_pos k
  · have hzero : UnpackedFloat.unpack Format.binary64
        (UnpackedFloat.pack Format.binary64
        (UnpackedFloat.sub Format.binary64
          (.finite .positive (2 ^ 52 + 0) (-52) (by decide))
          (.finite .positive (2 ^ 52) (-52) (by decide))))
            = .zero .positive := rfl
    have hproduct : UnpackedFloat.mul Format.binary64 (.zero .positive)
        (.finite .positive m e h) = .zero .positive := rfl
    rw [hzero, hproduct, unpack_pack_zero]
    rfl
  · obtain ⟨s, hpos, hlow, hpart, heq⟩ := sub_one hk hbelow
    obtain ⟨n, e', hn, hround, hfits, hless⟩ :=
      round_lt hk hbelow hlow hpart.bits hfull fits.bits fits.least
    have hproduct : UnpackedFloat.mul Format.binary64
        (.finite .positive (k * 2 ^ s) (-52 - s) hpos)
          (.finite .positive m e h) =
        .finite .positive n e' hn := hround
    rw [heq, hpart.unpack_pack (by omega), hproduct,
      hfits.unpack_pack (by omega)]
    show some ((compare e' e).then (compare n m)) = some .lt
    obtain hlt | ⟨rfl, hlt⟩ := hless
    · rw [Std.compare_eq_lt.2 hlt]
      rfl
    · rw [Std.compare_self, Std.compare_eq_lt.2 hlt]
      rfl

end PlanSearch

/-
Rounding, and what comes out of a double again.

Rounding drops the lowest places of a significand: as many as leave 53 of
them, or as bring the exponent up to the least there is, whichever is more
(`places`). What is left grows by one at most, and where that makes a place
too many, one more is dropped (`round_eq`). A number that fits a double
(`Fits`) comes out of it as it went in, unless its exponent is too large.
-/
import PlanSearch.Proofs.Decimal.Whole

namespace PlanSearch.Binary64

open Float.Model Float.Model.UnpackedFloat

-- ================================================================== rounding

/-- How many of its lowest places a significand loses. -/
def places (m : Nat) (e : Int) : Nat :=
  (max (m.log2 + e - 52) (-1074) - e).toNat

/-- The exponent aimed at leaves 53 bits, or is the least one. -/
theorem target_eq (m : Nat) (e : Int) :
    Format.binary64.targetExponent (totalExponent m e)
      = max (m.log2 + e - 52) (-1074) := by
  simp only [Format.targetExponent, totalExponent, mantissaBits_binary64,
    Format.minExponent]
  omega

/-- Shifting towards the exponent aimed at drops the places below it. -/
theorem shiftToTarget_eq (m : Nat) (e : Int) :
    shiftToTargetExponent Format.binary64 m e .exact =
      ((⟨m, false, false⟩ : ExtendedMantissa) >>> places m e,
        e + places m e) := by
  simp only [shiftToTargetExponent, shiftToExponent, target_eq, places,
    ExtendedMantissa.ofMantissaAndAccuracy]

/-- Shifting to the right divides. -/
theorem mantissa_shift (em : ExtendedMantissa) (n : Nat) :
    (em >>> n).mantissa = em.mantissa / 2 ^ n := by
  induction n with
  | zero => exact (Nat.div_one _).symm
  | succ n ih =>
      have hstep : (em >>> (n + 1)).mantissa = (em >>> n).mantissa / 2 := rfl
      rw [hstep, ih, Nat.div_div_eq_div_mul, ← Nat.pow_succ]

/-- Shifting out zeros loses nothing. -/
theorem shift_exact (m n : Nat) :
    (⟨m * 2 ^ n, false, false⟩ : ExtendedMantissa) >>> n
      = ⟨m, false, false⟩ := by
  induction n generalizing m with
  | zero =>
      rw [Nat.pow_zero, Nat.mul_one]
      rfl
  | succ n ih =>
      have hstep : (⟨m * 2 ^ (n + 1), false, false⟩ :
          ExtendedMantissa) >>> (n + 1) =
          ((⟨m * 2 ^ (n + 1), false, false⟩ : ExtendedMantissa)
            >>> n).shiftRightOne := rfl
      have hpow : m * 2 ^ (n + 1) = 2 * m * 2 ^ n := by ring
      rw [hstep, hpow, ih]
      simp [ExtendedMantissa.shiftRightOne]

/-- Rounding never goes below the bits that are kept. -/
theorem le_rounded (em : ExtendedMantissa) :
    em.mantissa ≤ em.roundedMantissa := by
  obtain ⟨m, r, s⟩ := em
  cases r <;> cases s <;>
    simp only [ExtendedMantissa.roundedMantissa, ExtendedMantissa.accuracy,
      Accuracy.roundToNearestEven] <;> omega

/-- What is left of a significand once it has lost its lowest places. -/
def rounded (m n : Nat) : Nat :=
  ((⟨m, false, false⟩ : ExtendedMantissa) >>> n).roundedMantissa

theorem rounded_zero (m : Nat) : rounded m 0 = m := rfl

theorem div_le_rounded (m n : Nat) : m / 2 ^ n ≤ rounded m n := by
  have hle := le_rounded ((⟨m, false, false⟩ : ExtendedMantissa) >>> n)
  rwa [mantissa_shift] at hle

/-- Rounding does not pass a number that needs none. -/
theorem rounded_le_of_le {m n bound : Nat} (h : m ≤ bound * 2 ^ n) :
    rounded m n ≤ bound := by
  obtain rfl | hlt := Nat.eq_or_lt_of_le h
  · rw [rounded, shift_exact]
    exact Nat.le_refl _
  · have hdiv : m / 2 ^ n < bound :=
      (Nat.div_lt_iff_lt_mul (Nat.two_pow_pos n)).2 hlt
    have hle := rounded_le ((⟨m, false, false⟩ : ExtendedMantissa) >>> n)
    rw [mantissa_shift] at hle
    exact Nat.le_trans hle hdiv

/-- A rounded significand has 53 bits, or is the power of two above. -/
theorem rounded_bits (m : Nat) (e : Int) : rounded m (places m e) ≤ 2 ^ 53 := by
  refine rounded_le_of_le ?_
  have hlog : m.log2 + 1 ≤ 53 + places m e := by
    unfold places
    omega
  rw [← Nat.pow_add]
  exact Nat.le_trans (Nat.le_of_lt Nat.lt_log2_self)
    (Nat.pow_le_pow_right (by decide) hlog)

theorem places_eq_zero {m : Nat} {e : Int} (hm : m < 2 ^ 53) (he : -1074 ≤ e) :
    places m e = 0 := by
  have hlog : m.log2 ≤ 52 := by
    by_cases h : m = 0
    · simp [h]
    · exact Nat.le_of_lt_succ ((Nat.log2_lt h).2 hm)
  unfold places
  omega

/-- The power of two above loses one more place. -/
theorem places_carry {e : Int} (he : -1074 ≤ e) : places (2 ^ 53) e = 1 := by
  unfold places
  rw [Nat.log2_two_pow]
  omega

/-- A sign, a significand and an exponent as a number: without a significand
it is zero. -/
def number (s : Sign) (m : Nat) (e : Int) : UnpackedFloat :=
  if h : m = 0 then .zero s else .finite s m e (Nat.pos_of_ne_zero h)

theorem number_of_pos {s : Sign} {m : Nat} {e : Int} (h : 0 < m) :
    number s m e = .finite s m e h :=
  dif_neg (Nat.ne_of_gt h)

/-- The significand is rounded to the places it keeps, and what it has grown
to is cut once more. -/
theorem round_twice (s : Sign) (m : Nat) (e : Int) :
    roundWithAccuracy Format.binary64 s m e .exact =
      number s
        (rounded m (places m e)
          / 2 ^ places (rounded m (places m e)) (e + places m e))
        (e + places m e
          + places (rounded m (places m e)) (e + places m e)) := by
  have hround : roundWithAccuracy Format.binary64 s m e .exact =
      let first := shiftToTargetExponent Format.binary64 m e .exact
      let last := shiftToTargetExponent Format.binary64
        first.1.roundedMantissa first.2 .exact
      number s last.1.mantissa last.2 := rfl
  rw [hround, shiftToTarget_eq]
  dsimp only
  rw [shiftToTarget_eq, mantissa_shift]
  rfl

/-- Rounding, put as one case of what the significand comes to. Where it
grows to 54 places, its only one is the highest. -/
theorem round_eq (s : Sign) (m : Nat) (e : Int) :
    roundWithAccuracy Format.binary64 s m e .exact =
      if h : rounded m (places m e) = 0 then .zero s
      else if rounded m (places m e) < 2 ^ 53 then
        .finite s (rounded m (places m e)) (e + places m e)
          (Nat.pos_of_ne_zero h)
      else .finite s (2 ^ 52) (e + places m e + 1) (by decide) := by
  have hle := rounded_bits m e
  have he : -1074 ≤ e + places m e := by
    unfold places
    omega
  rw [round_twice]
  generalize rounded m (places m e) = r at hle ⊢
  by_cases hsmall : r < 2 ^ 53
  · rw [places_eq_zero hsmall he, Nat.pow_zero, Nat.div_one, Nat.cast_zero,
      add_zero]
    by_cases hzero : r = 0
    · rw [dif_pos hzero]
      exact dif_pos hzero
    · rw [dif_neg hzero, if_pos hsmall]
      exact dif_neg hzero
  · obtain rfl : r = 2 ^ 53 := by omega
    rw [places_carry he, dif_neg (by decide), if_neg (by decide)]
    exact number_of_pos (by decide)

-- =================================================================== packing

/-- A significand and an exponent as they stand in a double. -/
structure Fits (m : Nat) (e : Int) : Prop where
  bits : m < 2 ^ 53
  least : -1074 ≤ e
  full : 2 ^ 52 ≤ m ∨ e = -1074

/-- Numbers of the same parts are the same. -/
theorem finite_congr {s t : Sign} {m n : Nat} {e k : Int} {hm : 0 < m}
    {hn : 0 < n} (hs : s = t) (hmn : m = n) (hek : e = k) :
    UnpackedFloat.finite s m e hm = .finite t n k hn := by
  subst hs hmn hek
  rfl

/-- The sign is packed as it is. -/
theorem unpackSign_pack (s : Sign) (field : BitVec 11) (m : BitVec 52) :
    Sign.ofBitVec (unpackSign (packComponents Format.binary64 s field m))
      = s := by
  delta unpackSign
  simp only [packComponents, BitVec.extractLsb]
  rw [BitVec.extractLsb'_append_eq_of_le (by omega),
    BitVec.extractLsb'_append_eq_of_le (by omega)]
  cases s <;> rfl

theorem toNat_one_append (m : BitVec 52) :
    (1#1 ++ m).toNat = 2 ^ 52 + m.toNat := by
  rw [BitVec.toNat_append, ← Nat.shiftLeft_add_eq_or_of_lt m.isLt]
  rfl

/-- What has all its places and an exponent that is not too large comes out
of a double as it went in. -/
theorem unpack_pack_normal {s : Sign} {m : Nat} {e : Int} {h : 0 < m}
    (hlow : 2 ^ 52 ≤ m) (hhigh : m < 2 ^ 53) (hleast : -1074 ≤ e)
    (hmost : e ≤ 971) :
    UnpackedFloat.unpack Format.binary64
      (UnpackedFloat.pack Format.binary64 (.finite s m e h))
        = .finite s m e h := by
  have hlog : m.log2 = 52 := (Nat.log2_eq_iff (by omega)).2 ⟨hlow, hhigh⟩
  have hfield : (e + Format.binary64.exponentBias
      + Format.binary64.mantissaBitsWithoutImplicit).toNat
          = (e + 1075).toNat := by
    simp only [Format.exponentBias]
    omega
  delta UnpackedFloat.pack
  dsimp only
  rw [hfield, hlog, if_neg (by omega),
    if_pos (show 52 + 1 = Format.binary64.mantissaBits from rfl)]
  unfold UnpackedFloat.unpack
  have hones : BitVec.ofNat 11 (e + 1075).toNat ≠ -1#11 := by
    intro heq
    have hall : (-1#11).toNat = 2047 := rfl
    have := congrArg BitVec.toNat heq
    rw [BitVec.toNat_ofNat, hall] at this
    omega
  have hzero : BitVec.ofNat 11 (e + 1075).toNat ≠ 0#11 := by
    intro heq
    have := congrArg BitVec.toNat heq
    simp only [BitVec.toNat_ofNat] at this
    omega
  dsimp only
  rw [unpackExponent_packComponents, if_neg hones, if_neg hzero]
  refine finite_congr (unpackSign_pack ..) ?_ ?_
  · rw [unpackMantissa_packComponents, toNat_one_append, BitVec.toNat_ofNat]
    omega
  · rw [BitVec.toNat_ofNat]
    simp only [Format.exponentBias]
    omega

/-- So does what has fewer places and the least exponent. -/
theorem unpack_pack_least {s : Sign} {m : Nat} {h : 0 < m}
    (hbits : m < 2 ^ 52) : UnpackedFloat.unpack Format.binary64
      (UnpackedFloat.pack Format.binary64 (.finite s m (-1074) h))
        = .finite s m (-1074) h := by
  have hlog : m.log2 + 1 ≠ Format.binary64.mantissaBits := by
    have hlt : m.log2 < 52 := (Nat.log2_lt (Nat.ne_of_gt h)).2 hbits
    rw [mantissaBits_binary64]
    omega
  have hfield : ((-1074 : Int) + Format.binary64.exponentBias
      + Format.binary64.mantissaBitsWithoutImplicit).toNat = 1 := rfl
  have hm : (BitVec.ofNat 52 m).toNat = m := by
    rw [BitVec.toNat_ofNat]
    exact Nat.mod_eq_of_lt hbits
  have hne : BitVec.ofNat 52 m ≠ 0#52 := by
    intro heq
    rw [heq] at hm
    exact Nat.ne_of_gt h hm.symm
  delta UnpackedFloat.pack
  dsimp only
  rw [hfield, if_neg (by decide), if_neg hlog]
  unfold UnpackedFloat.unpack
  dsimp only
  rw [unpackExponent_packComponents, if_neg (by decide), if_pos rfl,
    dif_neg (by rwa [unpackMantissa_packComponents])]
  refine finite_congr (unpackSign_pack ..) ?_ rfl
  rw [unpackMantissa_packComponents, hm]

/-- And what has too large an exponent comes out infinite. -/
theorem unpack_pack_beyond {s : Sign} {m : Nat} {e : Int} {h : 0 < m}
    (hbeyond : 971 < e) :
    UnpackedFloat.unpack Format.binary64
      (UnpackedFloat.pack Format.binary64 (.finite s m e h)) = .infinity s := by
  have hfield : 2 ^ Format.binary64.exponentBits
      ≤ (e + Format.binary64.exponentBias
      + Format.binary64.mantissaBitsWithoutImplicit).toNat + 1 := by
    simp only [Format.exponentBias]
    omega
  delta UnpackedFloat.pack
  simp only [hfield, if_true]
  cases s <;> rfl

theorem unpack_pack_zero (s : Sign) :
    UnpackedFloat.unpack Format.binary64
      (UnpackedFloat.pack Format.binary64 (.zero s)) = .zero s := by
  cases s <;> rfl

/-- A number that fits is packed and unpacked as it is. -/
theorem Fits.unpack_pack {s : Sign} {m : Nat} {e : Int} {h : 0 < m}
    (fits : Fits m e) (hmost : e ≤ 971) :
    UnpackedFloat.unpack Format.binary64
      (UnpackedFloat.pack Format.binary64 (.finite s m e h))
        = .finite s m e h := by
  by_cases hlow : 2 ^ 52 ≤ m
  · exact unpack_pack_normal hlow fits.bits fits.least hmost
  · obtain rfl := fits.full.resolve_left hlow
    exact unpack_pack_least (by omega)

/-- What comes out of a double fits one, and its exponent is not too large. -/
theorem fits_of_unpack {b : BitVec Format.binary64.numBits} {s : Sign}
    {m : Nat} {e : Int} {h : 0 < m}
    (hunpack : UnpackedFloat.unpack Format.binary64 b = .finite s m e h) :
    Fits m e ∧ e ≤ 971 := by
  have hlt := (unpackMantissa b).isLt
  unfold UnpackedFloat.unpack at hunpack
  dsimp only at hunpack
  by_cases hones : unpackExponent b = -1#_
  · rw [if_pos hones] at hunpack
    by_cases hnone : unpackMantissa b = 0#_
    · rw [if_pos hnone] at hunpack
      cases hunpack
    · rw [if_neg hnone] at hunpack
      cases hunpack
  rw [if_neg hones] at hunpack
  by_cases hzero : unpackExponent b = 0#_
  · rw [if_pos hzero] at hunpack
    by_cases hnone : unpackMantissa b = 0#_
    · rw [dif_pos hnone] at hunpack
      cases hunpack
    · rw [dif_neg hnone] at hunpack
      cases hunpack
      refine ⟨⟨Nat.lt_of_lt_of_le hlt (by decide), ?_, .inr ?_⟩, ?_⟩ <;>
        simp [hzero, Format.exponentBias]
  · rw [if_neg hzero] at hunpack
    cases hunpack
    have hfield : (unpackExponent b).toNat < 2048 := (unpackExponent b).isLt
    have hleast : (unpackExponent b).toNat ≠ 0 :=
      fun heq => hzero (BitVec.eq_of_toNat_eq heq)
    have hmost : (unpackExponent b).toNat ≠ 2047 :=
      fun heq => hones (BitVec.eq_of_toNat_eq heq)
    have hbits := toNat_one_append (unpackMantissa b)
    refine ⟨⟨by omega, ?_, .inl (by omega)⟩, ?_⟩ <;>
      simp only [Format.exponentBias] <;> omega

end PlanSearch.Binary64

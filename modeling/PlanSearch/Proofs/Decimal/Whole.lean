/-
Whole numbers as doubles.

The double nearest to an integer of 64 bits is finite (`isFinite_ofInt`).
That is far from a close call, so nothing here says what rounding gives:
it is enough to follow how large the binary exponent can get. Rounding
moves it by no more than the significand has bits (`round_within`), a
number whose exponent is small is packed with a small exponent field, and
what has a small field unpacks to a small exponent again.
-/
import Mathlib.Data.Nat.Digits.Defs
import PlanSearch.Decimal.Binary64

namespace PlanSearch.Binary64

open Float.Model Float.Model.UnpackedFloat

-- ================================================================== rounding

/-- A double has 53 significant bits. -/
theorem mantissaBits_binary64 : Format.binary64.mantissaBits = 53 := rfl

/-- The number is zero, or has at most `a` significant bits and a binary
exponent of at most `k`. -/
inductive Within (a : Nat) (k : Int) : UnpackedFloat → Prop
  | zero {s : Sign} : Within a k (.zero s)
  | finite {s : Sign} {m : Nat} {e : Int} {h : 0 < m} (bits : m < 2 ^ a)
      (exponent : e ≤ k) :
      Within a k (.finite s m e h)

/-- Shifting to the right makes no significand larger. -/
theorem shift_mantissa_le (em : ExtendedMantissa) (n : Nat) :
    (em >>> n).mantissa ≤ em.mantissa := by
  induction n with
  | zero => exact Nat.le_refl _
  | succ n ih =>
    have hstep : (em >>> (n + 1)).mantissa = (em >>> n).mantissa / 2 := rfl
    rw [hstep]
    exact Nat.le_trans (Nat.div_le_self _ _) ih

/-- Rounding adds one at most. -/
theorem rounded_le (em : ExtendedMantissa) :
    em.roundedMantissa ≤ em.mantissa + 1 := by
  obtain ⟨m, r, s⟩ := em
  cases r <;> cases s <;>
    simp only [ExtendedMantissa.roundedMantissa, ExtendedMantissa.accuracy,
      Accuracy.roundToNearestEven] <;> omega

/-- Shifting takes the exponent up to what a number of so many bits needs. -/
theorem shift_exponent_le {m a : Nat} {e : Int} (hm : m < 2 ^ a) :
    (shiftToTargetExponent Format.binary64 m e .exact).2
      ≤ max (e + a) (-1074) := by
  have hlog : m.log2 ≤ a := by
    by_cases h : m = 0
    · simp [h]
    · exact Nat.le_of_lt ((Nat.log2_lt h).2 hm)
  simp only [shiftToTargetExponent, shiftToExponent, Format.targetExponent,
    totalExponent, mantissaBits_binary64, Format.minExponent]
  omega

theorem shifted_le (m : Nat) (e : Int) :
    (shiftToTargetExponent Format.binary64 m e .exact).1.mantissa ≤ m :=
  shift_mantissa_le _ _

/-- Rounding keeps a number in bounds. -/
theorem round_within {s : Sign} {m a : Nat} {e : Int} (hm : m < 2 ^ a) :
    Within (a + 1) (max (e + a) (-1074) + (a + 1))
      (roundWithAccuracy Format.binary64 s m e .exact) := by
  -- the rounded significand may be one larger, so it has one more bit at most
  have hround : (shiftToTargetExponent Format.binary64 m e
      .exact).1.roundedMantissa
      < 2 ^ (a + 1) := by
    have hle := rounded_le (shiftToTargetExponent Format.binary64 m e .exact).1
    have hshift := shifted_le m e
    have hpow : 2 ^ (a + 1) = 2 ^ a + 2 ^ a := by omega
    omega
  have hfirst := @shift_exponent_le m a e hm
  unfold roundWithAccuracy
  dsimp only
  generalize shiftToTargetExponent Format.binary64 m e .exact = first
    at hround hfirst ⊢
  by_cases hzero : (shiftToTargetExponent Format.binary64
      first.1.roundedMantissa first.2 .exact).1.mantissa = 0
  · rw [dif_pos hzero]
    exact .zero
  · rw [dif_neg hzero]
    refine .finite (Nat.lt_of_le_of_lt (shifted_le _ _) hround) ?_
    have hlast := @shift_exponent_le _ (a + 1) first.2 hround
    omega

-- =================================================================== packing

/-- A number within bounds is packed with an exponent field to match. -/
theorem exponent_pack_le {u : UnpackedFloat} {a : Nat} {k : Int}
    (h : Within a k u) (hk : k ≤ 970) :
    (@unpackExponent Format.binary64
      (UnpackedFloat.pack Format.binary64 u)).toNat ≤ (k + 1075).toNat := by
  cases h with
  | @zero s => cases s <;> exact Nat.zero_le _
  | @finite s m e hm _ he =>
    have hfield : ¬ 2 ^ Format.binary64.exponentBits ≤
        (e + Format.binary64.exponentBias
          + Format.binary64.mantissaBitsWithoutImplicit).toNat + 1 := by
      simp only [Format.exponentBias]
      omega
    delta UnpackedFloat.pack
    dsimp only
    rw [if_neg hfield]
    split
    · rw [unpackExponent_packComponents, BitVec.toNat_ofNat]
      simp only [Format.exponentBias]
      omega
    · rw [unpackExponent_packComponents]
      simp

/-- What has an exponent field below the largest unpacks to a number within
bounds. -/
theorem unpack_within {b : BitVec Format.binary64.numBits} {n : Nat}
    (h : (unpackExponent b).toNat ≤ n) (hn : n < 2047) :
    Within 53 (max ((n : Int) - 1075) (-1074))
      (UnpackedFloat.unpack Format.binary64 b) := by
  have hones : unpackExponent b ≠ -1#_ := by
    intro hones
    rw [hones] at h
    exact absurd (Nat.le_trans (by decide) h) (Nat.not_le.2 hn)
  have hmantissa := (unpackMantissa b).isLt
  unfold UnpackedFloat.unpack
  dsimp only
  rw [if_neg hones]
  by_cases hzero : unpackExponent b = 0#_
  · rw [if_pos hzero]
    by_cases hnone : unpackMantissa b = 0#_
    · rw [dif_pos hnone]
      exact .zero
    · rw [dif_neg hnone]
      refine .finite
        (by simpa using Nat.lt_of_lt_of_le hmantissa (by decide)) ?_
      simp [hzero, Format.exponentBias]
  · rw [if_neg hzero]
    refine .finite (by simpa using BitVec.isLt _) ?_
    simp only [Format.exponentBias]
    omega

/-- The exponent field is what stands between sign and significand. -/
theorem exponentField_eq (x : UInt64) :
    exponentField ⟨x⟩ = (@unpackExponent Format.binary64 x.toBitVec).toNat := by
  simp [exponentField, unpackExponent, Nat.shiftRight_eq_div_pow]

theorem Within.mono {a : Nat} {k l : Int} {u : UnpackedFloat} (h : Within a k u)
    (hkl : k ≤ l) : Within a l u := by
  cases h with
  | zero => exact .zero
  | finite bits exponent => exact .finite bits (Int.le_trans exponent hkl)

/-- The exponent field is at most `n`. -/
def FieldAtMost (n : Nat) (f : Float.Model) : Prop :=
  exponentField ⟨f.toBits⟩ ≤ n

theorem FieldAtMost.mono {n k : Nat} {f : Float.Model} (h : FieldAtMost n f)
    (hnk : n ≤ k) : FieldAtMost k f := Nat.le_trans h hnk

/-- A number within bounds has an exponent field to match. -/
theorem fieldAtMost_pack {u : UnpackedFloat} {a : Nat} {k : Int}
    (h : Within a k u) (hk : k ≤ 970) :
    FieldAtMost (k + 1075).toNat (Float.Model.pack u) := by
  rw [FieldAtMost, exponentField_eq]
  exact exponent_pack_le h hk

/-- A small exponent field is a small exponent. -/
theorem FieldAtMost.unpack {f : Float.Model} {n : Nat} (h : FieldAtMost n f)
    (hn : n < 2047) : Within 53 (max ((n : Int) - 1075) (-1074)) f.unpack := by
  rw [FieldAtMost, exponentField_eq] at h
  exact unpack_within h hn

-- ============================================================= whole numbers

/-- A whole number of 64 bits, taken as it is. -/
theorem fieldAtMost_ofUInt64 (n : UInt64) :
    FieldAtMost 1308 (Float.Model.ofUInt64 n) := by
  have hlt : n.toNat < 2 ^ 64 := n.toNat_lt
  refine fieldAtMost_pack (a := 117) (k := 233) ?_ (by decide)
  show Within 117 233
    (UnpackedFloat.normalize Format.binary64 (n.toNat : Int) 0 .positive)
  unfold UnpackedFloat.normalize
  split
  · rename_i hneg
    have hbelow : (n.toNat : Int) < 0 := Std.compare_eq_lt.1 hneg
    omega
  · exact .zero
  · unfold UnpackedFloat.round decreaseExponent
    dsimp only
    rw [Int.toNat_natCast]
    -- at least one bit is significant, so the significand moves by 52
    -- places at most
    generalize hshift : (0 - Format.binary64.targetExponent
      (totalExponent n.toNat 0)).toNat = shift
    have hle : shift ≤ 52 := by
      simp only [Format.targetExponent, totalExponent, mantissaBits_binary64,
        Format.minExponent] at hshift
      omega
    have hbits : n.toNat <<< shift < 2 ^ 116 := by
      rw [Nat.shiftLeft_eq]
      calc n.toNat * 2 ^ shift
          < 2 ^ 64 * 2 ^ shift :=
            Nat.mul_lt_mul_of_pos_right hlt (Nat.two_pow_pos shift)
        _ ≤ 2 ^ 64 * 2 ^ 52 :=
          Nat.mul_le_mul_left _ (Nat.pow_le_pow_right (by decide) hle)
        _ = 2 ^ 116 := by decide
    exact (round_within hbits).mono (by omega)

theorem unpack_one : (Float.ofBits 0x3FF0000000000000).toModel.unpack
    = .finite .positive (2 ^ 52) (-52) (by decide) := by
  rfl

/-- Multiplying by one. -/
theorem fieldAtMost_mul_one {f : Float.Model} (h : FieldAtMost 1308 f) :
    FieldAtMost 1467 (f * (Float.ofBits 0x3FF0000000000000).toModel) := by
  refine fieldAtMost_pack (a := 106) (k := 392) ?_ (by decide)
  rw [unpack_one]
  generalize hu : f.unpack = u
  have hf := hu ▸ h.unpack (by decide)
  cases hf with
  | zero => exact .zero
  | @finite s m e _ hm he =>
    have hbits : m * 2 ^ 52 < 2 ^ 105 := by omega
    exact (round_within hbits).mono (by omega)

/-- Without a power of ten only rounding is left. -/
theorem ofScientific_zero {m : Nat} (hm : m ≠ 0) :
    UnpackedFloat.ofScientific Format.binary64 m 0
      = roundWithAccuracy Format.binary64 .positive (m <<< 53 * 1)
        (-53) .exact := by
  unfold UnpackedFloat.ofScientific
  have hpow : (0 : Int) < 2 ^ Format.binary64.exponentBits := by decide
  have hlow : ¬ (0 : Int)
    < -(2 ^ Format.binary64.exponentBits + (m.log2 : Int)) := by omega
  rw [dif_neg hm, if_neg (by decide), if_neg hlow, if_pos (Int.le_refl 0)]
  rfl

/-- A whole number of 64 bits has a finite double nearest to it. -/
theorem fieldAtMost_ofScientific {m : Nat} (h : m < 2 ^ 64) :
    FieldAtMost 2045 (Float.ofScientific m false 0).toModel := by
  unfold Float.ofScientific
  split
  · exact (fieldAtMost_mul_one (fieldAtMost_ofUInt64 _)).mono (by decide)
  · rename_i hlarge
    have hm : m ≠ 0 := by omega
    have hbits : m <<< 53 * 1 < 2 ^ 117 := by
      rw [Nat.shiftLeft_eq, Nat.mul_one]
      omega
    have hwithin : Within 118 182
        (UnpackedFloat.ofScientific Format.binary64 m 0) := by
      rw [ofScientific_zero hm]
      have hround := @round_within .positive (m <<< 53 * 1) 117 (-53) hbits
      exact hround.mono (by omega)
    exact (fieldAtMost_pack hwithin (by decide)).mono (by decide)

/-- Negation keeps the exponent field small. -/
theorem FieldAtMost.neg {f : Float.Model} {n : Nat} (h : FieldAtMost n f)
    (hn : n < 2046) : FieldAtMost (max n 1) (-f) := by
  have hf := h.unpack (by omega)
  have hneg : Within 53 (max ((n : Int) - 1075) (-1074)) f.unpack.neg := by
    generalize f.unpack = u at hf
    cases hf with
    | zero => exact .zero
    | finite bits exponent => exact .finite bits exponent
  exact Nat.le_trans (fieldAtMost_pack hneg (by omega)) (by omega)

/-- The double nearest to an integer of 64 bits is finite. -/
theorem isFinite_ofInt {n : Int} (h : n.natAbs < 2 ^ 64) :
    (ofInt n).isFinite = true := by
  have hmag : FieldAtMost 2045 (Float.ofScientific n.natAbs false 0).toModel :=
    fieldAtMost_ofScientific h
  have hplaces : (Nat.toDigits 10 n.natAbs).length ≤ 20 :=
    Nat.toDigits_length 10 _ 20 (by decide) (by omega)
  have hnumber (x : Float) (hx : FieldAtMost 2045 x.toModel) :
      (ofFloat (if decide (n < 0) = true then -x else x)).isFinite = true := by
    have hfield : FieldAtMost 2045 (if decide (n < 0) = true then -x
        else x).toModel := by
      split
      · exact hx.neg (by decide)
      · exact hx
    exact bne_iff_ne.2 (Nat.ne_of_lt (Nat.lt_of_le_of_lt hfield (by decide)))
  unfold ofInt ofDecimal
  refine hnumber _ ?_
  split
  · show exponentField ⟨(Float.toModel 0.0).toBits⟩ ≤ 2045
    decide
  · rw [if_neg (by omega), if_neg (by omega)]
    exact hmag

end PlanSearch.Binary64

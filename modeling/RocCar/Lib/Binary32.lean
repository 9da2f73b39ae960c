import Mathlib.Algebra.Field.Rat
import Mathlib.Algebra.GroupWithZero.Basic

/-!
# Small integers as floats

What an unpacked float stands for, and that an integer whose digits fit the
mantissa is stored as it is.
-/

namespace Binary32

open Float.Model Float.Model.UnpackedFloat

/-- The number a finite float stands for. -/
def value : UnpackedFloat → Option ℚ
  | .zero _ => some 0
  | .finite s m e _ => some (s.apply m * 2 ^ e)
  | .infinity _ | .notANumber => none

/-! ## Packing a normal number -/

theorem unpackSign_packComponents (spec : Format) (s : Sign) (e : BitVec spec.exponentBits)
    (m : BitVec spec.mantissaBitsWithoutImplicit) : Sign.ofBitVec (unpackSign (packComponents spec s e m)) = s := by
  have h : unpackSign (packComponents spec s e m) = s.toBitVec := by
    unfold unpackSign packComponents
    rw [BitVec.extractLsb, BitVec.extractLsb'_append_eq_of_le (by omega), Nat.add_sub_cancel_left]
    ext i hi
    obtain rfl : i = 0 := by omega
    simp [BitVec.getElem_append]
  rw [h]
  cases s <;> rfl

theorem toNat_implicit {k m : ℕ} (hm : 2 ^ k ≤ m) (hm' : m < 2 ^ (k + 1)) :
    (1#1 ++ BitVec.ofNat k m).toNat = m := by
  have hlow : m - 2 ^ k < 2 ^ k := by rw [Nat.pow_succ] at hm'; omega
  have hmod : m % 2 ^ k = m - 2 ^ k := by rw [Nat.mod_eq_sub_mod hm, Nat.mod_eq_of_lt hlow]
  calc (1#1 ++ BitVec.ofNat k m).toNat = 2 ^ k ||| (m - 2 ^ k) := by simp [Nat.shiftLeft_eq, hmod]
    _ = 2 ^ k * 1 + (m - 2 ^ k) := by rw [Nat.two_pow_add_eq_or_of_lt hlow, Nat.mul_one]
    _ = m := by omega

theorem finite_congr (s : Sign) {m m' : ℕ} {e e' : ℤ} (hm : m = m') (he : e = e') (h : 0 < m) (h' : 0 < m') :
    UnpackedFloat.finite s m e h = .finite s m' e' h' := by
  subst hm he
  rfl

theorem toNat_implicit_pos {k : ℕ} (m : BitVec k) : 0 < (1#1 ++ m).toNat := by
  simp

theorem unpack_packComponents (spec : Format) (s : Sign) {b : ℕ} (m : BitVec spec.mantissaBitsWithoutImplicit)
    (hb : 0 < b) (hb' : b + 1 < 2 ^ spec.exponentBits) :
    UnpackedFloat.unpack spec (packComponents spec s (BitVec.ofNat _ b) m) =
      .finite s (1#1 ++ m).toNat (b - (spec.exponentBias + spec.mantissaBitsWithoutImplicit))
        (toNat_implicit_pos m) := by
  have hnat : (BitVec.ofNat spec.exponentBits b).toNat = b := by
    rw [BitVec.toNat_ofNat, Nat.mod_eq_of_lt (by omega)]
  have hone : BitVec.ofNat spec.exponentBits b ≠ -1#_ := by
    rw [← BitVec.toNat_inj.ne, hnat, BitVec.neg_one_eq_allOnes, BitVec.toNat_allOnes]
    omega
  have hzero : BitVec.ofNat spec.exponentBits b ≠ 0#_ := by
    rw [← BitVec.toNat_inj.ne, hnat, BitVec.toNat_zero]
    omega
  unfold UnpackedFloat.unpack
  dsimp only
  rw [unpackExponent_packComponents, unpackSign_packComponents, if_neg hone, if_neg hzero, hnat]
  exact finite_congr s (by rw [unpackMantissa_packComponents]) rfl _ _

theorem unpack_pack (spec : Format) (s : Sign) {m : ℕ} {e : ℤ} (hm : 0 < m) (hlog : m.log2 + 1 = spec.mantissaBits)
    (he : 0 < e + spec.exponentBias + spec.mantissaBitsWithoutImplicit)
    (he' : e + spec.exponentBias + spec.mantissaBitsWithoutImplicit + 1 < 2 ^ spec.exponentBits) :
    UnpackedFloat.unpack spec (UnpackedFloat.pack spec (.finite s m e hm)) = .finite s m e hm := by
  obtain ⟨b, hb⟩ := Int.eq_ofNat_of_zero_le he.le
  have hb' : b + 1 < 2 ^ spec.exponentBits := by rw [hb] at he'; exact_mod_cast he'
  have hbits := (Nat.log2_eq_iff hm.ne').1 (show m.log2 = spec.mantissaBitsWithoutImplicit by
    unfold Format.mantissaBits at hlog; omega)
  have hpack : UnpackedFloat.pack spec (.finite s m e hm) =
      packComponents spec s (BitVec.ofNat _ b) (BitVec.ofNat _ m) := by
    unfold UnpackedFloat.pack
    simp only [hb, Int.toNat_natCast]
    rw [if_neg (by omega), if_pos hlog]
  rw [hpack, unpack_packComponents spec s _ (by omega) hb']
  exact finite_congr s (toNat_implicit hbits.1 hbits.2) (by omega) _ hm

/-! ## Rounding a number that fits -/

theorem roundWithAccuracy_fits (spec : Format) (s : Sign) {m : ℕ} {e : ℤ} (hm : 0 < m)
    (he : spec.targetExponent (totalExponent m e) = e) :
    roundWithAccuracy spec s m e .exact = .finite s m e hm := by
  have hshift : shiftToTargetExponent spec m e .exact = (⟨m, false, false⟩, e) := by
    simp only [shiftToTargetExponent, shiftToExponent, he, sub_self, Int.toNat_zero]
    exact congrArg _ (add_zero e)
  have hround : ExtendedMantissa.roundedMantissa ⟨m, false, false⟩ = m := rfl
  unfold roundWithAccuracy
  rw [hshift]
  dsimp only
  rw [hround, hshift, dif_neg hm.ne']

theorem log2_mul_two_pow {m : ℕ} (hm : m ≠ 0) (k : ℕ) : (m * 2 ^ k).log2 = m.log2 + k := by
  have h := (Nat.log2_eq_iff hm).1 rfl
  have hpow := Nat.two_pow_pos k
  rw [Nat.log2_eq_iff (Nat.mul_pos (Nat.pos_of_ne_zero hm) hpow).ne']
  constructor
  · rw [pow_add]
    exact Nat.mul_le_mul_right _ h.1
  · rw [add_right_comm, pow_add]
    exact Nat.mul_lt_mul_of_pos_right h.2 hpow

/-- Rounding fills the mantissa of a short number with zeros. -/
theorem round_natCast (spec : Format) (s : Sign) {n k : ℕ} (hn : 0 < n) (hk : n.log2 + k + 1 = spec.mantissaBits)
    (hmin : spec.minExponent ≤ -k) :
    UnpackedFloat.round spec s n 0 = .finite s (n * 2 ^ k) (-k) (Nat.mul_pos hn (Nat.two_pow_pos k)) := by
  have htarget : ∀ (m : ℕ) (e : ℤ), m.log2 + e = n.log2 → spec.targetExponent (totalExponent m e) = -k := by
    intro m e h
    unfold Format.targetExponent totalExponent
    omega
  have hround : UnpackedFloat.round spec s n 0 = roundWithAccuracy spec s (n * 2 ^ k) (-k) .exact := by
    unfold UnpackedFloat.round decreaseExponent
    simp only [htarget n 0 (by omega), zero_sub, neg_neg, Int.toNat_natCast, Nat.shiftLeft_eq]
  rw [hround]
  exact roundWithAccuracy_fits spec s _ (htarget _ _ (by rw [log2_mul_two_pow hn.ne']; push_cast; omega))

theorem value_finite_scaled (s : Sign) (n k : ℕ) (h : 0 < n * 2 ^ k) :
    value (.finite s (n * 2 ^ k) (-k) h) = some (s.apply n : ℚ) := by
  have hk : (2 : ℚ) ^ k ≠ 0 := pow_ne_zero k (by decide)
  have hval : ((n * 2 ^ k : ℕ) : ℚ) * 2 ^ (-k : ℤ) = n := by
    rw [zpow_neg, zpow_natCast, Nat.cast_mul, Nat.cast_pow, Nat.cast_ofNat, mul_assoc, mul_inv_cancel₀ hk, mul_one]
  show some ((s.apply ((n * 2 ^ k : ℕ) : ℤ) : ℚ) * 2 ^ (-k : ℤ)) = _
  cases s with
  | negative => simp only [Sign.apply, Int.cast_neg, Int.cast_natCast, neg_mul, hval]
  | positive => simp only [Sign.apply, Int.cast_natCast, hval]

theorem value_round_natCast (s : Sign) {n : ℕ} (hn : 0 < n) (h : n < 2 ^ 24) :
    value (UnpackedFloat.unpack Format.binary32
      (UnpackedFloat.pack Format.binary32 (UnpackedFloat.round Format.binary32 s n 0))) = some (s.apply n : ℚ) := by
  have hlog : n.log2 < 24 := (Nat.log2_lt hn.ne').2 h
  obtain ⟨k, hk⟩ : ∃ k, n.log2 + k + 1 = 24 := ⟨23 - n.log2, by omega⟩
  have hmin : Format.binary32.minExponent = -149 := by decide
  have hbias : Format.binary32.exponentBias = 127 := by decide
  rw [round_natCast _ s hn hk (by omega), unpack_pack, value_finite_scaled]
  · rw [log2_mul_two_pow hn.ne', hk]
    rfl
  · rw [hbias]
    omega
  · rw [hbias]
    show (-k : ℤ) + 127 + 23 + 1 < 256
    omega

/-- **Small integers are exact.** -/
theorem value_ofInt {n : ℤ} (h : n.natAbs < 2 ^ 24) : value (Float32.Model.ofInt n).unpack = some (n : ℚ) := by
  have hunpack : (Float32.Model.ofInt n).unpack = UnpackedFloat.unpack Format.binary32
      (UnpackedFloat.pack Format.binary32 (UnpackedFloat.normalize Format.binary32 n 0 .positive)) := rfl
  rw [hunpack]
  rcases lt_trichotomy n 0 with hn | rfl | hn
  · rw [UnpackedFloat.normalize, compare_lt_iff_lt.2 hn, value_round_natCast _ (by omega) (by omega)]
    rw [Sign.apply, Int.toNat_of_nonneg (by omega), neg_neg]
  · rfl
  · rw [UnpackedFloat.normalize, compare_gt_iff_gt.2 hn, value_round_natCast _ (by omega) (by omega)]
    rw [Sign.apply, Int.toNat_of_nonneg (by omega)]

/-- Adding and subtracting a zero truncate to the same integer. -/
theorem toInt32_add_zero (x : Float32.Model) {z : Float32.Model} {s : Sign} (hz : z.unpack = .zero s) :
    (x + z).toInt32 = (x - z).toInt32 := by
  show (Float32.Model.pack (UnpackedFloat.add .binary32 x.unpack z.unpack)).toInt32 =
    (Float32.Model.pack (UnpackedFloat.sub .binary32 x.unpack z.unpack)).toInt32
  rw [hz]
  cases x.unpack with
  | zero s' => cases s <;> cases s' <;> rfl
  | infinity _ | notANumber | finite _ _ _ _ => rfl

end Binary32

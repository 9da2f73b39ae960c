import Mathlib.Algebra.Order.Floor.Ring
import Mathlib.Tactic.Linarith

/-!
# Truncation toward zero

The conversion of a real number to an integer that drops the fraction.
-/

namespace Trunc

variable {R : Type*} [CommRing R] [LinearOrder R] [IsStrictOrderedRing R] [FloorRing R]

def trunc (x : R) : ℤ := if 0 ≤ x then ⌊x⌋ else ⌈x⌉

theorem trunc_neg (x : R) : trunc (-x) = -trunc x := by
  unfold trunc
  rcases lt_trichotomy x 0 with hx | rfl | hx
  · rw [if_pos (by linarith), if_neg (by linarith), Int.floor_neg]
  · simp
  · rw [if_neg (by linarith), if_pos hx.le, Int.ceil_neg]

theorem trunc_intCast (n : ℤ) : trunc (n : R) = n := by
  simp [trunc]

theorem trunc_lt {x : R} {n : ℤ} (hx : x < n) (hn : 0 < n) : trunc x < n := by
  unfold trunc
  split
  · exact Int.floor_lt.mpr hx
  · rename_i hneg
    have : ⌈x⌉ ≤ 0 := Int.ceil_le.mpr (by rw [Int.cast_zero]; linarith)
    omega

theorem trunc_le {x : R} {n : ℤ} (hx : x ≤ n) : trunc x ≤ n := by
  unfold trunc
  split
  · exact Int.floor_le_iff.mpr (by linarith)
  · exact Int.ceil_le.mpr hx

theorem natAbs_trunc_le {x : R} {n : ℕ} (h : |x| ≤ n) : (trunc x).natAbs ≤ n := by
  have hx := abs_le.mp h
  have h₁ : trunc x ≤ n := trunc_le (by rw [Int.cast_natCast]; exact hx.2)
  have h₂ : trunc (-x) ≤ n := trunc_le (by rw [Int.cast_natCast]; linarith)
  rw [trunc_neg] at h₂
  omega

theorem natAbs_trunc_lt {x : R} {n : ℕ} (h : |x| < n) : (trunc x).natAbs < n := by
  have hx := abs_lt.mp h
  have hn : (0 : R) < n := (abs_nonneg x).trans_lt h
  have hpos : (0 : ℤ) < n := by exact_mod_cast hn
  have h₁ : trunc x < n := trunc_lt (by rw [Int.cast_natCast]; exact hx.2) hpos
  have h₂ : trunc (-x) < n := trunc_lt (by rw [Int.cast_natCast]; linarith) hpos
  rw [trunc_neg] at h₂
  omega

end Trunc

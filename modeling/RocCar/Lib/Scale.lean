import Mathlib.Algebra.Order.Floor.Ring
import Mathlib.Algebra.Order.Field.Rat
import Mathlib.Tactic.FieldSimp
import Mathlib.Tactic.GCongr
import Mathlib.Tactic.Ring

/-!
# Conversions between units by truncating divisions

A quantity `x` is counted in units of which `a / b` make one of `x`'s, then in
blocks of `q` units, and converted back. Every division truncates.
-/

namespace Scale

/-- Dividing by one more than the number of times `m` fits brings `n` below `m`. -/
theorem div_succ_div_lt {n m : Nat} (hm : 0 < m) : n / (n / m + 1) < m := by
  apply Nat.div_lt_of_lt_mul
  have := Nat.lt_mul_div_succ n hm
  rwa [Nat.mul_comm] at this

def blocks (a b q x : Nat) : Nat := x * a / b / q

def back (a b q n : Nat) : Nat := n * q * b / a

theorem blocks_mono {a b q x y : Nat} (h : x ≤ y) : blocks a b q x ≤ blocks a b q y :=
  Nat.div_le_div_right (Nat.div_le_div_right (Nat.mul_le_mul_right a h))

theorem blocks_mul_le (a b q x : Nat) : blocks a b q x * q * b ≤ x * a := by
  have h₁ : blocks a b q x * q ≤ x * a / b := Nat.div_mul_le_self _ _
  exact (Nat.mul_le_mul_right b h₁).trans (Nat.div_mul_le_self _ _)

theorem lt_blocks_mul {a b q : Nat} (hb : 0 < b) (hq : 0 < q) (x : Nat) :
    x * a < blocks a b q x * q * b + q * b := by
  have h₁ : x * a < b * (x * a / b + 1) := Nat.lt_mul_div_succ _ hb
  have h₂ : x * a / b < q * (x * a / b / q + 1) := Nat.lt_mul_div_succ _ hq
  calc x * a < b * (x * a / b + 1) := h₁
    _ ≤ b * (q * (x * a / b / q + 1)) := Nat.mul_le_mul_left b h₂
    _ = blocks a b q x * q * b + q * b := by unfold blocks; ring

theorem back_blocks_le (a b q x : Nat) : back a b q (blocks a b q x) ≤ x := by
  apply Nat.div_le_of_le_mul
  rw [Nat.mul_comm a]
  exact blocks_mul_le a b q x

/-- **What the way there and back loses** is less than a block and one. -/
theorem lt_back_blocks {a b q : Nat} (ha : 0 < a) (hb : 0 < b) (hq : 0 < q) (x : Nat) :
    (x : ℚ) - q * b / a - 1 < back a b q (blocks a b q x) := by
  have h₁ := lt_blocks_mul (a := a) hb hq x
  have h₂ : blocks a b q x * q * b < a * (back a b q (blocks a b q x) + 1) := Nat.lt_mul_div_succ _ ha
  have h₃ : x * a < a * (back a b q (blocks a b q x) + 1) + q * b := by omega
  have h₄ : (x : ℚ) * a < a * (back a b q (blocks a b q x) + 1) + q * b := by exact_mod_cast h₃
  have hpos : (0 : ℚ) < a := by exact_mod_cast ha
  rw [sub_sub, sub_lt_iff_lt_add]
  calc (x : ℚ) = x * a / a := by field_simp
    _ < (a * (back a b q (blocks a b q x) + 1) + q * b) / a := by gcongr
    _ = back a b q (blocks a b q x) + (q * b / a + 1) := by field_simp; ring

end Scale

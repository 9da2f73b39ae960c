import Mathlib.Algebra.Ring.Nat
import Mathlib.Data.List.Basic

/-!
# Reflected cyclic redundancy checks

A remainder of `w` bits over a polynomial, shifted one bit at a time to the
right. A table of 256 remainders does eight shifts at once (`byte_eq_table`).
Shifting loses nothing when the polynomial has its top bit set, so changed bytes
that fit into one remainder change the result (`rem_burst`).
-/

namespace Crc

variable {w : Nat} (poly : BitVec w)

def shift (c : BitVec w) : BitVec w := if c.getLsbD 0 then (c >>> 1) ^^^ poly else c >>> 1

def shifts : Nat → BitVec w → BitVec w
  | 0, c => c
  | n + 1, c => shifts n (shift poly c)

def byte (c : BitVec w) (b : BitVec 8) : BitVec w := shifts poly 8 (c ^^^ b.setWidth w)

def rem (c : BitVec w) (bs : List (BitVec 8)) : BitVec w := bs.foldl (byte poly) c

/-! ## Shifts -/

theorem xor_xor_cancel (a b p : BitVec w) : a ^^^ p ^^^ (b ^^^ p) = a ^^^ b := by
  rw [BitVec.xor_assoc a p (b ^^^ p), BitVec.xor_comm b p, ← BitVec.xor_assoc p p b, BitVec.xor_self,
    BitVec.zero_xor]

theorem shift_xor (a b : BitVec w) : shift poly (a ^^^ b) = shift poly a ^^^ shift poly b := by
  unfold shift
  rw [BitVec.getLsbD_xor, BitVec.ushiftRight_xor_distrib]
  cases a.getLsbD 0 <;> cases b.getLsbD 0
  · rfl
  · exact BitVec.xor_assoc ..
  · simp only [Bool.xor_false, if_true, Bool.false_eq_true, if_false]
    ac_rfl
  · simp only [Bool.xor_self, if_true, Bool.false_eq_true, if_false]
    exact (xor_xor_cancel ..).symm

theorem shifts_xor : ∀ (n : Nat) (a b : BitVec w), shifts poly n (a ^^^ b) = shifts poly n a ^^^ shifts poly n b
  | 0, _, _ => rfl
  | n + 1, a, b => by rw [shifts, shifts, shifts, shift_xor, shifts_xor]

theorem shifts_add : ∀ (m n : Nat) (c : BitVec w), shifts poly (m + n) c = shifts poly n (shifts poly m c)
  | 0, n, c => by rw [Nat.zero_add]; rfl
  | m + 1, n, c => by rw [Nat.add_right_comm, shifts, shifts, shifts_add m n]

theorem shift_of_even {c : BitVec w} (h : c.getLsbD 0 = false) : shift poly c = c >>> 1 := by
  rw [shift, h]; rfl

/-- Zero bits at the low end move out and leave no trace. -/
theorem shifts_shiftLeft : ∀ (n : Nat) {c : BitVec w}, c.toNat * 2 ^ n < 2 ^ w → shifts poly n (c <<< n) = c
  | 0, c, _ => by simp [shifts]
  | n + 1, c, h => by
    have h₂ : c.toNat * 2 ^ n < 2 ^ w :=
      Nat.lt_of_le_of_lt (Nat.mul_le_mul_left _ (Nat.pow_le_pow_right (by decide) (Nat.le_succ n))) h
    have hs : (c <<< (n + 1)) >>> 1 = c <<< n := by
      apply BitVec.eq_of_toNat_eq
      rw [BitVec.toNat_ushiftRight, BitVec.toNat_shiftLeft, BitVec.toNat_shiftLeft, Nat.shiftLeft_eq, Nat.shiftLeft_eq,
        Nat.mod_eq_of_lt h, Nat.mod_eq_of_lt h₂, Nat.shiftRight_eq_div_pow, Nat.pow_one, Nat.pow_succ,
        ← Nat.mul_assoc, Nat.mul_div_cancel _ (by decide)]
    rw [shifts, shift_of_even poly (by simp), hs, shifts_shiftLeft n h₂]

theorem msb_shift (h : poly.msb = true) (c : BitVec w) : (shift poly c).msb = c.getLsbD 0 := by
  unfold shift
  split
  · rename_i hc
    rw [BitVec.msb_xor, h]
    simp [hc]
  · rename_i hc
    simp [hc]

theorem eq_of_ushiftRight_one {a b : BitVec w} (h : a >>> 1 = b >>> 1) (h₀ : a.getLsbD 0 = b.getLsbD 0) : a = b := by
  apply BitVec.eq_of_getLsbD_eq
  intro i _
  cases i with
  | zero => exact h₀
  | succ i =>
    have := congrArg (fun c => c.getLsbD i) h
    simpa [Nat.add_comm] using this

/-- The bit that moved out is the top bit of the result. -/
theorem shift_injective (h : poly.msb = true) : Function.Injective (shift poly) := by
  intro a b hab
  have h₀ : a.getLsbD 0 = b.getLsbD 0 := by rw [← msb_shift poly h, ← msb_shift poly h, hab]
  refine eq_of_ushiftRight_one ?_ h₀
  unfold shift at hab
  rw [h₀] at hab
  split at hab
  · have := congrArg (· ^^^ poly) hab
    simpa [BitVec.xor_assoc] using this
  · exact hab

theorem shifts_injective (h : poly.msb = true) : ∀ n : Nat, Function.Injective (shifts poly n)
  | 0 => fun _ _ hab => hab
  | n + 1 => fun _ _ hab => shift_injective poly h (shifts_injective h n hab)

/-! ## A byte at a time -/

theorem high_low (x : BitVec w) : (x.setWidth 8).setWidth w ^^^ (x >>> 8) <<< 8 = x := by
  apply BitVec.eq_of_getLsbD_eq
  intro i hi
  rw [BitVec.getLsbD_xor, BitVec.getLsbD_setWidth, BitVec.getLsbD_setWidth, BitVec.getLsbD_shiftLeft,
    BitVec.getLsbD_ushiftRight]
  by_cases h : i < 8
  · simp [h, hi]
  · simp [h, hi, show 8 + (i - 8) = i by omega]

theorem high_setWidth (hw : 8 ≤ w) (b : BitVec 8) : b.setWidth w >>> 8 = 0#w := by
  apply BitVec.eq_of_toNat_eq
  have hb := b.isLt
  rw [BitVec.toNat_ushiftRight, BitVec.toNat_setWidth, Nat.shiftRight_eq_div_pow, BitVec.toNat_ofNat, Nat.zero_mod,
    Nat.mod_eq_of_lt (Nat.lt_of_lt_of_le hb (Nat.pow_le_pow_right (by decide) hw))]
  exact Nat.div_eq_of_lt hb

theorem shifts_eight_high (x : BitVec w) : shifts poly 8 ((x >>> 8) <<< 8) = x >>> 8 := by
  apply shifts_shiftLeft
  rw [BitVec.toNat_ushiftRight, Nat.shiftRight_eq_div_pow]
  exact Nat.lt_of_le_of_lt (Nat.div_mul_le_self ..) x.isLt

/-- **The step by table**: the entry of the low byte, and the rest moved down. -/
theorem byte_eq_table (hw : 8 ≤ w) (c : BitVec w) (b : BitVec 8) :
    byte poly c b = shifts poly 8 (((c ^^^ b.setWidth w).setWidth 8).setWidth w) ^^^ c >>> 8 := by
  have hhigh : (c ^^^ b.setWidth w) >>> 8 = c >>> 8 := by
    rw [BitVec.ushiftRight_xor_distrib, high_setWidth hw, BitVec.xor_zero]
  rw [byte]
  conv => lhs; rw [← high_low (c ^^^ b.setWidth w)]
  rw [shifts_xor, shifts_eight_high poly, hhigh]

@[simp] theorem rem_nil (c : BitVec w) : rem poly c [] = c := rfl

theorem rem_cons (c : BitVec w) (b : BitVec 8) (bs : List (BitVec 8)) :
    rem poly c (b :: bs) = rem poly (byte poly c b) bs := rfl

theorem rem_append (c : BitVec w) (bs bs' : List (BitVec 8)) :
    rem poly c (bs ++ bs') = rem poly (rem poly c bs) bs' := List.foldl_append

theorem byte_injective (h : poly.msb = true) (b : BitVec 8) : Function.Injective (byte poly · b) := by
  intro c d hcd
  have := shifts_injective poly h 8 hcd
  simpa using congrArg (· ^^^ b.setWidth w) this

theorem rem_injective (h : poly.msb = true) : ∀ bs : List (BitVec 8), Function.Injective (rem poly · bs)
  | [] => fun _ _ hcd => hcd
  | b :: bs => fun _ _ hcd => byte_injective poly h b (rem_injective h bs hcd)

/-! ## Bursts -/

/-- The bytes as one word, the first the least significant. -/
def word (w : Nat) : List (BitVec 8) → BitVec w
  | [] => 0
  | b :: bs => b.setWidth w ^^^ word w bs <<< 8

theorem word_lt : ∀ bs : List (BitVec 8), (word w bs).toNat < 2 ^ (8 * bs.length)
  | [] => by simp [word]
  | b :: bs => by
    rw [word, BitVec.toNat_xor, List.length_cons, Nat.mul_succ]
    apply Nat.xor_lt_two_pow
    · rw [BitVec.toNat_setWidth]
      exact Nat.lt_of_le_of_lt (Nat.mod_le ..)
        (Nat.lt_of_lt_of_le b.isLt (Nat.pow_le_pow_right (by decide) (Nat.le_add_left ..)))
    · rw [BitVec.toNat_shiftLeft, Nat.shiftLeft_eq, Nat.pow_add]
      exact Nat.lt_of_le_of_lt (Nat.mod_le ..) (Nat.mul_lt_mul_of_pos_right (word_lt bs) (by decide))

theorem word_shiftLeft {bs : List (BitVec 8)} (h : 8 * (bs.length + 1) ≤ w) : (word w bs).toNat * 2 ^ 8 < 2 ^ w := by
  apply Nat.lt_of_lt_of_le (Nat.mul_lt_mul_of_pos_right (word_lt bs) (by decide))
  rw [← Nat.pow_add]
  exact Nat.pow_le_pow_right (by decide) h

theorem rem_eq_shifts : ∀ {bs : List (BitVec 8)} (c : BitVec w), 8 * bs.length ≤ w →
    rem poly c bs = shifts poly (8 * bs.length) (c ^^^ word w bs)
  | [], c, _ => by simp [word, shifts]
  | b :: bs, c, h => by
    rw [List.length_cons] at h
    rw [rem_cons, rem_eq_shifts _ (by omega), List.length_cons, Nat.mul_succ, Nat.add_comm, shifts_add, word,
      ← BitVec.xor_assoc, shifts_xor poly 8, shifts_shiftLeft poly 8 (word_shiftLeft h), byte]

theorem setWidth_word_cons (hw : 8 ≤ w) (b : BitVec 8) (bs : List (BitVec 8)) :
    (word w (b :: bs)).setWidth 8 = b := by
  apply BitVec.eq_of_getLsbD_eq
  intro i hi
  rw [word, BitVec.getLsbD_setWidth, BitVec.getLsbD_xor, BitVec.getLsbD_setWidth, BitVec.getLsbD_shiftLeft]
  simp [hi, show i < w by omega]

theorem ushiftRight_word_cons {b : BitVec 8} {bs : List (BitVec 8)} (h : 8 * (bs.length + 1) ≤ w) :
    word w (b :: bs) >>> 8 = word w bs := by
  rw [word, BitVec.ushiftRight_xor_distrib, high_setWidth (by omega), BitVec.zero_xor]
  apply BitVec.eq_of_toNat_eq
  rw [BitVec.toNat_ushiftRight, BitVec.toNat_shiftLeft, Nat.shiftLeft_eq, Nat.mod_eq_of_lt (word_shiftLeft h),
    Nat.shiftRight_eq_div_pow, Nat.mul_div_cancel _ (by decide)]

theorem word_inj : ∀ {bs bs' : List (BitVec 8)}, bs.length = bs'.length → 8 * bs.length ≤ w →
    word w bs = word w bs' → bs = bs'
  | [], [], _, _, _ => rfl
  | b :: bs, b' :: bs', hl, h, he => by
    rw [List.length_cons, List.length_cons] at hl
    rw [List.length_cons] at h
    have hb : b = b' := by
      rw [← setWidth_word_cons (show 8 ≤ w by omega) b bs, he, setWidth_word_cons (by omega)]
    have hbs : word w bs = word w bs' := by
      rw [← ushiftRight_word_cons h, he, ushiftRight_word_cons (by omega)]
    rw [hb, word_inj (by omega) (by omega) hbs]

theorem rem_inj (h : poly.msb = true) {bs bs' : List (BitVec 8)} {c : BitVec w} (hl : bs.length = bs'.length)
    (hw : 8 * bs.length ≤ w) (he : rem poly c bs = rem poly c bs') : bs = bs' := by
  rw [rem_eq_shifts poly c hw, rem_eq_shifts poly c (by omega), ← hl] at he
  have := shifts_injective poly h _ he
  refine word_inj hl hw ?_
  simpa [BitVec.xor_assoc, ← BitVec.xor_assoc c c] using congrArg (c ^^^ ·) this

/-- **A change that fits into one remainder is seen**, wherever it stands. -/
theorem rem_burst (h : poly.msb = true) {bs bs' : List (BitVec 8)} (c : BitVec w) (before after : List (BitVec 8))
    (hl : bs.length = bs'.length) (hw : 8 * bs.length ≤ w)
    (he : rem poly c (before ++ bs ++ after) = rem poly c (before ++ bs' ++ after)) : bs = bs' := by
  rw [rem_append, rem_append, rem_append, rem_append] at he
  exact rem_inj poly h hl hw (rem_injective poly h after he)

end Crc

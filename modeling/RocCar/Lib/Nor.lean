import Mathlib.Data.List.Basic

/-!
# NOR flash

A flash memory erases whole blocks of `g` bytes to `0xFF` and programs erased
bytes. A `Device` is what these two operations do, the ones that report a failure
included: a failed operation leaves any contents where it worked, and never
touches anything else. A loss of power is such a failure.
-/

namespace Nor

abbrev Mem := Nat → UInt8

def read (m : Mem) (a n : Nat) : List UInt8 := (List.range n).map fun k => m (a + k)

structure Device (g : Nat) where
  erase : Mem → Nat → Nat → Bool × Mem
  write : Mem → Nat → List UInt8 → Bool × Mem
  erase_frame : ∀ m a n i, i < a / g * g ∨ (a + n + (g - 1)) / g * g ≤ i → (erase m a n).2 i = m i
  erase_ok : ∀ m a n, (erase m a n).1 = true → ∀ i, a ≤ i → i < a + n → (erase m a n).2 i = 0xFF
  write_frame : ∀ m a bs i, i < a ∨ a + bs.length ≤ i → (write m a bs).2 i = m i
  write_ok : ∀ m a bs, (write m a bs).1 = true → (∀ i, a ≤ i → i < a + bs.length → m i = 0xFF) →
    read (write m a bs).2 a bs.length = bs

structure Device.Works {g : Nat} (d : Device g) : Prop where
  erase : ∀ m a n, (d.erase m a n).1 = true
  write : ∀ m a bs, (d.write m a bs).1 = true

/-! ## Blocks -/

theorem le_blockStart {g o a : Nat} (hg : g ∣ o) (h : o ≤ a) : o ≤ a / g * g := by
  obtain ⟨k, rfl⟩ := hg
  rcases Nat.eq_zero_or_pos g with rfl | hpos
  · simp
  · rw [Nat.mul_comm]
    exact Nat.mul_le_mul_right g ((Nat.le_div_iff_mul_le hpos).mpr (by rw [Nat.mul_comm]; exact h))

theorem blockEnd_le {g e a : Nat} (hpos : 0 < g) (hg : g ∣ e) (h : a ≤ e) : (a + (g - 1)) / g * g ≤ e := by
  obtain ⟨k, rfl⟩ := hg
  have : (a + (g - 1)) / g ≤ k := by
    apply Nat.le_of_lt_succ
    rw [Nat.div_lt_iff_lt_mul hpos, Nat.succ_mul, Nat.mul_comm k]
    omega
  rw [Nat.mul_comm g k]
  exact Nat.mul_le_mul_right g this

/-! ## Reading -/

@[simp] theorem length_read (m : Mem) (a n : Nat) : (read m a n).length = n := by
  rw [read, List.length_map, List.length_range]

theorem read_congr {m m' : Mem} {a n : Nat} (h : ∀ i, a ≤ i → i < a + n → m' i = m i) : read m' a n = read m a n := by
  apply List.map_congr_left
  intro k hk
  rw [List.mem_range] at hk
  exact h _ (Nat.le_add_right ..) (by omega)

theorem read_add (m : Mem) (a n k : Nat) : read m a (n + k) = read m a n ++ read m (a + n) k := by
  unfold read
  rw [List.range_add, List.map_append, List.map_map]
  congr 1
  apply List.map_congr_left
  intro i _
  exact congrArg m (Nat.add_assoc ..).symm

theorem take_read (m : Mem) {a n k : Nat} (h : k ≤ n) : (read m a n).take k = read m a k := by
  obtain ⟨d, rfl⟩ := Nat.exists_eq_add_of_le h
  rw [read_add, List.take_left' (length_read ..)]

theorem drop_read (m : Mem) {a n k : Nat} (h : k ≤ n) : (read m a n).drop k = read m (a + k) (n - k) := by
  obtain ⟨d, rfl⟩ := Nat.exists_eq_add_of_le h
  rw [read_add, List.drop_left' (length_read ..), Nat.add_sub_cancel_left]

theorem eq_of_read_eq {m m' : Mem} {a n : Nat} (h : read m' a n = read m a n) {i : Nat} (ha : a ≤ i)
    (hi : i < a + n) : m' i = m i := by
  have := congrArg (·[i - a]?) h
  simpa [read, show i - a < n by omega, show a + (i - a) = i by omega] using this

/-! ## A device that works, or stops -/

theorem le_blockEnd {g : Nat} (hpos : 0 < g) (a : Nat) : a ≤ (a + (g - 1)) / g * g := by
  have hdiv := Nat.div_add_mod (a + (g - 1)) g
  have hmod := Nat.mod_lt (a + (g - 1)) hpos
  rw [Nat.mul_comm]
  omega

/-- The blocks become `0xFF`, and programming clears bits. An erase that fails
does not tell that it has worked; a write that fails does nothing. -/
def stopping (g : Nat) (hpos : 0 < g) (erases writes : Bool) : Device g where
  erase m a n := (erases, fun i => if a / g * g ≤ i ∧ i < (a + n + (g - 1)) / g * g then 0xFF else m i)
  write m a bs :=
    (writes, if writes then fun i => if a ≤ i then (bs[i - a]?.getD 0xFF) &&& m i else m i else m)
  erase_frame m a n i h := if_neg (by omega)
  erase_ok m a n _ i ha hi :=
    if_pos ⟨Nat.le_trans (Nat.div_mul_le_self a g) ha, Nat.lt_of_lt_of_le hi (le_blockEnd hpos _)⟩
  write_frame m a bs i h := by
    cases writes with
    | false => rfl
    | true =>
      dsimp only
      rw [if_pos rfl]
      split
      · rw [List.getElem?_eq_none (by omega), Option.getD_none]
        exact UInt8.toBitVec_inj.mp (BitVec.allOnes_and)
      · rfl
  write_ok m a bs h he := by
    subst h
    dsimp only
    rw [if_pos rfl]
    apply List.ext_getElem
    · rw [length_read]
    · intro k h₁ h₂
      have hm := he (a + k) (Nat.le_add_right a k) (by omega)
      simp only [read, List.getElem_map, List.getElem_range, Nat.le_add_right, if_true, Nat.add_sub_cancel_left,
        List.getElem?_eq_getElem h₂, Option.getD_some, hm]
      exact UInt8.toBitVec_inj.mp (BitVec.and_allOnes)

theorem stopping_works (g : Nat) (hpos : 0 < g) : (stopping g hpos true true).Works :=
  ⟨fun _ _ _ => rfl, fun _ _ _ => rfl⟩

end Nor

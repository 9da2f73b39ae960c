import Mathlib.Data.Nat.Notation
import Mathlib.Logic.Function.Basic

/-!
# Two slots

A value is kept in one of two slots while the other is written. Each slot is
torn, or holds a value under a number; the slot with the bigger number is the
current one. Whatever happens to the other slot, the current value survives until
a newer one is complete.
-/

namespace TwoSlot

variable {α : Type*}

abbrev Slots (α : Type*) := Bool → Option (ℕ × α)

def newest (d : Slots α) : Option Bool :=
  match d false, d true with
  | some (m, _), some (n, _) => some (decide (m ≤ n))
  | some _, none => some false
  | none, some _ => some true
  | none, none => none

structure Current (d : Slots α) (i : Bool) (n : ℕ) (a : α) : Prop where
  here : d i = some (n, a)
  newest : newest d = some i

variable {d : Slots α} {i : Bool} {n k : ℕ} {a b : α}

theorem current_of_lt (h : d i = some (n, a)) (ho : ∀ k b, d (!i) = some (k, b) → k < n) : Current d i n a := by
  refine ⟨h, ?_⟩
  unfold newest
  cases i with
  | false =>
    rw [h]
    cases ht : d true with
    | none => rfl
    | some p =>
      have := ho p.1 p.2 ht
      simp [Nat.not_le.mpr this]
  | true =>
    rw [h]
    cases hf : d false with
    | none => rfl
    | some p =>
      have := ho p.1 p.2 hf
      simp [Nat.le_of_lt this]

theorem only_current (i : Bool) (n : ℕ) (a : α) : Current (Function.update (fun _ => none) i (some (n, a))) i n a := by
  refine current_of_lt (Function.update_self ..) fun k b hk => ?_
  rw [Function.update_of_ne fun he => (Bool.eq_not_self i).mp he.symm] at hk
  cases hk

theorem Current.other_le (h : Current d i n a) (ho : d (!i) = some (k, b)) : k ≤ n := by
  have hn := h.newest
  have hh := h.here
  unfold TwoSlot.newest at hn
  cases i with
  | false =>
    rw [hh, show d true = some (k, b) from ho] at hn
    simp only [Option.some.injEq, decide_eq_false_iff_not] at hn
    omega
  | true =>
    rw [hh, show d false = some (k, b) from ho] at hn
    simpa using hn

theorem exists_current (h : d i = some (n, a)) (ho : d (!i) = some (k, b)) :
    Current d i n a ∨ Current d (!i) k b := by
  cases i with
  | false =>
    have hn : newest d = some (decide (n ≤ k)) := by
      unfold newest
      rw [h, show d true = some (k, b) from ho]
    by_cases hle : n ≤ k
    · exact .inr ⟨ho, by rw [hn, decide_eq_true hle]; rfl⟩
    · exact .inl ⟨h, by rw [hn, decide_eq_false hle]⟩
  | true =>
    have hn : newest d = some (decide (k ≤ n)) := by
      unfold newest
      rw [h, show d false = some (k, b) from ho]
    by_cases hle : k ≤ n
    · exact .inl ⟨h, by rw [hn, decide_eq_true hle]⟩
    · exact .inr ⟨ho, by rw [hn, decide_eq_false hle]; rfl⟩

theorem update_other (d : Slots α) (i : Bool) (slot : Option (ℕ × α)) : Function.update d (!i) slot i = d i :=
  Function.update_of_ne (fun he => (Bool.eq_not_self i).mp he) ..

theorem Current.tear (h : Current d i n a) : Current (Function.update d (!i) none) i n a := by
  refine current_of_lt (by rw [update_other, h.here]) fun j c hc => ?_
  rw [Function.update_self] at hc
  cases hc

/-- Whatever is written to the other slot, it or the old value is current. -/
theorem Current.write (h : Current d i n a) (k : ℕ) (b : α) :
    Current (Function.update d (!i) (some (k, b))) i n a ∨
      Current (Function.update d (!i) (some (k, b))) (!i) k b :=
  exists_current (by rw [update_other, h.here]) (Function.update_self ..)

/-- An attempt to write the other slot leaves it torn, as it was, or complete. -/
theorem Current.attempt (h : Current d i n a) {slot : Option (ℕ × α)} {k : ℕ} {b : α}
    (hs : slot = none ∨ slot = d (!i) ∨ slot = some (k, b)) :
    Current (Function.update d (!i) slot) i n a ∨ Current (Function.update d (!i) slot) (!i) k b := by
  rcases hs with rfl | rfl | rfl
  · exact .inl h.tear
  · rw [Function.update_eq_self]
    exact .inl h
  · exact h.write k b

theorem Current.commit (h : Current d i n a) (hk : n < k) (b : α) :
    Current (Function.update d (!i) (some (k, b))) (!i) k b := by
  refine current_of_lt (Function.update_self ..) fun j c hc => ?_
  rw [Bool.not_not, update_other, h.here, Option.some.injEq, Prod.mk.injEq] at hc
  omega

end TwoSlot

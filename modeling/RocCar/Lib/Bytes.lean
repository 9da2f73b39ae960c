import Mathlib.Data.Nat.Digits.Defs
import RocCar.Lib.Fallible

/-!
# Bytes in memory

A word as its bytes, least significant first; lists stored in a memory, a
function of the address, and in a block, which has an end.
-/

namespace Bytes

/-! ## Words -/

def value (bs : List UInt8) : Nat := Nat.ofDigits 256 (bs.map UInt8.toNat)

/-- The `n` least significant bytes of a word. -/
def digits : Nat → Nat → List UInt8
  | 0, _ => []
  | n + 1, w => UInt8.ofNat w :: digits n (w / 256)

theorem value_cons (b : UInt8) (bs : List UInt8) : value (b :: bs) = b.toNat + 256 * value bs := Nat.ofDigits_cons

@[simp] theorem length_digits : ∀ n w : Nat, (digits n w).length = n
  | 0, _ => rfl
  | n + 1, w => by rw [digits, List.length_cons, length_digits]

theorem value_digits : ∀ n w : Nat, value (digits n w) = w % 256 ^ n
  | 0, w => by simp [digits, value, Nat.mod_one]
  | n + 1, w => by
    rw [digits, value_cons, value_digits, UInt8.toNat_ofNat', Nat.pow_succ' (m := 256), Nat.mod_mul]

theorem value_lt : ∀ bs : List UInt8, value bs < 256 ^ bs.length
  | [] => Nat.one_pos
  | b :: bs => by
    have hb := b.toNat_lt
    have ih := value_lt bs
    rw [value_cons, List.length_cons, Nat.pow_succ]
    omega

theorem digits_zero : ∀ n : Nat, digits n 0 = List.replicate n 0
  | 0 => rfl
  | n + 1 => by rw [digits, Nat.zero_div, digits_zero]; rfl

theorem digits_value : ∀ (bs : List UInt8) {n : Nat}, bs.length ≤ n →
    digits n (value bs) = bs ++ List.replicate (n - bs.length) 0
  | [], n, _ => by simp [value, digits_zero]
  | b :: bs, n + 1, h => by
    have hb := b.toNat_lt
    have hlow : UInt8.ofNat (value (b :: bs)) = b := by
      rw [← UInt8.toNat_inj, UInt8.toNat_ofNat', value_cons]
      omega
    have hhigh : value (b :: bs) / 256 = value bs := by
      rw [value_cons]
      omega
    rw [digits, hlow, hhigh, digits_value bs (Nat.le_of_succ_le_succ h), List.length_cons, Nat.add_sub_add_right]
    rfl

/-! ## Memory -/

section
variable {α : Type*} (m : Nat → α) (a : Nat)

def overwrite (xs : List α) : Nat → α := fun i => if a ≤ i then xs[i - a]?.getD (m i) else m i

@[simp] theorem overwrite_nil : overwrite m a [] = m := by
  funext i
  simp [overwrite]

variable {m a}

theorem overwrite_of_lt {i : Nat} (xs : List α) (h : i < a) : overwrite m a xs i = m i := if_neg (by omega)

theorem overwrite_add {xs : List α} {k : Nat} (h : k < xs.length) : overwrite m a xs (a + k) = xs[k] := by
  rw [overwrite, if_pos (Nat.le_add_right a k), Nat.add_sub_cancel_left, List.getElem?_eq_getElem h]
  rfl

theorem overwrite_of_ge {xs : List α} {i : Nat} (h : a + xs.length ≤ i) : overwrite m a xs i = m i := by
  rw [overwrite, if_pos (by omega), List.getElem?_eq_none (by omega)]
  rfl

theorem overwrite_append (xs ys : List α) :
    overwrite (overwrite m a xs) (a + xs.length) ys = overwrite m a (xs ++ ys) := by
  funext i
  unfold overwrite
  by_cases h : a + xs.length ≤ i
  · rw [if_pos h, if_pos (by omega), if_pos (by omega), List.getElem?_append_right (by omega),
      List.getElem?_eq_none (l := xs) (by omega), Nat.sub_sub]
    rfl
  · rw [if_neg h]
    by_cases ha : a ≤ i
    · rw [if_pos ha, if_pos ha, List.getElem?_append_left (by omega)]
    · rw [if_neg ha, if_neg ha]

theorem map_overwrite (xs : List α) : (List.range xs.length).map (fun k => overwrite m a xs (a + k)) = xs := by
  apply List.ext_getElem
  · simp
  · intro k h₁ h₂
    rw [List.getElem_map, List.getElem_range, overwrite_add h₂]

end

/-! ## Blocks -/

section
variable {α ε : Type*} (fault : Nat → ε)

def put (block : List α) (i : Nat) (b : α) : Except ε (List α) :=
  if i < block.length then .ok (block.set i b) else .error (fault i)

def putAll : List α → Nat → List α → Except ε (List α)
  | block, _, [] => .ok block
  | block, i, b :: bs => put fault block i b >>= fun block => putAll block (i + 1) bs

theorem putAll_nil (block : List α) (i : Nat) : putAll fault block i [] = .ok block := rfl

theorem putAll_cons (block : List α) (i : Nat) (b : α) (bs : List α) :
    putAll fault block i (b :: bs) = put fault block i b >>= fun block => putAll fault block (i + 1) bs := rfl

theorem putAll_append : ∀ (xs ys : List α) (block : List α) (i : Nat),
    putAll fault block i (xs ++ ys) = putAll fault block i xs >>= fun block => putAll fault block (i + xs.length) ys
  | [], ys, block, i => rfl
  | x :: xs, ys, block, i => by
    rw [List.cons_append, putAll, putAll]
    cases put fault block i x with
    | error e => rfl
    | ok block =>
      rw [Fallible.ok_bind, Fallible.ok_bind, putAll_append xs, List.length_cons, Nat.add_right_comm, Nat.add_assoc]

theorem putAll_ok : ∀ {bs : List α} (pre : List α) {rest : List α}, bs.length ≤ rest.length →
    putAll fault (pre ++ rest) pre.length bs = .ok (pre ++ bs ++ rest.drop bs.length)
  | [], pre, rest, _ => by simp [putAll]
  | b :: bs, pre, c :: rest, h => by
    have hset : (pre ++ c :: rest).set pre.length b = (pre ++ [b]) ++ rest := by simp
    have ih := putAll_ok (pre ++ [b]) (Nat.le_of_succ_le_succ h)
    rw [List.length_append, List.length_singleton] at ih
    rw [putAll, put, if_pos (by simp), Fallible.ok_bind, hset, ih]
    simp

theorem putAll_error : ∀ {bs : List α} (pre : List α) {rest : List α}, rest.length < bs.length →
    ∃ i, putAll fault (pre ++ rest) pre.length bs = .error (fault i)
  | b :: bs, pre, [], _ => ⟨pre.length, by rw [putAll, put, if_neg (by simp)]; rfl⟩
  | b :: bs, pre, c :: rest, h => by
    have hset : (pre ++ c :: rest).set pre.length b = (pre ++ [b]) ++ rest := by simp
    obtain ⟨i, ih⟩ := putAll_error (pre ++ [b]) (Nat.lt_of_succ_lt_succ h)
    rw [List.length_append, List.length_singleton] at ih
    exact ⟨i, by rw [putAll, put, if_pos (by simp), Fallible.ok_bind, hset, ih]⟩

theorem putAll_start {bs block : List α} (h : bs.length ≤ block.length) :
    putAll fault block 0 bs = .ok (bs ++ block.drop bs.length) :=
  putAll_ok fault [] h

theorem putAll_start_error {bs block : List α} (h : block.length < bs.length) :
    ∃ i, putAll fault block 0 bs = .error (fault i) :=
  putAll_error fault [] h

end

end Bytes

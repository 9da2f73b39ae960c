import RocCar.Lib.Bytes

/-!
# Cells

A block of bytes whose size is part of its type. `blit` stores a list at an
index, `wordAt` and `setWord` read and write the little-endian words of 4 bytes
that it consists of.
-/

namespace Cells

variable {n : Nat}

theorem size_blit (c : Vector UInt8 n) (i : Nat) (bs : List UInt8) :
    (c.toList.take i ++ bs.take (n - i) ++ c.toList.drop (i + bs.length)).toArray.size = n := by
  simp only [List.size_toArray, List.length_append, List.length_take, List.length_drop, Vector.length_toList]
  omega

/-- What does not fit is left out. -/
def blit (c : Vector UInt8 n) (i : Nat) (bs : List UInt8) : Vector UInt8 n :=
  ⟨(c.toList.take i ++ bs.take (n - i) ++ c.toList.drop (i + bs.length)).toArray, size_blit c i bs⟩

def bytes (c : Vector UInt8 n) (i k : Nat) : List UInt8 := (c.toList.drop i).take k

def wordAt (c : Vector UInt8 n) (k : Nat) : Nat := Bytes.value (bytes c (4 * k) 4)

def setWord (c : Vector UInt8 n) (k w : Nat) : Vector UInt8 n := blit c (4 * k) (Bytes.digits 4 w)

theorem toList_blit (c : Vector UInt8 n) {i : Nat} {bs : List UInt8} (h : i + bs.length ≤ n) :
    (blit c i bs).toList = c.toList.take i ++ bs ++ c.toList.drop (i + bs.length) := by
  unfold blit
  rw [Vector.toList_mk, List.toList_toArray, List.take_of_length_le (l := bs) (by omega)]

theorem length_bytes (c : Vector UInt8 n) {i k : Nat} (h : i + k ≤ n) : (bytes c i k).length = k := by
  rw [bytes, List.length_take, List.length_drop, Vector.length_toList]
  omega

/-! ## What a store leaves -/

theorem bytes_blit_before (c : Vector UInt8 n) {i j k : Nat} {bs : List UInt8} (h : i + bs.length ≤ n)
    (hj : j + k ≤ i) : bytes (blit c i bs) j k = bytes c j k := by
  have hlen : (c.toList.take i).length = i := by rw [List.length_take, Vector.length_toList]; omega
  unfold bytes
  rw [toList_blit c h, List.append_assoc, List.drop_append_of_le_length (by omega),
    List.take_append_of_le_length (by rw [List.length_drop]; omega), List.drop_take, List.take_take,
    Nat.min_eq_left (by omega)]

theorem drop_blit (c : Vector UInt8 n) {i j : Nat} {bs : List UInt8} (h : i + bs.length ≤ n)
    (hj : i + bs.length ≤ j) : (blit c i bs).toList.drop j = c.toList.drop j := by
  have hlen : (c.toList.take i ++ bs).length = i + bs.length := by
    rw [List.length_append, List.length_take, Vector.length_toList]; omega
  obtain ⟨d, rfl⟩ := Nat.exists_eq_add_of_le hj
  rw [toList_blit c h, ← hlen, List.drop_length_add_append, List.drop_drop, hlen]

theorem bytes_blit_after (c : Vector UInt8 n) {i j k : Nat} {bs : List UInt8} (h : i + bs.length ≤ n)
    (hj : i + bs.length ≤ j) : bytes (blit c i bs) j k = bytes c j k := by
  rw [bytes, drop_blit c h hj, bytes]

theorem drop_blit_self (c : Vector UInt8 n) {i : Nat} {bs : List UInt8} (h : i + bs.length ≤ n) :
    (blit c i bs).toList.drop i = bs ++ c.toList.drop (i + bs.length) := by
  have hlen : (c.toList.take i).length = i := by rw [List.length_take, Vector.length_toList]; omega
  rw [toList_blit c h, List.append_assoc, List.drop_left' hlen]

theorem drop_blit_before (c : Vector UInt8 n) {i j : Nat} {bs : List UInt8} (h : i + bs.length ≤ n) (hj : j ≤ i) :
    (blit c i bs).toList.drop j = bytes c j (i - j) ++ (bs ++ c.toList.drop (i + bs.length)) := by
  have hlen : (c.toList.take i).length = i := by rw [List.length_take, Vector.length_toList]; omega
  rw [toList_blit c h, List.append_assoc, List.drop_append_of_le_length (by omega), List.drop_take, bytes]

theorem blit_blit_append (c : Vector UInt8 n) {i : Nat} {xs ys : List UInt8} (h : i + (xs ++ ys).length ≤ n) :
    blit (blit c i xs) (i + xs.length) ys = blit c i (xs ++ ys) := by
  have hl : i + xs.length + ys.length = i + (xs ++ ys).length := by rw [List.length_append]; omega
  have hx : i + xs.length ≤ n := by omega
  have hlen : (c.toList.take i ++ xs).length = i + xs.length := by
    rw [List.length_append, List.length_take, Vector.length_toList]; omega
  apply Vector.toList_inj.mp
  rw [toList_blit _ (by omega), toList_blit c h, hl, drop_blit c hx (by omega), toList_blit c hx,
    List.take_left' hlen, List.append_assoc _ xs ys]

theorem bytes_blit_self (c : Vector UInt8 n) {i : Nat} {bs : List UInt8} (h : i + bs.length ≤ n) :
    bytes (blit c i bs) i bs.length = bs := by
  rw [bytes, drop_blit_self c h, List.take_left]

/-! ## Words -/

variable {c : Vector UInt8 n} {j k w : Nat}

theorem word_setWord (h : 4 * k + 4 ≤ n) : wordAt (setWord c k w) k = w % 2 ^ 32 := by
  have hd : (Bytes.digits 4 w).length = 4 := Bytes.length_digits 4 w
  have : bytes (blit c (4 * k) (Bytes.digits 4 w)) (4 * k) (Bytes.digits 4 w).length = Bytes.digits 4 w :=
    bytes_blit_self c (by rw [hd]; exact h)
  rw [hd] at this
  rw [wordAt, setWord, this, Bytes.value_digits, show (256 : Nat) ^ 4 = 2 ^ 32 from rfl]

theorem bytes_setWord_after {i m : Nat} (h : 4 * k + 4 ≤ n) (hi : 4 * k + 4 ≤ i) :
    bytes (setWord c k w) i m = bytes c i m := by
  have hd : (Bytes.digits 4 w).length = 4 := Bytes.length_digits 4 w
  exact bytes_blit_after c (by rw [hd]; exact h) (by rw [hd]; exact hi)

theorem bytes_setWord_before {i m : Nat} (h : 4 * k + 4 ≤ n) (hi : i + m ≤ 4 * k) :
    bytes (setWord c k w) i m = bytes c i m :=
  bytes_blit_before c (by rw [Bytes.length_digits]; exact h) hi

theorem drop_setWord {i : Nat} (h : 4 * k + 4 ≤ n) (hi : 4 * k + 4 ≤ i) :
    (setWord c k w).toList.drop i = c.toList.drop i := by
  have hd : (Bytes.digits 4 w).length = 4 := Bytes.length_digits 4 w
  exact drop_blit c (by rw [hd]; exact h) (by rw [hd]; exact hi)

theorem word_setWord_ne (h : 4 * k + 4 ≤ n) (hjk : j ≠ k) : wordAt (setWord c k w) j = wordAt c j := by
  unfold wordAt
  rcases Nat.lt_or_gt_of_ne hjk with hlt | hlt
  · rw [bytes_setWord_before h (by omega)]
  · rw [bytes_setWord_after h (by omega)]

end Cells

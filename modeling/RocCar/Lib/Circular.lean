import Mathlib.Data.List.DropRight

/-!
# Windows of a circular array

An array of `size` cells is read circularly: `window buf r n` is the `n` cells
from index `r` on, continuing at `0` past the end. `circWrite` stores a block
circularly with at most two copies. `window_circWrite` says what is left to
read when a block is stored behind a window and the `d` oldest cells are given
up, so a bounded queue that drops its oldest elements is a window.
-/

namespace Circular

/-- Advance index `i` by `k`, wrapping once past the last cell. -/
def wrapAdd (size i k : Nat) : Nat := if i + k < size then i + k else i + k - size

variable {α : Type*}

def overwrite (buf : List α) (i : Nat) (xs : List α) : List α :=
  buf.take i ++ xs ++ buf.drop (i + xs.length)

def circWrite (buf : List α) (w : Nat) (xs : List α) : List α :=
  if buf.length - w > xs.length then overwrite buf w xs
  else overwrite (overwrite buf w (xs.take (buf.length - w))) 0 (xs.drop (buf.length - w))

def window (buf : List α) (r n : Nat) : List α := (buf.drop r ++ buf.take r).take n

theorem wrapAdd_lt {size i k : Nat} (hi : i < size) (hk : k ≤ size) : wrapAdd size i k < size := by
  unfold wrapAdd; split <;> omega

theorem wrapAdd_wrapAdd {size i j k : Nat} (hi : i < size) (h : j + k ≤ size) :
    wrapAdd size (wrapAdd size i j) k = wrapAdd size i (j + k) := by
  unfold wrapAdd; split <;> split <;> split <;> omega

@[simp] theorem length_overwrite (buf : List α) (i : Nat) (xs : List α) (h : i + xs.length ≤ buf.length) :
    (overwrite buf i xs).length = buf.length := by
  simp only [overwrite, List.length_append, List.length_take, List.length_drop]; omega

theorem getElem?_overwrite (buf : List α) (i : Nat) (xs : List α) (h : i + xs.length ≤ buf.length) (k : Nat) :
    (overwrite buf i xs)[k]? =
      if k < i then buf[k]? else if k < i + xs.length then xs[k - i]? else buf[k]? := by
  have hi : (buf.take i).length = i := by rw [List.length_take]; omega
  unfold overwrite
  by_cases h1 : k < i
  · rw [List.append_assoc, List.getElem?_append_left (by omega), List.getElem?_take]
    simp [h1]
  · by_cases h2 : k < i + xs.length
    · rw [List.append_assoc, List.getElem?_append_right (by omega), hi, List.getElem?_append_left (by omega)]
      simp [h1, h2]
    · rw [List.getElem?_append_right (by simp only [List.length_append]; omega), List.getElem?_drop]
      simp only [h1, h2, ite_false, List.length_append, hi]
      congr 1; omega

theorem length_circWrite (buf : List α) (w : Nat) (xs : List α) (hw : w ≤ buf.length)
    (hx : xs.length ≤ buf.length) : (circWrite buf w xs).length = buf.length := by
  unfold circWrite
  split
  · exact length_overwrite _ _ _ (by omega)
  · have h1 : (overwrite buf w (xs.take (buf.length - w))).length = buf.length :=
      length_overwrite _ _ _ (by rw [List.length_take]; omega)
    rw [length_overwrite _ _ _ (by rw [h1, List.length_drop]; omega), h1]

/-- Cell `k` after a circular write at `w`: the block's element at the circular
distance from `w` to `k`, or the old cell. -/
theorem getElem?_circWrite (buf : List α) (w : Nat) (xs : List α) (hw : w ≤ buf.length)
    (hx : xs.length ≤ buf.length) {k : Nat} (hk : k < buf.length) :
    (circWrite buf w xs)[k]? =
      if (if w ≤ k then k - w else k + buf.length - w) < xs.length
      then xs[if w ≤ k then k - w else k + buf.length - w]? else buf[k]? := by
  unfold circWrite
  split
  · rw [getElem?_overwrite _ _ _ (by omega)]
    by_cases h : w ≤ k
    · simp only [h, ite_true, show ¬ k < w by omega, ite_false, show k < w + xs.length ↔ k - w < xs.length by omega]
    · simp [h, show k < w by omega, show ¬ k + buf.length - w < xs.length by omega]
  · have ht : (xs.take (buf.length - w)).length = buf.length - w := by rw [List.length_take]; omega
    have h1 : (overwrite buf w (xs.take (buf.length - w))).length = buf.length :=
      length_overwrite _ _ _ (by omega)
    rw [getElem?_overwrite _ _ _ (by rw [h1, List.length_drop]; omega), getElem?_overwrite _ _ _ (by omega)]
    simp only [Nat.not_lt_zero, ite_false, Nat.zero_add, Nat.sub_zero, List.length_drop, ht]
    -- the second copy fills the cells before `w`, the first one those from `w` on
    by_cases h : w ≤ k
    · by_cases h2 : k < xs.length - (buf.length - w)
      · omega
      · rw [if_neg h2, if_neg (by omega), if_pos (by omega), if_pos h, List.getElem?_take, if_pos (by omega),
          if_pos (by omega)]
    · by_cases h2 : k < xs.length - (buf.length - w)
      · rw [if_pos h2, if_neg h, if_pos (by omega), List.getElem?_drop]
        congr 1; omega
      · rw [if_neg h2, if_pos (by omega), if_neg h, if_neg (by omega)]

theorem length_window (buf : List α) (r n : Nat) (hn : n ≤ buf.length) : (window buf r n).length = n := by
  simp only [window, List.length_take, List.length_append, List.length_drop]; omega

theorem getElem?_window (buf : List α) {r n k : Nat} (hr : r < buf.length) (hn : n ≤ buf.length) (hk : k < n) :
    (window buf r n)[k]? = buf[wrapAdd buf.length r k]? := by
  unfold window wrapAdd
  rw [List.getElem?_take, if_pos hk]
  split
  · rw [List.getElem?_append_left (by rw [List.length_drop]; omega), List.getElem?_drop]
  · rw [List.getElem?_append_right (by rw [List.length_drop]; omega), List.getElem?_take, List.length_drop,
      if_pos (by omega)]
    congr 1; omega

theorem window_succ (buf : List α) {r n : Nat} (hr : r < buf.length) (hn : n + 1 ≤ buf.length) :
    window buf r (n + 1) = buf[r] :: window buf (wrapAdd buf.length r 1) n := by
  apply List.ext_getElem?
  intro k
  rcases k with _ | k
  · rw [getElem?_window buf hr hn (by omega)]
    simp [wrapAdd, hr]
  · rw [List.getElem?_cons_succ]
    by_cases hk : k < n
    · rw [getElem?_window buf hr hn (by omega), getElem?_window buf (wrapAdd_lt hr (by omega)) (by omega) hk,
        wrapAdd_wrapAdd hr (by omega), Nat.add_comm 1 k]
    · rw [List.getElem?_eq_none (by rw [length_window _ _ _ hn]; omega),
        List.getElem?_eq_none (by rw [length_window _ _ _ (by omega)]; omega)]

/-- **Storing behind a window.** The block goes right behind the `n` cells from
`r`; reading from `d` cells further on, everything but the `d` oldest elements
is there, provided that much fits. -/
theorem window_circWrite (buf : List α) {r n d : Nat} (xs : List α) (hr : r < buf.length) (hn : n ≤ buf.length)
    (hx : xs.length ≤ buf.length) (hd : d ≤ buf.length) (hfit : n + xs.length ≤ buf.length + d)
    (hle : d ≤ n + xs.length) :
    window (circWrite buf (wrapAdd buf.length r n) xs) (wrapAdd buf.length r d) (n + xs.length - d) =
      (window buf r n ++ xs).drop d := by
  have hlen := length_circWrite buf (wrapAdd buf.length r n) xs (Nat.le_of_lt (wrapAdd_lt hr hn)) hx
  apply List.ext_getElem?
  intro k
  rw [List.getElem?_drop]
  by_cases hk : k < n + xs.length - d
  · rw [getElem?_window _ (by rw [hlen]; exact wrapAdd_lt hr hd) (by omega) hk, hlen,
      getElem?_circWrite _ _ _ (Nat.le_of_lt (wrapAdd_lt hr hn)) hx
        (wrapAdd_lt (wrapAdd_lt hr hd) (by omega))]
    by_cases hold : d + k < n
    · rw [List.getElem?_append_left (by rw [length_window _ _ _ hn]; omega), getElem?_window buf hr hn hold,
        wrapAdd_wrapAdd hr (by omega), if_neg]
      unfold wrapAdd; split <;> split <;> split <;> omega
    · rw [List.getElem?_append_right (by rw [length_window _ _ _ hn]; omega), length_window _ _ _ hn]
      have hdist : (if wrapAdd buf.length r n ≤ wrapAdd buf.length (wrapAdd buf.length r d) k
          then wrapAdd buf.length (wrapAdd buf.length r d) k - wrapAdd buf.length r n
          else wrapAdd buf.length (wrapAdd buf.length r d) k + buf.length - wrapAdd buf.length r n) =
          d + k - n := by
        unfold wrapAdd; split <;> split <;> split <;> split <;> omega
      rw [hdist, if_pos (by omega)]
  · rw [List.getElem?_eq_none (by rw [length_window _ _ _ (by omega)]; omega),
      List.getElem?_eq_none (by rw [List.length_append, length_window _ _ _ hn]; omega)]

theorem drop_eq_rtake (l : List α) {n d : Nat} (h : l.length - n = d) : l.drop d = l.rtake n := by
  rw [List.rtake, h]

end Circular

import RocCar.Phantom

/-!
# The backward search

For an over-long candidate `protocol_recev_data` goes back through the buffer and
at each start code takes its position off `m_recv_data_index`: the first one found
leaves the number of bytes behind it, but the search does not stop there.
-/

namespace RocCar

open Fallible Runs

variable {out : Outside}

structure OverLong (t : List UInt8) (dat : UInt8) : Prop where
  len : (t.headD 0).toNat = t.length
  length_pos : 0 < t.length
  length_le : t.length ≤ 126
  head_ne : t.head? ≠ some protocolEndCode
  dat_ne : dat ≠ protocolEndCode

/-- No start code that the search from `i` down finds is taken off a smaller `index`. -/
def SubtractsWithin (buf : Vector UInt8 bufferSize) : Nat → UInt8 → Prop
  | 0, _ => True
  | i + 1, index =>
    if buf[i + 1]? = some protocolStartCode then
      i + 1 ≤ index.toNat ∧ SubtractsWithin buf i (index - UInt8.ofNat (i + 1))
    else SubtractsWithin buf i index

/-- The index does not wrap, and behind the search it is the number of bytes that
follow a start code, where `p` points. -/
structure Restarts (out : Outside) (s : StProtocolParser) (t : List UInt8) (dat : UInt8) : Prop where
  within : SubtractsWithin (frameState s (t ++ [dat])).buffer (t.length + 1) (UInt8.ofNat (t.length + 1))
  left : protocolStartCode ∈ t ++ [dat] → ∃ l i,
    recevByte out (frameLocals t) (frameState s t) dat = .ok (.continue l (frameState s (t ++ [dat]))) ∧
      l.p = some i ∧ i ≤ t.length + 1 ∧ (frameState s (t ++ [dat])).buffer[i]? = some protocolStartCode ∧
      l.mRecvDataIndex.toNat = t.length + 1 - i

/-! ## Start codes -/

theorem startCodes_lt {t : List UInt8} {i : Nat} : ∀ {n : Nat}, i < n → t[i]? = some protocolStartCode →
    i < startCodes t n
  | n + 1, hi, hs => by
    rw [startCodes]
    rcases Nat.lt_succ_iff_lt_or_eq.mp hi with hlt | rfl
    · exact Nat.lt_of_lt_of_le (startCodes_lt hlt hs) (Nat.le_add_right _ _)
    · rw [if_pos hs]; omega

theorem count_take_succ (t : List UInt8) (n : Nat) : (t.take (n + 1)).count protocolStartCode =
    (t.take n).count protocolStartCode + if t[n]? = some protocolStartCode then 1 else 0 := by
  rw [List.take_add_one, List.count_append]
  cases t[n]? with
  | none => simp
  | some b => simp [List.count_singleton]

theorem startCodes_eq_zero_iff {t : List UInt8} : ∀ {n : Nat},
    startCodes t n = 0 ↔ (t.take n).count protocolStartCode = 0
  | 0 => by simp [startCodes]
  | n + 1 => by
    have := startCodes_eq_zero_iff (t := t) (n := n)
    rw [startCodes, count_take_succ]
    split <;> omega

theorem startCodes_eq_iff {t : List UInt8} {i : Nat} : ∀ {n : Nat}, i < n → t[i]? = some protocolStartCode →
    (startCodes t n = i + 1 ↔ (t.take n).count protocolStartCode ≤ 1)
  | n + 1, hi, hs => by
    rw [startCodes, count_take_succ]
    rcases Nat.lt_succ_iff_lt_or_eq.mp hi with hlt | rfl
    · have ih := startCodes_eq_iff hlt hs
      have hpos := startCodes_lt hlt hs
      have hz := startCodes_eq_zero_iff (t := t) (n := n)
      split <;> omega
    · have hz := startCodes_eq_zero_iff (t := t) (n := i)
      rw [if_pos hs, if_pos hs]
      omega

theorem firstStart_eq_some {t : List UInt8} {j : Nat} : ∀ {n : Nat}, firstStart t n = some j →
    ∃ i, j = i + 1 ∧ i < n ∧ t[i]? = some protocolStartCode
  | n + 1, h => by
    rw [firstStart, Option.or_eq_some_iff] at h
    rcases h with h | ⟨-, h⟩
    · obtain ⟨i, hj, hi, hs⟩ := firstStart_eq_some h
      exact ⟨i, hj, Nat.lt_succ_of_lt hi, hs⟩
    · split at h
      · rename_i hs
        exact ⟨n, (Option.some.inj h).symm, Nat.lt_succ_self n, hs⟩
      · cases h

theorem firstStart_eq_none {t : List UInt8} : ∀ {n : Nat}, firstStart t n = none → startCodes t n = 0
  | 0, _ => rfl
  | n + 1, h => by
    rw [firstStart, Option.or_eq_none_iff] at h
    rw [startCodes, firstStart_eq_none h.1]
    split at h
    · cases h.2
    · rename_i hs
      rw [if_neg hs]

/-! ## The search in a candidate -/

theorem getElem?_frameState (s : StProtocolParser) {t : List UInt8} (ht : t.length ≤ 127) {i : Nat}
    (hi : i < t.length) : (frameState s t).buffer[i + 1]? = t[i]? := by
  have hb := bufferSize_eq
  rw [Vector.getElem?_eq_getElem (show i + 1 < bufferSize by omega), frameState, getElem_overlay,
    List.getElem?_cons_succ, List.getElem?_eq_getElem hi]
  rfl

theorem subtractsWithin_iff (s : StProtocolParser) {t : List UInt8} (ht : t.length ≤ 127) :
    ∀ (i : Nat) (index : UInt8), i ≤ t.length →
      (SubtractsWithin (frameState s t).buffer i index ↔ startCodes t i ≤ index.toNat)
  | 0, _, _ => by simp [SubtractsWithin, startCodes]
  | i + 1, index, hi => by
    have ih := fun index => subtractsWithin_iff s ht i index (by omega)
    rw [SubtractsWithin, startCodes, getElem?_frameState s ht hi]
    split
    · have := index.toNat_lt
      rw [ih, UInt8.toNat_sub, UInt8.toNat_ofNat']
      omega
    · rw [ih, Nat.add_zero]

variable {s : StProtocolParser} {t : List UInt8} {dat : UInt8}

theorem OverLong.within_iff (h : OverLong t dat) (s : StProtocolParser) :
    SubtractsWithin (frameState s (t ++ [dat])).buffer (t.length + 1) (UInt8.ofNat (t.length + 1)) ↔
      startCodes (t ++ [dat]) (t.length + 1) ≤ t.length + 1 := by
  have hle := h.length_le
  have hlen : (t ++ [dat]).length = t.length + 1 := List.length_append
  rw [subtractsWithin_iff s (by omega) _ _ (by omega), UInt8.toNat_ofNat', Nat.mod_eq_of_lt (by omega)]

theorem toNat_indexLeft (hle : t.length ≤ 126)
    (hw : startCodes (t ++ [dat]) (t.length + 1) ≤ t.length + 1) :
    (indexLeft t dat).toNat = t.length + 1 - startCodes (t ++ [dat]) (t.length + 1) := by
  rw [indexLeft, UInt8.toNat_sub, UInt8.toNat_ofNat', UInt8.toNat_ofNat']
  omega

theorem take_concat (t : List UInt8) (dat : UInt8) : (t ++ [dat]).take (t.length + 1) = t ++ [dat] :=
  List.take_of_length_le (by simp)

theorem count_le_one_of_restarts (ho : OverLong t dat) (h : Restarts out s t dat) :
    (t ++ [dat]).count protocolStartCode ≤ 1 := by
  have hle := ho.length_le
  by_cases hmem : protocolStartCode ∈ t ++ [dat]
  · obtain ⟨l, i, hr, -, hi, hbuf, hidx⟩ := h.left hmem
    obtain ⟨l', -, hidx', -, hr'⟩ := over_run s ho.len ho.length_pos hle ho.dat_ne
      (over_inside ho.len ho.length_pos hle ho.dat_ne hr)
    have hl : l.mRecvDataIndex = l'.mRecvDataIndex := by
      rw [hr, Except.ok.injEq] at hr'
      split at hr'
      · cases hr'
      · rw [(Round.continue.inj hr').1]
    -- the index tells that all the positions sum up to that of `p`
    have hw := (ho.within_iff s).mp h.within
    rw [hl, hidx', toNat_indexLeft hle hw] at hidx
    have hsum : startCodes (t ++ [dat]) (t.length + 1) = i := by omega
    rw [← take_concat t dat]
    cases i with
    | zero => rw [startCodes_eq_zero_iff.mp hsum]; exact Nat.zero_le 1
    | succ i =>
      have hlt : i < (t ++ [dat]).length := by simp; omega
      rw [getElem?_frameState s (by simp; omega) hlt] at hbuf
      exact (startCodes_eq_iff (by omega) hbuf).mp hsum
  · rw [List.count_eq_zero.mpr hmem]
    exact Nat.zero_le 1

theorem restarts_of_count (ho : OverLong t dat) (s : StProtocolParser)
    (hc : (t ++ [dat]).count protocolStartCode ≤ 1)
    (hin : t.length = 126 → dat = protocolStartCode → out bufferSize ≠ none) : Restarts out s t dat := by
  have hle := ho.length_le
  rw [← take_concat t dat] at hc
  cases hfirst : firstStart (t ++ [dat]) (t.length + 1) with
  | none =>
    have hsum := firstStart_eq_none hfirst
    refine ⟨(ho.within_iff s).mpr (by omega), fun hmem => ?_⟩
    have hz := startCodes_eq_zero_iff.mp hsum
    rw [take_concat] at hz
    exact absurd hmem (List.count_eq_zero.mp hz)
  | some j =>
    obtain ⟨i, rfl, hi, hs⟩ := firstStart_eq_some hfirst
    have hsum := (startCodes_eq_iff hi hs).mpr hc
    have hw : startCodes (t ++ [dat]) (t.length + 1) ≤ t.length + 1 := by omega
    refine ⟨(ho.within_iff s).mpr hw, fun _ => ?_⟩
    obtain ⟨l, -, hidx, hp, hr⟩ := over_run s ho.len ho.length_pos hle ho.dat_ne hin
    have hleft := toNat_indexLeft hle hw
    rw [hsum] at hleft
    have hb := bufferSize_eq
    refine ⟨l, i + 1, ?_, by rw [hp, hfirst]; rfl, hi, ?_, by rw [hidx, hleft]⟩
    · rw [hr, if_neg (by omega)]
    · rw [getElem?_frameState s (by simp; omega) (by simpa using hi), hs]

/-- **The index after the backward search** is right if and only if at most one
start code is found, and the byte behind it can be read. -/
theorem restarts_iff (out : Outside) (s : StProtocolParser) (t : List UInt8) (dat : UInt8) (h : OverLong t dat) :
    Restarts out s t dat ↔ (t ++ [dat]).count protocolStartCode ≤ 1 ∧
      (t.length = 126 → dat = protocolStartCode → out bufferSize ≠ none) := by
  refine ⟨fun hr => ⟨count_le_one_of_restarts h hr, fun hfull hs => ?_⟩, fun hc => restarts_of_count h s hc.1 hc.2⟩
  obtain ⟨l, i, hrec, -⟩ := hr.left (by rw [hs]; simp)
  exact over_inside h.len h.length_pos h.length_le h.dat_ne hrec hfull hs

theorem restarts_iff_one : Restarts (fun _ => none) {} [5, 0, 0xAA, 0, 0] 0x40 := by
  have h : OverLong [5, 0, 0xAA, 0, 0] 0x40 := ⟨rfl, by decide, by decide, by decide, by decide⟩
  exact (restarts_iff _ {} _ _ h).mpr ⟨by decide, by decide⟩

/-- Start codes at the positions 3 and 4: the index goes from 6 to 2 and to 255. -/
theorem restarts_wraps : ¬ ∀ (out : Outside) (s : StProtocolParser) (t : List UInt8) (dat : UInt8),
    OverLong t dat → Restarts out s t dat := by
  intro h
  have ho : OverLong [5, 0, 0xAA, 0xAA, 0] 0 := ⟨rfl, by decide, by decide, by decide, by decide⟩
  have hc := count_le_one_of_restarts ho (h (fun _ => some 0) {} _ _ ho)
  exact absurd hc (by decide)

end RocCar

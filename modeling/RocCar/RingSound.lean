import RocCar.Ring

/-!
# The ring as a bounded queue

The readable bytes of a ring are a window of its array. `getchar` takes the
first of them. `put_force` keeps the last `buffer_size` bytes of old and new,
except in one case: when it overflows a ring whose indices are in the same
mirror, it flips both mirrors and leaves the ring empty.
-/

namespace RocCar

open Circular

/-! ## The representation -/

structure RtRingbuffer.Ok (rb : RtRingbuffer) : Prop where
  size_pos : 0 < rb.bufferSize
  length_ptr : rb.bufferPtr.length = rb.bufferSize
  read_lt : rb.readIndex < rb.bufferSize
  write_lt : rb.writeIndex < rb.bufferSize
  same : rb.readMirror = rb.writeMirror → rb.readIndex ≤ rb.writeIndex
  other : rb.readMirror ≠ rb.writeMirror → rb.writeIndex ≤ rb.readIndex

def RtRingbuffer.content (rb : RtRingbuffer) : List UInt8 :=
  window rb.bufferPtr rb.readIndex (rtRingbufferDataLen rb)

variable {rb : RtRingbuffer}

theorem dataLen_same (h : rb.Ok) (hm : rb.readMirror = rb.writeMirror) :
    rtRingbufferDataLen rb = rb.writeIndex - rb.readIndex := by
  have hle := h.same hm
  unfold rtRingbufferDataLen rtRingbufferStatus
  by_cases he : rb.readIndex = rb.writeIndex
  · simp [he, hm]
  · simp only [he, ite_false]
    rw [if_pos (by omega)]

theorem dataLen_other (h : rb.Ok) (hm : rb.readMirror ≠ rb.writeMirror) :
    rtRingbufferDataLen rb = rb.bufferSize - (rb.readIndex - rb.writeIndex) := by
  have hle := h.other hm
  unfold rtRingbufferDataLen rtRingbufferStatus
  by_cases he : rb.readIndex = rb.writeIndex
  · simp [he, hm]
  · simp only [he, ite_false]
    rw [if_neg (by omega)]

theorem ok_same (hs : 0 < rb.bufferSize) (hl : rb.bufferPtr.length = rb.bufferSize)
    (hr : rb.readIndex < rb.bufferSize) (hw : rb.writeIndex < rb.bufferSize)
    (hm : rb.readMirror = rb.writeMirror) {n : Nat} (hn : rb.writeIndex = rb.readIndex + n) :
    rb.Ok ∧ rtRingbufferDataLen rb = n := by
  have ok : rb.Ok := ⟨hs, hl, hr, hw, fun _ => by omega, fun hne => absurd hm hne⟩
  exact ⟨ok, by rw [dataLen_same ok hm]; omega⟩

theorem ok_other (hs : 0 < rb.bufferSize) (hl : rb.bufferPtr.length = rb.bufferSize)
    (hr : rb.readIndex < rb.bufferSize) (hw : rb.writeIndex < rb.bufferSize)
    (hm : rb.readMirror ≠ rb.writeMirror) {n : Nat} (hn : rb.writeIndex + rb.bufferSize = rb.readIndex + n)
    (hle : n ≤ rb.bufferSize) : rb.Ok ∧ rtRingbufferDataLen rb = n := by
  have ok : rb.Ok := ⟨hs, hl, hr, hw, fun he => absurd he hm, fun _ => by omega⟩
  exact ⟨ok, by rw [dataLen_other ok hm]; omega⟩

theorem dataLen_le (h : rb.Ok) : rtRingbufferDataLen rb ≤ rb.bufferSize := by
  have hw := h.write_lt
  by_cases hm : rb.readMirror = rb.writeMirror
  · rw [dataLen_same h hm]; omega
  · rw [dataLen_other h hm]; omega

theorem writeIndex_eq (h : rb.Ok) :
    rb.writeIndex = wrapAdd rb.bufferSize rb.readIndex (rtRingbufferDataLen rb) := by
  have hr := h.read_lt
  have hw := h.write_lt
  unfold wrapAdd
  by_cases hm : rb.readMirror = rb.writeMirror
  · have := h.same hm
    rw [dataLen_same h hm]; split <;> omega
  · have := h.other hm
    rw [dataLen_other h hm]; split <;> omega

@[simp] theorem length_content (h : rb.Ok) : rb.content.length = rtRingbufferDataLen rb :=
  length_window _ _ _ (by rw [h.length_ptr]; exact dataLen_le h)

theorem content_eq_nil_iff (h : rb.Ok) : rb.content = [] ↔ rtRingbufferDataLen rb = 0 := by
  rw [← List.length_eq_zero_iff, length_content h]

/-! ## `getchar` -/

theorem getchar_eq_none_iff : rtRingbufferGetchar rb = none ↔ rtRingbufferDataLen rb = 0 := by
  unfold rtRingbufferGetchar
  split
  · simp [*]
  · split <;> simp [*]

theorem getchar_spec (h : rb.Ok) {ch : UInt8} {rb' : RtRingbuffer}
    (hg : rtRingbufferGetchar rb = some (ch, rb')) :
    rb'.Ok ∧ rb'.bufferSize = rb.bufferSize ∧ rb.content = ch :: rb'.content := by
  have hpos := h.size_pos
  have hr := h.read_lt
  have hw := h.write_lt
  unfold rtRingbufferGetchar at hg
  split at hg
  · cases hg
  rename_i hne
  have hle := dataLen_le h
  -- the new state, its read index one further on and one byte less to read
  have key : rb'.Ok ∧ rb'.bufferSize = rb.bufferSize ∧ rb'.bufferPtr = rb.bufferPtr ∧
      rb'.readIndex = wrapAdd rb.bufferSize rb.readIndex 1 ∧
      rtRingbufferDataLen rb = rtRingbufferDataLen rb' + 1 ∧ ch = rb.bufferPtr.getD rb.readIndex 0 := by
    by_cases hm : rb.readMirror = rb.writeMirror
    · have hsame := h.same hm
      have hn := dataLen_same h hm
      rw [if_neg (by omega)] at hg
      simp only [Option.some.injEq, Prod.mk.injEq] at hg
      obtain ⟨rfl, rfl⟩ := hg
      have hr₁ : rb.readIndex + 1 < rb.bufferSize := by omega
      obtain ⟨ok, hd⟩ := @ok_same { rb with readIndex := rb.readIndex + 1 } hpos h.length_ptr hr₁ hw hm
        (rtRingbufferDataLen rb - 1) (by dsimp only; omega)
      refine ⟨ok, rfl, rfl, ?_, by omega, rfl⟩
      unfold wrapAdd; rw [if_pos (by omega)]
    · have hother := h.other hm
      have hn := dataLen_other h hm
      split at hg
      · simp only [Option.some.injEq, Prod.mk.injEq] at hg
        obtain ⟨rfl, rfl⟩ := hg
        have hm' : (!rb.readMirror) = rb.writeMirror := by
          cases h1 : rb.readMirror <;> cases h2 : rb.writeMirror <;> simp_all
        obtain ⟨ok, hd⟩ := @ok_same { rb with readMirror := !rb.readMirror, readIndex := 0 } hpos h.length_ptr hpos hw
          hm' (rtRingbufferDataLen rb - 1) (by dsimp only; omega)
        refine ⟨ok, rfl, rfl, ?_, by omega, rfl⟩
        unfold wrapAdd; rw [if_neg (by omega)]; dsimp only; omega
      · simp only [Option.some.injEq, Prod.mk.injEq] at hg
        obtain ⟨rfl, rfl⟩ := hg
        have hr₁ : rb.readIndex + 1 < rb.bufferSize := by omega
        obtain ⟨ok, hd⟩ := @ok_other { rb with readIndex := rb.readIndex + 1 } hpos h.length_ptr hr₁ hw hm
          (rtRingbufferDataLen rb - 1) (by dsimp only; omega) (by dsimp only; omega)
        refine ⟨ok, rfl, rfl, ?_, by omega, rfl⟩
        unfold wrapAdd; rw [if_pos (by omega)]
  obtain ⟨ok, hs, hp, hri, hlen, hch⟩ := key
  refine ⟨ok, hs, ?_⟩
  have hr' : rb.readIndex < rb.bufferPtr.length := by rw [h.length_ptr]; exact hr
  rw [RtRingbuffer.content, RtRingbuffer.content, hp, hri, hlen, ← h.length_ptr,
    window_succ _ hr' (by rw [h.length_ptr]; omega), hch]
  congr 1
  rw [List.getD_eq_getElem?_getD, List.getElem?_eq_getElem hr']
  rfl

/-! ## `put_force` -/

theorem putForce_eq (h : rb.Ok) {ptr : List UInt8} (hp : ptr.length ≤ rb.bufferSize) :
    (rtRingbufferPutForce rb ptr).1 =
      { bufferPtr := circWrite rb.bufferPtr rb.writeIndex ptr
        readMirror := if rtRingbufferSpaceLen rb < ptr.length ∧ rb.bufferSize ≤ rb.writeIndex + ptr.length
          then !rb.readMirror else rb.readMirror
        readIndex := if rtRingbufferSpaceLen rb < ptr.length
          then wrapAdd rb.bufferSize rb.writeIndex ptr.length else rb.readIndex
        writeMirror := if rb.bufferSize ≤ rb.writeIndex + ptr.length then !rb.writeMirror else rb.writeMirror
        writeIndex := wrapAdd rb.bufferSize rb.writeIndex ptr.length
        bufferSize := rb.bufferSize } := by
  have hw := h.write_lt
  unfold rtRingbufferPutForce circWrite wrapAdd
  simp only [gt_iff_lt, Nat.not_lt.mpr hp, ite_false, h.length_ptr]
  by_cases hc : ptr.length < rb.bufferSize - rb.writeIndex
  · simp [hc, show rb.writeIndex + ptr.length < rb.bufferSize by omega,
      show ¬ rb.bufferSize ≤ rb.writeIndex + ptr.length by omega]
  · simp [hc, show ¬ rb.writeIndex + ptr.length < rb.bufferSize by omega,
      show rb.bufferSize ≤ rb.writeIndex + ptr.length by omega,
      show ptr.length - (rb.bufferSize - rb.writeIndex) = rb.writeIndex + ptr.length - rb.bufferSize by omega]

theorem putForce_bufferSize (h : rb.Ok) {ptr : List UInt8} (hp : ptr.length ≤ rb.bufferSize) :
    (rtRingbufferPutForce rb ptr).1.bufferSize = rb.bufferSize := by
  rw [putForce_eq h hp]

theorem putForce_length (h : rb.Ok) {ptr : List UInt8} (hp : ptr.length ≤ rb.bufferSize) :
    (circWrite rb.bufferPtr rb.writeIndex ptr).length = rb.bufferSize := by
  have hw := h.write_lt
  rw [length_circWrite _ _ _ (by rw [h.length_ptr]; omega) (by rw [h.length_ptr]; exact hp), h.length_ptr]

theorem putForce_fits (h : rb.Ok) {ptr : List UInt8} (hfit : ptr.length ≤ rtRingbufferSpaceLen rb) :
    (rtRingbufferPutForce rb ptr).1.Ok ∧ (rtRingbufferPutForce rb ptr).1.readIndex = rb.readIndex ∧
      rtRingbufferDataLen (rtRingbufferPutForce rb ptr).1 = rtRingbufferDataLen rb + ptr.length := by
  have hr := h.read_lt
  have hw := h.write_lt
  have hp : ptr.length ≤ rb.bufferSize := Nat.le_trans hfit (Nat.sub_le _ _)
  have hdl := dataLen_le h
  have hwi : wrapAdd rb.bufferSize rb.writeIndex ptr.length < rb.bufferSize := wrapAdd_lt hw hp
  rw [putForce_eq h hp]
  simp only [Nat.not_lt.mpr hfit, false_and, ite_false, true_and]
  unfold rtRingbufferSpaceLen at hfit
  unfold wrapAdd at hwi ⊢
  have hlen := putForce_length h hp
  by_cases hm : rb.readMirror = rb.writeMirror
  · have hsame := h.same hm
    have hn := dataLen_same h hm
    by_cases hc : rb.bufferSize ≤ rb.writeIndex + ptr.length
    · -- the write index passes into the other mirror
      have hm' : rb.readMirror ≠ !rb.writeMirror := by rw [hm]; cases rb.writeMirror <;> decide
      simp only [hc, ite_true, Nat.not_lt.mpr hc, ite_false] at hwi ⊢
      apply ok_other
      exacts [h.size_pos, hlen, hr, hwi, hm', by dsimp only; omega, by dsimp only; omega]
    · simp only [hc, ite_false, Nat.not_le.mp hc, ite_true]
      apply ok_same
      exacts [h.size_pos, hlen, hr, Nat.not_le.mp hc, hm, by dsimp only; omega]
  · -- the write index is behind the read index, so a block that fits does not wrap
    have hother := h.other hm
    have hn := dataLen_other h hm
    have hc : ¬ rb.bufferSize ≤ rb.writeIndex + ptr.length := by omega
    simp only [hc, ite_false, Nat.not_le.mp hc, ite_true]
    apply ok_other
    exacts [h.size_pos, hlen, hr, Nat.not_le.mp hc, hm, by dsimp only; omega, by dsimp only; omega]

theorem putForce_overflow (h : rb.Ok) {ptr : List UInt8} (hp : ptr.length ≤ rb.bufferSize)
    (hov : rtRingbufferSpaceLen rb < ptr.length) (hm : rb.readMirror ≠ rb.writeMirror) :
    (rtRingbufferPutForce rb ptr).1.Ok ∧
      (rtRingbufferPutForce rb ptr).1.readIndex = wrapAdd rb.bufferSize rb.writeIndex ptr.length ∧
      rtRingbufferDataLen (rtRingbufferPutForce rb ptr).1 = rb.bufferSize := by
  have hw := h.write_lt
  have hwi : wrapAdd rb.bufferSize rb.writeIndex ptr.length < rb.bufferSize := wrapAdd_lt hw hp
  have hlen := putForce_length h hp
  rw [putForce_eq h hp]
  simp only [hov, true_and, ite_true]
  have hm' : (if rb.bufferSize ≤ rb.writeIndex + ptr.length then !rb.readMirror else rb.readMirror) ≠
      if rb.bufferSize ≤ rb.writeIndex + ptr.length then !rb.writeMirror else rb.writeMirror := by
    split
    · exact fun hc => hm (by simpa using hc)
    · exact hm
  apply ok_other
  exacts [h.size_pos, hlen, hwi, hwi, hm', rfl, Nat.le_refl _]

theorem putForce_emptied (h : rb.Ok) {ptr : List UInt8} (hp : ptr.length ≤ rb.bufferSize)
    (hov : rtRingbufferSpaceLen rb < ptr.length) (hm : rb.readMirror = rb.writeMirror) :
    (rtRingbufferPutForce rb ptr).1.Ok ∧ rtRingbufferDataLen (rtRingbufferPutForce rb ptr).1 = 0 := by
  have hw := h.write_lt
  have hsame := h.same hm
  have hn := dataLen_same h hm
  have hwi : wrapAdd rb.bufferSize rb.writeIndex ptr.length < rb.bufferSize := wrapAdd_lt hw hp
  have hlen := putForce_length h hp
  have hc : rb.bufferSize ≤ rb.writeIndex + ptr.length := by
    unfold rtRingbufferSpaceLen at hov; omega
  rw [putForce_eq h hp]
  simp only [hov, hc, and_self, ite_true]
  have hm' : (!rb.readMirror) = !rb.writeMirror := by rw [hm]
  apply ok_same
  exacts [h.size_pos, hlen, hwi, hwi, hm', rfl]

theorem putForce_ok (h : rb.Ok) {ptr : List UInt8} (hp : ptr.length ≤ rb.bufferSize) :
    (rtRingbufferPutForce rb ptr).1.Ok := by
  by_cases hfit : ptr.length ≤ rtRingbufferSpaceLen rb
  · exact (putForce_fits h hfit).1
  · by_cases hm : rb.readMirror = rb.writeMirror
    · exact (putForce_emptied h hp (by omega) hm).1
    · exact (putForce_overflow h hp (by omega) hm).1

/-- **What `put_force` leaves to read.** -/
theorem putForce_content (h : rb.Ok) {ptr : List UInt8} (hp : ptr.length ≤ rb.bufferSize) :
    (rtRingbufferPutForce rb ptr).1.content =
      if rtRingbufferSpaceLen rb < ptr.length ∧ rb.readMirror = rb.writeMirror then []
      else (rb.content ++ ptr).rtake rb.bufferSize := by
  have hdl := dataLen_le h
  have hlp := h.length_ptr
  have hw := writeIndex_eq h
  have hbuf : (rtRingbufferPutForce rb ptr).1.bufferPtr = circWrite rb.bufferPtr rb.writeIndex ptr := by
    rw [putForce_eq h hp]
  by_cases hfit : ptr.length ≤ rtRingbufferSpaceLen rb
  · obtain ⟨ok, hri, hlen⟩ := putForce_fits h hfit
    unfold rtRingbufferSpaceLen at hfit
    have := window_circWrite rb.bufferPtr (r := rb.readIndex) (n := rtRingbufferDataLen rb) (d := 0) ptr
      (by rw [hlp]; exact h.read_lt) (by omega) (by omega) (Nat.zero_le _) (by omega) (Nat.zero_le _)
    rw [if_neg (by unfold rtRingbufferSpaceLen; omega), RtRingbuffer.content, hbuf, hri, hlen, hw,
      ← drop_eq_rtake (d := 0) _ (by rw [List.length_append, length_content h]; omega)]
    rw [hlp] at this
    rw [show wrapAdd rb.bufferSize rb.readIndex 0 = rb.readIndex by
      unfold wrapAdd; rw [if_pos (by have := h.read_lt; omega)]; rfl, Nat.sub_zero] at this
    exact this
  · by_cases hm : rb.readMirror = rb.writeMirror
    · rw [if_pos ⟨by omega, hm⟩, content_eq_nil_iff (putForce_emptied h hp (by omega) hm).1]
      exact (putForce_emptied h hp (by omega) hm).2
    · obtain ⟨ok, hri, hlen⟩ := putForce_overflow h hp (by omega) hm
      unfold rtRingbufferSpaceLen at hfit
      have := window_circWrite rb.bufferPtr (r := rb.readIndex) (n := rtRingbufferDataLen rb)
        (d := rtRingbufferDataLen rb + ptr.length - rb.bufferSize) ptr
        (by rw [hlp]; exact h.read_lt) (by omega) (by omega) (by omega) (by omega) (by omega)
      rw [if_neg (fun hc => hm hc.2), RtRingbuffer.content, hbuf, hri, hlen, hw,
        ← drop_eq_rtake (d := rtRingbufferDataLen rb + ptr.length - rb.bufferSize) _
          (by rw [List.length_append, length_content h])]
      rw [hlp] at this
      -- the write end is `d` cells after the old read index
      have hend : wrapAdd rb.bufferSize (wrapAdd rb.bufferSize rb.readIndex (rtRingbufferDataLen rb)) ptr.length =
          wrapAdd rb.bufferSize rb.readIndex (rtRingbufferDataLen rb + ptr.length - rb.bufferSize) := by
        have hr := h.read_lt
        unfold wrapAdd; split <;> split <;> split <;> omega
      rw [hend, RtRingbuffer.content, ← this]
      congr 1; omega

end RocCar

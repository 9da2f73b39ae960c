import RocCar.Lib.Runs
import RocCar.TcpDat
import RocCar.Framer

/-!
# What the framing loop does with a candidate

Between a start code and the end of a candidate the loop's variables and the
buffer are determined by the bytes `t` read since the start code:
`frameLocals t` and `frameState s₀ t`, where `s₀` is the state in which the
start code was read. Outside a candidate only `avilable = RT_FALSE` matters.
-/

namespace RocCar

open Fallible Runs

theorem bufferSize_eq : bufferSize = 128 := rfl

/-! ## The buffer -/

def overlay (buf : Vector UInt8 bufferSize) (bs : List UInt8) : Vector UInt8 bufferSize :=
  Vector.ofFn fun i => bs[i.val]?.getD buf[i]

@[simp] theorem getElem_overlay (buf : Vector UInt8 bufferSize) (bs : List UInt8) (i : Nat) (h : i < bufferSize) :
    (overlay buf bs)[i] = bs[i]?.getD buf[i] := by
  simp [overlay]

theorem overlay_set (buf : Vector UInt8 bufferSize) (bs : List UInt8) (dat : UInt8) (h : bs.length < bufferSize) :
    (overlay buf bs).set bs.length dat = overlay buf (bs ++ [dat]) := by
  apply Vector.ext
  intro i hi
  rw [Vector.getElem_set, getElem_overlay, getElem_overlay]
  by_cases he : bs.length = i
  · subst he; simp
  · rw [if_neg he]
    by_cases hl : i < bs.length
    · rw [List.getElem?_append_left hl]
    · rw [List.getElem?_eq_none (by omega), List.getElem?_eq_none (by simp; omega)]

@[simp] theorem overlay_nil (buf : Vector UInt8 bufferSize) : overlay buf [] = buf := by
  apply Vector.ext
  intro i hi
  simp

theorem load_of_lt (out : Outside) (buf : Vector UInt8 bufferSize) {i : Nat} (h : i < bufferSize) :
    load out buf i = .ok buf[i] := by
  simp [load, h]

theorem load_overlay (out : Outside) (buf : Vector UInt8 bufferSize) (bs : List UInt8) (hb : bs.length ≤ bufferSize)
    {i : Nat} (h : i < bs.length) : load out (overlay buf bs) i = .ok bs[i] := by
  rw [load_of_lt out _ (by omega), getElem_overlay, List.getElem?_eq_getElem h]
  rfl

theorem logBuffer_ok (out : Outside) (buf : Vector UInt8 bufferSize) : logBuffer out buf = .ok () := by
  have : ∀ is : List Nat, (∀ i ∈ is, i < bufferSize) →
      ∃ bs, is.mapM (load out buf) = .ok bs := by
    intro is h
    induction is with
    | nil => exact ⟨[], rfl⟩
    | cons i is ih =>
      obtain ⟨bs, hbs⟩ := ih fun j hj => h j (List.mem_cons_of_mem _ hj)
      have hi := h i (List.mem_cons_self ..)
      exact ⟨buf[i] :: bs, by rw [List.mapM_cons, load_of_lt out buf hi, hbs]; rfl⟩
  obtain ⟨bs, hbs⟩ := this (List.range bufferSize) fun i hi => List.mem_range.mp hi
  rw [logBuffer, hbs]; rfl

/-! ## The backward search -/

theorem resync_error {out : Outside} {buf : Vector UInt8 bufferSize} {e : Fault} :
    ∀ {i : Nat} {l : Locals} (hi : i < bufferSize), resync out buf i l = .error e →
      i + 1 = bufferSize ∧ buf[i] = protocolStartCode ∧ e = .read bufferSize
  | 0, l, _, h => by cases h
  | i + 1, l, hi, h => by
    rw [resync, load_of_lt out buf hi, ok_bind] at h
    split at h
    · rename_i hs
      by_cases hi' : i + 2 < bufferSize
      · rw [load_of_lt out buf hi', ok_bind] at h
        have := (resync_error (by omega) h).1
        omega
      · have he : i + 2 = bufferSize := by omega
        refine ⟨he, hs, ?_⟩
        rw [load, dif_neg hi', he] at h
        cases ho : out bufferSize with
        | some b =>
          rw [ho, ok_bind] at h
          have := (resync_error (by omega) h).1
          omega
        | none =>
          rw [ho] at h
          cases h; rfl
    · have := (resync_error (by omega) h).1
      omega

/-! ## Candidates -/

/-- The bytes since the start code can still be part of a frame: the length is
acceptable and has not been exceeded. A length of zero is never exceeded, so
such a candidate goes on to the end of the buffer. -/
def Open : List UInt8 → Prop
  | [] => True
  | len :: t => len.toNat ≤ 126 ∧ t.length + 1 ≤ 126 ∧ (len ≠ 0 → t.length + 1 ≤ len.toNat)

def frameLocals (t : List UInt8) : Locals where
  avilable := true
  preRecvLen := t.headD 0
  mRecvDataIndex := UInt8.ofNat t.length
  p := some (t.length + 1)

def frameState (s₀ : StProtocolParser) (t : List UInt8) : StProtocolParser :=
  { s₀ with buffer := overlay s₀.buffer (protocolStartCode :: t) }

def acceptState (s₀ : StProtocolParser) (t : List UInt8) : StProtocolParser :=
  { frameState s₀ (t ++ [protocolEndCode]) with mPackageLength := t.headD 0 + 2, mRecvFlag := true }

@[simp] theorem frameState_recv (s₀ : StProtocolParser) (t : List UInt8) : (frameState s₀ t).recv = s₀.recv := by
  unfold frameState; rfl

@[simp] theorem frameState_mRecvFlag (s₀ : StProtocolParser) (t : List UInt8) :
    (frameState s₀ t).mRecvFlag = s₀.mRecvFlag := by
  unfold frameState; rfl

@[simp] theorem acceptState_mRecvFlag (s : StProtocolParser) (t : List UInt8) :
    (acceptState s t).mRecvFlag = true := by
  unfold acceptState; rfl

@[simp] theorem acceptState_recv (s : StProtocolParser) (t : List UInt8) : (acceptState s t).recv = s.recv := by
  unfold acceptState frameState; rfl

theorem acceptState_buffer (s : StProtocolParser) (t : List UInt8) :
    (acceptState s t).buffer = overlay s.buffer (protocolStartCode :: (t ++ [protocolEndCode])) := by
  unfold acceptState frameState; rfl

theorem frameState_store (s₀ : StProtocolParser) (t u : List UInt8) :
    { frameState s₀ t with buffer := (frameState s₀ u).buffer } = frameState s₀ u := by
  unfold frameState; rfl

theorem Open.length_le {t : List UInt8} (h : Open t) : t.length ≤ 126 := by
  cases t with
  | nil => exact Nat.zero_le _
  | cons len t => exact h.2.1

theorem ofNat_length {t : List UInt8} (h : t.length ≤ 127) : (UInt8.ofNat t.length).toNat = t.length := by
  rw [UInt8.toNat_ofNat']; omega

theorem index_succ {t : List UInt8} (dat : UInt8) (h : t.length ≤ 126) :
    (UInt8.ofNat t.length + 1) = UInt8.ofNat (t ++ [dat]).length := by
  apply UInt8.toNat_inj.mp
  rw [UInt8.toNat_add, ofNat_length (by omega), ofNat_length (by simp; omega)]
  simp; omega

theorem store_frame (s₀ : StProtocolParser) (t : List UInt8) (dat : UInt8) (h : t.length ≤ 126) :
    store (frameState s₀ t).buffer (some (t.length + 1)) dat = .ok (frameState s₀ (t ++ [dat])).buffer := by
  have hb := bufferSize_eq
  have := overlay_set s₀.buffer (protocolStartCode :: t) dat (by rw [List.length_cons]; omega)
  rw [store, dif_pos (by omega)]
  simp only [frameState, ← List.cons_append, ← this]
  rfl

theorem recevByte_skip (out : Outside) (l : Locals) (s : StProtocolParser) (dat : UInt8)
    (ha : l.avilable = false) (hd : dat ≠ protocolStartCode) :
    recevByte out l s dat = .ok (.continue l s) := by
  simp [recevByte, ha, hd]

theorem recevByte_start (out : Outside) (l : Locals) (s : StProtocolParser) (ha : l.avilable = false) :
    recevByte out l s protocolStartCode = .ok (.continue (frameLocals []) (frameState s [])) := by
  have h := overlay_set s.buffer [] protocolStartCode (by simp)
  simp only [overlay_nil, List.length_nil, List.nil_append] at h
  simp [recevByte, ha, store, frameLocals, frameState, h]

theorem recevByte_frame (out : Outside) (s₀ : StProtocolParser) {t : List UInt8} (dat : UInt8)
    (h : t.length ≤ 126) :
    recevByte out (frameLocals t) (frameState s₀ t) dat =
      if dat = protocolEndCode ∧ (t.headD 0).toNat = t.length then .ok (.return true (acceptState s₀ t))
      else if t = [] ∧ 126 < dat.toNat then .ok (.return false (frameState s₀ [dat]))
      else recevChecks out (frameLocals (t ++ [dat])) (frameState s₀ (t ++ [dat])) := by
  have hst := store_frame s₀ t dat h
  have hidx := index_succ dat h
  have hpre : t.headD 0 = UInt8.ofNat t.length ↔ (t.headD 0).toNat = t.length := by
    rw [← UInt8.toNat_inj, ofNat_length (by omega)]
  unfold recevByte
  simp only [frameLocals, Bool.true_eq_false, false_and, ite_false, ite_true, hst, ok_bind, hpre, hidx]
  by_cases he : dat = protocolEndCode ∧ (t.headD 0).toNat = t.length
  · rw [if_pos he, if_pos he, he.1]; rfl
  · rw [if_neg he, if_neg he]
    cases t with
    | nil =>
      simp only [List.nil_append, List.length_singleton, UInt8.reduceOfNat, ite_true, true_and,
        show bufferSize - 2 = 126 from rfl, gt_iff_lt, frameState_store, List.headD_cons, List.length_nil,
        Option.map_some, pure_eq_ok]
    | cons len t =>
      have hne : UInt8.ofNat (len :: t ++ [dat]).length ≠ 1 := by
        rw [ne_eq, ← UInt8.toNat_inj, ofNat_length (by simp at h ⊢; omega)]
        simp
      rw [if_neg hne, if_neg (fun hc => List.cons_ne_nil _ _ hc.1)]
      simp only [List.length_append, Option.map_some, frameState_store, List.headD_cons, List.cons_append,
        List.length_cons, List.length_nil]

/-! ## The checks after a byte -/

theorem recevChecks_open (out : Outside) (s₀ : StProtocolParser) {t : List UInt8} (h : Open t) (hne : t ≠ []) :
    recevChecks out (frameLocals t) (frameState s₀ t) = .ok (.continue (frameLocals t) (frameState s₀ t)) := by
  have hb := bufferSize_eq
  obtain ⟨len, t, rfl⟩ := List.exists_cons_of_ne_nil hne
  have hl := ofNat_length (t := len :: t) (by simp only [List.length_cons]; have := h.2.1; omega)
  have hno : ¬ ((frameLocals (len :: t)).mRecvDataIndex > (frameLocals (len :: t)).preRecvLen ∧
      (frameLocals (len :: t)).preRecvLen ≠ 0) := by
    rintro ⟨hgt, hnz⟩
    have := h.2.2 hnz
    rw [gt_iff_lt, UInt8.lt_iff_toNat_lt] at hgt
    simp only [frameLocals, hl, List.headD_cons] at hgt
    rw [List.length_cons] at hgt
    omega
  have hidx : ¬ (frameLocals (len :: t)).mRecvDataIndex.toNat ≥ bufferSize - 1 := by
    simp only [frameLocals, hl]
    have := h.2.1
    rw [List.length_cons]; omega
  unfold recevChecks
  simp only [if_neg hno, pure_eq_ok, ok_bind, if_neg hidx]

theorem recevChecks_zero (out : Outside) (s₀ : StProtocolParser) {t : List UInt8} (h : t.length = 126) :
    recevChecks out (frameLocals (0 :: t)) (frameState s₀ (0 :: t)) =
      .ok (.return false (frameState s₀ (0 :: t))) := by
  have hb := bufferSize_eq
  have hl := ofNat_length (t := 0 :: t) (by simp only [List.length_cons]; omega)
  have hno : ¬ ((frameLocals (0 :: t)).mRecvDataIndex > (frameLocals (0 :: t)).preRecvLen ∧
      (frameLocals (0 :: t)).preRecvLen ≠ 0) := fun hc => hc.2 rfl
  have hidx : (frameLocals (0 :: t)).mRecvDataIndex.toNat ≥ bufferSize - 1 := by
    simp only [frameLocals, hl]
    rw [List.length_cons]; omega
  unfold recevChecks
  simp only [if_neg hno, pure_eq_ok, ok_bind, if_pos hidx, logBuffer_ok]

theorem recevChecks_over (out : Outside) (s₀ : StProtocolParser) {len : UInt8} {t : List UInt8}
    (hlen : len.toNat ≤ 126) (hnz : len ≠ 0) (ht : t.length = len.toNat) :
    recevChecks out (frameLocals (len :: t)) (frameState s₀ (len :: t)) =
      (resync out (frameState s₀ (len :: t)).buffer (len.toNat + 1) (frameLocals (len :: t))) >>= fun l =>
        .ok (if l.mRecvDataIndex.toNat ≥ bufferSize - 1 then .return false (frameState s₀ (len :: t))
          else .continue { l with avilable := false } (frameState s₀ (len :: t))) := by
  have hl := ofNat_length (t := len :: t) (by simp only [List.length_cons]; omega)
  have hidx : (frameLocals (len :: t)).mRecvDataIndex.toNat = len.toNat + 1 := by
    simp only [frameLocals, hl]
    rw [List.length_cons, ht]
  have hover : (frameLocals (len :: t)).mRecvDataIndex > (frameLocals (len :: t)).preRecvLen ∧
      (frameLocals (len :: t)).preRecvLen ≠ 0 := by
    refine ⟨?_, hnz⟩
    rw [gt_iff_lt, UInt8.lt_iff_toNat_lt, hidx]
    exact Nat.lt_succ_self _
  unfold recevChecks
  simp only [if_pos hover, hidx]
  cases resync out (frameState s₀ (len :: t)).buffer (len.toNat + 1) (frameLocals (len :: t)) with
  | error e => rfl
  | ok l =>
    simp only [ok_bind, pure_eq_ok, logBuffer_ok]
    split <;> rfl

/-! ## One byte of a candidate -/

theorem recevByte_more (out : Outside) (s₀ : StProtocolParser) {t : List UInt8} {dat : UInt8}
    (h : Open (t ++ [dat])) (hne : t = [] → dat ≠ protocolEndCode) :
    recevByte out (frameLocals t) (frameState s₀ t) dat =
      .ok (.continue (frameLocals (t ++ [dat])) (frameState s₀ (t ++ [dat]))) := by
  have hle := h.length_le
  rw [List.length_append, List.length_singleton] at hle
  rw [recevByte_frame out s₀ dat (by omega), if_neg, if_neg, recevChecks_open out s₀ h (by simp)]
  · rintro ⟨rfl, hgt⟩
    have := h.1
    omega
  · rintro ⟨rfl, heq⟩
    cases t with
    | nil => exact hne rfl rfl
    | cons len t =>
      simp only [List.headD_cons, List.length_cons] at heq
      have hnz : len ≠ 0 := fun h0 => by rw [h0] at heq; simp at heq
      have := h.2.2 hnz
      simp at this; omega

theorem recevByte_end (out : Outside) (s₀ : StProtocolParser) {t : List UInt8} (h : t.length ≤ 126)
    (hlen : (t.headD 0).toNat = t.length) :
    recevByte out (frameLocals t) (frameState s₀ t) protocolEndCode = .ok (.return true (acceptState s₀ t)) := by
  rw [recevByte_frame out s₀ _ h, if_pos ⟨rfl, hlen⟩]

theorem recevChecks_frame (out : Outside) (s₀ : StProtocolParser) {t : List UInt8} {dat : UInt8} (ho : Open t)
    (hend : ¬ (dat = protocolEndCode ∧ (t.headD 0).toNat = t.length)) (hlong : ¬ (t = [] ∧ 126 < dat.toNat)) :
    (Open (t ++ [dat]) ∧ recevChecks out (frameLocals (t ++ [dat])) (frameState s₀ (t ++ [dat])) =
      .ok (.continue (frameLocals (t ++ [dat])) (frameState s₀ (t ++ [dat])))) ∨
    (t.head? = some 0 ∧ t.length = 126 ∧ recevChecks out (frameLocals (t ++ [dat])) (frameState s₀ (t ++ [dat])) =
      .ok (.return false (frameState s₀ (t ++ [dat])))) ∨
    ((t.headD 0).toNat = t.length ∧ t ≠ [] ∧
      recevChecks out (frameLocals (t ++ [dat])) (frameState s₀ (t ++ [dat])) =
        (resync out (frameState s₀ (t ++ [dat])).buffer (t.length + 1) (frameLocals (t ++ [dat]))) >>= fun l =>
          .ok (if l.mRecvDataIndex.toNat ≥ bufferSize - 1 then .return false (frameState s₀ (t ++ [dat]))
            else .continue { l with avilable := false } (frameState s₀ (t ++ [dat])))) := by
  cases t with
  | nil =>
    have hopen : Open [dat] := by
      refine ⟨by simpa using hlong, by simp, fun hnz => ?_⟩
      have : dat.toNat ≠ 0 := fun h0 => hnz (UInt8.toNat_inj.mp h0)
      simp only [List.length_nil]; omega
    exact .inl ⟨hopen, recevChecks_open out s₀ hopen (by simp)⟩
  | cons len t =>
    obtain ⟨h1, h2, h3⟩ := ho
    by_cases hz : len = 0
    · subst hz
      by_cases hfull : t.length = 125
      · exact .inr (.inl ⟨rfl, by simp [hfull], recevChecks_zero out s₀ (by simp [hfull])⟩)
      · have hopen : Open (0 :: t ++ [dat]) := ⟨h1, by simp; omega, fun hc => absurd rfl hc⟩
        exact .inl ⟨hopen, recevChecks_open out s₀ hopen (by simp)⟩
    · have hle := h3 hz
      by_cases hover : t.length + 1 = len.toNat
      · refine .inr (.inr ⟨by simpa using hover.symm, by simp, ?_⟩)
        rw [List.length_cons, hover]
        exact recevChecks_over out s₀ h1 hz (by simpa using hover)
      · have hopen : Open (len :: t ++ [dat]) := ⟨h1, by simp; omega, fun _ => by simp; omega⟩
        exact .inl ⟨hopen, recevChecks_open out s₀ hopen (by simp)⟩

/-- **A round inside a candidate.** The candidate is accepted, given up with
the call, given up, or one byte longer. -/
theorem recevByte_ok {out : Outside} {s₀ : StProtocolParser} {t : List UInt8} {dat : UInt8} {r : Round} (ho : Open t)
    (h : recevByte out (frameLocals t) (frameState s₀ t) dat = .ok r) :
    (dat = protocolEndCode ∧ (t.headD 0).toNat = t.length ∧ r = .return true (acceptState s₀ t)) ∨
    r = .return false (frameState s₀ (t ++ [dat])) ∨
    (∃ l, l.avilable = false ∧ r = .continue l (frameState s₀ (t ++ [dat]))) ∨
    (Open (t ++ [dat]) ∧ r = .continue (frameLocals (t ++ [dat])) (frameState s₀ (t ++ [dat]))) := by
  rw [recevByte_frame out s₀ dat ho.length_le] at h
  split at h
  · rename_i hend
    simp only [Except.ok.injEq] at h
    exact .inl ⟨hend.1, hend.2, h.symm⟩
  · rename_i hend
    split at h
    · rename_i hlong
      simp only [Except.ok.injEq] at h
      exact .inr (.inl (by rw [hlong.1]; exact h.symm))
    · rename_i hlong
      rcases recevChecks_frame out s₀ ho hend hlong with ⟨hopen, hc⟩ | ⟨-, -, hc⟩ | ⟨-, -, hc⟩
      · rw [hc, Except.ok.injEq] at h
        exact .inr (.inr (.inr ⟨hopen, h.symm⟩))
      · rw [hc, Except.ok.injEq] at h
        exact .inr (.inl h.symm)
      · rw [hc, bind_eq_ok] at h
        obtain ⟨l, -, hl⟩ := h
        simp only [Except.ok.injEq] at hl
        split at hl
        · exact .inr (.inl hl.symm)
        · exact .inr (.inr (.inl ⟨_, rfl, hl.symm⟩))

/-- The only fault of a round inside a candidate: the backward search reads
past the buffer when the byte that makes a candidate of length 126 over-long is
a start code. -/
theorem recevByte_error {out : Outside} {s₀ : StProtocolParser} {t : List UInt8} {dat : UInt8} {e : Fault}
    (ho : Open t) (h : recevByte out (frameLocals t) (frameState s₀ t) dat = .error e) :
    e = .read bufferSize ∧ t.length = 126 ∧ (t.headD 0).toNat = 126 ∧ dat = protocolStartCode := by
  have hb := bufferSize_eq
  rw [recevByte_frame out s₀ dat ho.length_le] at h
  split at h
  · cases h
  · rename_i hend
    split at h
    · cases h
    · rename_i hlong
      rcases recevChecks_frame out s₀ ho hend hlong with ⟨hopen, hc⟩ | ⟨-, -, hc⟩ | ⟨hlen, -, hc⟩
      · rw [hc] at h; cases h
      · rw [hc] at h; cases h
      · rw [hc, bind_eq_error] at h
        rcases h with h | ⟨l, -, h⟩
        · have hle := ho.length_le
          obtain ⟨hi, hs, he⟩ := resync_error (by omega) h
          have ht : t.length = 126 := by omega
          refine ⟨he, ht, by omega, ?_⟩
          rw [← hs]
          simp [frameState, ht]
        · cases h

end RocCar

import RocCar.Frame

/-!
# Phantom frames

The framer also closes candidates that are too short for a frame, and the parser
then reads what the buffer holds from before. That depends on the bytes taken only
(`Skipped`), so the bytes in the queue tell whether it reads a phantom frame.
-/

namespace RocCar

open Fallible Runs

variable {out : Outside}

/-! ## Candidates given up -/

/-- What the backward search takes off `m_recv_data_index`. -/
def startCodes (t : List UInt8) : Nat → Nat
  | 0 => 0
  | i + 1 => startCodes t i + if t[i]? = some protocolStartCode then i + 1 else 0

/-- The start code that the backward search finds last. -/
def firstStart (t : List UInt8) : Nat → Option Nat
  | 0 => none
  | i + 1 => (firstStart t i).or (if t[i]? = some protocolStartCode then some (i + 1) else none)

/-- The byte `dat` makes the candidate `t` over-long, and the loop goes on. -/
structure GivenUp (out : Outside) (t : List UInt8) (dat : UInt8) : Prop where
  len : (t.headD 0).toNat = t.length
  length_pos : 0 < t.length
  length_le : t.length ≤ 126
  head_ne : t.head? ≠ some protocolEndCode
  dat_ne : dat ≠ protocolEndCode
  inside : t.length = 126 → dat = protocolStartCode → out bufferSize ≠ none
  index : (UInt8.ofNat (t.length + 1) - UInt8.ofNat (startCodes (t ++ [dat]) (t.length + 1))).toNat < bufferSize - 1

theorem sub_ofNat_ofNat (a : UInt8) (m n : Nat) : a - UInt8.ofNat m - UInt8.ofNat n = a - UInt8.ofNat (n + m) := by
  have := a.toNat_lt
  rw [← UInt8.toNat_inj]
  simp only [UInt8.toNat_sub, UInt8.toNat_ofNat']
  omega

theorem resync_ok (out : Outside) (buf : Vector UInt8 bufferSize) {t : List UInt8} (ht : t.length ≤ 127) :
    ∀ {i : Nat} (l : Locals), i ≤ t.length → (i = 127 → t[126]? = some protocolStartCode → out bufferSize ≠ none) →
      ∃ l', resync out (overlay buf (protocolStartCode :: t)) i l = .ok l' ∧
        l'.mRecvDataIndex = l.mRecvDataIndex - UInt8.ofNat (startCodes t i) ∧ l'.p = (firstStart t i).or l.p
  | 0, l, _, _ => ⟨l, rfl, by simp [startCodes], rfl⟩
  | i + 1, l, hi, hin => by
    have hb := bufferSize_eq
    have hget : t[i]? = some t[i] := List.getElem?_eq_getElem (by omega)
    have hbyte : load out (overlay buf (protocolStartCode :: t)) (i + 1) = .ok t[i] := by
      rw [load_overlay out _ _ (by simp; omega) (by simp; omega), List.getElem_cons_succ]
    have hrec := fun l => resync_ok out buf ht (i := i) l (by omega) (by omega)
    rw [resync, hbyte, ok_bind, startCodes, firstStart, hget]
    by_cases hs : t[i] = protocolStartCode
    · -- the byte behind the start code is read, too
      have hnext : ∃ b, load out (overlay buf (protocolStartCode :: t)) (i + 2) = .ok b := by
        by_cases hlast : i + 2 < bufferSize
        · exact ⟨_, load_of_lt out _ hlast⟩
        · have he : i = 126 := by omega
          subst he
          obtain ⟨b, hout⟩ := Option.ne_none_iff_exists'.mp (hin rfl (by rw [hget, hs]))
          exact ⟨b, by rw [load, dif_neg hlast, show 126 + 2 = bufferSize from rfl, hout]⟩
      obtain ⟨b, hnext⟩ := hnext
      obtain ⟨l', hl', hidx, hp⟩ := hrec
        { l with p := some (i + 1), preRecvLen := b, mRecvDataIndex := l.mRecvDataIndex - UInt8.ofNat (i + 1) }
      refine ⟨l', by rw [if_pos hs, hnext, ok_bind]; exact hl', ?_, ?_⟩
      · rw [hidx, if_pos (by rw [hs]), sub_ofNat_ofNat]
      · rw [hp, if_pos (by rw [hs]), Option.or_assoc]
        rfl
    · obtain ⟨l', hl', hidx, hp⟩ := hrec l
      have hs' : ¬ some t[i] = some protocolStartCode := fun hc => hs (Option.some.inj hc)
      refine ⟨l', by rw [if_neg hs]; exact hl', ?_, ?_⟩
      · rw [hidx, if_neg hs', Nat.add_zero]
      · rw [hp, if_neg hs', Option.or_none]

theorem resync_inside {buf : Vector UInt8 bufferSize} {l l' : Locals} (h : resync out buf 127 l = .ok l')
    (hs : buf[127] = protocolStartCode) : out bufferSize ≠ none := by
  intro hout
  rw [resync, load_of_lt out buf (by decide), ok_bind, if_pos hs, load, dif_neg (by decide),
    show 126 + 2 = bufferSize from rfl, hout] at h
  cases h

theorem recevByte_over (out : Outside) (s : StProtocolParser) {t : List UInt8} {dat : UInt8}
    (hlen : (t.headD 0).toNat = t.length) (hpos : 0 < t.length) (hle : t.length ≤ 126) (hd : dat ≠ protocolEndCode) :
    recevByte out (frameLocals t) (frameState s t) dat =
      (resync out (frameState s (t ++ [dat])).buffer (t.length + 1) (frameLocals (t ++ [dat]))) >>= fun l =>
        .ok (if l.mRecvDataIndex.toNat ≥ bufferSize - 1 then .return false (frameState s (t ++ [dat]))
          else .continue { l with avilable := false } (frameState s (t ++ [dat]))) := by
  have hne := List.ne_nil_of_length_pos hpos
  rw [recevByte_frame out s dat hle, if_neg (fun hc => hd hc.1), if_neg (fun hc => hne hc.1)]
  cases t with
  | nil => cases hpos
  | cons len t =>
    rw [List.headD_cons] at hlen
    have hnz : len ≠ 0 := fun h0 => by rw [h0] at hlen; simp at hlen
    have hlong : (t ++ [dat]).length = len.toNat := by simpa using hlen.symm
    have := recevChecks_over out s (by omega) hnz hlong
    rw [hlen] at this
    exact this

def indexLeft (t : List UInt8) (dat : UInt8) : UInt8 :=
  UInt8.ofNat (t.length + 1) - UInt8.ofNat (startCodes (t ++ [dat]) (t.length + 1))

theorem over_run (s : StProtocolParser) {t : List UInt8} {dat : UInt8} (hlen : (t.headD 0).toNat = t.length)
    (hpos : 0 < t.length) (hle : t.length ≤ 126) (hd : dat ≠ protocolEndCode)
    (hin : t.length = 126 → dat = protocolStartCode → out bufferSize ≠ none) :
    ∃ l : Locals, l.avilable = false ∧ l.mRecvDataIndex = indexLeft t dat ∧
      l.p = (firstStart (t ++ [dat]) (t.length + 1)).or (frameLocals (t ++ [dat])).p ∧
      recevByte out (frameLocals t) (frameState s t) dat =
        .ok (if (indexLeft t dat).toNat ≥ bufferSize - 1 then .return false (frameState s (t ++ [dat]))
          else .continue l (frameState s (t ++ [dat]))) := by
  obtain ⟨l, hl, hidx, hp⟩ := resync_ok out s.buffer (t := t ++ [dat]) (by simp; omega) (frameLocals (t ++ [dat]))
    (i := t.length + 1) (by simp) fun hi hs => hin (by omega) (by
      have hfull : t.length = 126 := by omega
      rw [← hfull, List.getElem?_concat_length] at hs
      exact Option.some.inj hs)
  have hstart : (frameLocals (t ++ [dat])).mRecvDataIndex = UInt8.ofNat (t.length + 1) := by simp [frameLocals]
  rw [hstart] at hidx
  refine ⟨{ l with avilable := false }, rfl, hidx, hp, ?_⟩
  rw [recevByte_over out s hlen hpos hle hd, frameState, hl, ok_bind, hidx]
  rfl

theorem over_inside {s : StProtocolParser} {t : List UInt8} {dat : UInt8} {r : Round}
    (hlen : (t.headD 0).toNat = t.length) (hpos : 0 < t.length) (hle : t.length ≤ 126) (hd : dat ≠ protocolEndCode)
    (h : recevByte out (frameLocals t) (frameState s t) dat = .ok r) :
    t.length = 126 → dat = protocolStartCode → out bufferSize ≠ none := by
  intro hfull hs
  rw [recevByte_over out s hlen hpos hle hd, bind_eq_ok] at h
  obtain ⟨l, hl, -⟩ := h
  rw [hfull] at hl
  exact resync_inside hl (by simp [frameState, hfull, hs])

theorem GivenUp.step {t : List UInt8} {dat : UInt8} (h : GivenUp out t dat) (s : StProtocolParser) :
    ∃ l, l.avilable = false ∧ Continues out (frameLocals t, frameState s t) dat (l, frameState s (t ++ [dat])) := by
  obtain ⟨l, hl, -, -, hr⟩ := over_run s h.len h.length_pos h.length_le h.dat_ne h.inside
  have hlt : ¬ (indexLeft t dat).toNat ≥ bufferSize - 1 := Nat.not_le.mpr h.index
  exact ⟨l, hl, by rw [Continues, hr, if_neg hlt]⟩

theorem recevByte_leaves {t : List UInt8} {dat : UInt8} {s : StProtocolParser} {r : Round} (ho : Open t)
    (h : recevByte out (frameLocals t) (frameState s t) dat = .ok r)
    (hmore : r ≠ .continue (frameLocals (t ++ [dat])) (frameState s (t ++ [dat])))
    (hend : ¬ (dat = protocolEndCode ∧ (t.headD 0).toNat = t.length)) :
    (t = [] ∧ 126 < dat.toNat ∧ r = .return false (frameState s (t ++ [dat]))) ∨
    (t.head? = some 0 ∧ t.length = 126 ∧ r = .return false (frameState s (t ++ [dat]))) ∨
    ((t.headD 0).toNat = t.length ∧ 0 < t.length ∧ dat ≠ protocolEndCode) := by
  rw [recevByte_frame out s dat ho.length_le, if_neg hend] at h
  split at h
  · rename_i hlong
    refine .inl ⟨hlong.1, hlong.2, ?_⟩
    rw [hlong.1]
    exact (Except.ok.inj h).symm
  · rename_i hlong
    rcases recevChecks_frame out s ho hend hlong with ⟨-, hc⟩ | ⟨hz, hfull, hc⟩ | ⟨hlen, hne, -⟩
    · rw [hc] at h
      exact absurd (Except.ok.inj h).symm hmore
    · rw [hc] at h
      exact .inr (.inl ⟨hz, hfull, (Except.ok.inj h).symm⟩)
    · exact .inr (.inr ⟨hlen, List.length_pos_iff.mpr hne, fun hd => hend ⟨hd, hlen⟩⟩)

theorem givenUp_of_step {t : List UInt8} {dat : UInt8} {s s' : StProtocolParser} {l : Locals} (ho : Open t)
    (hne : t.head? ≠ some protocolEndCode) (hl : l.avilable = false)
    (h : Continues out (frameLocals t, frameState s t) dat (l, s')) :
    GivenUp out t dat ∧ s' = frameState s (t ++ [dat]) := by
  have hle := ho.length_le
  -- a candidate that is not over-long stays available
  have hmore : Round.continue l s' ≠ .continue (frameLocals (t ++ [dat])) (frameState s (t ++ [dat])) := by
    rw [ne_eq, Round.continue.injEq]
    rintro ⟨rfl, -⟩
    cases hl
  have hend : ¬ (dat = protocolEndCode ∧ (t.headD 0).toNat = t.length) := by
    rintro ⟨rfl, hlen⟩
    rw [Continues, recevByte_end out s hle hlen] at h; cases h
  rcases recevByte_leaves ho h hmore hend with ⟨-, -, hr⟩ | ⟨-, -, hr⟩ | ⟨hlen, hpos, hd⟩
  · cases hr
  · cases hr
  · have hin := over_inside hlen hpos hle hd h
    obtain ⟨l', -, -, -, hr⟩ := over_run s hlen hpos hle hd hin
    rw [Continues, hr, Except.ok.injEq] at h
    split at h
    · cases h
    · rename_i hlt
      rw [Round.continue.injEq] at h
      exact ⟨⟨hlen, hpos, hle, hne, hd, hin, Nat.not_le.mp hlt⟩, h.2.symm⟩

/-! ## Bytes that leave the loop outside a candidate -/

/-- The bytes are other bytes than start codes, and candidates that were given
up; `buf` is what they leave in a buffer of zeros. -/
inductive Skipped (out : Outside) : List UInt8 → Vector UInt8 bufferSize → Prop
  | nil : Skipped out [] (Vector.replicate bufferSize 0)
  | byte {bs : List UInt8} {buf : Vector UInt8 bufferSize} {dat : UInt8} : Skipped out bs buf →
      dat ≠ protocolStartCode → Skipped out (bs ++ [dat]) buf
  | candidate {bs t : List UInt8} {buf : Vector UInt8 bufferSize} {dat : UInt8} : Skipped out bs buf →
      GivenUp out t dat →
      Skipped out (bs ++ protocolStartCode :: (t ++ [dat])) (overlay buf (protocolStartCode :: (t ++ [dat])))

theorem open_of_len {t : List UInt8} (hlen : (t.headD 0).toNat = t.length) (hle : t.length ≤ 126) : Open t := by
  cases t with
  | nil => trivial
  | cons len t =>
    rw [List.headD_cons, List.length_cons] at hlen
    rw [List.length_cons] at hle
    exact ⟨by omega, hle, fun _ => Nat.le_of_eq hlen.symm⟩

theorem Skipped.run {bs : List UInt8} {buf : Vector UInt8 bufferSize} (s : StProtocolParser)
    (h : Skipped out bs buf) :
    ∃ y, Run (Continues out) ({}, protocolParserReinit s) bs y ∧ y.1.avilable = false ∧ y.2.buffer = buf := by
  induction h with
  | nil => exact ⟨_, .nil _, rfl, rfl⟩
  | @byte bs buf dat _ hd ih =>
    obtain ⟨y, hrun, hidle, hbuf⟩ := ih
    exact ⟨y, .snoc hrun (recevByte_skip out y.1 y.2 dat hidle hd), hidle, hbuf⟩
  | @candidate bs t buf dat _ hup ih =>
    obtain ⟨y, hrun, hidle, rfl⟩ := ih
    have hstart : Continues out y protocolStartCode (frameLocals [], frameState y.2 []) :=
      recevByte_start out y.1 y.2 hidle
    have hbytes : Run (Continues out) (frameLocals [], frameState y.2 []) t (frameLocals t, frameState y.2 t) :=
      run_candidate y.2 (t := []) (open_of_len hup.len hup.length_le) fun _ => hup.head_ne
    obtain ⟨l, hl, hlast⟩ := hup.step y.2
    exact ⟨_, hrun.append (Run.cons hstart (.snoc hbytes hlast)), hl, rfl⟩

/-- Inside a candidate, `Skipped` tells the buffer in which it started. -/
theorem skipped_of_run {s : StProtocolParser} {bs : List UInt8} {y : Locals × StProtocolParser}
    (h : Run (Continues out) ({}, protocolParserReinit s) bs y) :
    (y.1.avilable = false ∧ Skipped out bs y.2.buffer) ∨
      ∃ pre t z, bs = pre ++ protocolStartCode :: t ∧ Skipped out pre z.buffer ∧ Open t ∧
        t.head? ≠ some protocolEndCode ∧ y = (frameLocals t, frameState z t) := by
  induction h with
  | nil => exact .inl ⟨rfl, .nil⟩
  | @snoc y z bs dat hrun hstep ih =>
    rcases ih with ⟨hidle, hskip⟩ | ⟨pre, t, w, rfl, hskip, ho, hne, rfl⟩
    · by_cases hd : dat = protocolStartCode
      · subst hd
        rw [Continues, recevByte_start out _ _ hidle, Except.ok.injEq, Round.continue.injEq] at hstep
        exact .inr ⟨bs, [], y.2, rfl, hskip, trivial, by simp, Prod.ext hstep.1.symm hstep.2.symm⟩
      · rw [Continues, recevByte_skip out _ _ _ hidle hd, Except.ok.injEq, Round.continue.injEq] at hstep
        exact .inl ⟨hstep.1 ▸ hidle, hstep.2 ▸ .byte hskip hd⟩
    · rcases recevByte_ok ho hstep with ⟨-, -, hr⟩ | hr | ⟨l, hl, hr⟩ | ⟨ho', hr⟩
      · cases hr
      · cases hr
      · rw [Round.continue.injEq] at hr
        obtain ⟨hup, hs⟩ := givenUp_of_step ho hne (hr.1 ▸ hl) hstep
        rw [hs, List.append_assoc]
        exact .inl ⟨hr.1 ▸ hl, .candidate hskip hup⟩
      · rw [Round.continue.injEq] at hr
        refine .inr ⟨pre, t ++ [dat], w, by simp, hskip, ho', ?_, Prod.ext hr.1 hr.2⟩
        cases t with
        | nil =>
          -- an end code right behind the start code ends the loop
          intro hd
          rw [List.nil_append, List.head?_cons, Option.some.injEq] at hd
          rw [hd, Continues, recevByte_end out w (Nat.zero_le _) rfl] at hstep
          cases hstep
        | cons len t => exact hne

/-! ## The frame the parser reads -/

def frameIn (buf : Vector UInt8 bufferSize) (h : payloadLen buf ≤ 120) : Frame where
  type := typeByte buf
  addr := addrByte buf
  function := functionByte buf
  data := (buf.toList.drop 5).take (payloadLen buf)
  length_data := (List.length_take_le _ _).trans h

/-- `recv` has the fields of the frame, and its payload can be read at `data`. -/
def Shows (s : StProtocolParser) (f : Frame) : Prop :=
  ∃ recv d, s.recv = some recv ∧ recv.len = f.len ∧ recv.type = f.type ∧ recv.addr = f.addr ∧
    recv.function = f.function ∧ recv.sum = UInt16.ofNat f.sum ∧ recv.data = some d ∧
    (s.buffer.toList.drop d).take f.data.length = f.data

theorem payloadLen_le_iff (buf : Vector UInt8 bufferSize) :
    payloadLen buf ≤ 120 ↔ 6 ≤ buf[1].toNat ∧ buf[1].toNat ≤ 126 := by
  have := buf[1].toNat_lt
  rw [payloadLen, UInt8.toNat_sub, show (6 : UInt8).toNat = 6 from rfl]
  omega

variable {buf : Vector UInt8 bufferSize} {sum : UInt16}

theorem length_frameIn (h : payloadLen buf ≤ 120) : (frameIn buf h).data.length = payloadLen buf := by
  have := bufferSize_eq
  simp only [frameIn, List.length_take, List.length_drop, Vector.length_toList]
  omega

theorem len_frameIn (h : payloadLen buf ≤ 120) : (frameIn buf h).len = buf[1] := by
  have hle := (payloadLen_le_iff buf).mp h
  rw [← UInt8.toNat_inj, Frame.len_toNat, length_frameIn, payloadLen, UInt8.toNat_sub,
    show (6 : UInt8).toNat = 6 from rfl]
  omega

theorem Sums.eq_sum (hs : Sums out buf sum) (h : payloadLen buf ≤ 120) : sum = UInt16.ofNat (frameIn buf h).sum := by
  have hb := bufferSize_eq
  obtain ⟨hi, lo, data, -, -, hdata, -, hsum⟩ := hs
  rw [readBytes_of_le buf (by omega), Except.ok.injEq] at hdata
  rw [← byteSum_frame, len_frameIn h, ← hsum, ← hdata]
  rfl

theorem Sums.body_eq (hs : Sums out buf sum) (h : payloadLen buf ≤ 120) :
    (frameIn buf h).body = (buf.toList.drop 1).take buf[1].toNat := by
  have hb := bufferSize_eq
  have hle := (payloadLen_le_iff buf).mp h
  have hsum := hs.eq_sum h
  obtain ⟨hi, lo, data, hhi, hlo, -, hword, -⟩ := hs
  rw [load_of_lt out buf (by omega), Except.ok.injEq] at hhi hlo
  rw [hword, ← UInt16.toNat_inj, word_toNat, UInt16.toNat_ofNat', Nat.mod_eq_of_lt (Frame.sum_lt _)] at hsum
  have hhi' : UInt8.ofNat ((frameIn buf h).sum / 256) = hi := by
    have := lo.toNat_lt
    have := hi.toNat_lt
    rw [← UInt8.toNat_inj, UInt8.toNat_ofNat']; omega
  have hlo' : UInt8.ofNat ((frameIn buf h).sum % 256) = lo := by
    have := lo.toNat_lt
    rw [← UInt8.toNat_inj, UInt8.toNat_ofNat']; omega
  have hn : buf[1].toNat = payloadLen buf + 2 + 4 := by
    rw [payloadLen, UInt8.toNat_sub, show (6 : UInt8).toNat = 6 from rfl]; omega
  -- the four header bytes, the payload and the two bytes of the checksum
  have hdrop : ∀ {i : Nat} (hi : i < bufferSize), buf.toList.drop i = buf[i] :: buf.toList.drop (i + 1) := by
    intro i hi
    rw [List.drop_eq_getElem_cons (by simpa using hi), Vector.getElem_toList]
  rw [Frame.body, len_frameIn h, hhi', hlo', hn, hdrop (by decide), List.take_succ_cons, hdrop (by decide),
    List.take_succ_cons, hdrop (by decide), List.take_succ_cons, hdrop (by decide), List.take_succ_cons,
    List.take_add, List.drop_drop, hdrop (i := 5 + payloadLen buf) (by omega), List.take_succ_cons,
    hdrop (i := 5 + payloadLen buf + 1) (by omega), List.take_succ_cons, hhi, hlo, List.take_zero]
  rfl

theorem shows_parsed_iff {s : StProtocolParser} {f : Frame} (hs : Sums out s.buffer sum) :
    Shows (parsed s sum) f ↔ ∃ h : payloadLen s.buffer ≤ 120, f = frameIn s.buffer h := by
  constructor
  · rintro ⟨recv', d, hr, hlen, htype, haddr, hfunction, -, hd, hdata⟩
    cases hr
    cases hd
    have hl := f.length_data
    have hn : payloadLen s.buffer = f.data.length := by
      rw [payloadLen, show s.buffer[1] = f.len from hlen, UInt8.toNat_sub, show (6 : UInt8).toNat = 6 from rfl,
        f.len_toNat]
      omega
    refine ⟨by omega, ?_⟩
    cases f
    rw [frameIn, Frame.mk.injEq, hn]
    exact ⟨htype.symm, haddr.symm, hfunction.symm, hdata.symm⟩
  · rintro ⟨h, rfl⟩
    exact ⟨_, 5, rfl, (len_frameIn h).symm, rfl, rfl, rfl, hs.eq_sum h, rfl, by rw [length_frameIn]; rfl⟩

/-! ## No phantom frames -/

/-- When the call and the parser yield a frame, the last bytes taken are its
encoding and `recv` shows it. -/
def NoPhantom (out : Outside) (s : StProtocolParser) (q : TcpDat) : Prop :=
  ∀ b s₁ q₁ s₂, protocolRecevData out s q = .ok (b, s₁, q₁) → protocolParser out s₁ = .ok (true, s₂) →
    ∃ taken f, q.content = taken ++ f.enc ++ q₁.content ∧ Shows s₂ f

/-- The candidate `t`, too short for a frame, is closed with the right checksum
over what else is in the buffer and behind it. -/
def Misread (out : Outside) (buf : Vector UInt8 bufferSize) (t : List UInt8) : Prop :=
  (t.headD 0).toNat = t.length ∧ t.length < 6 ∧
    ∃ sum, Sums out (overlay buf (protocolStartCode :: (t ++ [protocolEndCode]))) sum

def Repeated (buf : Vector UInt8 bufferSize) (pre : List UInt8) : Prop :=
  protocolStartCode :: (((overlay buf [protocolStartCode, protocolEndCode]).toList.drop 1).take 85 ++
    [protocolEndCode]) <:+ pre ++ [protocolStartCode, protocolEndCode]

instance (buf : Vector UInt8 bufferSize) (pre : List UInt8) : Decidable (Repeated buf pre) :=
  inferInstanceAs (Decidable (_ <:+ _))

theorem protocolRecevData_accept {s s₁ : StProtocolParser} {q q₁ : TcpDat} {b : Bool}
    (h : protocolRecevData out (protocolParserReinit s) q = .ok (b, s₁, q₁)) (hf : s₁.mRecvFlag = true) :
    ∃ pre t z, q.content = pre ++ protocolStartCode :: (t ++ protocolEndCode :: q₁.content) ∧
      Skipped out pre z.buffer ∧ (t.headD 0).toNat = t.length ∧ t.length ≤ 126 ∧ s₁ = acceptState z t := by
  have hbytes := protocolRecevData_of_bytes out (protocolParserReinit s) q
  cases hb : recevBytes out {} (protocolParserReinit s) q.content with
  | error e =>
    rw [hb] at hbytes
    rw [hbytes] at h; cases h
  | ok r =>
    obtain ⟨b', s', rest⟩ := r
    rw [hb] at hbytes
    obtain ⟨q', hq', rfl⟩ := hbytes
    rw [hq'] at h
    cases h
    obtain ⟨pre, t, z, hc, hrun, hidle, ho, hlen, rfl⟩ := recevBytes_accept rfl rfl hb hf
    refine ⟨pre, t, z.2, by rw [hc]; simp, ?_, hlen, ho.length_le, rfl⟩
    rcases skipped_of_run hrun with ⟨-, hskip⟩ | ⟨pre, t, w, -, -, -, -, rfl⟩
    · exact hskip
    · cases hidle

theorem enc_frameIn (hs : Sums out buf sum) (h : payloadLen buf ≤ 120) :
    (frameIn buf h).enc = protocolStartCode :: ((buf.toList.drop 1).take buf[1].toNat ++ [protocolEndCode]) := by
  rw [Frame.enc, hs.body_eq h]

theorem take_acceptState (s : StProtocolParser) {t : List UInt8} (hlen : (t.headD 0).toNat = t.length)
    (hpos : 0 < t.length) (hle : t.length ≤ 126) :
    ((acceptState s t).buffer.toList.drop 1).take (acceptState s t).buffer[1].toNat = t := by
  have hb := bufferSize_eq
  have h₁ : (t ++ [protocolEndCode]).headD 0 = t.headD 0 := by
    cases t with
    | nil => cases hpos
    | cons len t => rfl
  rw [acceptState_len, h₁, hlen, acceptState_buffer, overlay_toList s.buffer (by simp; omega), List.cons_append,
    List.drop_succ_cons, List.drop_zero, List.append_assoc, List.take_left]

theorem enc_endCode {s : StProtocolParser} (hs : Sums out (acceptState s []).buffer sum)
    (h : payloadLen (acceptState s []).buffer ≤ 120) :
    (frameIn _ h).enc = protocolStartCode ::
      (((overlay s.buffer [protocolStartCode, protocolEndCode]).toList.drop 1).take 85 ++ [protocolEndCode]) := by
  rw [enc_frameIn hs h, acceptState_len, acceptState_buffer]
  rfl

theorem noPhantom_of (s : StProtocolParser) {q : TcpDat}
    (h : ∀ pre t post buf, q.content = pre ++ protocolStartCode :: (t ++ protocolEndCode :: post) →
      Skipped out pre buf → Misread out buf t → t = [] ∧ Repeated buf pre) :
    NoPhantom out (protocolParserReinit s) q := by
  intro b s₁ q₁ s₂ hcall hparse
  obtain ⟨hf, sum, hs, rfl⟩ := protocolParser_true hparse
  obtain ⟨pre, t, z, hc, hskip, hlen, hle, rfl⟩ := protocolRecevData_accept hcall hf
  by_cases hmin : 6 ≤ t.length
  · have hn := (payloadLen_acceptState z hlen hle).mpr (.inr hmin)
    refine ⟨pre, frameIn _ hn, ?_, (shows_parsed_iff hs).mpr ⟨hn, rfl⟩⟩
    rw [enc_frameIn hs hn, take_acceptState z hlen (by omega) hle, hc]
    simp
  · -- too short for a frame: the bytes taken before must be the frame
    have hs' := hs
    rw [acceptState_buffer] at hs'
    obtain ⟨rfl, taken, hrep⟩ := h pre t _ _ hc hskip ⟨hlen, Nat.lt_of_not_le hmin, sum, hs'⟩
    have hn := (payloadLen_acceptState z hlen hle).mpr (.inl rfl)
    refine ⟨taken, frameIn _ hn, ?_, (shows_parsed_iff hs).mpr ⟨hn, rfl⟩⟩
    rw [enc_endCode hs hn, hrep, hc]
    simp

theorem repeated_of_noPhantom {s : StProtocolParser} {q : TcpDat} {pre t post : List UInt8}
    (h : NoPhantom out (protocolParserReinit s) q)
    (hc : q.content = pre ++ protocolStartCode :: (t ++ protocolEndCode :: post)) (hskip : Skipped out pre buf)
    (hmis : Misread out buf t) : t = [] ∧ Repeated buf pre := by
  obtain ⟨hlen, hshort, sum, hs⟩ := hmis
  obtain ⟨y, hrun, hidle, rfl⟩ := hskip.run s
  have hhead : t.head? ≠ some protocolEndCode := by
    intro hd
    rw [List.headD_eq_head?_getD, hd] at hlen
    have : (85 : Nat) = t.length := hlen
    omega
  -- the loop takes the candidate and leaves the rest
  have hbytes : recevBytes out {} (protocolParserReinit s) q.content = .ok (true, acceptState y.2 t, post) := by
    rw [hc, recevBytes_of_run hrun]
    exact recevBytes_candidate out y.2 hidle (open_of_len hlen (by omega)) hhead hlen post
  have hcall := protocolRecevData_of_bytes out (protocolParserReinit s) q
  rw [hbytes] at hcall
  obtain ⟨q₁, hcall, rfl⟩ := hcall
  have hr : (acceptState y.2 t).recv = some (s.recv.getD {}) := (acceptState_recv y.2 t).trans (run_recv hrun)
  rw [← acceptState_buffer] at hs
  obtain ⟨taken, f, hcontent, hshows⟩ := h _ _ _ _ hcall
    ((protocolParser_true_iff (acceptState_mRecvFlag _ _) hr).mpr ⟨sum, hs, rfl⟩)
  obtain ⟨hn, rfl⟩ := (shows_parsed_iff hs).mp hshows
  obtain rfl : t = [] := ((payloadLen_acceptState y.2 hlen (by omega)).mp hn).resolve_right (by omega)
  refine ⟨rfl, taken, ?_⟩
  rw [enc_endCode hs hn, hc, List.nil_append, ← List.singleton_append (x := protocolEndCode), List.append_cons,
    ← List.append_assoc, List.append_cancel_right_eq] at hcontent
  rw [← hcontent]
  simp

/-- **No phantom frame**, behind `protocol_parser_reinit`, if and only if no
candidate of length 1 to 5 is misread, and no `AA 55` except where it ends the
bytes that the parser reads. -/
theorem noPhantom_iff (out : Outside) (s : StProtocolParser) (q : TcpDat) :
    NoPhantom out (protocolParserReinit s) q ↔
      ∀ pre t post buf, q.content = pre ++ protocolStartCode :: (t ++ protocolEndCode :: post) →
        Skipped out pre buf → Misread out buf t → t = [] ∧ Repeated buf pre :=
  ⟨fun h _ _ _ _ hc hskip hmis => repeated_of_noPhantom h hc hskip hmis, noPhantom_of s⟩

/-! ## A phantom speed command -/

/-- With `AA 55` behind it, the buffer holds a speed frame of 79 payload bytes. -/
def staleSpeed : List UInt8 := 84 :: 0 :: 1 :: 6 :: 100 :: List.replicate 79 0

def staleChunk : Chunk where
  bytes := protocolStartCode :: (staleSpeed ++ [0xC0]) ++ [protocolStartCode, protocolEndCode]
  length_pos := by decide
  length_le := by decide

theorem givenUp_staleSpeed : GivenUp (fun _ => none) staleSpeed 0xC0 where
  len := by decide
  length_pos := by decide
  length_le := by decide
  head_ne := by decide
  dat_ne := by decide
  inside := by decide
  index := by decide +kernel

theorem phantom_speed : ¬ ∀ (out : Outside) (s : StProtocolParser) (q : TcpDat),
    NoPhantom out (protocolParserReinit s) q := by
  intro h
  have hc := TcpDat.content_create_put (Vector.replicate 256 0) staleChunk
  have hskip := Skipped.candidate .nil givenUp_staleSpeed
  have hsplit : staleChunk.bytes = ([] ++ protocolStartCode :: (staleSpeed ++ [0xC0])) ++
      protocolStartCode :: ([] ++ protocolEndCode :: []) := rfl
  obtain ⟨-, hrep⟩ := repeated_of_noPhantom (h _ {} _) (hc.trans hsplit) hskip
    ⟨rfl, by decide, 0xC0, 0, 0xC0, 100 :: List.replicate 78 0, by decide +kernel⟩
  exact absurd hrep (by decide +kernel)

end RocCar

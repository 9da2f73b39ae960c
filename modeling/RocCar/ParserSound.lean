import RocCar.FramerSound
import RocCar.Control

/-!
# What the parser reads

`protocol_parser` reads the header, the checksum and the payload of the frame in
the buffer, at offsets it computes from the length byte. For lengths below 6 the
8-bit subtraction wraps and the offsets leave the buffer; otherwise every read
is inside it.
-/

namespace RocCar

open Fallible

variable {out : Outside}

def readBytes (out : Outside) (buf : Vector UInt8 bufferSize) (i n : Nat) : Except Fault (List UInt8) :=
  (List.range n).mapM fun k => load out buf (i + k)

theorem mapM_ok {α β : Type} {f : α → Except Fault β} {g : α → β} : ∀ {as : List α}, (∀ a ∈ as, f a = .ok (g a)) →
    as.mapM f = .ok (as.map g)
  | [], _ => rfl
  | a :: as, h => by
    rw [List.mapM_cons, h a (List.mem_cons_self ..), mapM_ok fun b hb => h b (List.mem_cons_of_mem _ hb)]
    rfl

theorem readBytes_of_le (buf : Vector UInt8 bufferSize) {i n : Nat} (h : i + n ≤ bufferSize) :
    readBytes out buf i n = .ok ((buf.toList.drop i).take n) := by
  rw [readBytes, mapM_ok (g := fun k => buf.toList.getD (i + k) 0)]
  · congr 1
    apply List.ext_getElem
    · simp; omega
    · intro k hk _
      simp only [List.length_map, List.length_range] at hk
      have hlt : i + k < bufferSize := by omega
      simp [hlt]
  · intro k hk
    have hlt : i + k < bufferSize := by have := List.mem_range.mp hk; omega
    rw [load_of_lt out buf hlt]
    simp [hlt]

/-! ## The checksum -/

def byteSum (z : UInt16) (bs : List UInt8) : UInt16 := bs.foldl (fun sum b => sum + b.toUInt16) z

def headerSum (len type addr function : UInt8) : UInt16 :=
  len.toUInt16 + type.toUInt16 + addr.toUInt16 + function.toUInt16

theorem foldlM_byteSum (f : Nat → Except Fault UInt8) : ∀ (is : List Nat) (z : UInt16),
    is.foldlM (fun sum i => do return sum + (← f i).toUInt16) z = is.mapM f >>= fun bs => .ok (byteSum z bs)
  | [], z => rfl
  | i :: is, z => by
    rw [List.foldlM_cons, List.mapM_cons]
    cases hf : f i with
    | error e => rfl
    | ok b =>
      rw [ok_bind, ok_bind, pure_eq_ok, ok_bind, foldlM_byteSum f is]
      cases is.mapM f with
      | error e => rfl
      | ok bs => rfl

/-! ## The parser -/

def payloadLen (buf : Vector UInt8 bufferSize) : Nat := (buf[1] - 6).toNat

theorem acceptState_len (s : StProtocolParser) (t : List UInt8) :
    (acceptState s t).buffer[1] = (t ++ [protocolEndCode]).headD 0 := by
  simp only [acceptState_buffer, getElem_overlay]
  cases t <;> rfl

/-- The payload of an accepted candidate is as long as that of a frame, unless
the candidate's length is 1 to 5. -/
theorem payloadLen_acceptState (s : StProtocolParser) {t : List UInt8} (hlen : (t.headD 0).toNat = t.length)
    (hle : t.length ≤ 126) : payloadLen (acceptState s t).buffer ≤ 120 ↔ t = [] ∨ 6 ≤ t.length := by
  rw [payloadLen, acceptState_len]
  cases t with
  | nil => decide
  | cons len t =>
    simp only [List.headD_cons, List.length_cons, List.cons_append] at hlen hle ⊢
    rw [UInt8.toNat_sub, show (6 : UInt8).toNat = 6 from rfl, hlen]
    simp only [List.cons_ne_nil, false_or]
    omega

def typeByte (buf : Vector UInt8 bufferSize) : UInt8 := buf[2]

def addrByte (buf : Vector UInt8 bufferSize) : UInt8 := buf[3]

def functionByte (buf : Vector UInt8 bufferSize) : UInt8 := buf[4]

def parsed (s : StProtocolParser) (sum : UInt16) : StProtocolParser :=
  { s with
    mHeader := some 0
    recv := some {
      startCode := s.buffer[0]
      len := s.buffer[1]
      type := typeByte s.buffer
      addr := addrByte s.buffer
      function := functionByte s.buffer
      data := some 5
      sum }
    protocolDataLen := s.buffer[1] - 6 }

/-- **What the parser does** with a frame when `recv` is set. -/
theorem protocolParser_eq {s : StProtocolParser} {recv : StProtocol} (hf : s.mRecvFlag = true)
    (hr : s.recv = some recv) :
    protocolParser out s = (do
      let hi ← load out s.buffer (5 + payloadLen s.buffer)
      let lo ← load out s.buffer (5 + payloadLen s.buffer + 1)
      let data ← readBytes out s.buffer 5 (payloadLen s.buffer)
      .ok (byteSum (headerSum s.buffer[1] s.buffer[2] s.buffer[3] s.buffer[4]) data == word hi lo,
        parsed s (word hi lo))) := by
  have h : ∀ {i : Nat} (hi : i < bufferSize), load out s.buffer i = .ok s.buffer[i] := load_of_lt out s.buffer
  unfold protocolParser
  simp only [hf, Bool.not_true, Bool.false_eq_true, ite_false, hr, h (i := 0) (by decide), h (i := 1) (by decide),
    h (i := 2) (by decide), h (i := 3) (by decide), h (i := 4) (by decide), ok_bind, pure_eq_ok]
  unfold payloadLen
  cases load out s.buffer (5 + (s.buffer[1] - 6).toNat) with
  | error e => rfl
  | ok hi =>
    simp only [ok_bind]
    cases load out s.buffer (5 + (s.buffer[1] - 6).toNat + 1) with
    | error e => rfl
    | ok lo =>
      simp only [ok_bind, protocolCheckSum, loadData, foldlM_byteSum]
      rw [readBytes]
      cases (List.range (s.buffer[1] - 6).toNat).mapM fun k => load out s.buffer (5 + k) with
      | error e => rfl
      | ok bs => simp only [ok_bind, headerSum, parsed, typeByte, addrByte, functionByte, hf]

theorem protocolParser_idle {s : StProtocolParser} (hf : s.mRecvFlag = false) :
    protocolParser out s = .ok (false, s) := by
  simp [protocolParser, hf]

theorem protocolParser_null {s : StProtocolParser} (hf : s.mRecvFlag = true) (hr : s.recv = none) :
    protocolParser out s = .error .nullPointer := by
  simp [protocolParser, hf, hr]

theorem protocolParser_inside (out : Outside) {s : StProtocolParser} {recv : StProtocol} (hf : s.mRecvFlag = true)
    (hr : s.recv = some recv) (hd : payloadLen s.buffer ≤ 121) :
    ∃ hi lo, s.buffer[5 + payloadLen s.buffer]? = some hi ∧ s.buffer[5 + payloadLen s.buffer + 1]? = some lo ∧
      protocolParser out s =
        .ok (byteSum (headerSum s.buffer[1] s.buffer[2] s.buffer[3] s.buffer[4])
          ((s.buffer.toList.drop 5).take (payloadLen s.buffer)) == word hi lo, parsed s (word hi lo)) := by
  have hb := bufferSize_eq
  refine ⟨s.buffer[5 + payloadLen s.buffer], s.buffer[5 + payloadLen s.buffer + 1], by simp, by simp, ?_⟩
  rw [protocolParser_eq hf hr, load_of_lt out _ (by omega), load_of_lt out _ (by omega),
    readBytes_of_le _ (by omega)]
  rfl

/-- The buffer, and the memory behind it, hold a frame whose checksum is right
as the parser computes it. -/
def Sums (out : Outside) (buf : Vector UInt8 bufferSize) (sum : UInt16) : Prop :=
  ∃ hi lo data, load out buf (5 + payloadLen buf) = .ok hi ∧ load out buf (5 + payloadLen buf + 1) = .ok lo ∧
    readBytes out buf 5 (payloadLen buf) = .ok data ∧ sum = word hi lo ∧
    byteSum (headerSum buf[1] buf[2] buf[3] buf[4]) data = sum

theorem protocolParser_true_iff {s s' : StProtocolParser} {recv : StProtocol} (hf : s.mRecvFlag = true)
    (hr : s.recv = some recv) :
    protocolParser out s = .ok (true, s') ↔ ∃ sum, Sums out s.buffer sum ∧ s' = parsed s sum := by
  rw [protocolParser_eq hf hr]
  constructor
  · intro h
    obtain ⟨hi, hhi, h⟩ := bind_eq_ok.mp h
    obtain ⟨lo, hlo, h⟩ := bind_eq_ok.mp h
    obtain ⟨data, hdata, h⟩ := bind_eq_ok.mp h
    simp only [Except.ok.injEq, Prod.mk.injEq, beq_iff_eq] at h
    exact ⟨word hi lo, ⟨hi, lo, data, hhi, hlo, hdata, rfl, h.1⟩, h.2.symm⟩
  · rintro ⟨sum, ⟨hi, lo, data, hhi, hlo, hdata, rfl, hsum⟩, rfl⟩
    rw [hhi, ok_bind, hlo, ok_bind, hdata, ok_bind, hsum, beq_self_eq_true]

theorem load_error {buf : Vector UInt8 bufferSize} {i : Nat} {e : Fault} (h : load out buf i = .error e) :
    e = .read i ∧ bufferSize ≤ i := by
  unfold load at h
  split at h
  · cases h
  · rename_i hi
    split at h
    · cases h
    · cases h; exact ⟨rfl, Nat.le_of_not_lt hi⟩

theorem readBytes_error {buf : Vector UInt8 bufferSize} {i n : Nat} {e : Fault}
    (h : readBytes out buf i n = .error e) : ∃ j, e = .read j ∧ bufferSize ≤ j ∧ j < i + n := by
  have : ∀ {is : List Nat}, (∀ k ∈ is, k < n) → is.mapM (fun k => load out buf (i + k)) = .error e →
      ∃ j, e = .read j ∧ bufferSize ≤ j ∧ j < i + n := by
    intro is
    induction is with
    | nil => intro _ h; cases h
    | cons j is ih =>
      intro hlt h
      obtain ⟨hj, hlt⟩ := List.forall_mem_cons.mp hlt
      rw [List.mapM_cons, bind_eq_error] at h
      rcases h with h | ⟨b, -, h⟩
      · exact ⟨_, (load_error h).1, (load_error h).2, Nat.add_lt_add_left hj i⟩
      · rw [bind_eq_error] at h
        rcases h with h | ⟨bs, -, h⟩
        · exact ih hlt h
        · cases h
  exact this (fun k hk => List.mem_range.mp hk) h

theorem protocolParser_error {s : StProtocolParser} {e : Fault} (h : protocolParser out s = .error e) :
    s.mRecvFlag = true ∧
      (s.recv = none ∧ e = .nullPointer ∨
        s.recv ≠ none ∧ 121 < payloadLen s.buffer ∧ ∃ i, e = .read i ∧ bufferSize ≤ i ∧ i ≤ 261) := by
  cases hf : s.mRecvFlag with
  | false => rw [protocolParser_idle hf] at h; cases h
  | true =>
    refine ⟨rfl, ?_⟩
    cases hr : s.recv with
    | none =>
      rw [protocolParser_null hf hr] at h
      cases h; exact .inl ⟨rfl, rfl⟩
    | some recv =>
      refine .inr ⟨Option.some_ne_none _, ?_, ?_⟩
      · by_contra hd
        obtain ⟨hi, lo, -, -, hp⟩ := protocolParser_inside out hf hr (Nat.le_of_not_lt hd)
        rw [hp] at h; cases h
      · have hlen : payloadLen s.buffer < 256 := UInt8.toNat_lt _
        rw [protocolParser_eq hf hr, bind_eq_error] at h
        rcases h with h | ⟨hi, -, h⟩
        · exact ⟨_, (load_error h).1, (load_error h).2, by omega⟩
        · rw [bind_eq_error] at h
          rcases h with h | ⟨lo, -, h⟩
          · exact ⟨_, (load_error h).1, (load_error h).2, by omega⟩
          · rw [bind_eq_error] at h
            rcases h with h | ⟨data, -, h⟩
            · obtain ⟨j, he, hj, hlt⟩ := readBytes_error h
              exact ⟨j, he, hj, by omega⟩
            · cases h

theorem protocolParser_true {s s' : StProtocolParser} (h : protocolParser out s = .ok (true, s')) :
    s.mRecvFlag = true ∧ ∃ sum, Sums out s.buffer sum ∧ s' = parsed s sum := by
  cases hf : s.mRecvFlag with
  | false => rw [protocolParser_idle hf] at h; cases h
  | true =>
    cases hr : s.recv with
    | none => rw [protocolParser_null hf hr] at h; cases h
    | some recv =>
      obtain ⟨sum, hsum, hs⟩ := (protocolParser_true_iff hf hr).mp h
      exact ⟨rfl, sum, hsum, hs⟩

/-! ## Acting on a frame -/

/-- The first payload byte, and the first two as a word. They are read whatever
the payload's length is. -/
def argByte (buf : Vector UInt8 bufferSize) : UInt8 := buf[5]

def argWord (buf : Vector UInt8 bufferSize) : UInt16 := word buf[5] buf[6]

def perform (trig : Trig) (function arg : UInt8) (argWord : UInt16) (r : StRocRobot) : StRocRobot :=
  if function = eRobotControlDirection then rocRobotDrive trig r argWord
  else if function = eRobotControlSpeed then rocRobotSetSpeed r arg.toInt8.toInt16
  else if function = eButton then pressButton argWord r
  else r

theorem dispatch_parsed (trig : Trig) (s : StProtocolParser) (sum : UInt16) (r : StRocRobot) :
    dispatch out trig (parsed s sum) r =
      .ok (perform trig (functionByte s.buffer) (argByte s.buffer) (argWord s.buffer) r) := by
  have h5 : load out s.buffer 5 = .ok s.buffer[5] := load_of_lt out s.buffer (by decide)
  have h6 : load out s.buffer 6 = .ok s.buffer[6] := load_of_lt out s.buffer (by decide)
  simp only [dispatch, parsed, protocolGetFunction, derefRecv, ok_bind, pure_eq_ok, protocolGetDegree, protocolGetSpeed,
    protocolGetButtonValue, loadWord, loadData, h5, h6, Nat.add_zero, perform, functionByte, argByte, argWord]
  by_cases h₁ : s.buffer[4] = eRobotControlDirection
  · simp [h₁]
  · by_cases h₂ : s.buffer[4] = eRobotControlSpeed
    · simp [h₂, eRobotControlDirection, eRobotControlSpeed]
    · by_cases h₃ : s.buffer[4] = eButton
      · simp [h₃, eRobotControlDirection, eRobotControlSpeed, eButton]
      · simp [h₁, h₂, h₃]

theorem parsePhase_error {trig : Trig} {s : StProtocolParser} {r : StRocRobot} {e : Fault}
    (h : parsePhase out trig s r = .error e) : protocolParser out s = .error e := by
  rw [parsePhase, bind_eq_error] at h
  rcases h with h | ⟨⟨valid, s'⟩, hp, h⟩
  · exact h
  · dsimp only at h
    cases valid with
    | false => cases h
    | true =>
      obtain ⟨-, sum, -, rfl⟩ := protocolParser_true hp
      simp only [ite_true, dispatch_parsed, ok_bind] at h
      cases h

theorem parsePhase_true (trig : Trig) {s s' : StProtocolParser} (r : StRocRobot)
    (h : protocolParser out s = .ok (true, s')) :
    ∃ r', dispatch out trig s' r = .ok r' ∧
      parsePhase out trig s r = .ok (s'.packet, protocolParserReinit s', r') := by
  obtain ⟨-, sum, -, rfl⟩ := protocolParser_true h
  refine ⟨_, dispatch_parsed trig s sum r, ?_⟩
  rw [parsePhase, h, ok_bind]
  simp only [ite_true, dispatch_parsed, ok_bind, pure_eq_ok]

theorem parsePhase_false (trig : Trig) {s s' : StProtocolParser} (r : StRocRobot)
    (h : protocolParser out s = .ok (false, s')) :
    parsePhase out trig s r = .ok (none, protocolParserReinit s', r) := by
  rw [parsePhase, h]; rfl

theorem parsePhase_ok {trig : Trig} {s s' : StProtocolParser} {r r' : StRocRobot} {p : Option Packet}
    (h : parsePhase out trig s r = .ok (p, s', r')) : ∃ s₁, s' = protocolParserReinit s₁ := by
  rw [parsePhase, bind_eq_ok] at h
  obtain ⟨⟨valid, s₁⟩, -, h⟩ := h
  dsimp only at h
  cases valid with
  | false =>
    simp only [Bool.false_eq_true, ite_false, pure_eq_ok, Except.ok.injEq, Prod.mk.injEq] at h
    exact ⟨s₁, h.2.1.symm⟩
  | true =>
    simp only [ite_true, bind_eq_ok] at h
    obtain ⟨r₁, -, h⟩ := h
    simp only [pure_eq_ok, Except.ok.injEq, Prod.mk.injEq] at h
    exact ⟨s₁, h.2.1.symm⟩

end RocCar

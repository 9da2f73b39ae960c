import Mathlib.Algebra.Ring.Nat
import RocCar.FramerRun
import RocCar.ParserSound

/-!
# Frames

A well-formed frame and its encoding. The framer takes exactly an encoding, the
parser finds the checksum right and the frame's fields in the buffer: except for
the length byte `0x55`, which the framer takes for the end code.
-/

namespace RocCar

open Fallible Runs

structure Frame where
  type : UInt8
  addr : UInt8
  function : UInt8
  data : List UInt8
  length_data : data.length ≤ 120
  deriving DecidableEq, Repr

namespace Frame

def len (f : Frame) : UInt8 := UInt8.ofNat (f.data.length + 6)

def sum (f : Frame) : Nat :=
  (f.len.toNat + f.type.toNat + f.addr.toNat + f.function.toNat + (f.data.map UInt8.toNat).sum) % 2 ^ 16

def body (f : Frame) : List UInt8 :=
  f.len :: f.type :: f.addr :: f.function :: (f.data ++ [UInt8.ofNat (f.sum / 256), UInt8.ofNat (f.sum % 256)])

def enc (f : Frame) : List UInt8 := protocolStartCode :: (f.body ++ [protocolEndCode])

def packet (f : Frame) : Packet where
  type := f.type
  addr := f.addr
  function := f.function
  protocolDataLen := UInt8.ofNat f.data.length
  data := f.data

def Readable (f : Frame) : Prop := f.data.length ≠ 79

instance (f : Frame) : Decidable f.Readable := inferInstanceAs (Decidable (_ ≠ _))

theorem len_toNat (f : Frame) : f.len.toNat = f.data.length + 6 := by
  have := f.length_data
  rw [len, UInt8.toNat_ofNat']; omega

theorem length_body (f : Frame) : f.body.length = f.data.length + 6 := by simp [body]

theorem length_enc (f : Frame) : f.enc.length = f.data.length + 8 := by simp [enc, length_body]

theorem open_body (f : Frame) : Open f.body := by
  have := f.length_data
  have hl := f.length_body
  rw [body, List.length_cons] at hl
  exact ⟨by rw [f.len_toNat]; omega, by omega, fun _ => by rw [f.len_toNat]; omega⟩

theorem len_eq_endCode_iff (f : Frame) : f.len = protocolEndCode ↔ ¬ f.Readable := by
  rw [← UInt8.toNat_inj, len_toNat, Readable, not_not, show protocolEndCode.toNat = 85 from rfl]
  omega

theorem sum_lt (f : Frame) : f.sum < 2 ^ 16 := Nat.mod_lt _ (by decide)

def summed (f : Frame) : List UInt8 := f.len :: f.type :: f.addr :: f.function :: f.data

def check (f : Frame) : List UInt8 := [UInt8.ofNat (f.sum / 256), UInt8.ofNat (f.sum % 256)]

theorem body_eq (f : Frame) : f.body = f.summed ++ f.check := rfl

theorem length_summed (f : Frame) : f.summed.length = f.data.length + 4 := rfl

theorem sum_eq (f : Frame) : f.sum = (f.summed.map UInt8.toNat).sum % 2 ^ 16 := by
  simp only [sum, summed, List.map_cons, List.sum_cons]
  congr 1
  omega

theorem check_inj {f g : Frame} (h : f.check = g.check) : f.sum = g.sum := by
  have hf := f.sum_lt
  have hg := g.sum_lt
  simp only [check, List.cons.injEq, ← UInt8.toNat_inj, UInt8.toNat_ofNat'] at h
  omega

def chunk (f : Frame) : Chunk where
  bytes := f.enc
  length_pos := by rw [f.length_enc]; omega
  length_le := by have := f.length_data; rw [f.length_enc]; omega

end Frame

def speedFrame (speed : UInt8) : Frame := ⟨0, 1, eRobotControlSpeed, [speed], Nat.le_add_left 1 119⟩

/-! ## Words and sums -/

theorem word_toNat (hi lo : UInt8) : (word hi lo).toNat = hi.toNat * 256 + lo.toNat := by
  have h₁ := hi.toNat_lt
  have h₂ := lo.toNat_lt
  rw [word, UInt16.toNat_or, UInt16.toNat_shiftLeft, UInt8.toNat_toUInt16, UInt8.toNat_toUInt16]
  rw [show (8 : UInt16).toNat % 16 = 8 from rfl, Nat.shiftLeft_eq, Nat.mod_eq_of_lt (by omega),
    show hi.toNat * 2 ^ 8 = hi.toNat <<< 8 from (Nat.shiftLeft_eq _ _).symm, ← Nat.shiftLeft_add_eq_or_of_lt h₂,
    Nat.shiftLeft_eq]

theorem word_of_sum {n : Nat} (h : n < 2 ^ 16) :
    word (UInt8.ofNat (n / 256)) (UInt8.ofNat (n % 256)) = UInt16.ofNat n := by
  rw [← UInt16.toNat_inj, word_toNat, UInt8.toNat_ofNat', UInt8.toNat_ofNat', UInt16.toNat_ofNat']
  omega

theorem byteSum_toNat : ∀ (bs : List UInt8) (z : UInt16),
    (byteSum z bs).toNat = (z.toNat + (bs.map UInt8.toNat).sum) % 2 ^ 16
  | [], z => by
    simp only [byteSum, List.foldl_nil, List.map_nil, List.sum_nil, Nat.add_zero]
    exact (Nat.mod_eq_of_lt z.toNat_lt).symm
  | b :: bs, z => by
    have := byteSum_toNat bs (z + b.toUInt16)
    rw [byteSum, List.foldl_cons, ← byteSum, this, UInt16.toNat_add, UInt8.toNat_toUInt16, List.map_cons,
      List.sum_cons]
    omega

theorem headerSum_toNat (len type addr function : UInt8) :
    (headerSum len type addr function).toNat = len.toNat + type.toNat + addr.toNat + function.toNat := by
  have h₁ := len.toNat_lt
  have h₂ := type.toNat_lt
  have h₃ := addr.toNat_lt
  have h₄ := function.toNat_lt
  simp only [headerSum, UInt16.toNat_add, UInt8.toNat_toUInt16]
  omega

theorem byteSum_frame (f : Frame) :
    byteSum (headerSum f.len f.type f.addr f.function) f.data = UInt16.ofNat f.sum := by
  rw [← UInt16.toNat_inj, byteSum_toNat, headerSum_toNat, UInt16.toNat_ofNat', Frame.sum, Nat.mod_mod]

/-! ## The parser on a frame in the buffer -/

def Holds (buf : Vector UInt8 bufferSize) (f : Frame) : Prop := f.enc <+: buf.toList

/-- The end code may be missing; the parser does not read it. -/
def HoldsBody (buf : Vector UInt8 bufferSize) (f : Frame) : Prop := protocolStartCode :: f.body <+: buf.toList

variable {out : Outside} {buf : Vector UInt8 bufferSize} {f : Frame}

theorem getElem?_of_starts {bs : List UInt8} (h : bs <+: buf.toList) {i : Nat} {b : UInt8} (hi : bs[i]? = some b) :
    buf[i]? = some b := by
  obtain ⟨tail, ht⟩ := h
  rw [← Vector.getElem?_toList, ← ht, List.getElem?_append_left (List.getElem?_eq_some_iff.mp hi).1, hi]

theorem getElem_of_starts {bs : List UInt8} (h : bs <+: buf.toList) {i : Nat} {b : UInt8} (hi : bs[i]? = some b)
    (hb : i < bufferSize) : buf[i] = b := by
  have := getElem?_of_starts h hi
  rw [Vector.getElem?_eq_getElem hb] at this
  exact Option.some.inj this

theorem Holds.getElem (h : Holds buf f) {i : Nat} {b : UInt8} (hi : f.enc[i]? = some b) (hb : i < bufferSize) :
    buf[i] = b :=
  getElem_of_starts h hi hb

theorem Holds.body (h : Holds buf f) : HoldsBody buf f :=
  List.IsPrefix.trans ⟨[protocolEndCode], rfl⟩ h

namespace HoldsBody

theorem getElem (h : HoldsBody buf f) {i : Nat} {b : UInt8} (hi : (protocolStartCode :: f.body)[i]? = some b)
    (hb : i < bufferSize) : buf[i] = b :=
  getElem_of_starts h hi hb

theorem load (h : HoldsBody buf f) {i : Nat} {b : UInt8} (hi : (protocolStartCode :: f.body)[i]? = some b) :
    load out buf i = .ok b := by
  have hb : i < bufferSize := by
    have := (List.getElem?_eq_some_iff.mp hi).1
    rw [List.length_cons, f.length_body] at this
    have := f.length_data
    have := bufferSize_eq
    omega
  rw [load_of_lt out buf hb, h.getElem hi hb]

theorem header (h : HoldsBody buf f) :
    buf[0] = protocolStartCode ∧ buf[1] = f.len ∧ buf[2] = f.type ∧ buf[3] = f.addr ∧ buf[4] = f.function :=
  ⟨h.getElem rfl (by decide), h.getElem rfl (by decide), h.getElem rfl (by decide), h.getElem rfl (by decide),
    h.getElem rfl (by decide)⟩

theorem payloadLen (h : HoldsBody buf f) : payloadLen buf = f.data.length := by
  have hl := f.length_data
  rw [RocCar.payloadLen, h.header.2.1, UInt8.toNat_sub, f.len_toNat]
  simp; omega

theorem data (h : HoldsBody buf f) : (buf.toList.drop 5).take f.data.length = f.data := by
  obtain ⟨tail, ht⟩ := h
  rw [← ht]
  simp [Frame.body]

theorem sums (h : HoldsBody buf f) : Sums out buf (UInt16.ofNat f.sum) := by
  have hb := bufferSize_eq
  have hl := f.length_data
  refine ⟨UInt8.ofNat (f.sum / 256), UInt8.ofNat (f.sum % 256), f.data, ?_, ?_, ?_, (word_of_sum f.sum_lt).symm, ?_⟩
  · rw [h.payloadLen]
    apply h.load
    rw [Nat.add_comm]
    simp [Frame.body]
  · rw [h.payloadLen]
    apply h.load
    rw [show 5 + f.data.length + 1 = f.data.length + 1 + 5 by omega]
    simp [Frame.body]
  · rw [h.payloadLen, readBytes_of_le buf (by omega), h.data]
  · obtain ⟨-, h₁, h₂, h₃, h₄⟩ := h.header
    rw [h₁, h₂, h₃, h₄, byteSum_frame]

/-- **A frame in the buffer is accepted** and can be read through `recv`. -/
theorem accepted (out : Outside) {s : StProtocolParser} {recv : StProtocol} (h : HoldsBody s.buffer f)
    (hf : s.mRecvFlag = true) (hr : s.recv = some recv) :
    protocolParser out s = .ok (true, parsed s (UInt16.ofNat f.sum)) ∧
      (parsed s (UInt16.ofNat f.sum)).packet = some f.packet := by
  refine ⟨(protocolParser_true_iff hf hr).mpr ⟨_, h.sums, rfl⟩, ?_⟩
  obtain ⟨-, h₁, h₂, h₃, h₄⟩ := h.header
  have hl : f.len - 6 = UInt8.ofNat f.data.length := by
    have := f.length_data
    rw [← UInt8.toNat_inj, UInt8.toNat_sub, f.len_toNat, UInt8.toNat_ofNat']
    simp; omega
  have hn : (UInt8.ofNat f.data.length).toNat = f.data.length := by
    have := f.length_data
    rw [UInt8.toNat_ofNat']; omega
  simp only [StProtocolParser.packet, parsed, typeByte, addrByte, functionByte, Option.map_some,
    Frame.packet, h₁, h₂, h₃, h₄, hl, hn, Option.getD_some, h.data]

end HoldsBody

theorem Holds.header (h : Holds buf f) :
    buf[0] = protocolStartCode ∧ buf[1] = f.len ∧ buf[2] = f.type ∧ buf[3] = f.addr ∧ buf[4] = f.function :=
  h.body.header

theorem overlay_toList (buf : Vector UInt8 bufferSize) {bs : List UInt8} (h : bs.length ≤ bufferSize) :
    (overlay buf bs).toList = bs ++ buf.toList.drop bs.length := by
  apply List.ext_getElem
  · simp only [Vector.length_toList, List.length_append, List.length_drop]; omega
  · intro i h₁ h₂
    rw [Vector.length_toList] at h₁
    rw [Vector.getElem_toList, getElem_overlay, List.getElem_append]
    split
    · rename_i hi
      rw [List.getElem?_eq_getElem hi]; rfl
    · rename_i hi
      rw [List.getElem?_eq_none (Nat.le_of_not_lt hi)]
      simp only [Option.getD_none, List.getElem_drop, Vector.getElem_toList]
      congr 1; omega

theorem acceptState_holds (s : StProtocolParser) (f : Frame) : Holds (acceptState s f.body).buffer f := by
  have hb := bufferSize_eq
  have hl := f.length_data
  have he := f.length_enc
  have := overlay_toList s.buffer (show f.enc.length ≤ bufferSize by omega)
  simp only [acceptState, frameState]
  rw [show protocolStartCode :: (f.body ++ [protocolEndCode]) = f.enc from rfl, Holds, this]
  exact List.prefix_append _ _

/-! ## The framer on an encoding -/

theorem run_skip {l : Locals} {s : StProtocolParser} (hl : l.avilable = false) : ∀ {bs : List UInt8},
    (∀ b ∈ bs, b ≠ protocolStartCode) → Run (Continues out) (l, s) bs (l, s)
  | [], _ => .nil _
  | b :: _, h =>
    have hstep : Continues out (l, s) b (l, s) := recevByte_skip out l s b hl (h b (List.mem_cons_self ..))
    Run.cons hstep (run_skip hl fun c hc => h c (List.mem_cons_of_mem _ hc))

theorem Open.left {t u : List UInt8} (h : Open (t ++ u)) : Open t := by
  cases t with
  | nil => trivial
  | cons len t =>
    obtain ⟨h₁, h₂, h₃⟩ : Open (len :: (t ++ u)) := h
    rw [List.length_append] at h₂ h₃
    exact ⟨h₁, by omega, fun hz => by have := h₃ hz; omega⟩

theorem run_candidate (s : StProtocolParser) : ∀ {u t : List UInt8}, Open (t ++ u) →
    (t = [] → u.head? ≠ some protocolEndCode) →
    Run (Continues out) (frameLocals t, frameState s t) u (frameLocals (t ++ u), frameState s (t ++ u))
  | [], t, _, _ => by rw [List.append_nil]; exact .nil _
  | b :: u, t, ho, he => by
    rw [List.append_cons] at ho ⊢
    have hstep : Continues out (frameLocals t, frameState s t) b (frameLocals (t ++ [b]), frameState s (t ++ [b])) :=
      recevByte_more out s ho.left fun ht hb => he ht (by rw [hb]; rfl)
    exact Run.cons hstep (run_candidate s ho fun ht => absurd ht (by simp))

theorem recevBytes_open {l : Locals} (s : StProtocolParser) {s₁ : StProtocolParser} (hl : l.avilable = false)
    {t : List UInt8} (ho : Open t) (hne : t.head? ≠ some protocolEndCode) {dat : UInt8} {b : Bool}
    (hr : recevByte out (frameLocals t) (frameState s t) dat = .ok (.return b s₁)) (rest : List UInt8) :
    recevBytes out l s (protocolStartCode :: (t ++ dat :: rest)) = .ok (b, s₁, rest) := by
  have hstart : Continues out (l, s) protocolStartCode (frameLocals [], frameState s []) :=
    recevByte_start out l s hl
  have hrun : Run (Continues out) (frameLocals [], frameState s []) t (frameLocals t, frameState s t) :=
    run_candidate s (t := []) ho fun _ => hne
  rw [← List.cons_append, recevBytes_of_run (Run.cons hstart hrun), recevBytes, hr]
  rfl

theorem recevBytes_candidate (out : Outside) {l : Locals} (s : StProtocolParser) (hl : l.avilable = false)
    {t : List UInt8} (ho : Open t) (hne : t.head? ≠ some protocolEndCode) (hlen : (t.headD 0).toNat = t.length)
    (rest : List UInt8) :
    recevBytes out l s (protocolStartCode :: (t ++ protocolEndCode :: rest)) = .ok (true, acceptState s t, rest) :=
  recevBytes_open s hl ho hne (recevByte_end out s ho.length_le hlen) rest

/-- **The framer takes exactly the encoding.** -/
theorem recevBytes_enc (out : Outside) {l : Locals} (s : StProtocolParser) (hl : l.avilable = false)
    {junk : List UInt8} (hj : ∀ b ∈ junk, b ≠ protocolStartCode) (hf : f.Readable) (rest : List UInt8) :
    recevBytes out l s (junk ++ f.enc ++ rest) = .ok (true, acceptState s f.body, rest) := by
  have hne : f.body.head? ≠ some protocolEndCode := fun hh => f.len_eq_endCode_iff.mp (Option.some.inj hh) hf
  have hlen : (f.body.headD 0).toNat = f.body.length := by rw [f.length_body]; exact f.len_toNat
  have henc : f.enc ++ rest = protocolStartCode :: (f.body ++ protocolEndCode :: rest) := by simp [Frame.enc]
  rw [List.append_assoc, recevBytes_of_run (run_skip hl hj), henc]
  exact recevBytes_candidate out s hl f.open_body hne hlen rest

theorem recevBytes_unreadable (out : Outside) {l : Locals} (s : StProtocolParser) (hl : l.avilable = false)
    {junk : List UInt8} (hj : ∀ b ∈ junk, b ≠ protocolStartCode) (hf : ¬ f.Readable) (rest : List UInt8) :
    recevBytes out l s (junk ++ f.enc ++ rest) =
      .ok (true, acceptState s [], f.body.tail ++ protocolEndCode :: rest) := by
  have hbody : f.body = protocolEndCode :: f.body.tail := by
    rw [← f.len_eq_endCode_iff.mpr hf]; rfl
  have henc : f.enc ++ rest =
      protocolStartCode :: ([] ++ protocolEndCode :: (f.body.tail ++ protocolEndCode :: rest)) := by
    rw [Frame.enc, hbody]; simp
  rw [List.append_assoc, recevBytes_of_run (run_skip hl hj), henc]
  exact recevBytes_candidate out s hl (t := []) trivial (by simp) rfl _

end RocCar

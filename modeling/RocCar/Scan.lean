import RocCar.FrameSound
import RocCar.Phantom

/-!
# What iterations take from the queue

An iteration takes bytes that leave the loop outside a candidate, and then a
candidate that ends the call (`Returns`), or all that is in the queue. So the
bytes tell where the framer is outside a candidate, over any number of
iterations, and what the buffer holds there (`Scanned`).
-/

namespace RocCar

open Fallible Runs

variable {out : Outside} {trig : Trig}

/-! ## What the parser can read -/

theorem load_ok_iff {buf : Vector UInt8 bufferSize} {i : Nat} :
    (∃ b, load out buf i = .ok b) ↔ (bufferSize ≤ i → out i ≠ none) := by
  by_cases hi : i < bufferSize
  · exact ⟨fun _ hle => absurd hi (Nat.not_lt.mpr hle), fun _ => ⟨_, load_of_lt out buf hi⟩⟩
  · rw [load, dif_neg hi]
    cases out i with
    | none => simp [Nat.le_of_not_lt hi]
    | some b => simp

theorem protocolParser_ok_iff {s : StProtocolParser} {recv : StProtocol} (hf : s.mRecvFlag = true)
    (hr : s.recv = some recv) :
    (∃ valid s', protocolParser out s = .ok (valid, s')) ↔
      ∀ i, bufferSize ≤ i → i ≤ payloadLen s.buffer + 6 → out i ≠ none := by
  rw [protocolParser_eq hf hr]
  constructor
  · rintro ⟨valid, s', h⟩ i hi hle
    obtain ⟨hi', hhi, h⟩ := bind_eq_ok.mp h
    obtain ⟨lo, hlo, h⟩ := bind_eq_ok.mp h
    obtain ⟨data, hdata, -⟩ := bind_eq_ok.mp h
    by_cases h₁ : i = 5 + payloadLen s.buffer
    · exact load_ok_iff.mp ⟨hi', h₁ ▸ hhi⟩ hi
    · by_cases h₂ : i = 5 + payloadLen s.buffer + 1
      · exact load_ok_iff.mp ⟨lo, h₂ ▸ hlo⟩ hi
      · have hb := bufferSize_eq
        obtain ⟨b, hb⟩ := mapM_eq_ok_iff.mp ⟨data, hdata⟩ (i - 5) (List.mem_range.mpr (by omega))
        rw [show 5 + (i - 5) = i by omega] at hb
        exact load_ok_iff.mp ⟨b, hb⟩ hi
  · intro h
    have hload : ∀ i, i ≤ payloadLen s.buffer + 6 → ∃ b, load out s.buffer i = .ok b :=
      fun i hle => load_ok_iff.mpr fun hi => h i hi hle
    obtain ⟨hi, hhi⟩ := hload (5 + payloadLen s.buffer) (by omega)
    obtain ⟨lo, hlo⟩ := hload (5 + payloadLen s.buffer + 1) (by omega)
    obtain ⟨data, hdata⟩ : ∃ data, readBytes out s.buffer 5 (payloadLen s.buffer) = .ok data :=
      mapM_eq_ok_iff.mpr fun k hk => hload (5 + k) (by have := List.mem_range.mp hk; omega)
    exact ⟨_, _, by rw [hhi, ok_bind, hlo, ok_bind, hdata, ok_bind]⟩

/-- What the parser takes for the payload and the checksum of a closed candidate
can be read, as far as it is behind the buffer. -/
def Legible (out : Outside) (t : List UInt8) : Prop :=
  ∀ i, bufferSize ≤ i → i ≤ ((t ++ [protocolEndCode]).headD 0 - 6).toNat + 6 → out i ≠ none

theorem parser_legible_iff {s : StProtocolParser} {recv : StProtocol} (hr : s.recv = some recv) {t : List UInt8} :
    (∃ valid s', protocolParser out (acceptState s t) = .ok (valid, s')) ↔ Legible out t := by
  rw [protocolParser_ok_iff (acceptState_mRecvFlag s t) ((acceptState_recv s t).trans hr), payloadLen,
    acceptState_len]
  rfl

theorem legible_of_length {t : List UInt8} (hlen : (t.headD 0).toNat = t.length) (hle : t.length ≤ 126)
    (hmin : t = [] ∨ 6 ≤ t.length) : Legible out t := by
  have hb := bufferSize_eq
  have hp := (payloadLen_acceptState {} hlen hle).mpr hmin
  rw [payloadLen, acceptState_len] at hp
  intro i hi hle'
  omega

/-! ## Candidates that end the call -/

inductive Returns (out : Outside) : List UInt8 → UInt8 → Prop
  | closed {t : List UInt8} : (t.headD 0).toNat = t.length → t.length ≤ 126 → t.head? ≠ some protocolEndCode →
      Legible out t → Returns out t protocolEndCode
  | tooLong {dat : UInt8} : 126 < dat.toNat → Returns out [] dat
  | full {t : List UInt8} {dat : UInt8} : t.head? = some 0 → t.length = 126 → Returns out t dat
  | overLong {t : List UInt8} {dat : UInt8} : (t.headD 0).toNat = t.length → 0 < t.length → t.length ≤ 126 →
      t.head? ≠ some protocolEndCode → dat ≠ protocolEndCode →
      (t.length = 126 → dat = protocolStartCode → out bufferSize ≠ none) →
      bufferSize - 1 ≤ (indexLeft t dat).toNat → Returns out t dat

theorem open_zero {t : List UInt8} (hz : t.head? = some 0) (hle : t.length ≤ 126) : Open t := by
  cases t with
  | nil => trivial
  | cons len t =>
    obtain rfl : len = 0 := Option.some.inj hz
    exact ⟨by decide, hle, fun h => absurd rfl h⟩

theorem Returns.call {t : List UInt8} {dat : UInt8} (h : Returns out t dat) (s : StProtocolParser) {l : Locals}
    (hl : l.avilable = false) (rest : List UInt8) :
    ∃ b s₁, recevBytes out l s (protocolStartCode :: (t ++ dat :: rest)) = .ok (b, s₁, rest) ∧
      (s₁ = acceptState s t ∧ Legible out t ∨ s₁ = frameState s (t ++ [dat])) := by
  cases h with
  | closed hlen hle hne hleg =>
    exact ⟨_, _, recevBytes_candidate out s hl (open_of_len hlen hle) hne hlen rest, .inl ⟨rfl, hleg⟩⟩
  | tooLong hlong =>
    have hend : ¬ (dat = protocolEndCode ∧ (([] : List UInt8).headD 0).toNat = ([] : List UInt8).length) := by
      rintro ⟨rfl, -⟩
      exact absurd hlong (by decide)
    have hr : recevByte out (frameLocals []) (frameState s []) dat = .ok (.return false (frameState s [dat])) := by
      rw [recevByte_frame out s dat (Nat.zero_le _), if_neg hend, if_pos ⟨rfl, hlong⟩]
    exact ⟨_, _, recevBytes_open s hl (t := []) trivial (by simp) hr rest, .inr rfl⟩
  | full hz hfull =>
    have ho := open_zero hz (Nat.le_of_eq hfull)
    have hend : ¬ (dat = protocolEndCode ∧ (t.headD 0).toNat = t.length) := by
      rintro ⟨-, hlen⟩
      rw [List.headD_eq_head?_getD, hz, hfull] at hlen
      exact absurd hlen (by decide)
    have hne : t ≠ [] := fun hn => by rw [hn] at hfull; cases hfull
    have hr : recevByte out (frameLocals t) (frameState s t) dat = .ok (.return false (frameState s (t ++ [dat]))) := by
      rw [recevByte_frame out s dat ho.length_le, if_neg hend, if_neg fun hc => hne hc.1]
      cases t with
      | nil => cases hfull
      | cons len t =>
        obtain rfl : len = 0 := Option.some.inj hz
        rw [List.length_cons] at hfull
        have hlen : (t ++ [dat]).length = 126 := by simpa using hfull
        exact recevChecks_zero out s hlen
    exact ⟨_, _, recevBytes_open s hl ho (by rw [hz]; decide) hr rest, .inr rfl⟩
  | overLong hlen hpos hle hne hd hin hidx =>
    obtain ⟨l', -, -, -, hr⟩ := over_run s hlen hpos hle hd hin
    rw [if_pos hidx] at hr
    exact ⟨_, _, recevBytes_open s hl (open_of_len hlen hle) hne hr rest, .inr rfl⟩

theorem returns_of_return {t : List UInt8} {dat : UInt8} {s s₁ : StProtocolParser} {b : Bool} (ho : Open t)
    (hne : t.head? ≠ some protocolEndCode)
    (h : recevByte out (frameLocals t) (frameState s t) dat = .ok (.return b s₁)) :
    (dat = protocolEndCode ∧ (t.headD 0).toNat = t.length ∧ s₁ = acceptState s t) ∨
      (Returns out t dat ∧ s₁ = frameState s (t ++ [dat])) := by
  have hle := ho.length_le
  by_cases hend : dat = protocolEndCode ∧ (t.headD 0).toNat = t.length
  · obtain ⟨rfl, hlen⟩ := hend
    rw [recevByte_end out s hle hlen, Except.ok.injEq, Round.return.injEq] at h
    exact .inl ⟨rfl, hlen, h.2.symm⟩
  · right
    rcases recevByte_leaves ho h (by simp) hend with ⟨rfl, hlong, hr⟩ | ⟨hz, hfull, hr⟩ | ⟨hlen, hpos, hd⟩
    · rw [Round.return.injEq] at hr
      exact ⟨.tooLong hlong, hr.2⟩
    · rw [Round.return.injEq] at hr
      exact ⟨.full hz hfull, hr.2⟩
    · have hin := over_inside hlen hpos hle hd h
      obtain ⟨l, -, -, -, hr⟩ := over_run s hlen hpos hle hd hin
      rw [hr, Except.ok.injEq] at h
      split at h
      · rename_i hidx
        rw [Round.return.injEq] at h
        exact ⟨.overLong hlen hpos hle hne hd hin hidx, h.2.symm⟩
      · cases h

/-! ## An iteration -/

theorem parsePhase_returned (trig : Trig) {s s₁ : StProtocolParser} {recv : StProtocol} {t : List UInt8} {dat : UInt8}
    (hf : s.mRecvFlag = false) (hr : s.recv = some recv)
    (h : s₁ = acceptState s t ∧ Legible out t ∨ s₁ = frameState s (t ++ [dat])) (r : StRocRobot) :
    ∃ p s' r', parsePhase out trig s₁ r = .ok (p, protocolParserReinit s', r') := by
  rcases h with ⟨rfl, hleg⟩ | rfl
  · obtain ⟨valid, s', hp⟩ := (parser_legible_iff hr).mpr hleg
    cases valid with
    | false => exact ⟨_, _, _, parsePhase_false trig r hp⟩
    | true =>
      obtain ⟨r', -, hok⟩ := parsePhase_true trig r hp
      exact ⟨_, _, _, hok⟩
  · exact ⟨_, _, _, parsePhase_false trig r (protocolParser_idle ((frameState_mRecvFlag s _).trans hf))⟩

theorem iteration_returned (trig : Trig) {a t rest : List UInt8} {buf : Vector UInt8 bufferSize} {dat : UInt8}
    {q : TcpDat} (hskip : Skipped out a buf) (h : Returns out t dat)
    (hq : q.content = a ++ protocolStartCode :: (t ++ dat :: rest)) (s : StProtocolParser) (r : StRocRobot) :
    ∃ p q' s' r', wifiControl out trig ⟨q, protocolParserReinit s, r⟩ = .ok (p, ⟨q', protocolParserReinit s', r'⟩) ∧
      q'.content = rest := by
  obtain ⟨y, hrun, hidle, -⟩ := hskip.run s
  obtain ⟨b, s₁, hbytes, hs₁⟩ := h.call y.2 hidle rest
  rw [← recevBytes_of_run hrun, ← hq] at hbytes
  obtain ⟨p, s', r', hp⟩ := parsePhase_returned trig (run_mRecvFlag hrun) (run_recv hrun) hs₁ r
  obtain ⟨q', hw, hrest⟩ := wifiControl_of_bytes ⟨q, protocolParserReinit s, r⟩ hbytes hp
  exact ⟨p, q', s', r', hw, hrest⟩

/-- The parser reads the frame `f` behind the candidate `t`: its body, or what
an `AA 55` makes of the bytes left in the buffer. -/
def Reads (f : Frame) (buf : Vector UInt8 bufferSize) (t : List UInt8) : Prop :=
  (f.Readable ∧ t = f.body) ∨
    (t = [] ∧ HoldsBody (overlay buf [protocolStartCode, protocolEndCode]) f)

theorem frameIn_of_packet {buf : Vector UInt8 bufferSize} {sum : UInt16} {s : StProtocolParser} {f : Frame}
    (hbuf : s.buffer = buf) (hp : (parsed s sum).packet = some f.packet) :
    ∃ h : payloadLen buf ≤ 120, frameIn buf h = f := by
  subst hbuf
  have hl := f.length_data
  simp only [StProtocolParser.packet, parsed, Option.map_some, Option.getD_some, Frame.packet, Option.some.injEq,
    Packet.mk.injEq] at hp
  obtain ⟨htype, haddr, hfunction, hlen, hdata⟩ := hp
  have hn : payloadLen s.buffer = f.data.length := by
    rw [payloadLen, hlen, UInt8.toNat_ofNat']
    omega
  refine ⟨by omega, ?_⟩
  cases f
  rw [frameIn, Frame.mk.injEq]
  exact ⟨htype, haddr, hfunction, hdata⟩

theorem reads_of_packet {s s' : StProtocolParser} {f : Frame} {t : List UInt8}
    (hlen : (t.headD 0).toNat = t.length) (hle : t.length ≤ 126) (hne : t.head? ≠ some protocolEndCode)
    (h : protocolParser out (acceptState s t) = .ok (true, s')) (hp : s'.packet = some f.packet) :
    Reads f s.buffer t := by
  obtain ⟨-, sum, hs, rfl⟩ := protocolParser_true h
  obtain ⟨hn, rfl⟩ := frameIn_of_packet rfl hp
  rcases (payloadLen_acceptState s hlen hle).mp hn with rfl | hmin
  · refine .inr ⟨rfl, ?_⟩
    have hlist : (acceptState s []).buffer.toList =
        protocolStartCode :: protocolEndCode :: s.buffer.toList.drop 2 := by
      rw [acceptState_buffer, List.nil_append, overlay_toList s.buffer (by decide)]
      rfl
    rw [HoldsBody, hs.body_eq hn, ← List.nil_append [protocolEndCode], ← acceptState_buffer, hlist]
    exact List.cons_prefix_cons.mpr ⟨rfl, List.take_prefix _ _⟩
  · have hbody := (hs.body_eq hn).trans (take_acceptState s hlen (by omega) hle)
    refine .inl ⟨fun h79 => hne ?_, hbody.symm⟩
    rw [← hbody]
    exact congrArg some ((frameIn _ hn).len_eq_endCode_iff.mpr (not_not.mpr h79))

/-- What an iteration takes: all that is in the queue, or bytes up to a candidate
that ends the call. -/
def Takes (out : Outside) (before rest : List UInt8) (p : Option Packet) : Prop :=
  (rest = [] ∧ p = none) ∨
    ∃ a t dat buf, before = a ++ protocolStartCode :: (t ++ dat :: rest) ∧ Skipped out a buf ∧ Returns out t dat ∧
      ∀ f : Frame, p = some f.packet → dat = protocolEndCode ∧ Reads f buf t

theorem takes_of_parse {a t rest : List UInt8} {dat : UInt8} {z s₁ s' : StProtocolParser} {p : Option Packet}
    {r r' : StRocRobot} (hskip : Skipped out a z.buffer) (hf : z.mRecvFlag = false)
    {recv : StProtocol} (hr : z.recv = some recv) (ho : Open t) (hne : t.head? ≠ some protocolEndCode)
    (hret : (dat = protocolEndCode ∧ (t.headD 0).toNat = t.length ∧ s₁ = acceptState z t) ∨
      (Returns out t dat ∧ s₁ = frameState z (t ++ [dat])))
    (hp : parsePhase out trig s₁ r = .ok (p, s', r')) :
    Takes out (a ++ protocolStartCode :: (t ++ dat :: rest)) rest p := by
  rcases hret with ⟨rfl, hlen, rfl⟩ | ⟨hreturns, rfl⟩
  · -- the parser returns, so it could read the candidate
    obtain ⟨⟨valid, s₂⟩, hparse, -⟩ := bind_eq_ok.mp hp
    have hleg := (parser_legible_iff hr).mp ⟨valid, s₂, hparse⟩
    refine .inr ⟨a, t, _, _, rfl, hskip, .closed hlen ho.length_le hne hleg, fun f hpf => ⟨rfl, ?_⟩⟩
    cases valid with
    | false =>
      rw [parsePhase_false trig r hparse, Except.ok.injEq, Prod.mk.injEq] at hp
      rw [← hp.1] at hpf
      cases hpf
    | true =>
      obtain ⟨r₁, -, hok⟩ := parsePhase_true trig r hparse
      rw [hok, Except.ok.injEq, Prod.mk.injEq] at hp
      exact reads_of_packet hlen ho.length_le hne hparse (hp.1.trans hpf)
  · refine .inr ⟨a, t, dat, _, rfl, hskip, hreturns, fun f hpf => ?_⟩
    rw [parsePhase_false trig r (protocolParser_idle ((frameState_mRecvFlag z _).trans hf)), Except.ok.injEq,
      Prod.mk.injEq] at hp
    rw [← hp.1] at hpf
    cases hpf

theorem iteration_takes {q : TcpDat} {s : StProtocolParser} {r : StRocRobot} {p : Option Packet} {c' : Car}
    (h : wifiControl out trig ⟨q, protocolParserReinit s, r⟩ = .ok (p, c')) :
    (∃ s', c'.parser = protocolParserReinit s') ∧ Takes out q.content c'.tcpDat.content p := by
  rw [wifiControl, bind_eq_ok] at h
  obtain ⟨⟨b, s₁, q₁⟩, hcall, h⟩ := h
  obtain ⟨⟨p', s', r'⟩, hp, h⟩ := bind_eq_ok.mp h
  cases h
  refine ⟨parsePhase_ok hp, ?_⟩
  have hbytes := protocolRecevData_of_bytes out (protocolParserReinit s) q
  cases hb : recevBytes out {} (protocolParserReinit s) q.content with
  | error e =>
    rw [hb] at hbytes
    rw [hbytes] at hcall; cases hcall
  | ok res =>
    obtain ⟨b', s₂, rest⟩ := res
    rw [hb] at hbytes
    obtain ⟨q', hq', rfl⟩ := hbytes
    rw [hq'] at hcall
    cases hcall
    rcases recevBytes_ok hb with ⟨hrest, y, hrun, -, rfl⟩ | ⟨pre, dat, y, hc, hrun, hret⟩
    · rw [parsePhase_false trig r (protocolParser_idle (run_mRecvFlag hrun)), Except.ok.injEq, Prod.mk.injEq] at hp
      exact .inl ⟨hrest, hp.1.symm⟩
    · rcases skipped_of_run hrun with ⟨hidle, -⟩ | ⟨a, t, z, rfl, hskip, ho, hne, rfl⟩
      · exact absurd hret (idle_not_return hidle)
      · have hf := run_mRecvFlag hrun
        have hr := run_recv hrun
        simp only [frameState_mRecvFlag, frameState_recv] at hf hr
        rw [hc, List.append_assoc, List.cons_append]
        exact takes_of_parse hskip hf hr ho hne (returns_of_return ho hne hret) hp

/-! ## Where the framer is outside a candidate -/

/-- After iterations on `bs` the framer is outside a candidate; `buf` is what it
has left in the buffer since the call began. -/
inductive Scanned (out : Outside) : List UInt8 → Vector UInt8 bufferSize → Prop
  | nil : Scanned out [] (Vector.replicate bufferSize 0)
  | byte {bs : List UInt8} {buf : Vector UInt8 bufferSize} {dat : UInt8} : Scanned out bs buf →
      dat ≠ protocolStartCode → Scanned out (bs ++ [dat]) buf
  | candidate {bs t : List UInt8} {buf : Vector UInt8 bufferSize} {dat : UInt8} : Scanned out bs buf →
      GivenUp out t dat →
      Scanned out (bs ++ protocolStartCode :: (t ++ [dat])) (overlay buf (protocolStartCode :: (t ++ [dat])))
  | returned {bs t : List UInt8} {buf : Vector UInt8 bufferSize} {dat : UInt8} : Scanned out bs buf →
      Returns out t dat →
      Scanned out (bs ++ protocolStartCode :: (t ++ [dat])) (Vector.replicate bufferSize 0)

theorem Scanned.skipped {bs cs : List UInt8} {buf : Vector UInt8 bufferSize}
    (h : Scanned out bs (Vector.replicate bufferSize 0)) (hs : Skipped out cs buf) : Scanned out (bs ++ cs) buf := by
  induction hs with
  | nil => rw [List.append_nil]; exact h
  | byte _ hd ih => rw [← List.append_assoc]; exact .byte ih hd
  | candidate _ hup ih => rw [← List.append_assoc]; exact .candidate ih hup

def Iterates (out : Outside) (trig : Trig) (c : Car) (p : Option Packet) (c' : Car) : Prop :=
  wifiControl out trig c = .ok (p, c')

theorem Scanned.iterations (trig : Trig) {bs : List UInt8} {buf : Vector UInt8 bufferSize} (h : Scanned out bs buf) :
    ∀ {q : TcpDat} {rest : List UInt8}, q.content = bs ++ rest → ∀ (s : StProtocolParser) (r : StRocRobot),
    ∃ ps q' s' r' cs, Run (Iterates out trig) ⟨q, protocolParserReinit s, r⟩ ps ⟨q', protocolParserReinit s', r'⟩ ∧
      q'.content = cs ++ rest ∧ Skipped out cs buf := by
  induction h with
  | nil => exact fun hq s r => ⟨[], _, s, r, [], .nil _, hq, .nil⟩
  | @byte bs buf dat _ hd ih =>
    intro q rest hq s r
    rw [List.append_assoc] at hq
    obtain ⟨ps, q', s', r', cs, hrun, hc, hskip⟩ := ih hq s r
    exact ⟨ps, q', s', r', cs ++ [dat], hrun, by rw [hc, List.append_assoc], .byte hskip hd⟩
  | @candidate bs t buf dat _ hup ih =>
    intro q rest hq s r
    rw [List.append_assoc] at hq
    obtain ⟨ps, q', s', r', cs, hrun, hc, hskip⟩ := ih hq s r
    exact ⟨ps, q', s', r', cs ++ protocolStartCode :: (t ++ [dat]), hrun, by rw [hc, List.append_assoc],
      .candidate hskip hup⟩
  | @returned bs t buf dat _ hret ih =>
    intro q rest hq s r
    rw [List.append_assoc] at hq
    obtain ⟨ps, q', s', r', cs, hrun, hc, hskip⟩ := ih hq s r
    have hc' : q'.content = cs ++ protocolStartCode :: (t ++ dat :: rest) := by rw [hc]; simp
    obtain ⟨p, q₁, s₁, r₁, hw, hrest⟩ := iteration_returned trig hskip hret hc' s' r'
    exact ⟨ps ++ [p], q₁, s₁, r₁, [], .snoc hrun hw, hrest, .nil⟩

/-! ## The frames found -/

def Meets (out : Outside) (f : Frame) (bs : List UInt8) : Prop :=
  ∃ a buf, Scanned out a buf ∧ a ++ f.enc <+: bs

/-- The framer comes to an `AA 55` outside a candidate, and behind these two
bytes the buffer still holds the frame. -/
def Restores (out : Outside) (f : Frame) (bs : List UInt8) : Prop :=
  ∃ a buf, Scanned out a buf ∧ a ++ [protocolStartCode, protocolEndCode] <+: bs ∧
    HoldsBody (overlay buf [protocolStartCode, protocolEndCode]) f

def Found (out : Outside) (f : Frame) (bs : List UInt8) : Prop :=
  (f.Readable ∧ Meets out f bs) ∨ Restores out f bs

theorem found_of_reads {a t rest : List UInt8} {buf : Vector UInt8 bufferSize} {f : Frame} (hs : Scanned out a buf)
    (h : Reads f buf t) : Found out f (a ++ protocolStartCode :: (t ++ protocolEndCode :: rest)) := by
  rcases h with ⟨hread, rfl⟩ | ⟨rfl, hbody⟩
  · exact .inl ⟨hread, a, buf, hs, rest, by simp [Frame.enc]⟩
  · exact .inr ⟨a, buf, hs, ⟨rest, by simp⟩, hbody⟩

theorem run_scanned {q : TcpDat} {s : StProtocolParser} {r : StRocRobot} {ps : List (Option Packet)} {c c' : Car}
    (hc : c = ⟨q, protocolParserReinit s, r⟩) (h : Run (Iterates out trig) c ps c') :
    (∃ s', c'.parser = protocolParserReinit s') ∧
      (c'.tcpDat.content = [] ∨
        ∃ a, q.content = a ++ c'.tcpDat.content ∧ Scanned out a (Vector.replicate bufferSize 0)) ∧
      ∀ f : Frame, some f.packet ∈ ps → Found out f q.content := by
  induction h with
  | nil =>
    subst hc
    exact ⟨⟨s, rfl⟩, .inr ⟨[], rfl, .nil⟩, fun f hf => absurd hf (by simp)⟩
  | @snoc c₁ c₂ ps p _ hstep ih =>
    obtain ⟨⟨s₁, hs₁⟩, hat, hfound⟩ := ih
    obtain ⟨q₁, parser₁, r₁⟩ := c₁
    dsimp only at hs₁ hat
    subst hs₁
    obtain ⟨hs', htakes⟩ := iteration_takes hstep
    rcases htakes with ⟨hempty, rfl⟩ | ⟨a, t, dat, buf, hq₁, hskip, hret, hreads⟩
    · refine ⟨hs', .inl hempty, fun f hf => ?_⟩
      rcases List.mem_append.mp hf with hf | hf
      · exact hfound f hf
      · simp at hf
    · rcases hat with hempty | ⟨a₀, hq, hscan⟩
      · rw [hempty] at hq₁
        simp at hq₁
      · have hskipped := hscan.skipped hskip
        refine ⟨hs', .inr ⟨a₀ ++ a ++ protocolStartCode :: (t ++ [dat]), ?_, .returned hskipped hret⟩, fun f hf => ?_⟩
        · rw [hq, hq₁]
          simp
        · rcases List.mem_append.mp hf with hf | hf
          · exact hfound f hf
          · obtain ⟨rfl, hread⟩ := hreads f (List.mem_singleton.mp hf).symm
            rw [hq, hq₁, ← List.append_assoc]
            exact found_of_reads hskipped hread

theorem iteration_reads (trig : Trig) {a t rest : List UInt8} {buf : Vector UInt8 bufferSize} {f : Frame} {q : TcpDat}
    (hskip : Skipped out a buf) (hreads : Reads f buf t)
    (hq : q.content = a ++ protocolStartCode :: (t ++ protocolEndCode :: rest)) (s : StProtocolParser)
    (r : StRocRobot) : ∃ c', Iterates out trig ⟨q, protocolParserReinit s, r⟩ (some f.packet) c' := by
  obtain ⟨y, hrun, hidle, rfl⟩ := hskip.run s
  have hrecv : y.2.recv = some (s.recv.getD {}) := run_recv hrun
  have hbytes : recevBytes out {} (protocolParserReinit s) q.content = .ok (true, acceptState y.2 t, rest) := by
    rw [hq, recevBytes_of_run hrun]
    rcases hreads with ⟨hread, rfl⟩ | ⟨rfl, -⟩
    · exact recevBytes_candidate out y.2 hidle f.open_body
        (fun hh => f.len_eq_endCode_iff.mp (Option.some.inj hh) hread) (by rw [f.length_body]; exact f.len_toNat) rest
    · exact recevBytes_candidate out y.2 hidle (t := []) trivial (by simp) rfl rest
  have hbody : HoldsBody (acceptState y.2 t).buffer f := by
    rcases hreads with ⟨-, rfl⟩ | ⟨rfl, hbody⟩
    · exact (acceptState_holds y.2 f).body
    · rw [acceptState_buffer]
      exact hbody
  obtain ⟨hp, hpacket⟩ := hbody.accepted out (acceptState_mRecvFlag y.2 t) ((acceptState_recv y.2 t).trans hrecv)
  obtain ⟨r', -, hphase⟩ := parsePhase_true trig r hp
  rw [hpacket] at hphase
  obtain ⟨q', hw, -⟩ := wifiControl_of_bytes ⟨q, protocolParserReinit s, r⟩ hbytes hphase
  exact ⟨_, hw⟩

theorem reads_of_found {f : Frame} {bs : List UInt8} (h : Found out f bs) :
    ∃ a t buf rest, bs = a ++ protocolStartCode :: (t ++ protocolEndCode :: rest) ∧ Scanned out a buf ∧
      Reads f buf t := by
  rcases h with ⟨hread, a, buf, hs, rest, hbs⟩ | ⟨a, buf, hs, ⟨rest, hbs⟩, hbody⟩
  · exact ⟨a, f.body, buf, rest, by rw [← hbs]; simp [Frame.enc], hs, .inl ⟨hread, rfl⟩⟩
  · exact ⟨a, [], buf, rest, by rw [← hbs]; simp, hs, .inr ⟨rfl, hbody⟩⟩

def Delivered (out : Outside) (trig : Trig) (f : Frame) (c : Car) : Prop :=
  ∃ ps c', Run (Iterates out trig) c ps c' ∧ some f.packet ∈ ps

theorem delivered_iff_found (trig : Trig) (f : Frame) (q : TcpDat) (s : StProtocolParser) (r : StRocRobot) :
    Delivered out trig f ⟨q, protocolParserReinit s, r⟩ ↔ Found out f q.content := by
  constructor
  · rintro ⟨ps, c', hrun, hmem⟩
    exact (run_scanned rfl hrun).2.2 f hmem
  · intro h
    obtain ⟨a, t, buf, rest, hq, hs, hreads⟩ := reads_of_found h
    obtain ⟨ps, q', s', r', cs, hrun, hc, hskip⟩ := hs.iterations trig hq s r
    obtain ⟨c', hlast⟩ := iteration_reads trig hskip hreads hc s' r'
    exact ⟨ps ++ [some f.packet], c', .snoc hrun hlast, by simp⟩

end RocCar

import RocCar.Frame

/-!
# Frames through the queue

When the queue holds encodings, an iteration takes the first and delivers its
fields, unless the length byte is the end code (`polls_frames`).
-/

namespace RocCar

open Fallible Runs

variable {out : Outside} {trig : Trig}

/-! ## One iteration -/

theorem wifiControl_of_bytes (c : Car) {b : Bool} {s s' : StProtocolParser} {rest : List UInt8} {p : Option Packet}
    {r' : StRocRobot} (hb : recevBytes out {} c.parser c.tcpDat.content = .ok (b, s, rest))
    (hp : parsePhase out trig s c.robot = .ok (p, s', r')) :
    ∃ q, wifiControl out trig c = .ok (p, ⟨q, s', r'⟩) ∧ q.content = rest := by
  have h := protocolRecevData_of_bytes out c.parser c.tcpDat
  rw [hb] at h
  obtain ⟨q, hq, hrest⟩ := h
  refine ⟨q, ?_, hrest⟩
  rw [wifiControl, hq, ok_bind]
  dsimp only
  rw [hp, ok_bind]
  rfl

structure Item where
  junk : List UInt8
  frame : Frame
  junk_ne : ∀ b ∈ junk, b ≠ protocolStartCode

def Item.bytes (i : Item) : List UInt8 := i.junk ++ i.frame.enc

theorem wifiControl_frame (out : Outside) (trig : Trig) {c : Car} {recv : StProtocol}
    (hr : c.parser.recv = some recv) {i : Item} {rest : List UInt8}
    (hc : c.tcpDat.content = i.bytes ++ rest) (hf : i.frame.Readable) :
    ∃ c' s, wifiControl out trig c = .ok (some i.frame.packet, c') ∧ c'.tcpDat.content = rest ∧
      c'.parser = protocolParserReinit s := by
  have hb := recevBytes_enc out (l := {}) c.parser rfl i.junk_ne hf rest
  rw [← Item.bytes, ← hc] at hb
  obtain ⟨hp, hpacket⟩ := (acceptState_holds c.parser i.frame).body.accepted out
    (acceptState_mRecvFlag _ _) ((acceptState_recv _ _).trans hr)
  obtain ⟨r', -, hphase⟩ := parsePhase_true trig c.robot hp
  obtain ⟨q, hq, hrest⟩ := wifiControl_of_bytes c hb hphase
  rw [hpacket] at hq
  exact ⟨_, _, hq, hrest, rfl⟩

theorem unreadable_rejected (out : Outside) {s : StProtocolParser} {recv : StProtocol} (hf : s.mRecvFlag = true)
    (hr : s.recv = some recv)
    (hb : s.buffer = overlay (Vector.replicate bufferSize 0) [protocolStartCode, protocolEndCode]) :
    ∃ s', protocolParser out s = .ok (false, s') := by
  have hd : payloadLen s.buffer = 79 := by rw [hb]; decide +kernel
  obtain ⟨hi, lo, hhi, hlo, hp⟩ := protocolParser_inside out hf hr (by omega)
  rw [hd, hb] at hhi hlo
  rw [show (overlay (Vector.replicate bufferSize 0) [protocolStartCode, protocolEndCode])[5 + 79]? = some 0 by
    decide +kernel, Option.some.injEq] at hhi
  rw [show (overlay (Vector.replicate bufferSize 0) [protocolStartCode, protocolEndCode])[5 + 79 + 1]? = some 0 by
    decide +kernel, Option.some.injEq] at hlo
  subst hhi hlo
  have hsum : ∀ buf : Vector UInt8 bufferSize,
      buf = overlay (Vector.replicate bufferSize 0) [protocolStartCode, protocolEndCode] →
      (byteSum (headerSum buf[1] buf[2] buf[3] buf[4]) ((buf.toList.drop 5).take 79) == word 0 0) = false := by
    rintro buf rfl
    decide +kernel
  rw [hd, hsum s.buffer hb] at hp
  exact ⟨_, hp⟩

theorem wifiControl_unreadable (out : Outside) (trig : Trig) {q : TcpDat} {s : StProtocolParser} {r : StRocRobot}
    {i : Item} {rest : List UInt8} (hc : q.content = i.bytes ++ rest) (hf : ¬ i.frame.Readable) :
    ∃ c', wifiControl out trig ⟨q, protocolParserReinit s, r⟩ = .ok (none, c') := by
  have hb := recevBytes_unreadable out (l := {}) (protocolParserReinit s) rfl i.junk_ne hf rest
  rw [← Item.bytes, ← hc] at hb
  obtain ⟨s', hp⟩ := unreadable_rejected out (s := acceptState (protocolParserReinit s) [])
    (acceptState_mRecvFlag _ _) (acceptState_recv _ _) (acceptState_buffer _ _)
  obtain ⟨q', hq, -⟩ := wifiControl_of_bytes ⟨q, protocolParserReinit s, r⟩ hb
    (parsePhase_false trig r hp)
  exact ⟨_, hq⟩

/-! ## One iteration for each frame -/

def polls (out : Outside) (trig : Trig) : Nat → Car → Except Fault (List (Option Packet) × Car)
  | 0, c => .ok ([], c)
  | n + 1, c => do
    let (p, c) ← wifiControl out trig c
    let (ps, c) ← polls out trig n c
    return (p :: ps, c)

def DeliversAll (out : Outside) (trig : Trig) (items : List Item) (c : Car) : Prop :=
  ∃ c', polls out trig items.length c = .ok (items.map fun i => some i.frame.packet, c') ∧ c'.tcpDat.content = []

theorem deliversAll_cons {items : List Item} {i : Item} {c c' : Car}
    (h : wifiControl out trig c = .ok (some i.frame.packet, c')) :
    DeliversAll out trig (i :: items) c ↔ DeliversAll out trig items c' := by
  simp only [DeliversAll, List.length_cons, polls, h, ok_bind, List.map_cons, pure_eq_ok]
  constructor
  · rintro ⟨c'', h', hc⟩
    obtain ⟨⟨ps, c₁⟩, hp, he⟩ := bind_eq_ok.mp h'
    simp only [Except.ok.injEq, Prod.mk.injEq, List.cons.injEq, true_and] at he
    exact ⟨c'', by rw [hp, he.1, he.2], hc⟩
  · rintro ⟨c'', h', hc⟩
    exact ⟨c'', by rw [h']; rfl, hc⟩

theorem not_deliversAll_cons {items : List Item} {i : Item} {c c' : Car}
    (h : wifiControl out trig c = .ok (none, c')) : ¬ DeliversAll out trig (i :: items) c := by
  rintro ⟨c'', h', -⟩
  rw [List.length_cons, polls, h, ok_bind] at h'
  obtain ⟨⟨ps, c₁⟩, -, he⟩ := bind_eq_ok.mp h'
  simp at he

theorem deliversAll_iff : ∀ (items : List Item) (q : TcpDat) (s : StProtocolParser) (r : StRocRobot),
    q.content = items.flatMap Item.bytes →
    (DeliversAll out trig items ⟨q, protocolParserReinit s, r⟩ ↔ ∀ i ∈ items, i.frame.Readable)
  | [], q, s, r, hq => by
    refine ⟨fun _ i hi => absurd hi (by simp), fun _ => ⟨_, rfl, hq⟩⟩
  | i :: items, q, s, r, hq => by
    rw [List.flatMap_cons] at hq
    by_cases hf : i.frame.Readable
    · obtain ⟨⟨q', p', r'⟩, s', hw, hrest, hs'⟩ := wifiControl_frame out trig
        (c := ⟨q, protocolParserReinit s, r⟩) rfl hq hf
      dsimp only at hs' hrest
      subst hs'
      rw [deliversAll_cons hw, deliversAll_iff items q' s' r' hrest]
      simp [hf]
    · obtain ⟨c', hw⟩ := wifiControl_unreadable out trig (s := s) (r := r) hq hf
      simp [not_deliversAll_cons hw, hf]

/-- **One iteration for each frame** delivers the frames in the queue if and only if
none of them has 79 payload bytes, so that its length byte is the end code. -/
theorem polls_frames (out : Outside) (trig : Trig) (items : List Item) (q : TcpDat) (s : StProtocolParser)
    (r : StRocRobot) (hq : q.content = items.flatMap Item.bytes) :
    DeliversAll out trig items ⟨q, protocolParserReinit s, r⟩ ↔ ∀ i ∈ items, i.frame.data.length ≠ 79 :=
  deliversAll_iff items q s r hq

/-! ## Frames put into the queue -/

def queueOf (f : Frame) : TcpDat := (tcpDatCreate (Vector.replicate 256 0)).putForce f.chunk

theorem content_queueOf (f : Frame) : (queueOf f).content = [Item.mk [] f (by simp)].flatMap Item.bytes := by
  rw [queueOf, TcpDat.content_create_put]
  simp [Item.bytes, Frame.chunk]

/-- Two frames, each behind bytes that belong to none. -/
def twoSpeeds : List Item :=
  [⟨[0, 7], speedFrame 50, by simp [protocolStartCode]⟩,
    ⟨[protocolEndCode], speedFrame 60, by simp [protocolStartCode, protocolEndCode]⟩]

theorem polls_frames_speed : ∃ q : TcpDat, q.content = twoSpeeds.flatMap Item.bytes ∧
    DeliversAll (fun _ => none) default twoSpeeds ⟨q, protocolParserReinit {}, rocRobotInit⟩ := by
  have hq := TcpDat.content_create_put (Vector.replicate 256 0) ⟨twoSpeeds.flatMap Item.bytes, by decide, by decide⟩
  exact ⟨_, hq, (polls_frames _ _ _ _ _ _ hq).mpr (by simp [twoSpeeds, speedFrame])⟩

theorem polls_frames_endCode : ¬ ∀ (out : Outside) (trig : Trig) (items : List Item) (q : TcpDat)
    (s : StProtocolParser) (r : StRocRobot), q.content = items.flatMap Item.bytes →
    DeliversAll out trig items ⟨q, protocolParserReinit s, r⟩ := by
  intro h
  have hall := h (fun _ => none) default _ (queueOf ⟨0, 1, 15, List.replicate 79 0, by simp⟩) {}
    rocRobotInit (content_queueOf _)
  have := (deliversAll_iff _ _ _ _ (content_queueOf _)).mp hall _ (List.mem_singleton_self _)
  exact this (by simp)

end RocCar

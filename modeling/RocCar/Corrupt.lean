import Mathlib.Algebra.BigOperators.Group.List.Basic
import RocCar.FrameSound
import RocCar.Phantom

/-!
# A corrupted byte

Two bodies with the right checksum and the same length do not differ in one byte
only (`body_set_eq`), so an encoding in which one has been replaced is rejected.
-/

namespace RocCar

open Fallible Runs

/-! ## Bodies that differ in one byte -/

theorem sum_map_set {bs : List UInt8} {j : Nat} (h : j < bs.length) (b : UInt8) :
    ((bs.set j b).map UInt8.toNat).sum + bs[j].toNat = (bs.map UInt8.toNat).sum + b.toNat := by
  have hset := List.sum_set (bs.map UInt8.toNat) j b.toNat
  have hself := List.sum_set (bs.map UInt8.toNat) j bs[j].toNat
  rw [← List.map_set, List.length_map, if_pos h] at hset hself
  rw [List.set_getElem_self] at hself
  omega

namespace Frame

theorem body_set_eq {f g : Frame} {j : Nat} {b : UInt8} (hj : j < f.body.length) (h : g.body = f.body.set j b) :
    f.body[j] = b := by
  have hlen : g.summed.length = f.summed.length := by
    have hbody := congrArg List.length h
    rw [List.length_set, g.length_body, f.length_body] at hbody
    rw [g.length_summed, f.length_summed]
    omega
  simp only [body_eq] at h hj ⊢
  rw [List.set_append] at h
  split at h
  · -- the sums agree, and so does what the byte adds to them
    rename_i hlt
    obtain ⟨hsummed, hcheck⟩ := List.append_inj h (by rw [hlen, List.length_set])
    have hsum := check_inj hcheck
    have hset := sum_map_set hlt b
    rw [sum_eq, sum_eq, hsummed] at hsum
    rw [List.getElem_append_left hlt, ← UInt8.toNat_inj]
    have := f.summed[j].toNat_lt
    have := b.toNat_lt
    omega
  · rename_i hge
    obtain ⟨hsummed, hcheck⟩ := List.append_inj h hlen
    have hsum : g.sum = f.sum := by rw [sum_eq, sum_eq, hsummed]
    have hsame : f.check = f.check.set (j - f.summed.length) b := by
      rw [← hcheck, check, check, hsum]
    rw [List.getElem_append_right (Nat.le_of_not_lt hge), List.getElem_of_eq hsame, List.getElem_set_self]

end Frame

/-! ## Candidates of a frame's length -/

theorem parser_candidate (out : Outside) {s : StProtocolParser} {recv : StProtocol} (hr : s.recv = some recv)
    {t : List UInt8} (hlen : (t.headD 0).toNat = t.length) (hmin : 6 ≤ t.length) (hle : t.length ≤ 126) :
    ∃ valid s', protocolParser out (acceptState s t) = .ok (valid, s') ∧
      (valid = true → ∃ g : Frame, g.body = t) := by
  have hn := (payloadLen_acceptState s hlen hle).mpr (.inr hmin)
  obtain ⟨hi, lo, -, -, hp⟩ := protocolParser_inside out (acceptState_mRecvFlag s t) ((acceptState_recv s t).trans hr)
    (by omega)
  refine ⟨_, _, hp, fun hvalid => ?_⟩
  rw [hvalid] at hp
  obtain ⟨-, sum, hs, -⟩ := protocolParser_true hp
  exact ⟨frameIn _ hn, by rw [hs.body_eq hn, take_acceptState s hlen (by omega) hle]⟩

/-! ## An iteration on a corrupted encoding -/

variable {out : Outside} {f : Frame} {j : Nat} {b : UInt8}

theorem enc_set (hj : j < f.body.length) :
    f.enc.set (j + 1) b = protocolStartCode :: (f.body.set j b ++ [protocolEndCode]) := by
  rw [Frame.enc, List.set_cons_succ, List.set_append_left _ _ hj]

theorem head_set (hpos : 0 < j) : (f.body.set j b).head? = some f.len := by
  cases j with
  | zero => cases hpos
  | succ j => rfl

theorem recevBytes_corrupt (out : Outside) (s : StProtocolParser) (hpos : 0 < j) (hj : j < f.body.length)
    (hb : f.body[j] ≠ b) (rest : List UInt8) :
    ∃ s₁ rest₁ s₂, recevBytes out {} (protocolParserReinit s) (f.enc.set (j + 1) b ++ rest) = .ok (true, s₁, rest₁) ∧
      protocolParser out s₁ = .ok (false, s₂) := by
  have hhead := head_set (b := b) (f := f) hpos
  rw [enc_set hj, List.cons_append, List.append_assoc]
  by_cases hf : f.Readable
  · have hl := f.length_data
    have hlen : ((f.body.set j b).headD 0).toNat = (f.body.set j b).length := by
      rw [List.headD_eq_head?_getD, hhead, List.length_set, f.length_body]
      exact f.len_toNat
    have hle : (f.body.set j b).length ≤ 126 := by rw [List.length_set, f.length_body]; omega
    have hne : (f.body.set j b).head? ≠ some protocolEndCode := by
      rw [hhead]
      exact fun hh => f.len_eq_endCode_iff.mp (Option.some.inj hh) hf
    obtain ⟨valid, s', hp, hvalid⟩ := parser_candidate out (s := protocolParserReinit s) rfl hlen
      (by rw [List.length_set, f.length_body]; omega) hle
    refine ⟨_, rest, s', recevBytes_candidate out _ rfl (open_of_len hlen hle) hne hlen rest, ?_⟩
    cases valid with
    | false => exact hp
    | true =>
      obtain ⟨g, hg⟩ := hvalid rfl
      exact absurd (Frame.body_set_eq hj hg) hb
  · have hcons : f.body.set j b = protocolEndCode :: (f.body.set j b).tail := by
      rw [← f.len_eq_endCode_iff.mpr hf]
      exact (List.cons_head?_tail (by rw [hhead]; rfl)).symm
    obtain ⟨s', hp⟩ := unreadable_rejected out (s := acceptState (protocolParserReinit s) [])
      (acceptState_mRecvFlag _ _) (acceptState_recv _ _) (acceptState_buffer _ _)
    rw [hcons]
    exact ⟨_, _, s', recevBytes_candidate out _ rfl (t := []) trivial (by simp) rfl _, hp⟩

/-- **One corrupted byte** between the length and the end code: nothing is
accepted, and the robot is left alone. -/
theorem corrupt_rejected (out : Outside) (trig : Trig) (f : Frame) (k : Nat) (b : UInt8) (hk : 2 ≤ k)
    (hlast : k + 1 < f.enc.length) (hb : f.enc[k] ≠ b) (q : TcpDat) (rest : List UInt8)
    (hq : q.content = f.enc.set k b ++ rest) (s : StProtocolParser) (r : StRocRobot) :
    (∃ avilable s₁ q₁ s₂, protocolRecevData out (protocolParserReinit s) q = .ok (avilable, s₁, q₁) ∧
      protocolParser out s₁ = .ok (false, s₂)) ∧
    ∃ q' s', wifiControl out trig ⟨q, protocolParserReinit s, r⟩ = .ok (none, ⟨q', s', r⟩) := by
  obtain ⟨j, rfl⟩ := Nat.exists_eq_add_of_le' (Nat.le_of_succ_le hk)
  have hj : j < f.body.length := by
    rw [f.length_enc] at hlast
    rw [f.length_body]
    omega
  have hb' : f.body[j] ≠ b := by
    intro he
    apply hb
    simp only [Frame.enc, List.getElem_cons_succ]
    rw [List.getElem_append_left hj, he]
  obtain ⟨s₁, rest₁, s₂, hbytes, hp⟩ := recevBytes_corrupt out s (by omega) hj hb' rest
  rw [← hq] at hbytes
  have hcall := protocolRecevData_of_bytes out (protocolParserReinit s) q
  rw [hbytes] at hcall
  obtain ⟨q₁, hcall, -⟩ := hcall
  obtain ⟨q', hw, -⟩ := wifiControl_of_bytes ⟨q, protocolParserReinit s, r⟩ hbytes (parsePhase_false trig r hp)
  exact ⟨⟨true, s₁, q₁, s₂, hcall, hp⟩, q', _, hw⟩

def corruptSpeed : Chunk where
  bytes := (speedFrame 50).enc.set 5 protocolEndCode
  length_pos := by decide
  length_le := by decide

theorem corrupt_rejected_speed : ∃ q : TcpDat, q.content = (speedFrame 50).enc.set 5 protocolEndCode ++ [] ∧
    (∃ avilable s₁ q₁ s₂, protocolRecevData (fun _ => none) (protocolParserReinit {}) q = .ok (avilable, s₁, q₁) ∧
      protocolParser (fun _ => none) s₁ = .ok (false, s₂)) ∧
    ∃ q' s', wifiControl (fun _ => none) default ⟨q, protocolParserReinit {}, rocRobotInit⟩ =
      .ok (none, ⟨q', s', rocRobotInit⟩) := by
  have hq : ((tcpDatCreate (Vector.replicate 256 0)).putForce corruptSpeed).content =
      (speedFrame 50).enc.set 5 protocolEndCode ++ [] := by
    rw [TcpDat.content_create_put, List.append_nil]
    rfl
  exact ⟨_, hq, corrupt_rejected (fun _ => none) default (speedFrame 50) 5 protocolEndCode (by decide) (by decide)
    (by decide) _ [] hq {} rocRobotInit⟩

end RocCar

import RocCar.DispatchSound

/-!
# What decides the action of a frame

The functions that get an argument do not look at the payload's length. A shorter
payload is completed by bytes of the checksum, which depend on type and address.
-/

namespace RocCar

open Fallible

variable {out : Outside} {trig : Trig}

def argLen (function : UInt8) : Nat :=
  if function = eRobotControlDirection ∨ function = eButton then 2
  else if function = eRobotControlSpeed then 1
  else 0

/-! ## The arguments -/

namespace Accepted

theorem getSpeed_eq (a : Accepted out) :
    protocolGetSpeed out a.state =
      .ok (if a.function = eRobotControlSpeed then a.argByte.toInt8 else 0) := by
  obtain ⟨s, hs⟩ := a.accepted
  obtain ⟨-, sum, -, he⟩ := protocolParser_true hs
  have h5 : load out s.buffer 5 = .ok s.buffer[5] := load_of_lt out s.buffer (by decide)
  simp only [function, argByte, he, protocolGetSpeed, derefRecv, parsed, ok_bind, pure_eq_ok, loadData, Nat.add_zero,
    h5, RocCar.argByte]
  split <;> rfl

theorem loadWord_eq (a : Accepted out) : ∃ recv, derefRecv a.state = .ok recv ∧ recv.function = a.function ∧
    loadWord out a.state recv = .ok a.argWord := by
  obtain ⟨s, hs⟩ := a.accepted
  obtain ⟨-, sum, -, he⟩ := protocolParser_true hs
  have h5 : load out s.buffer 5 = .ok s.buffer[5] := load_of_lt out s.buffer (by decide)
  have h6 : load out s.buffer 6 = .ok s.buffer[6] := load_of_lt out s.buffer (by decide)
  rw [function, argWord, he]
  refine ⟨_, rfl, rfl, ?_⟩
  simp only [loadWord, parsed, loadData, Nat.add_zero, h5, h6, ok_bind, pure_eq_ok, RocCar.argWord]

theorem getDegree_eq (a : Accepted out) :
    protocolGetDegree out a.state =
      .ok (if a.function = eRobotControlDirection then a.argWord.toInt16 else 0) := by
  obtain ⟨recv, hr, hf, hw⟩ := a.loadWord_eq
  rw [protocolGetDegree, hr, ok_bind, hf, hw]
  split <;> rfl

theorem getButtonValue_eq (a : Accepted out) :
    protocolGetButtonValue out a.state = .ok (if a.function = eButton then a.argWord else 0xFFFF) := by
  obtain ⟨recv, hr, hf, hw⟩ := a.loadWord_eq
  rw [protocolGetButtonValue, hr, ok_bind, hf, hw]
  split <;> rfl

theorem ofFrame_holds (out : Outside) (f : Frame) : Holds (ofFrame out f).state.buffer f :=
  acceptState_holds (protocolParserReinit {}) f

end Accepted

/-! ## The payload and the checksum -/

variable {a a' : Accepted out} {f f' : Frame}

theorem Holds.function_eq (h : Holds a.state.buffer f) : a.function = f.function := h.header.2.2.2.2

theorem Holds.args (h : Holds a.state.buffer f) :
    ∃ lo rest, f.data ++ f.check = a.argByte :: lo :: rest ∧ a.argWord = word a.argByte lo := by
  obtain ⟨x, lo, rest, hargs⟩ : ∃ x lo rest, f.data ++ f.check = x :: lo :: rest := by
    match hd : f.data with
    | [] => exact ⟨_, _, _, rfl⟩
    | [d] => exact ⟨_, _, _, rfl⟩
    | d :: e :: rest => exact ⟨_, _, _, rfl⟩
  have henc : f.enc = protocolStartCode :: f.len :: f.type :: f.addr :: f.function ::
      (x :: lo :: rest ++ [protocolEndCode]) := by
    rw [← hargs]; rfl
  have h5 : a.argByte = x := h.getElem (i := 5) (by rw [henc]; rfl) (by decide)
  have h6 : a.state.buffer[6] = lo := h.getElem (by rw [henc]; rfl) (by decide)
  exact ⟨lo, rest, by rw [h5]; exact hargs, congrArg (word a.argByte) h6⟩

theorem args_eq (h : Holds a.state.buffer f) (h' : Holds a'.state.buffer f') (hd : f'.data = f.data) :
    (1 ≤ f.data.length → a'.argByte = a.argByte) ∧ (2 ≤ f.data.length → a'.argWord = a.argWord) := by
  obtain ⟨lo, rest, hargs, hword⟩ := h.args
  obtain ⟨lo', rest', hargs', hword'⟩ := h'.args
  rw [hd] at hargs'
  rw [hword, hword']
  match hf : f.data with
  | [] => simp
  | [d] =>
    rw [hf, List.cons_append, List.cons.injEq] at hargs hargs'
    exact ⟨fun _ => hargs'.1.symm.trans hargs.1, fun hc => by simp at hc⟩
  | d :: e :: _ =>
    simp only [hf, List.cons_append, List.cons.injEq] at hargs hargs'
    rw [← hargs.1, ← hargs.2.1, ← hargs'.1, ← hargs'.2.1]
    exact ⟨fun _ => rfl, fun _ => rfl⟩

theorem word_inj {hi lo hi' lo' : UInt8} (h : word hi lo = word hi' lo') : hi = hi' ∧ lo = lo' := by
  have := lo.toNat_lt
  have := lo'.toNat_lt
  rw [← UInt16.toNat_inj, word_toNat, word_toNat] at h
  exact ⟨UInt8.toNat_inj.mp (by omega), UInt8.toNat_inj.mp (by omega)⟩

theorem args_ne (h : Holds a.state.buffer f) (h' : Holds a'.state.buffer f') (hd : f'.data = f.data)
    (hhi : UInt8.ofNat (f'.sum / 256) ≠ UInt8.ofNat (f.sum / 256)) :
    (f.data.length < 1 → a'.argByte ≠ a.argByte) ∧ (f.data.length < 2 → a'.argWord ≠ a.argWord) := by
  obtain ⟨lo, rest, hargs, hword⟩ := h.args
  obtain ⟨lo', rest', hargs', hword'⟩ := h'.args
  rw [hd] at hargs'
  rw [hword, hword']
  match hf : f.data with
  | [] =>
    simp only [hf, List.nil_append, Frame.check, List.cons.injEq] at hargs hargs'
    rw [← hargs.1, ← hargs'.1]
    exact ⟨fun _ => hhi, fun _ hw => hhi (word_inj hw).1⟩
  | [d] =>
    simp only [hf, List.cons_append, List.nil_append, Frame.check, List.cons.injEq] at hargs hargs'
    rw [← hargs.2.1, ← hargs'.2.1]
    exact ⟨fun hc => by simp at hc, fun _ hw => hhi (word_inj hw).2⟩
  | _ :: _ :: tail =>
    have hlen : ¬ tail.length + 1 + 1 < 2 := by omega
    exact ⟨fun hc => absurd (Nat.lt_succ_of_lt hc) hlen, fun hc => absurd hc hlen⟩

/-! ## Two frames with one payload -/

/-- Accepted frames with this function code and this payload have the same
arguments and make the robot do the same, whatever else is in them and in the
buffer. -/
def PayloadDecides (function : UInt8) (data : List UInt8) : Prop :=
  ∀ (out : Outside) (trig : Trig) (r : StRocRobot) (a a' : Accepted out) (f f' : Frame),
    f.function = function → f.data = data → f'.function = function → f'.data = data →
    Holds a.state.buffer f → Holds a'.state.buffer f' →
      dispatch out trig a'.state r = dispatch out trig a.state r ∧
      protocolGetSpeed out a'.state = protocolGetSpeed out a.state ∧
      protocolGetDegree out a'.state = protocolGetDegree out a.state ∧
      protocolGetButtonValue out a'.state = protocolGetButtonValue out a.state

def SameArgs (function : UInt8) (a a' : Accepted out) : Prop :=
  (function = eRobotControlSpeed → a'.argByte = a.argByte) ∧
    (function = eRobotControlDirection ∨ function = eButton → a'.argWord = a.argWord)

theorem sameArgs_of_le {function : UInt8} (h : Holds a.state.buffer f) (h' : Holds a'.state.buffer f')
    (hd : f'.data = f.data) (hlen : argLen function ≤ f.data.length) : SameArgs function a a' := by
  obtain ⟨hbyte, hword⟩ := args_eq h h' hd
  constructor
  · rintro rfl
    exact hbyte hlen
  · intro hf
    rw [argLen, if_pos hf] at hlen
    exact hword hlen

theorem dispatch_of_sameArgs {function : UInt8} (r : StRocRobot) (hf : a.function = function)
    (hf' : a'.function = function) (h : SameArgs function a a') :
    dispatch out trig a'.state r = dispatch out trig a.state r := by
  rw [a'.dispatch_eq, a.dispatch_eq, hf, hf']
  unfold perform
  split
  · rename_i hd
    rw [h.2 (.inl hd)]
  · split
    · rename_i hs
      rw [h.1 hs]
    · split
      · rename_i hb
        rw [h.2 (.inr hb)]
      · rfl

theorem getters_iff_sameArgs {function : UInt8} (hf : a.function = function) (hf' : a'.function = function) :
    (protocolGetSpeed out a'.state = protocolGetSpeed out a.state ∧
      protocolGetDegree out a'.state = protocolGetDegree out a.state ∧
      protocolGetButtonValue out a'.state = protocolGetButtonValue out a.state) ↔ SameArgs function a a' := by
  simp only [Accepted.getSpeed_eq, Accepted.getDegree_eq, Accepted.getButtonValue_eq, hf, hf', Except.ok.injEq]
  constructor
  · rintro ⟨hs, hd, hb⟩
    refine ⟨fun h => ?_, fun h => ?_⟩
    · rw [if_pos h, if_pos h] at hs
      exact congrArg Int8.toUInt8 hs
    · rcases h with h | h
      · rw [if_pos h, if_pos h] at hd
        exact congrArg Int16.toUInt16 hd
      · rw [if_pos h, if_pos h] at hb
        exact hb
  · rintro ⟨hs, hw⟩
    refine ⟨?_, ?_, ?_⟩
    · split
      · rename_i h
        rw [hs h]
      · rfl
    · split
      · rename_i h
        rw [hw (.inl h)]
      · rfl
    · split
      · rename_i h
        rw [hw (.inr h)]
      · rfl

theorem check_ne (function : UInt8) {data : List UInt8} (hlen : data.length ≤ 120) (hshort : data.length < 2) :
    UInt8.ofNat ((⟨255, 255, function, data, hlen⟩ : Frame).sum / 256) ≠
      UInt8.ofNat ((⟨0, 0, function, data, hlen⟩ : Frame).sum / 256) := by
  have hsum : (data.map UInt8.toNat).sum < 256 := by
    match data with
    | [] => simp
    | [d] => simpa using d.toNat_lt
  have := function.toNat_lt
  rw [ne_eq, ← UInt8.toNat_inj, UInt8.toNat_ofNat', UInt8.toNat_ofNat', Frame.sum, Frame.sum, Frame.len_toNat,
    Frame.len_toNat]
  simp only [UInt8.reduceToNat]
  omega

/-- **The payload decides** arguments and effect if and only if it is at least as
long as the argument. -/
theorem payloadDecides_iff (function : UInt8) (data : List UInt8) :
    PayloadDecides function data ↔ argLen function ≤ data.length := by
  constructor
  · intro h
    by_contra hshort
    have htwo : argLen function ≤ 2 := by
      unfold argLen
      repeat' split
      all_goals decide
    have hlen : data.length ≤ 120 := by omega
    let f : Frame := ⟨0, 0, function, data, hlen⟩
    let f' : Frame := ⟨255, 255, function, data, hlen⟩
    have hf := Accepted.ofFrame_holds (fun _ => none) f
    have hf' := Accepted.ofFrame_holds (fun _ => none) f'
    obtain ⟨hbyte, hword⟩ : (data.length < 1 → _) ∧ (data.length < 2 → _) :=
      args_ne hf hf' rfl (check_ne function hlen (by omega))
    have hargs := (getters_iff_sameArgs hf.function_eq hf'.function_eq).mp
      (h _ default rocRobotInit _ _ f f' rfl rfl rfl rfl hf hf').2
    by_cases hw : function = eRobotControlDirection ∨ function = eButton
    · exact hword (by simp only [argLen, if_pos hw] at hshort; omega) (hargs.2 hw)
    · by_cases hs : function = eRobotControlSpeed
      · simp only [argLen, if_neg hw, if_pos hs] at hshort
        exact hbyte (by omega) (hargs.1 hs)
      · simp only [argLen, if_neg hw, if_neg hs] at hshort
        omega
  · intro hlen out trig r a a' f f' hfun hdata hfun' hdata' h h'
    have hf : a.function = function := h.function_eq.trans hfun
    have hf' : a'.function = function := h'.function_eq.trans hfun'
    have hargs : SameArgs function a a' := sameArgs_of_le h h' (hdata'.trans hdata.symm) (by rw [hdata]; exact hlen)
    exact ⟨dispatch_of_sameArgs r hf hf' hargs, (getters_iff_sameArgs hf hf').mpr hargs⟩

def emptySpeed (type addr : UInt8) : Frame := ⟨type, addr, eRobotControlSpeed, [], Nat.zero_le _⟩

def emptySpeedResult (type addr : UInt8) : Except Fault StRocRobot :=
  dispatch (fun _ => none) default (Accepted.ofFrame (fun _ => none) (emptySpeed type addr)).state rocRobotInit

/-- Without a payload the speed is the high byte of the checksum. -/
theorem emptySpeed_depends : ¬ PayloadDecides eRobotControlSpeed [] := by
  intro h
  have hd := (h (fun _ => none) default rocRobotInit _ _ (emptySpeed 0 0) (emptySpeed 255 255) rfl rfl rfl rfl
    (Accepted.ofFrame_holds (fun _ => none) _) (Accepted.ofFrame_holds (fun _ => none) _)).1
  have hne : (emptySpeedResult 255 255).map StRocRobot.speed ≠ (emptySpeedResult 0 0).map StRocRobot.speed := by
    decide +kernel
  exact hne (congrArg (Except.map StRocRobot.speed) hd)

end RocCar

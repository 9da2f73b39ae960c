import RocCar.Frame
import RocCar.RobotSound

/-!
# What accepted frames make the robot do

An accepted frame is dispatched as at most one of the robot's commands. The speed
byte is read as a signed number, so a pad command drives the wheels the wrong way
exactly when the last speed byte is 128 or more (`pad_direction_iff`).
-/

namespace RocCar

open Fallible

variable {out : Outside} {trig : Trig}

structure Accepted (out : Outside) where
  state : StProtocolParser
  accepted : ∃ s, protocolParser out s = .ok (true, state)

namespace Accepted

def function (a : Accepted out) : UInt8 := RocCar.functionByte a.state.buffer

def argByte (a : Accepted out) : UInt8 := RocCar.argByte a.state.buffer

def argWord (a : Accepted out) : UInt16 := RocCar.argWord a.state.buffer

theorem dispatch_eq (a : Accepted out) (r : StRocRobot) :
    dispatch out trig a.state r = .ok (perform trig a.function a.argByte a.argWord r) := by
  obtain ⟨s, hs⟩ := a.accepted
  obtain ⟨-, sum, -, he⟩ := protocolParser_true hs
  simp only [function, argByte, argWord, he]
  exact dispatch_parsed trig s sum r

def Presses (a : Accepted out) (button : UInt16) : Prop := a.function = eButton ∧ a.argWord = button

def ofFrame (out : Outside) (f : Frame) : Accepted out where
  state := parsed (acceptState (protocolParserReinit {}) f.body) (UInt16.ofNat f.sum)
  accepted := ⟨_, ((acceptState_holds (protocolParserReinit {}) f).body.accepted out (acceptState_mRecvFlag _ _)
    (acceptState_recv _ _)).1⟩

theorem ofFrame_presses {f : Frame} {hi lo : UInt8} (hf : f.function = eButton) (hd : f.data = [hi, lo]) :
    (ofFrame out f).Presses (word hi lo) := by
  have h := acceptState_holds (protocolParserReinit {}) f
  have h₅ := h.getElem (i := 5) (b := hi) (by simp [Frame.enc, Frame.body, hd]) (by decide)
  have h₆ := h.getElem (i := 6) (b := lo) (by simp [Frame.enc, Frame.body, hd]) (by decide)
  exact ⟨h.header.2.2.2.2.trans hf, congrArg₂ word h₅ h₆⟩

end Accepted

/-! ## Frames as commands -/

def buttonCommand (button : UInt16) : Option Command :=
  if button = btPadUp then some .goForward
  else if button = btPadDown then some .goBackward
  else if button = btPadLeft then some .turnLeft
  else if button = btPadRight then some .turnRight
  else if button = btGreen then some .turnLeftRotate
  else if button = btBlue then some .turnRightRotate
  else none

def frameCommand (function arg : UInt8) (argWord : UInt16) : Option Command :=
  if function = eRobotControlDirection then some (.drive argWord)
  else if function = eRobotControlSpeed then some (.setSpeed arg.toInt8.toInt16)
  else if function = eButton then buttonCommand argWord
  else none

theorem pressButton_eq (button : UInt16) (r : StRocRobot) :
    pressButton button r = ((buttonCommand button).map (Command.apply trig r)).getD r := by
  unfold pressButton buttonCommand
  repeat' split
  all_goals rfl

theorem perform_eq (function arg : UInt8) (argWord : UInt16) (r : StRocRobot) :
    perform trig function arg argWord r =
      ((frameCommand function arg argWord).map (Command.apply trig r)).getD r := by
  unfold perform frameCommand
  split
  · rfl
  · split
    · rfl
    · split
      · exact pressButton_eq argWord r
      · rfl

theorem Command.speed_apply (r : StRocRobot) (c : Command) :
    (c.apply trig r).speed = match c with | .setSpeed s => s.toInt8 | _ => r.speed := by
  cases c with
  | drive degree =>
    simp only [Command.apply, rocRobotDrive]
    split <;> rfl
  | _ => rfl

/-! ## The speed -/

/-- The first payload byte of the last speed frame, or what it was before. -/
def lastSpeedByte : UInt8 → List (Accepted out) → UInt8 :=
  List.foldl fun b a => if a.function = eRobotControlSpeed then a.argByte else b

theorem speed_perform (a : Accepted out) (r : StRocRobot) :
    (perform trig a.function a.argByte a.argWord r).speed =
      if a.function = eRobotControlSpeed then a.argByte.toInt8 else r.speed := by
  rw [perform_eq]
  unfold frameCommand
  split
  · rename_i hd
    rw [if_neg (by rw [hd]; decide)]
    exact Command.speed_apply r (.drive a.argWord)
  · split
    · exact Int8.toInt_inj.mp (by simp [Command.apply, rocRobotSetSpeed])
    · split
      · unfold buttonCommand
        repeat' split
        all_goals rfl
      · rfl

def dispatchAll (out : Outside) (trig : Trig) (frames : List (Accepted out)) (r : StRocRobot) :
    Except Fault StRocRobot :=
  frames.foldlM (fun r a => dispatch out trig a.state r) r

theorem dispatchAll_ok (trig : Trig) : ∀ (frames : List (Accepted out)) {r : StRocRobot} {b : UInt8},
    r.speed = b.toInt8 → ∃ r', dispatchAll out trig frames r = .ok r' ∧ r'.speed = (lastSpeedByte b frames).toInt8
  | [], r, b, h => ⟨r, rfl, h⟩
  | a :: frames, r, b, h => by
    have hs : (perform trig a.function a.argByte a.argWord r).speed =
        (if a.function = eRobotControlSpeed then a.argByte else b).toInt8 := by
      rw [speed_perform]
      split
      · rfl
      · exact h
    obtain ⟨r', hr', hspeed⟩ := dispatchAll_ok trig frames hs
    refine ⟨r', ?_, hspeed⟩
    rw [dispatchAll, List.foldlM_cons, a.dispatch_eq, ok_bind]
    exact hr'

theorem toInt8_nonneg_iff (b : UInt8) : 0 ≤ b.toInt8.toInt ↔ b < 128 := by
  have h : b.toInt8.toInt = b.toBitVec.toInt := rfl
  have hb := b.toNat_lt
  rw [h, BitVec.toInt_eq_toNat_cond, UInt8.lt_iff_toNat_lt, UInt8.toNat_toBitVec,
    show (128 : UInt8).toNat = 128 from rfl]
  split <;> omega

/-! ## Pad commands -/

def Forward (r : StRocRobot) : Prop := ∀ w, ∃ v, r.lastCmd w = some v ∧ 0 ≤ v

def Backward (r : StRocRobot) : Prop := ∀ w, ∃ v, r.lastCmd w = some v ∧ v ≤ 0

theorem forward_goForward_iff (r : StRocRobot) : Forward (rocRobotGoForward r) ↔ 0 ≤ r.speed.toInt := by
  have hb := speed_bounds r.speed
  have hv : ∀ w, (rocRobotGoForward r).lastCmd w = some (Int16.ofInt (r.speed.toInt * 10)) := fun w => by
    rw [rocRobotGoForward, lastCmd_motion]
    cases w <;> simp only [Wheel.pick, Int.one_mul]
  simp only [Forward, hv, Option.some.injEq, exists_eq_left', Int16.le_iff_toInt_le, Int16.toInt_zero,
    Int16.toInt_ofInt_of_le (n := r.speed.toInt * 10) (by omega) (by omega)]
  exact ⟨fun h => by have := h .leftForward; omega, fun h _ => by omega⟩

theorem backward_goBackward_iff (r : StRocRobot) : Backward (rocRobotGoBackward r) ↔ 0 ≤ r.speed.toInt := by
  have hb := speed_bounds r.speed
  have hv : ∀ w, (rocRobotGoBackward r).lastCmd w = some (Int16.ofInt (-r.speed.toInt * 10)) := fun w => by
    rw [rocRobotGoBackward, lastCmd_motion]
    cases w <;> simp only [Wheel.pick, Int.neg_mul, Int.one_mul]
  simp only [Backward, hv, Option.some.injEq, exists_eq_left', Int16.le_iff_toInt_le, Int16.toInt_zero,
    Int16.toInt_ofInt_of_le (n := -r.speed.toInt * 10) (by omega) (by omega)]
  exact ⟨fun h => by have := h .leftForward; omega, fun h _ => by omega⟩

theorem dispatchAll_pad (trig : Trig) (frames : List (Accepted out)) {pad : Accepted out} {button : UInt16}
    (hp : pad.Presses button) :
    ∃ r, r.speed = (lastSpeedByte 0 frames).toInt8 ∧
      dispatchAll out trig (frames ++ [pad]) rocRobotInit = .ok (pressButton button r) := by
  obtain ⟨r, hr, hs⟩ := dispatchAll_ok trig frames (r := rocRobotInit) (b := 0) rfl
  refine ⟨r, hs, ?_⟩
  rw [dispatchAll] at hr ⊢
  rw [List.foldlM_append, hr, ok_bind, List.foldlM_cons, pad.dispatch_eq, ok_bind, hp.1, hp.2]
  rfl

/-- **Pad commands.** Behind any sequence of accepted frames, `BT_PAD_UP` drives
no wheel backward, and `BT_PAD_DOWN` none forward, if and only if the first
payload byte of the last speed frame is below 128. -/
theorem pad_direction_iff (out : Outside) (trig : Trig) (frames : List (Accepted out)) (pad : Accepted out) :
    (pad.Presses btPadUp → ∃ r, dispatchAll out trig (frames ++ [pad]) rocRobotInit = .ok r ∧
      (Forward r ↔ lastSpeedByte 0 frames < 128)) ∧
    (pad.Presses btPadDown → ∃ r, dispatchAll out trig (frames ++ [pad]) rocRobotInit = .ok r ∧
      (Backward r ↔ lastSpeedByte 0 frames < 128)) := by
  constructor
  · intro hp
    obtain ⟨r, hs, hr⟩ := dispatchAll_pad trig frames hp
    refine ⟨_, hr, ?_⟩
    rw [← toInt8_nonneg_iff, ← hs]
    exact forward_goForward_iff r
  · intro hp
    obtain ⟨r, hs, hr⟩ := dispatchAll_pad trig frames hp
    refine ⟨_, hr, ?_⟩
    rw [← toInt8_nonneg_iff, ← hs]
    exact backward_goBackward_iff r

def padUpFrame : Frame := ⟨0, 1, eButton, [0x00, 0x08], by simp⟩

def padDownFrame : Frame := ⟨0, 1, eButton, [0x00, 0x20], by simp⟩

theorem padUpFrame_presses : (Accepted.ofFrame out padUpFrame).Presses btPadUp := by
  rw [show btPadUp = word 0x00 0x08 by decide]
  exact Accepted.ofFrame_presses rfl rfl

theorem padDownFrame_presses : (Accepted.ofFrame out padDownFrame).Presses btPadDown := by
  rw [show btPadDown = word 0x00 0x20 by decide]
  exact Accepted.ofFrame_presses rfl rfl

theorem pad_direction_50 :
    (∃ r, dispatchAll (fun _ => none) default
      ([Accepted.ofFrame _ (speedFrame 50)] ++ [Accepted.ofFrame _ padUpFrame]) rocRobotInit = .ok r ∧ Forward r) ∧
    ∃ r, dispatchAll (fun _ => none) default
      ([Accepted.ofFrame _ (speedFrame 50)] ++ [Accepted.ofFrame _ padDownFrame]) rocRobotInit = .ok r ∧
        Backward r := by
  have hlow : lastSpeedByte 0 [Accepted.ofFrame (fun _ => none) (speedFrame 50)] < 128 := by decide +kernel
  obtain ⟨r, hr, hup⟩ := (pad_direction_iff _ default _ _).1 padUpFrame_presses
  obtain ⟨r', hr', hdown⟩ := (pad_direction_iff _ default _ _).2 padDownFrame_presses
  exact ⟨⟨r, hr, hup.mpr hlow⟩, ⟨r', hr', hdown.mpr hlow⟩⟩

theorem pad_direction_200 : ¬ ∀ (out : Outside) (trig : Trig) (frames : List (Accepted out)) (pad : Accepted out)
    (r : StRocRobot), pad.Presses btPadUp → dispatchAll out trig (frames ++ [pad]) rocRobotInit = .ok r →
    Forward r := by
  intro h
  obtain ⟨r, hs, hr⟩ := dispatchAll_pad default
    [Accepted.ofFrame (fun _ => none) (speedFrame 200)] padUpFrame_presses
  have hf := (forward_goForward_iff r).mp (h _ _ _ _ _ padUpFrame_presses hr)
  rw [hs, toInt8_nonneg_iff] at hf
  exact absurd hf (by decide +kernel)

end RocCar

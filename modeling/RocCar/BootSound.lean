import RocCar.Boot

/-!
# Booting depends on what the heap held

`wheel_enable` delays by the sample time of the wheel's encoder, which
`roc_robot_init` sets after it has enabled the chassis. So the boot reads four
fields that nothing has written, and its delays are what the four blocks held.
-/

namespace RocCar.Boot

open Blocks

abbrev Mem := State Loc.Val Event

def encoderPinA : Wheel → Int32
  | .leftForward => 51
  | .leftBackward => 61
  | .rightForward => 53
  | .rightBackward => 63

def encoderPinB : Wheel → Int32
  | .leftForward => 52
  | .leftBackward => 62
  | .rightForward => 54
  | .rightBackward => 64

def wheelAt : Fin 4 → Wheel
  | 0 => .leftForward
  | 1 => .leftBackward
  | 2 => .rightForward
  | 3 => .rightBackward

structure Assembled (s : Mem) : Prop where
  cWheels : s.mem (.chassis .cWheels) = some (.to ())
  cKinematics : s.mem (.chassis .cKinematics) = some (.to ())
  totalWheels : s.mem (.kinematics .totalWheels) = some (4 : Int32)
  wheel : ∀ i, s.mem (.cWheels i) = some (.to (wheelAt i))
  wMotor : ∀ w, s.mem (.wheel w .wMotor) = some (.to w)
  wEncoder : ∀ w, s.mem (.wheel w .wEncoder) = some (.to w)
  wController : ∀ w, s.mem (.wheel w .wController) = some (.to w)
  motorEnable : ∀ w, s.mem (.motor w .enable) = some Code.singlePwmMotorEnable
  pwmDev : ∀ w, s.mem (.motor w .pwmDev) = some (.to w.motor.pwmDev)
  channel : ∀ w, s.mem (.motor w .channel) = some w.motor.channel
  encoderEnable : ∀ w, s.mem (.encoder w .enable) = some Code.abPhaseEncoderEnable
  pinA : ∀ w, s.mem (.encoder w .pinA) = some (encoderPinA w)
  pinB : ∀ w, s.mem (.encoder w .pinB) = some (encoderPinB w)

def Unsampled (s : Mem) : Prop := ∀ w, s.mem (.encoder w .sampleTime) = none

def EnableWrites : Loc → Prop
  | .encoder _ .lastValue | .encoder _ .lastTime | .controller _ .enable => True
  | _ => False

def LaterWrites : Loc → Prop
  | .encoder _ .sampleTime | .controller _ .sampleTime => True
  | l => EnableWrites l

theorem EnableWrites.later : ∀ l, EnableWrites l → LaterWrites l
  | .encoder _ .lastValue, _ | .encoder _ .lastTime, _ | .controller _ .enable, _ => trivial

theorem Assembled.frame {s s' : Mem} (h : Assembled s) (hf : ∀ l, ¬ LaterWrites l → s'.mem l = s.mem l) :
    Assembled s' where
  cWheels := (hf (.chassis .cWheels) id).trans h.cWheels
  cKinematics := (hf (.chassis .cKinematics) id).trans h.cKinematics
  totalWheels := (hf (.kinematics .totalWheels) id).trans h.totalWheels
  wheel i := (hf (.cWheels i) id).trans (h.wheel i)
  wMotor w := (hf (.wheel w .wMotor) id).trans (h.wMotor w)
  wEncoder w := (hf (.wheel w .wEncoder) id).trans (h.wEncoder w)
  wController w := (hf (.wheel w .wController) id).trans (h.wController w)
  motorEnable w := (hf (.motor w .enable) id).trans (h.motorEnable w)
  pwmDev w := (hf (.motor w .pwmDev) id).trans (h.pwmDev w)
  channel w := (hf (.motor w .channel) id).trans (h.channel w)
  encoderEnable w := (hf (.encoder w .enable) id).trans (h.encoderEnable w)
  pinA w := (hf (.encoder w .pinA) id).trans (h.pinA w)
  pinB w := (hf (.encoder w .pinB) id).trans (h.pinB w)

theorem Unsampled.frame {s s' : Mem} (h : Unsampled s) (hf : ∀ l, ¬ EnableWrites l → s'.mem l = s.mem l) :
    Unsampled s' :=
  fun w => (hf (.encoder w .sampleTime) id).trans (h w)

def Event.delay : Event → Option UInt16
  | .mdelay ms => some ms
  | _ => none

section
variable (contents : Contents) (inputs : Wheel → Inputs) {s : Mem}

theorem motorEnable_outcome (h : Assembled s) (w : Wheel) :
    Outcome contents (motorEnable (.to w)) s [] [.pwmEnable w.motor.pwmDev w.motor.channel] EnableWrites :=
  .read (h.motorEnable w) <| .read (h.pwmDev w) <| .read (h.channel w) <| .emit .ret

theorem encoderEnable_outcome (h : Assembled s) (w : Wheel) :
    Outcome contents (encoderEnable inputs (.to w)) s []
      [.pinMode (encoderPinA w) 1, .pinMode (encoderPinB w) 1, .pinAttachIrq (encoderPinA w) 2,
        .pinAttachIrq (encoderPinB w) 2, .pinIrqEnable (encoderPinA w) 1, .pinIrqEnable (encoderPinB w) 1]
      EnableWrites :=
  .read (h.encoderEnable w) <| .read (h.pinA w) <| .read (h.pinB w) <| .emit <| .emit <| .emit <| .emit <|
    .write trivial <| .write trivial <| .emit <| .emit .ret

theorem wheelEnable_outcome (h : Assembled s) (hu : Unsampled s) (w : Wheel) :
    ∃ events, Outcome contents (wheelEnable inputs (.to w)) s [.encoder w .sampleTime] events EnableWrites ∧
      events.filterMap Event.delay = [contents (.encoder w .sampleTime)] := by
  have hm := motorEnable_outcome contents h w
  have h' := h.frame (hm.mono EnableWrites.later).frame
  have he := encoderEnable_outcome contents inputs h' w
  have h'' := h'.frame (he.mono EnableWrites.later).frame
  have hu'' := (hu.frame hm.frame).frame he.frame
  refine ⟨_, .read (h.wMotor w) <| .bind hm <| .read (h'.wEncoder w) <| .bind he <| .read (h''.wEncoder w) <|
    .read_unwritten (hu'' w) <| .emit <| .read (h''.wController w) <| .write trivial .ret, ?_⟩
  rfl

theorem index_lt : ∀ i : Fin 4, Int32.ofNat i < 4 := by decide

/-- The loop of `chassis_enable`, by induction on the indices left: the wiring
and the missing sample times are what an iteration keeps. -/
theorem chassisEnableFrom_outcome : ∀ (indices : List (Fin 4)) {s : Mem}, Assembled s → Unsampled s →
    ∃ events, Outcome contents (chassisEnableFrom inputs (.to ()) indices) s
        (indices.map fun i => .encoder (wheelAt i) .sampleTime) events EnableWrites ∧
      events.filterMap Event.delay = indices.map fun i => contents (.encoder (wheelAt i) .sampleTime)
  | [], s, h, _ => ⟨[], .read h.cKinematics <| .read h.totalWheels .ret, rfl⟩
  | i :: indices, s, h, hu => by
    obtain ⟨events, hw, hd⟩ := wheelEnable_outcome contents inputs h hu (wheelAt i)
    have hi : Outcome contents (chassisWheel (.to ()) i (wheelEnable inputs)) s _ events EnableWrites :=
      .read h.cWheels <| .read (h.wheel i) hw
    obtain ⟨events', hr, hd'⟩ := chassisEnableFrom_outcome indices (h.frame (hi.mono EnableWrites.later).frame)
      (hu.frame hi.frame)
    refine ⟨events ++ events', .read h.cKinematics <| .read h.totalWheels ?_, ?_⟩
    · show Outcome contents (if Int32.ofNat i < 4 then _ else _) s _ _ _
      rw [if_pos (index_lt i)]
      exact hi.bind hr
    · rw [List.filterMap_append, hd, hd']
      rfl

variable {contents}

/-- What comes after the loop reads nothing unwritten and calls nothing. -/
def Quiet (contents : Contents) (p : Proc Unit) : Prop :=
  ∀ s, Assembled s → Outcome contents p s [] [] LaterWrites

theorem Quiet.seq {p q : Proc Unit} (hp : Quiet contents p) (hq : Quiet contents q) :
    Quiet contents (p >>= fun _ => q) :=
  fun s h => (hp s h).seq (hq _ (h.frame (hp s h).frame))

theorem setWheelSampleTime_quiet (i : Fin 4) (t : UInt16) : Quiet contents (setWheelSampleTime (.to ()) i t) :=
  fun _ h => .read h.cWheels <| .read (h.wheel i) <| .read (h.wEncoder (wheelAt i)) <| .write trivial .ret

theorem setWheelPidSampleTime_quiet (i : Fin 4) (t : UInt16) :
    Quiet contents (setWheelPidSampleTime (.to ()) i t) :=
  fun _ h => .read h.cWheels <| .read (h.wheel i) <| .read (h.wController (wheelAt i)) <| .write trivial .ret

end

/-! ## The constructors -/

section
variable (contents : Contents)

abbrev assembled : Mem := (run contents assemble {}).2

set_option maxRecDepth 4000

theorem assembled_spec : Assembled (assembled contents) where
  cWheels := rfl
  cKinematics := rfl
  totalWheels := rfl
  wheel i := by match i with | 0 => rfl | 1 => rfl | 2 => rfl | 3 => rfl
  wMotor w := by cases w <;> rfl
  wEncoder w := by cases w <;> rfl
  wController w := by cases w <;> rfl
  motorEnable w := by cases w <;> rfl
  pwmDev w := by cases w <;> rfl
  channel w := by cases w <;> rfl
  encoderEnable w := by cases w <;> rfl
  pinA w := by cases w <;> rfl
  pinB w := by cases w <;> rfl

theorem assembled_unsampled : Unsampled (assembled contents) := by
  intro w; cases w <;> rfl

theorem assembled_chas : (run contents assemble {}).1 = .to () := by
  exact rfl

theorem assemble_outcome : Outcome contents assemble {} [] (assembled contents).events fun _ => True := by
  apply Outcome.of_run
  exact rfl

theorem assembled_delays : (assembled contents).events.filterMap Event.delay = [] := by
  exact rfl

end

/-! ## The boot -/

def encoderOrder : List Wheel := [.leftForward, .leftBackward, .rightForward, .rightBackward]

theorem rocRobotInit_outcome (inputs : Wheel → Inputs) (contents : Contents) :
    ∃ events, Outcome contents (rocRobotInit inputs) {} (encoderOrder.map (.encoder · .sampleTime)) events
        (fun _ => True) ∧
      events.filterMap Event.delay = encoderOrder.map (fun w => contents (.encoder w .sampleTime)) ∧
      ∀ l, ¬ LaterWrites l → (run contents (rocRobotInit inputs) {}).2.mem l = (assembled contents).mem l := by
  obtain ⟨events, he, hd⟩ := chassisEnableFrom_outcome contents inputs [0, 1, 2, 3]
    (assembled_spec contents) (assembled_unsampled contents)
  have h := (assembled_spec contents).frame (he.mono EnableWrites.later).frame
  have hq : Quiet contents _ :=
    (setWheelSampleTime_quiet 0 sampleTime).seq <| (setWheelSampleTime_quiet 1 sampleTime).seq <|
    (setWheelSampleTime_quiet 2 sampleTime).seq <| (setWheelSampleTime_quiet 3 sampleTime).seq <|
    (setWheelPidSampleTime_quiet 0 pidSampleTime).seq <| (setWheelPidSampleTime_quiet 1 pidSampleTime).seq <|
    (setWheelPidSampleTime_quiet 2 pidSampleTime).seq <| setWheelPidSampleTime_quiet 3 pidSampleTime
  have hb := (he.mono EnableWrites.later).seq (hq _ h)
  refine ⟨(assembled contents).events ++ (events ++ []), ?_, ?_, fun l hl => ?_⟩
  · unfold rocRobotInit
    refine (assemble_outcome contents).bind ?_
    rw [assembled_chas]
    exact hb.mono fun _ _ => trivial
  · rw [List.filterMap_append, assembled_delays, List.append_nil, hd]
    rfl
  · unfold rocRobotInit chassisEnable
    rw [run_bind, assembled_chas]
    rw [hb.frame l hl]

def boot (inputs : Wheel → Inputs) (contents : Contents) : Mem := (run contents (rocRobotInit inputs) {}).2

def commandsAndDelays (inputs : Wheel → Inputs) (contents : Contents) : List Event :=
  (boot inputs contents).events.filter Event.commandOrDelay

theorem boot_early (inputs : Wheel → Inputs) (contents : Contents) :
    (boot inputs contents).early = encoderOrder.map (.encoder · .sampleTime) := by
  obtain ⟨_, he, _, _⟩ := rocRobotInit_outcome inputs contents
  unfold boot
  exact he.run_early

theorem boot_frame (inputs : Wheel → Inputs) (contents : Contents) {l : Loc} (hl : ¬ LaterWrites l) :
    (boot inputs contents).mem l = (assembled contents).mem l := by
  obtain ⟨_, _, _, hf⟩ := rocRobotInit_outcome inputs contents
  unfold boot
  exact hf l hl

theorem delays_commandsAndDelays (inputs : Wheel → Inputs) (contents : Contents) :
    (commandsAndDelays inputs contents).filterMap Event.delay =
      encoderOrder.map fun w => contents (.encoder w .sampleTime) := by
  obtain ⟨events, he, hd, _⟩ := rocRobotInit_outcome inputs contents
  unfold commandsAndDelays boot
  rw [he.run_events, ← hd, List.filterMap_filter]
  congr 1
  funext e
  cases e <;> rfl

theorem mem_encoderOrder (w : Wheel) : w ∈ encoderOrder := by
  cases w <;> decide

/-- **The boot repeats what the heap held.** Two boots make the same motor
commands and delays exactly when the four encoder blocks hold the same sample
times; these four fields, and no others, are read before they are written. -/
theorem boot_contents (inputs : Wheel → Inputs) (contents contents' : Contents) :
    (commandsAndDelays inputs contents = commandsAndDelays inputs contents' ↔
      ∀ w, contents (.encoder w .sampleTime) = contents' (.encoder w .sampleTime)) ∧
    (boot inputs contents).early = encoderOrder.map (.encoder · .sampleTime) := by
  refine ⟨⟨fun h w => ?_, fun h => ?_⟩, boot_early inputs contents⟩
  · have hd := congrArg (List.filterMap Event.delay) h
    rw [delays_commandsAndDelays, delays_commandsAndDelays] at hd
    exact List.map_inj_left.1 hd w (mem_encoderOrder w)
  · have hr : run contents' (rocRobotInit inputs) {} = run contents (rocRobotInit inputs) {} := by
      refine run_congr _ _ fun l hl => ?_
      have hb := boot_early inputs contents
      unfold boot at hb
      rw [hb] at hl
      obtain ⟨w, _, rfl⟩ := List.mem_map.1 hl
      exact h w
    unfold commandsAndDelays boot
    rw [hr]

def zeroed : Contents
  | .motor _ .enable | .motor _ .disable | .motor _ .setSpeed => Code.wild 0
  | .motor _ .pwmDev => Ptr.wild 0
  | .motor _ .channel | .motor _ .pin1 | .motor _ .pin2 => (0 : Int32)
  | .encoder _ .pulseCount | .encoder _ .lastCount | .encoder _ .pinA | .encoder _ .pinB => (0 : Int32)
  | .encoder _ .pulseRevol | .encoder _ .sampleTime => (0 : UInt16)
  | .encoder _ .lastTime => (0 : UInt32)
  | .encoder _ .lastValue => (0 : Int16)
  | .encoder _ .enable | .encoder _ .disable | .encoder _ .destroy => Code.wild 0
  | .controller _ .sampleTime => (0 : UInt16)
  | .controller _ .enable => (0 : Int32)
  | .controller _ .update | .controller _ .reset | .controller _ .destroy => Code.wild 0
  | .controller _ .kp | .controller _ .ki | .controller _ .kd | .controller _ .minimum | .controller _ .maximum
  | .controller _ .pError | .controller _ .iError | .controller _ .dError | .controller _ .error
  | .controller _ .errorL | .controller _ .errorLl | .controller _ .lastOut => (0 : UInt32)
  | .wheel _ .wMotor | .wheel _ .wEncoder | .wheel _ .wController => Ptr.wild 0
  | .wheel _ .radius => (0 : UInt32)
  | .wheel _ .gearRatio => (0 : UInt16)
  | .kinematics .kBase => Base.twoWd
  | .kinematics .lengthX | .kinematics .lengthY | .kinematics .wheelRadius => (0 : UInt32)
  | .kinematics .totalWheels => (0 : Int32)
  | .chassis .cWheels | .chassis .cKinematics => Ptr.wild 0
  | .cWheels _ => Ptr.wild 0

def dirty : Contents := Function.update zeroed (.encoder .leftForward .sampleTime) (0xFFFF : UInt16)

/-- One block that held 0xFFFF delays the boot by 65 seconds. -/
theorem boot_dirty :
    commandsAndDelays (fun _ => ⟨0, 0, 0⟩) zeroed ≠ commandsAndDelays (fun _ => ⟨0, 0, 0⟩) dirty ∧
      (boot (fun _ => ⟨0, 0, 0⟩) dirty).early ≠ [] := by
  refine ⟨fun h => ?_, ?_⟩
  · have hd := congrArg (List.filterMap Event.delay) h
    rw [delays_commandsAndDelays, delays_commandsAndDelays] at hd
    have hw := List.map_inj_left.1 hd .leftForward (mem_encoderOrder _)
    revert hw
    decide
  · rw [boot_early]
    decide

end RocCar.Boot

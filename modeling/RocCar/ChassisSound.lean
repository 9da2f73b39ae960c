import RocCar.BootSound
import RocCar.Chassis
import RocCar.Lib.Binary32

/-!
# Which wheel gets which rpm

`kinematics_get_rpm` counts the wheels row by row and `roc_robot_init` side by
side. So `chassis_set_velocity` gives the right wheel of the front the rpm of
the left wheel of the rear, and the other way round.
-/

namespace RocCar.Chassis

open Blocks Boot

abbrev Mem := State Loc.Val Event

/-! ## The wiring -/

structure Wired (s : Mem) : Prop where
  cWheels : s.mem (.boot (.chassis .cWheels)) = some (.to ())
  cKinematics : s.mem (.boot (.chassis .cKinematics)) = some (.to ())
  kBase : s.mem (.boot (.kinematics .kBase)) = some Base.mecanum
  lengthX : s.mem (.boot (.kinematics .lengthX)) = some wheelDistX
  lengthY : s.mem (.boot (.kinematics .lengthY)) = some wheelDistY
  wheelRadius : s.mem (.boot (.kinematics .wheelRadius)) = some Boot.wheelRadius
  totalWheels : s.mem (.boot (.kinematics .totalWheels)) = some (4 : Int32)
  wheel : ∀ i, s.mem (.boot (.cWheels i)) = some (.to (wheelAt i))
  wController : ∀ w, s.mem (.boot (.wheel w .wController)) = some (.to w)

def UpdateWrites : Loc → Prop
  | .boot (.encoder _ .lastCount) | .boot (.encoder _ .lastTime) => True
  | .boot (.controller _ .pError) | .boot (.controller _ .iError) | .boot (.controller _ .dError) => True
  | .boot (.controller _ .error) | .boot (.controller _ .errorL) | .boot (.controller _ .errorLl) => True
  | .boot (.controller _ .lastOut) | .output _ | .lastTime _ | .cps _ | .rpm _ => True
  | _ => False

def VelocityWrites : Loc → Prop
  | .target _ => True
  | l => UpdateWrites l

theorem UpdateWrites.velocity {l : Loc} (h : UpdateWrites l) : VelocityWrites l := by
  unfold VelocityWrites
  split
  · trivial
  · exact h

theorem Wired.frame {s s' : Mem} (h : Wired s) (hf : ∀ l, ¬ VelocityWrites l → s'.mem l = s.mem l) : Wired s' where
  cWheels := (hf (.boot (.chassis .cWheels)) id).trans h.cWheels
  cKinematics := (hf (.boot (.chassis .cKinematics)) id).trans h.cKinematics
  kBase := (hf (.boot (.kinematics .kBase)) id).trans h.kBase
  lengthX := (hf (.boot (.kinematics .lengthX)) id).trans h.lengthX
  lengthY := (hf (.boot (.kinematics .lengthY)) id).trans h.lengthY
  wheelRadius := (hf (.boot (.kinematics .wheelRadius)) id).trans h.wheelRadius
  totalWheels := (hf (.boot (.kinematics .totalWheels)) id).trans h.totalWheels
  wheel i := (hf (.boot (.cWheels i)) id).trans (h.wheel i)
  wController w := (hf (.boot (.wheel w .wController)) id).trans (h.wController w)

/-! ## What a wheel update writes -/

theorem follow_writes {α Block : Type} [Inhabited α] {W : Loc → Prop} {body : Block → Proc α} {p : Ptr Block}
    (h : ∀ block, (body block).Writes W) : (follow p body).Writes W := by
  obtain block | addr := p
  · exact h block
  · trivial

theorem motorOps_writes {W : Boot.Loc → Prop} : ∀ ops : List MotorOp, (motorOps ops).Writes W
  | [] => trivial
  | _ :: ops => motorOps_writes ops

theorem singlePwmMotorSetSpeed_writes {W : Boot.Loc → Prop} (block : Wheel) (thousands : Int16) :
    (Boot.singlePwmMotorSetSpeed (.to block) thousands).Writes W := by
  intro pwmDev channel pin1 pin2
  obtain dev | addr := pwmDev
  · exact motorOps_writes _
  · trivial

variable (r : Readings)

theorem encoderMeasureRpm_writes (enc : Wheel) : (encoderMeasureRpm r enc).Writes UpdateWrites := by
  have hcps : (encoderMeasureCps r enc).Writes UpdateWrites := by
    intro lastTime sampleTime
    refine Prog.Writes.ite ?_ ?_
    · exact fun _ => trivial
    · exact fun _ => ⟨trivial, trivial, trivial, fun _ => trivial⟩
  exact hcps.bind fun _ _ => trivial

theorem incPidControllerUpdate_writes (pid : Wheel) (currentPoint : CFloat) :
    (incPidControllerUpdate r pid currentPoint).Writes UpdateWrites := by
  intro lastTime sampleTime
  refine Prog.Writes.ite trivial ?_
  refine ⟨trivial, fun target => ⟨trivial, fun kp ki kd errorL errorLl => ⟨trivial, trivial, trivial, ?_⟩⟩⟩
  exact fun lastOut maximum minimum => ⟨trivial, trivial, trivial, trivial, trivial⟩

theorem controllerUpdate_writes (controller : Ptr Wheel) (currentPoint : CFloat) :
    (controllerUpdate r controller currentPoint).Writes UpdateWrites := by
  unfold controllerUpdate
  refine follow_writes fun block => ?_
  intro enable
  refine Prog.Writes.ite ?_ ?_
  · intro update
    cases update
    case incPidControllerUpdate => exact incPidControllerUpdate_writes r block currentPoint
    all_goals trivial
  · exact fun target => ⟨trivial, trivial⟩

theorem motorSetSpeed_writes {W : Loc → Prop} (block : Wheel) (thousands : Int16) (setSpeed : Code) :
    (motorSetSpeed block thousands setSpeed).Writes W := by
  cases setSpeed
  case singlePwmMotorSetSpeed => exact Prog.Writes.within (singlePwmMotorSetSpeed_writes block thousands)
  all_goals trivial

theorem motorRun_writes {W : Loc → Prop} (mot : Ptr Wheel) (thousands : Int16) :
    (motorRun mot thousands).Writes W := by
  unfold motorRun
  refine follow_writes fun block => ?_
  intro setSpeed
  exact (motorSetSpeed_writes block thousands setSpeed).bind fun _ => trivial

theorem wheelUpdate_writes (whl : Ptr Wheel) : (wheelUpdate r whl).Writes UpdateWrites := by
  unfold wheelUpdate
  refine follow_writes fun block => ?_
  intro wEncoder
  refine follow_writes fun enc => ?_
  refine (encoderMeasureRpm_writes r enc).bind fun rpm => ?_
  refine ⟨trivial, fun wController => ?_⟩
  refine (controllerUpdate_writes r wController _).bind fun _ => ?_
  intro wMotor wController
  refine follow_writes fun controller => ?_
  intro output
  exact (motorRun_writes wMotor _).bind fun _ => trivial

theorem chassisTotalWheels_writes {W : Loc → Prop} {body : Int32 → Proc Unit} (h : ∀ n, (body n).Writes W)
    (chas : Ptr Unit) : (chassisTotalWheels chas body).Writes W := by
  unfold chassisTotalWheels
  refine follow_writes fun _ => ?_
  intro cKinematics
  exact follow_writes fun _ totalWheels => h totalWheels

theorem chassisWheel_writes {W : Loc → Prop} {body : Ptr Wheel → Proc Unit} (h : ∀ whl, (body whl).Writes W)
    (chas : Ptr Unit) (i : Fin 4) : (chassisWheel chas i body).Writes W := by
  unfold chassisWheel
  refine follow_writes fun _ => ?_
  intro cWheels
  exact follow_writes fun _ whl => h whl

theorem forWheels_writes {W : Loc → Prop} {body : Fin 4 → Ptr Wheel → Proc Unit}
    (h : ∀ i whl, (body i whl).Writes W) (chas : Ptr Unit) : ∀ indices, (forWheels chas body indices).Writes W
  | [] => by
    refine chassisTotalWheels_writes (fun _ => Prog.Writes.ite ?_ ?_) chas
    · trivial
    · trivial
  | i :: indices => by
    refine chassisTotalWheels_writes (fun _ => Prog.Writes.ite ?_ ?_) chas
    · exact (chassisWheel_writes (h i) chas i).bind fun _ => forWheels_writes h chas indices
    · trivial

/-! ## A run over the wheels -/

section
variable (contents : Contents) {s : Mem}

theorem run_forWheels_nil (h : Wired s) (body : Fin 4 → Ptr Wheel → Proc Unit) :
    run contents (forWheels (.to ()) body []) s = ((), s) :=
  (run_read contents h.cKinematics).trans (run_read contents h.totalWheels)

theorem run_forWheels_cons (h : Wired s) (body : Fin 4 → Ptr Wheel → Proc Unit) (i : Fin 4)
    (indices : List (Fin 4)) :
    run contents (forWheels (.to ()) body (i :: indices)) s =
      run contents (forWheels (.to ()) body indices) (run contents (body i (.to (wheelAt i))) s).2 := by
  have hwheel : run contents (chassisWheel (.to ()) i (body i)) s = run contents (body i (.to (wheelAt i))) s :=
    (run_read contents h.cWheels).trans (run_read contents (h.wheel i))
  refine (run_read contents h.cKinematics).trans ((run_read contents h.totalWheels).trans ?_)
  show run contents (if Int32.ofNat i < 4 then _ else _) s = _
  rw [if_pos (index_lt i), run_bind, hwheel]

theorem Wired.set_target (h : Wired s) (w : Wheel) (v : CFloat) : Wired (s.set (.target w) v) :=
  h.frame fun l hl => s.set_ne v fun he : Loc.target w = l => hl (he ▸ trivial)

theorem run_wheelSetRpm (h : Wired s) (w : Wheel) (rpm : Int16) :
    (run contents (wheelSetRpm (.to w) rpm) s).2 = s.set (.target w) (.ofInt16 rpm) := by
  have h' := h.set_target w (.ofInt16 rpm)
  have hr : run contents (wheelSetRpm (.to w) rpm) s = _ :=
    (run_read contents (h.wController w)).trans
      ((run_read contents (h'.wController w)).trans (run_read contents (State.set_self _ _ _)))
  rw [hr]
  rfl

theorem wheelAt_injective : Function.Injective wheelAt := by
  unfold Function.Injective
  decide

def TargetSet (rpm : Vector Int16 4) (s : Mem) (i : Fin 4) : Prop :=
  s.mem (.target (wheelAt i)) = some (.ofInt16 (rpm.get i))

theorem TargetSet.set (rpm : Vector Int16 4) (i j : Fin 4) (h : i = j ∨ TargetSet rpm s i) :
    TargetSet rpm (s.set (.target (wheelAt j)) (.ofInt16 (rpm.get j))) i := by
  unfold TargetSet
  by_cases hij : i = j
  · rw [hij, State.set_self]
  · have hne : Loc.target (wheelAt j) ≠ .target (wheelAt i) :=
      fun he => hij (wheelAt_injective (Loc.target.inj he)).symm
    rw [State.set_ne _ _ hne]
    exact h.resolve_left hij

/-- The first loop of `chassis_set_rpm`, by induction on the indices left: the
wiring and the targets already set are what an iteration keeps. -/
theorem setLoop (rpm : Vector Int16 4) : ∀ (indices : List (Fin 4)) {s : Mem}, Wired s →
    let body := fun i whl => do let _ ← wheelSetRpm whl (rpm.get i)
    let s' := (run contents (forWheels (.to ()) body indices) s).2
    Wired s' ∧ ∀ i, i ∈ indices ∨ TargetSet rpm s i → TargetSet rpm s' i
  | [], s, h => by
    intro body s'
    have hs : s' = s := congrArg Prod.snd (run_forWheels_nil contents h body)
    rw [hs]
    exact ⟨h, fun i hi => hi.resolve_left List.not_mem_nil⟩
  | j :: indices, s, h => by
    intro body s'
    have hbody : (run contents (body j (.to (wheelAt j))) s).2 =
        s.set (.target (wheelAt j)) (.ofInt16 (rpm.get j)) := by
      rw [← run_wheelSetRpm contents h]
      exact congrArg Prod.snd (run_bind contents _ _ _)
    have hs : s' = _ := congrArg Prod.snd (run_forWheels_cons contents h body j indices)
    rw [hbody] at hs
    obtain ⟨hw, ht⟩ := setLoop rpm indices (h.set_target (wheelAt j) (.ofInt16 (rpm.get j)))
    rw [hs]
    refine ⟨hw, fun i hi => ht i ?_⟩
    rcases hi with hi | hi
    · rcases List.mem_cons.1 hi with rfl | hi
      · exact .inr (TargetSet.set rpm i i (.inl rfl))
      · exact .inl hi
    · exact .inr (TargetSet.set rpm i j (.inr hi))

theorem chassisSetRpm_spec (h : Wired s) (readings : Fin 4 → Readings) (rpm : Vector Int16 4) :
    let s' := (run contents (chassisSetRpm readings (.to ()) rpm) s).2
    Wired s' ∧ ∀ i, TargetSet rpm s' i := by
  intro s'
  obtain ⟨hw, ht⟩ := setLoop contents rpm (List.finRange 4) h
  have hupdate := forWheels_writes (fun i whl => wheelUpdate_writes (readings i) whl) (.to ()) (List.finRange 4)
  have hframe : ∀ l, ¬ UpdateWrites l → s'.mem l = (run contents (forWheels (.to ())
      (fun i whl => do let _ ← wheelSetRpm whl (rpm.get i)) (List.finRange 4)) s).2.mem l := by
    intro l hl
    show (run contents (chassisSetRpm readings (.to ()) rpm) s).2.mem l = _
    unfold chassisSetRpm
    rw [run_bind, run_bind]
    exact run_frame contents hl _ _ hupdate
  refine ⟨hw.frame fun l hl => hframe l fun hu => hl hu.velocity, fun i => ?_⟩
  exact (hframe _ id).trans (ht i (.inl (List.mem_finRange i)))

def builtKinematics : Kinematics :=
  ⟨.mecanum, .ofBits wheelDistX, .ofBits wheelDistY, .ofBits Boot.wheelRadius, 4⟩

theorem run_kinematicsLoad (h : Wired s) : run contents kinematicsLoad s = (builtKinematics, s) :=
  (run_read contents h.kBase).trans <| (run_read contents h.lengthX).trans <| (run_read contents h.lengthY).trans <|
    (run_read contents h.wheelRadius).trans <| run_read contents h.totalWheels

theorem chassisSetVelocity_spec (h : Wired s) (readings : Fin 4 → Readings) (v : Velocity) :
    let s' := (run contents (chassisSetVelocity readings (.to ()) v) s).2
    Wired s' ∧ ∀ i, TargetSet (kinematicsGetRpm builtKinematics v) s' i := by
  intro s'
  have hrun : run contents (chassisSetVelocity readings (.to ()) v) s = run contents (kinematicsLoad >>= _) s :=
    run_read contents h.cKinematics
  rw [run_bind, run_kinematicsLoad contents h, run_bind] at hrun
  have hs : s' = _ := congrArg Prod.snd hrun
  rw [hs]
  exact chassisSetRpm_spec contents h readings _

end

/-! ## The boot -/

def booted (inputs : Wheel → Inputs) (contents : Contents) : Mem :=
  (run contents ((Boot.rocRobotInit inputs).within Loc.boot) {}).2

theorem booted_mem (inputs : Wheel → Inputs) (contents : Contents) {l : Boot.Loc} (hl : ¬ LaterWrites l) :
    (booted inputs contents).mem (.boot l) = (assembled fun l => contents (.boot l)).mem l := by
  have hinj : Function.Injective Loc.boot := fun _ _ => Loc.boot.inj
  rw [← boot_frame inputs _ hl]
  unfold booted boot
  have h := run_within hinj contents (Boot.rocRobotInit inputs) {} {} fun _ => rfl
  rw [h.2 l]

set_option maxRecDepth 4000 in
theorem booted_wired (inputs : Wheel → Inputs) (contents : Contents) : Wired (booted inputs contents) where
  cWheels := booted_mem inputs contents id
  cKinematics := booted_mem inputs contents id
  kBase := booted_mem inputs contents id
  lengthX := booted_mem inputs contents id
  lengthY := booted_mem inputs contents id
  wheelRadius := booted_mem inputs contents id
  totalWheels := booted_mem inputs contents id
  wheel i := (booted_mem inputs contents id).trans ((assembled_spec _).wheel i)
  wController w := (booted_mem inputs contents id).trans ((assembled_spec _).wController w)

/-! ## A drive -/

structure Command where
  readings : Fin 4 → Readings
  velocity : Velocity

def obey (contents : Contents) (s : Mem) (c : Command) : Mem :=
  (run contents (chassisSetVelocity c.readings (.to ()) c.velocity) s).2

def driven (inputs : Wheel → Inputs) (contents : Contents) (commands : List Command) : Mem :=
  commands.foldl (obey contents) (booted inputs contents)

def targetOf (s : Mem) (whl : Wheel) : Option ℚ :=
  match s.mem (.boot (.wheel whl .wController)) with
  | some (.to controller) => (s.mem (.target controller)).bind fun target => Binary32.value target.unpack
  | _ => none

section
variable (inputs : Wheel → Inputs) (contents : Contents)

theorem driven_wired (commands : List Command) : Wired (driven inputs contents commands) := by
  refine List.foldlRecOn commands _ (booted_wired inputs contents) fun s hs c _ => ?_
  exact (chassisSetVelocity_spec contents hs c.readings c.velocity).1

theorem targetOf_set {s : Mem} {rpm : Vector Int16 4} {i : Fin 4} (h : Wired s) (ht : TargetSet rpm s i) :
    targetOf s (wheelAt i) = some ((rpm.get i).toInt : ℚ) := by
  have hlow := (rpm.get i).le_toInt
  have hhigh := (rpm.get i).toInt_lt
  unfold targetOf
  rw [h.wController]
  show (s.mem (.target (wheelAt i))).bind _ = _
  rw [ht]
  exact Binary32.value_ofInt (by omega)

/-- The wheels of the left side get the rpm of the front, those of the right
side the rpm of the rear. -/
structure SideBySide (s : Mem) (rpm : Rpm) : Prop where
  leftForward : targetOf s .leftForward = some (rpm.motor1.toInt16.toInt : ℚ)
  leftBackward : targetOf s .leftBackward = some (rpm.motor2.toInt16.toInt : ℚ)
  rightForward : targetOf s .rightForward = some (rpm.motor3.toInt16.toInt : ℚ)
  rightBackward : targetOf s .rightBackward = some (rpm.motor4.toInt16.toInt : ℚ)

theorem driven_sideBySide (history : List Command) (readings : Fin 4 → Readings) (v : Velocity) :
    SideBySide (driven inputs contents (history ++ [⟨readings, v⟩])) (calRpm builtKinematics v) := by
  have hs : driven inputs contents (history ++ [⟨readings, v⟩]) =
      obey contents (driven inputs contents history) ⟨readings, v⟩ := by
    simp [driven]
  obtain ⟨hw, ht⟩ := chassisSetVelocity_spec contents (driven_wired inputs contents history) readings v
  rw [hs]
  exact ⟨targetOf_set hw (ht 0), targetOf_set hw (ht 1), targetOf_set hw (ht 2), targetOf_set hw (ht 3)⟩

end

structure Wires (s : Mem) (rpm : Rpm) : Prop where
  leftForward : targetOf s .leftForward = some (rpm.motor1.toInt : ℚ)
  rightForward : targetOf s .rightForward = some (rpm.motor2.toInt : ℚ)
  leftBackward : targetOf s .leftBackward = some (rpm.motor3.toInt : ℚ)
  rightBackward : targetOf s .rightBackward = some (rpm.motor4.toInt : ℚ)

def Fits (n : Int32) : Prop := -32768 ≤ n.toInt ∧ n.toInt ≤ 32767

instance (n : Int32) : Decidable (Fits n) := inferInstanceAs (Decidable (_ ∧ _))

theorem toInt16_eq_iff (n : Int32) : n.toInt16.toInt = n.toInt ↔ Fits n := by
  unfold Fits
  constructor
  · intro h
    have hlow := n.toInt16.le_toInt
    have hhigh := n.toInt16.toInt_lt
    omega
  · intro h
    rw [Int32.toInt_toInt16]
    exact Int.bmod_eq_of_le (by omega) (by omega)

theorem toInt16_crossed_iff (m n : Int32) :
    (n.toInt16.toInt = m.toInt ∧ m.toInt16.toInt = n.toInt) ↔ m = n ∧ Fits m := by
  constructor
  · rintro ⟨hm, hn⟩
    have hlow := n.toInt16.le_toInt
    have hhigh := n.toInt16.toInt_lt
    have hfit : Fits m := ⟨by omega, by omega⟩
    rw [(toInt16_eq_iff m).2 hfit] at hn
    exact ⟨Int32.toInt_inj.1 hn, hfit⟩
  · rintro ⟨rfl, hfit⟩
    exact ⟨(toInt16_eq_iff m).2 hfit, (toInt16_eq_iff m).2 hfit⟩

theorem targetOf_eq_iff {s : Mem} {whl : Wheel} {m n : Int32} (h : targetOf s whl = some (m.toInt16.toInt : ℚ)) :
    targetOf s whl = some (n.toInt : ℚ) ↔ m.toInt16.toInt = n.toInt := by
  rw [h, Option.some_inj, Rat.intCast_inj]

theorem SideBySide.wires_iff {s : Mem} {rpm : Rpm} (h : SideBySide s rpm) :
    Wires s rpm ↔ rpm.motor2 = rpm.motor3 ∧ Fits rpm.motor1 ∧ Fits rpm.motor2 ∧ Fits rpm.motor4 := by
  constructor
  · intro w
    obtain ⟨heq, hfit⟩ := (toInt16_crossed_iff rpm.motor2 rpm.motor3).1
      ⟨(targetOf_eq_iff h.rightForward).1 w.rightForward, (targetOf_eq_iff h.leftBackward).1 w.leftBackward⟩
    have h1 := (targetOf_eq_iff h.leftForward).1 w.leftForward
    have h4 := (targetOf_eq_iff h.rightBackward).1 w.rightBackward
    exact ⟨heq, (toInt16_eq_iff _).1 h1, hfit, (toInt16_eq_iff _).1 h4⟩
  · intro ⟨heq, h1, h2, h4⟩
    obtain ⟨hright, hleft⟩ := (toInt16_crossed_iff rpm.motor2 rpm.motor3).2 ⟨heq, h2⟩
    constructor
    · exact (targetOf_eq_iff h.leftForward).2 ((toInt16_eq_iff _).2 h1)
    · exact (targetOf_eq_iff h.rightForward).2 hright
    · exact (targetOf_eq_iff h.leftBackward).2 hleft
    · exact (targetOf_eq_iff h.rightBackward).2 ((toInt16_eq_iff _).2 h4)

/-! ## The commands that are wired right -/

def xRpm (v : Velocity) : CFloat := v.linearX * .ofInt 60 / .ofBits Boot.wheelRadius

def yRpm (v : Velocity) : CFloat := v.linearY * .ofInt 60 / .ofBits Boot.wheelRadius

def tanRpm (v : Velocity) : CFloat :=
  v.angularZ * .ofInt 60 * (.ofBits wheelDistX / .ofInt 2 + .ofBits wheelDistY / .ofInt 2) / .ofBits Boot.wheelRadius

/-- The turn of the command is lost in whole rpm, and the rpm are of 16 bits. -/
structure Straight (v : Velocity) : Prop where
  turn : (xRpm v + yRpm v + tanRpm v).toInt32 = (xRpm v + yRpm v - tanRpm v).toInt32
  frontLeft : Fits (xRpm v - yRpm v - tanRpm v).toInt32
  frontRight : Fits (xRpm v + yRpm v + tanRpm v).toInt32
  rearRight : Fits (xRpm v - yRpm v + tanRpm v).toInt32

theorem straight_iff (v : Velocity) :
    Straight v ↔ (calRpm builtKinematics v).motor2 = (calRpm builtKinematics v).motor3 ∧
      Fits (calRpm builtKinematics v).motor1 ∧ Fits (calRpm builtKinematics v).motor2 ∧
      Fits (calRpm builtKinematics v).motor4 :=
  ⟨fun h => ⟨h.turn, h.frontLeft, h.frontRight, h.rearRight⟩, fun h => ⟨h.1, h.2.1, h.2.2.1, h.2.2.2⟩⟩

/-- **Two wheels are crossed.** After any commands, the next one sets the target
of each wheel to the rpm of its place exactly when its turn is lost in whole rpm
and no rpm is cut. -/
theorem driven_wires_iff (inputs : Wheel → Inputs) (contents : Contents) (history : List Command)
    (readings : Fin 4 → Readings) (v : Velocity) :
    Wires (driven inputs contents (history ++ [⟨readings, v⟩])) (calRpm builtKinematics v) ↔ Straight v :=
  (driven_sideBySide inputs contents history readings v).wires_iff.trans (straight_iff v).symm

def blank : Contents
  | .boot l => zeroed l
  | .target _ | .output _ => .ofInt 0
  | .lastTime _ => (0 : UInt32)
  | .cps _ | .rpm _ => (0 : Int16)

def spin : Velocity := ⟨.ofInt 0, .ofInt 0, .ofInt 1⟩

/-- A turn on the spot drives the front axle backward and the rear axle forward
where it should drive the sides against each other. -/
theorem spin_crossed :
    calRpm builtKinematics spin = ⟨-59, 59, -59, 59⟩ ∧
      ¬ Wires (driven (fun _ => ⟨0, 0, 0⟩) blank [⟨fun _ => ⟨0, 0, 0, 0, 0, 0⟩, spin⟩])
        (calRpm builtKinematics spin) := by
  have hrpm : calRpm builtKinematics spin = ⟨-59, 59, -59, 59⟩ := by decide
  refine ⟨hrpm, fun h => ?_⟩
  have hside := driven_sideBySide (fun _ => ⟨0, 0, 0⟩) blank [] (fun _ => ⟨0, 0, 0, 0, 0, 0⟩) spin
  have hmotor := (hside.wires_iff.1 h).1
  rw [hrpm] at hmotor
  exact absurd hmotor (by decide)

theorem unturned_turn (x y : CFloat) {z : CFloat} (hz : z = .ofBits 0 ∨ z = .ofBits 0x80000000) :
    (calRpm builtKinematics ⟨x, y, z⟩).motor2 = (calRpm builtKinematics ⟨x, y, z⟩).motor3 := by
  show (_ + tanRpm ⟨x, y, z⟩).toInt32 = (_ - tanRpm ⟨x, y, z⟩).toInt32
  rcases hz with rfl | rfl
  · have htan : tanRpm ⟨x, y, .ofBits 0⟩ = .ofBits 0 := by
      show tanRpm ⟨.ofInt 0, .ofInt 0, .ofBits 0⟩ = _
      decide
    rw [htan]
    exact Binary32.toInt32_add_zero _ (s := .positive) rfl
  · have htan : tanRpm ⟨x, y, .ofBits 0x80000000⟩ = .ofBits 0x80000000 := by
      show tanRpm ⟨.ofInt 0, .ofInt 0, .ofBits 0x80000000⟩ = _
      decide
    rw [htan]
    exact Binary32.toInt32_add_zero _ (s := .negative) rfl

theorem unturned_wires_iff (inputs : Wheel → Inputs) (contents : Contents) (history : List Command)
    (readings : Fin 4 → Readings) (x y : CFloat) {z : CFloat} (hz : z = .ofBits 0 ∨ z = .ofBits 0x80000000) :
    let rpm := calRpm builtKinematics ⟨x, y, z⟩
    Wires (driven inputs contents (history ++ [⟨readings, ⟨x, y, z⟩⟩])) rpm ↔
      Fits rpm.motor1 ∧ Fits rpm.motor2 ∧ Fits rpm.motor4 := by
  intro rpm
  rw [(driven_sideBySide inputs contents history readings ⟨x, y, z⟩).wires_iff]
  exact and_iff_right (unturned_turn x y hz)

theorem unturned_wires_iff_forward :
    Wires (driven (fun _ => ⟨0, 0, 0⟩) blank
      ([⟨fun _ => ⟨0, 0, 0, 0, 0, 0⟩, spin⟩] ++ [⟨fun _ => ⟨0, 0, 0, 0, 0, 0⟩, ⟨.ofInt 1, .ofInt 0, .ofBits 0⟩⟩]))
      (calRpm builtKinematics ⟨.ofInt 1, .ofInt 0, .ofBits 0⟩) :=
  (unturned_wires_iff (fun _ => ⟨0, 0, 0⟩) blank [⟨fun _ => ⟨0, 0, 0, 0, 0, 0⟩, spin⟩] (fun _ => ⟨0, 0, 0, 0, 0, 0⟩)
    (.ofInt 1) (.ofInt 0) (.inl rfl)).mpr (by decide)

end RocCar.Chassis

import RocCar.Boot

/-!
# Driving the chassis

`chassis_set_velocity` with the kinematics, the wheels, the encoders and the
PID controllers below it, over the blocks that the boot leaves.
-/

namespace RocCar.Chassis

open Blocks Boot

/-! ## The kinematics -/

/-- A C `float`; arithmetic rounds to nearest, and the conversion to `int` drops
the fraction and stops at the ends, as the processor's instruction does. -/
abbrev CFloat := Float32.Model

structure Velocity where
  linearX : CFloat
  linearY : CFloat
  angularZ : CFloat

structure Rpm where
  motor1 : Int32
  motor2 : Int32
  motor3 : Int32
  motor4 : Int32
  deriving DecidableEq, Repr

structure Kinematics where
  kBase : Base
  lengthX : CFloat
  lengthY : CFloat
  wheelRadius : CFloat
  totalWheels : Int32

def baseVel (kin : Kinematics) (targetVel : Velocity) : Velocity :=
  match kin.kBase with
  | .twoWd | .fourWd | .ackermann => { targetVel with linearY := .ofInt 0 }
  | .mecanum | .other _ => targetVel

def calRpm (kin : Kinematics) (targetVel : Velocity) : Rpm :=
  let targetVel := baseVel kin targetVel
  let linearVelXMins := targetVel.linearX * .ofInt 60
  let linearVelYMins := targetVel.linearY * .ofInt 60
  let angularVelZMins := targetVel.angularZ * .ofInt 60
  let tangentialVel := angularVelZMins * (kin.lengthX / .ofInt 2 + kin.lengthY / .ofInt 2)
  let xRpm := linearVelXMins / kin.wheelRadius
  let yRpm := linearVelYMins / kin.wheelRadius
  let tanRpm := tangentialVel / kin.wheelRadius
  { motor1 := (xRpm - yRpm - tanRpm).toInt32
    motor2 := (xRpm + yRpm + tanRpm).toInt32
    motor3 := (xRpm + yRpm - tanRpm).toInt32
    motor4 := (xRpm - yRpm + tanRpm).toInt32 }

/-- The four numbers of the block that `kinematics_get_rpm` returns. -/
def kinematicsGetRpm (kin : Kinematics) (targetVel : Velocity) : Vector Int16 4 :=
  let cal := calRpm kin targetVel
  match kin.kBase with
  | .twoWd => #v[cal.motor3.toInt16, cal.motor4.toInt16, 0, 0]
  | .fourWd | .mecanum => #v[cal.motor1.toInt16, cal.motor2.toInt16, cal.motor3.toInt16, cal.motor4.toInt16]
  | .ackermann => #v[targetVel.angularZ.toInt32.toInt16, cal.motor3.toInt16, cal.motor4.toInt16, 0]
  | .other _ => #v[0, 0, 0, 0]

/-! ## The blocks -/

/-- The fields of the boot, and those that it leaves alone. -/
inductive Loc where
  | boot (l : Boot.Loc)
  | target (controller : Wheel)
  | output (controller : Wheel)
  | lastTime (pid : Wheel)
  | cps (encoder : Wheel)
  | rpm (wheel : Wheel)
  deriving DecidableEq, Repr

@[reducible] def Loc.Val : Loc → Type
  | .boot l => l.Val
  | .target _ | .output _ => CFloat
  | .lastTime _ => UInt32
  | .cps _ | .rpm _ => Int16

abbrev Contents := ∀ l : Loc, l.Val

abbrev Proc := Prog Loc.Val Event

def load (l : Loc) : Proc l.Val := .read l .ret

def store (l : Loc) (v : l.Val) : Proc Unit := .write l v (.ret ())

def emit (e : Event) : Proc Unit := .emit e (.ret ())

/-- Nothing is said about what comes from behind a wild pointer. -/
def follow {α Block : Type} [Inhabited α] (p : Ptr Block) (body : Block → Proc α) : Proc α :=
  match p with
  | .to block => body block
  | .wild _ => do
    emit .stray
    return default

/-- What a `wheel_update` reads of the tick count and of the pulse count of the
encoder, both of which interrupts change: at a check, and when it is stored. -/
structure Readings where
  encoderTick : UInt32
  encoderTickStored : UInt32
  pulseCount : Int32
  pulseCountStored : Int32
  pidTick : UInt32
  pidTickStored : UInt32

def rtEok : Int32 := 0

def rtError : Int32 := 1

def rtEbusy : Int32 := 7

def rtTickPerSecond : Int32 := 1000

def rtWaitingForever : UInt32 := 0xFFFFFFFF

def rtTickFromMillisecond (ms : Int32) : UInt32 :=
  if ms < 0 then rtWaitingForever
  else (rtTickPerSecond * (ms / 1000)).toUInt32 + ((rtTickPerSecond * (ms % 1000) + 999) / 1000).toUInt32

/-! ## The encoder -/

def encoderMeasureCps (r : Readings) (enc : Wheel) : Proc Int16 := do
  let lastTime ← load (.boot (.encoder enc .lastTime))
  let sampleTime ← load (.boot (.encoder enc .sampleTime))
  if r.encoderTick - lastTime < rtTickFromMillisecond (.ofNat sampleTime.toNat) then
    load (.cps enc)
  else
    let lastCount ← load (.boot (.encoder enc .lastCount))
    let diffCount := r.pulseCount - lastCount
    store (.cps enc) (diffCount * 1000 / .ofNat sampleTime.toNat).toInt16
    store (.boot (.encoder enc .lastCount)) r.pulseCountStored
    store (.boot (.encoder enc .lastTime)) r.encoderTickStored
    load (.cps enc)

def encoderMeasureRpm (r : Readings) (enc : Wheel) : Proc Int16 := do
  let cps ← encoderMeasureCps r enc
  let pulseRevol ← load (.boot (.encoder enc .pulseRevol))
  return (cps.toInt32 * 60 / .ofNat pulseRevol.toNat).toInt16

/-! ## The controller -/

def controllerSetTarget (controller : Ptr Wheel) (target : Int16) : Proc Int32 :=
  follow controller fun block => do
    store (.target block) (.ofInt16 target)
    return rtEok

def incPidControllerUpdate (r : Readings) (pid : Wheel) (currentPoint : CFloat) : Proc Int32 := do
  let lastTime ← load (.lastTime pid)
  let sampleTime ← load (.boot (.controller pid .sampleTime))
  if r.pidTick - lastTime < rtTickFromMillisecond (.ofNat sampleTime.toNat) then
    return rtEbusy
  else
    store (.lastTime pid) r.pidTickStored
    let target ← load (.target pid)
    let error := target - currentPoint
    store (.boot (.controller pid .error)) error.toBits
    let kp ← load (.boot (.controller pid .kp))
    let ki ← load (.boot (.controller pid .ki))
    let kd ← load (.boot (.controller pid .kd))
    let errorL ← load (.boot (.controller pid .errorL))
    let errorLl ← load (.boot (.controller pid .errorLl))
    let pError := .ofBits kp * (error - .ofBits errorL)
    let iError := .ofBits ki * error
    let dError := .ofBits kd * (error - .ofInt 2 * .ofBits errorL + .ofBits errorLl)
    store (.boot (.controller pid .pError)) pError.toBits
    store (.boot (.controller pid .iError)) iError.toBits
    store (.boot (.controller pid .dError)) dError.toBits
    let lastOut ← load (.boot (.controller pid .lastOut))
    let maximum ← load (.boot (.controller pid .maximum))
    let minimum ← load (.boot (.controller pid .minimum))
    let lastOut := .ofBits lastOut + (pError + iError + dError)
    let lastOut := if .ofBits maximum < lastOut then .ofBits maximum else lastOut
    let lastOut := if lastOut < .ofBits minimum then .ofBits minimum else lastOut
    store (.boot (.controller pid .lastOut)) lastOut.toBits
    store (.boot (.controller pid .errorLl)) errorL
    store (.boot (.controller pid .errorL)) error.toBits
    store (.output pid) lastOut
    return rtEok

def controllerUpdate (r : Readings) (controller : Ptr Wheel) (currentPoint : CFloat) : Proc Int32 :=
  follow controller fun block => do
    let enable ← load (.boot (.controller block .enable))
    if enable ≠ 0 then
      let update ← load (.boot (.controller block .update))
      match update with
      | .incPidControllerUpdate => incPidControllerUpdate r block currentPoint
      | _ => do
        emit .stray
        return default
    else
      let target ← load (.target block)
      store (.output block) target
      return rtEok

/-! ## The wheel -/

def motorSetSpeed (block : Wheel) (thousands : Int16) (setSpeed : Code) : Proc Unit :=
  match setSpeed with
  | .singlePwmMotorSetSpeed => (Boot.singlePwmMotorSetSpeed (.to block) thousands).within Loc.boot
  | _ => emit .stray

def motorRun (mot : Ptr Wheel) (thousands : Int16) : Proc Int32 :=
  follow mot fun block => do
    let setSpeed ← load (.boot (.motor block .setSpeed))
    motorSetSpeed block thousands setSpeed
    return rtEok

def wheelSetRpm (whl : Ptr Wheel) (rpm : Int16) : Proc Int32 :=
  follow whl fun block => do
    let wController ← load (.boot (.wheel block .wController))
    let _ ← controllerSetTarget wController rpm
    let wController ← load (.boot (.wheel block .wController))
    follow wController fun controller => do
      let target ← load (.target controller)
      return if target == .ofInt16 rpm then rtEok else rtError

def wheelUpdate (r : Readings) (whl : Ptr Wheel) : Proc Unit :=
  follow whl fun block => do
    let wEncoder ← load (.boot (.wheel block .wEncoder))
    follow wEncoder fun enc => do
      let rpm ← encoderMeasureRpm r enc
      store (.rpm block) rpm
      let wController ← load (.boot (.wheel block .wController))
      let _ ← controllerUpdate r wController (.ofInt16 rpm)
      let wMotor ← load (.boot (.wheel block .wMotor))
      let wController ← load (.boot (.wheel block .wController))
      follow wController fun controller => do
        let output ← load (.output controller)
        let _ ← motorRun wMotor output.toInt32.toInt16

/-! ## The chassis -/

def chassisWheel (chas : Ptr Unit) (index : Fin 4) (body : Ptr Wheel → Proc Unit) : Proc Unit :=
  follow chas fun _ => do
    let cWheels ← load (.boot (.chassis .cWheels))
    follow cWheels fun _ => do
      let whl ← load (.boot (.cWheels index))
      body whl

def chassisTotalWheels (chas : Ptr Unit) (body : Int32 → Proc Unit) : Proc Unit :=
  follow chas fun _ => do
    let cKinematics ← load (.boot (.chassis .cKinematics))
    follow cKinematics fun _ => do
      let totalWheels ← load (.boot (.kinematics .totalWheels))
      body totalWheels

/-- A loop over the wheels from an index on, given the indices that are left;
behind the last one `c_wheels[4]` is outside the block. -/
def forWheels (chas : Ptr Unit) (body : Fin 4 → Ptr Wheel → Proc Unit) : List (Fin 4) → Proc Unit
  | [] => chassisTotalWheels chas fun totalWheels => if 4 < totalWheels then emit .stray else return
  | i :: indices => chassisTotalWheels chas fun totalWheels => do
    if Int32.ofNat i < totalWheels then
      chassisWheel chas i (body i)
      forWheels chas body indices

def chassisSetRpm (readings : Fin 4 → Readings) (chas : Ptr Unit) (targetRpm : Vector Int16 4) : Proc Int32 := do
  forWheels chas (fun i whl => do let _ ← wheelSetRpm whl (targetRpm.get i)) (List.finRange 4)
  forWheels chas (fun i whl => wheelUpdate (readings i) whl) (List.finRange 4)
  return rtEok

def kinematicsLoad : Proc Kinematics := do
  let kBase ← load (.boot (.kinematics .kBase))
  let lengthX ← load (.boot (.kinematics .lengthX))
  let lengthY ← load (.boot (.kinematics .lengthY))
  let wheelRadius ← load (.boot (.kinematics .wheelRadius))
  let totalWheels ← load (.boot (.kinematics .totalWheels))
  return ⟨kBase, .ofBits lengthX, .ofBits lengthY, .ofBits wheelRadius, totalWheels⟩

/-- The block of `kinematics_get_rpm` is always there, and is not freed. -/
def chassisSetVelocity (readings : Fin 4 → Readings) (chas : Ptr Unit) (targetVelocity : Velocity) : Proc Int32 :=
  follow chas fun _ => do
    let cKinematics ← load (.boot (.chassis .cKinematics))
    follow cKinematics fun _ => do
      let kin ← kinematicsLoad
      let _ ← chassisSetRpm readings chas (kinematicsGetRpm kin targetVelocity)
      return rtEok

end RocCar.Chassis

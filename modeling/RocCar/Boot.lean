import RocCar.Lib.Blocks
import RocCar.Motor

/-!
# Booting the robot

`roc_robot_init` with the constructors and the enable functions of the package
it calls, over the blocks that `rt_malloc` returns. A block is named after the
part it is asked for, a location is a field of a block. A `float` is held as
its bits.
-/

namespace RocCar.Boot

open Blocks

/-! ## The blocks -/

inductive MotorField where
  | enable | disable | setSpeed | pwmDev | channel | pin1 | pin2
  deriving DecidableEq, Repr

inductive EncoderField where
  | pulseCount | pulseRevol | sampleTime | lastTime | lastCount | enable | disable | destroy | pinA | pinB | lastValue
  deriving DecidableEq, Repr

inductive ControllerField where
  | sampleTime | enable | update | reset | destroy | kp | ki | kd | minimum | maximum
  | pError | iError | dError | error | errorL | errorLl | lastOut
  deriving DecidableEq, Repr

inductive WheelField where
  | wMotor | wEncoder | wController | radius | gearRatio
  deriving DecidableEq, Repr

inductive KinematicsField where
  | kBase | lengthX | lengthY | wheelRadius | totalWheels
  deriving DecidableEq, Repr

inductive ChassisField where
  | cWheels | cKinematics
  deriving DecidableEq, Repr

inductive Loc where
  | motor (block : Wheel) (field : MotorField)
  | encoder (block : Wheel) (field : EncoderField)
  | controller (block : Wheel) (field : ControllerField)
  | wheel (block : Wheel) (field : WheelField)
  | kinematics (field : KinematicsField)
  | chassis (field : ChassisField)
  | cWheels (index : Fin 4)
  deriving DecidableEq, Repr

/-- A pointer to a block, or an address that is none. -/
inductive Ptr (Block : Type) where
  | to (block : Block)
  | wild (addr : UInt32)
  deriving DecidableEq, Repr

/-- What a function pointer of a block can hold. -/
inductive Code where
  | singlePwmMotorEnable | singlePwmMotorDisable | singlePwmMotorSetSpeed
  | abPhaseEncoderEnable | abPhaseEncoderDisable | abPhaseEncoderDestroy
  | incPidControllerUpdate | incPidControllerReset | incPidControllerDestroy
  | wild (addr : UInt32)
  deriving DecidableEq, Repr

inductive Base where
  | twoWd | fourWd | ackermann | mecanum
  | other (value : UInt32)
  deriving DecidableEq, Repr

abbrev FloatBits := UInt32

@[reducible] def Loc.Val : Loc → Type
  | .motor _ field => match field with
    | .enable | .disable | .setSpeed => Code
    | .pwmDev => Ptr PwmDevice
    | .channel | .pin1 | .pin2 => Int32
  | .encoder _ field => match field with
    | .pulseCount | .lastCount | .pinA | .pinB => Int32
    | .pulseRevol | .sampleTime => UInt16
    | .lastTime => UInt32
    | .lastValue => Int16
    | .enable | .disable | .destroy => Code
  | .controller _ field => match field with
    | .sampleTime => UInt16
    | .enable => Int32
    | .update | .reset | .destroy => Code
    | .kp | .ki | .kd | .minimum | .maximum | .pError | .iError | .dError | .error | .errorL | .errorLl
    | .lastOut => FloatBits
  | .wheel _ field => match field with
    | .wMotor | .wEncoder | .wController => Ptr Wheel
    | .radius => FloatBits
    | .gearRatio => UInt16
  | .kinematics field => match field with
    | .kBase => Base
    | .lengthX | .lengthY | .wheelRadius => FloatBits
    | .totalWheels => Int32
  | .chassis field => match field with
    | .cWheels | .cKinematics => Ptr Unit
  | .cWheels _ => Ptr Wheel

/-- What the blocks hold when `rt_malloc` returns them. -/
abbrev Contents := ∀ l : Loc, l.Val

/-- The calls that leave the package, and accesses outside the blocks. -/
inductive Event where
  | motor (op : MotorOp)
  | pwmEnable (dev : PwmDevice) (channel : Int32)
  | pinMode (pin : Int32) (mode : UInt8)
  | pinAttachIrq (pin : Int32) (mode : UInt32)
  | pinIrqEnable (pin : Int32) (enabled : UInt32)
  | mdelay (ms : UInt16)
  | stray
  deriving DecidableEq, Repr

def Event.commandOrDelay : Event → Bool
  | .motor _ | .pwmEnable _ _ | .mdelay _ => true
  | _ => false

/-- What `rt_pin_read` and `rt_tick_get` return while an encoder is enabled. -/
structure Inputs where
  pinA : Int32
  pinB : Int32
  tick : UInt32

abbrev Proc := Prog Loc.Val Event

def load (l : Loc) : Proc l.Val := .read l .ret

def store (l : Loc) (v : l.Val) : Proc Unit := .write l v (.ret ())

def emit (e : Event) : Proc Unit := .emit e (.ret ())

def follow {Block : Type} (p : Ptr Block) (body : Block → Proc Unit) : Proc Unit :=
  match p with
  | .to block => body block
  | .wild _ => emit .stray

/-! ## The motor -/

/-- `mot` holds the arguments and the device `rt_device_find` returns. -/
def singlePwmMotorCreate (block : Wheel) (mot : SinglePwmMotor) : Proc (Ptr Wheel) := do
  store (.motor block .pwmDev) (.to mot.pwmDev)
  store (.motor block .channel) mot.channel
  store (.motor block .pin1) mot.pin1
  store (.motor block .pin2) mot.pin2
  store (.motor block .enable) .singlePwmMotorEnable
  store (.motor block .disable) .singlePwmMotorDisable
  store (.motor block .setSpeed) .singlePwmMotorSetSpeed
  let pin1 ← load (.motor block .pin1)
  emit (.pinMode pin1 0)
  let pin2 ← load (.motor block .pin2)
  emit (.pinMode pin2 0)
  return .to block

def singlePwmMotorEnable (block : Wheel) : Proc Unit := do
  let pwmDev ← load (.motor block .pwmDev)
  let channel ← load (.motor block .channel)
  follow pwmDev fun dev => emit (.pwmEnable dev channel)

def motorOps : List MotorOp → Proc Unit
  | [] => return
  | op :: ops => do
    emit (.motor op)
    motorOps ops

def singlePwmMotorSetSpeed (mot : Ptr Wheel) (thousands : Int16) : Proc Unit :=
  follow mot fun block => do
    let pwmDev ← load (.motor block .pwmDev)
    let channel ← load (.motor block .channel)
    let pin1 ← load (.motor block .pin1)
    let pin2 ← load (.motor block .pin2)
    follow pwmDev fun dev => motorOps (singlePwmMotorOps ⟨dev, channel, pin1, pin2⟩ thousands)

def motorEnable (mot : Ptr Wheel) : Proc Unit :=
  follow mot fun block => do
    let enable ← load (.motor block .enable)
    match enable with
    | .singlePwmMotorEnable => singlePwmMotorEnable block
    | _ => emit .stray

/-! ## The encoder -/

def encoderCreate (block : Wheel) : Proc (Ptr Wheel) := do
  store (.encoder block .pulseCount) 0
  store (.encoder block .lastCount) 0
  return .to block

def abPhaseEncoderCreate (block : Wheel) (pinA pinB : Int32) (pulseRevol : UInt16) : Proc (Ptr Wheel) := do
  let enc ← encoderCreate block
  store (.encoder block .pinA) pinA
  store (.encoder block .pinB) pinB
  store (.encoder block .lastValue) 0
  store (.encoder block .pulseRevol) pulseRevol
  store (.encoder block .enable) .abPhaseEncoderEnable
  store (.encoder block .disable) .abPhaseEncoderDisable
  store (.encoder block .destroy) .abPhaseEncoderDestroy
  return enc

def abPhaseEncoderEnable (inputs : Wheel → Inputs) (block : Wheel) : Proc Unit := do
  let pinA ← load (.encoder block .pinA)
  let pinB ← load (.encoder block .pinB)
  emit (.pinMode pinA 1)
  emit (.pinMode pinB 1)
  emit (.pinAttachIrq pinA 2)
  emit (.pinAttachIrq pinB 2)
  store (.encoder block .lastValue) ((inputs block).pinA * 2 + (inputs block).pinB).toInt16
  store (.encoder block .lastTime) (inputs block).tick
  emit (.pinIrqEnable pinA 1)
  emit (.pinIrqEnable pinB 1)

def encoderEnable (inputs : Wheel → Inputs) (enc : Ptr Wheel) : Proc Unit :=
  follow enc fun block => do
    let enable ← load (.encoder block .enable)
    match enable with
    | .abPhaseEncoderEnable => abPhaseEncoderEnable inputs block
    | _ => emit .stray

def encoderSetSampleTime (enc : Ptr Wheel) (sampleTime : UInt16) : Proc Unit :=
  follow enc fun block => store (.encoder block .sampleTime) sampleTime

/-! ## The controller -/

def controllerCreate (block : Wheel) : Proc (Ptr Wheel) := do
  store (.controller block .enable) 0
  return .to block

def incPidControllerCreate (block : Wheel) (kp ki kd : FloatBits) : Proc (Ptr Wheel) := do
  let pid ← controllerCreate block
  store (.controller block .kp) kp
  store (.controller block .ki) ki
  store (.controller block .kd) kd
  store (.controller block .maximum) 0x447A0000 -- +1000
  store (.controller block .minimum) 0xC47A0000 -- -1000
  store (.controller block .pError) 0
  store (.controller block .iError) 0
  store (.controller block .dError) 0
  store (.controller block .error) 0
  store (.controller block .errorL) 0
  store (.controller block .errorLl) 0
  store (.controller block .lastOut) 0
  store (.controller block .reset) .incPidControllerReset
  store (.controller block .destroy) .incPidControllerDestroy
  store (.controller block .update) .incPidControllerUpdate
  return pid

def controllerEnable (controller : Ptr Wheel) : Proc Unit :=
  follow controller fun block => store (.controller block .enable) 1

def controllerSetSampleTime (controller : Ptr Wheel) (sampleTime : UInt16) : Proc Unit :=
  follow controller fun block => store (.controller block .sampleTime) sampleTime

/-! ## The wheel -/

def wheelCreate (block : Wheel) (wMotor wEncoder wController : Ptr Wheel) (radius : FloatBits) (gearRatio : UInt16) :
    Proc (Ptr Wheel) := do
  store (.wheel block .wMotor) wMotor
  store (.wheel block .wEncoder) wEncoder
  store (.wheel block .wController) wController
  store (.wheel block .radius) radius
  store (.wheel block .gearRatio) gearRatio
  return .to block

def wheelEnable (inputs : Wheel → Inputs) (whl : Ptr Wheel) : Proc Unit :=
  follow whl fun block => do
    let wMotor ← load (.wheel block .wMotor)
    motorEnable wMotor
    let wEncoder ← load (.wheel block .wEncoder)
    encoderEnable inputs wEncoder
    let wEncoder ← load (.wheel block .wEncoder)
    follow wEncoder fun enc => do
      let sampleTime ← load (.encoder enc .sampleTime)
      emit (.mdelay sampleTime)
    let wController ← load (.wheel block .wController)
    controllerEnable wController

/-! ## The kinematics and the chassis -/

def kinematicsCreate (kBase : Base) (lengthX lengthY wheelRadius : FloatBits) : Proc (Ptr Unit) := do
  store (.kinematics .kBase) kBase
  store (.kinematics .lengthX) lengthX
  store (.kinematics .lengthY) lengthY
  store (.kinematics .wheelRadius) wheelRadius
  match kBase with
  | .twoWd => store (.kinematics .totalWheels) 2
  | .fourWd => store (.kinematics .totalWheels) 4
  | .ackermann => store (.kinematics .totalWheels) 3
  | .mecanum => store (.kinematics .totalWheels) 4
  | .other _ => pure ()
  return .to ()

def chassisCreate (cWheels cKinematics : Ptr Unit) : Proc (Ptr Unit) := do
  store (.chassis .cWheels) cWheels
  store (.chassis .cKinematics) cKinematics
  return .to ()

def chassisWheel (chas : Ptr Unit) (index : Fin 4) (body : Ptr Wheel → Proc Unit) : Proc Unit :=
  follow chas fun _ => do
    let cWheels ← load (.chassis .cWheels)
    follow cWheels fun _ => do
      let whl ← load (.cWheels index)
      body whl

def chassisTotalWheels (chas : Ptr Unit) (body : Int32 → Proc Unit) : Proc Unit :=
  follow chas fun _ => do
    let cKinematics ← load (.chassis .cKinematics)
    follow cKinematics fun _ => do
      let totalWheels ← load (.kinematics .totalWheels)
      body totalWheels

/-- The loop from an index on, given the indices that are left; behind the last
one `c_wheels[4]` is outside the block. -/
def chassisEnableFrom (inputs : Wheel → Inputs) (chas : Ptr Unit) : List (Fin 4) → Proc Unit
  | [] => chassisTotalWheels chas fun totalWheels => if 4 < totalWheels then emit .stray else return
  | i :: indices => chassisTotalWheels chas fun totalWheels => do
    if Int32.ofNat i < totalWheels then
      chassisWheel chas i (wheelEnable inputs)
      chassisEnableFrom inputs chas indices

def chassisEnable (inputs : Wheel → Inputs) (chas : Ptr Unit) : Proc Unit :=
  chassisEnableFrom inputs chas [0, 1, 2, 3]

def setWheelSampleTime (chas : Ptr Unit) (index : Fin 4) (sampleTime : UInt16) : Proc Unit :=
  chassisWheel chas index fun whl => follow whl fun block => do
    let enc ← load (.wheel block .wEncoder)
    encoderSetSampleTime enc sampleTime

def setWheelPidSampleTime (chas : Ptr Unit) (index : Fin 4) (sampleTime : UInt16) : Proc Unit :=
  chassisWheel chas index fun whl => follow whl fun block => do
    let controller ← load (.wheel block .wController)
    controllerSetSampleTime controller sampleTime

/-! ## `roc_robot_init` -/

def sampleTime : UInt16 := 1000

def pulsePerRevol : UInt16 := 20

def pidSampleTime : UInt16 := 50

def pidParamKp : FloatBits := 0x40D33333 -- 6.6

def pidParamKi : FloatBits := 0x40D00000 -- 6.5

def pidParamKd : FloatBits := 0x40F33333 -- 7.6

def wheelRadius : FloatBits := 0x3D872B02 -- 0.066

def gearRatio : UInt16 := 1

def wheelDistX : FloatBits := 0

def wheelDistY : FloatBits := 0x3E051EB8 -- 0.13

/-- The motors are those of the global `roc_robot`. -/
def rocRobotStop (leftForwardMotor leftBackwardMotor rightForwardMotor rightBackwardMotor : Ptr Wheel) : Proc Unit := do
  singlePwmMotorSetSpeed leftForwardMotor 0
  singlePwmMotorSetSpeed leftBackwardMotor 0
  singlePwmMotorSetSpeed rightForwardMotor 0
  singlePwmMotorSetSpeed rightBackwardMotor 0

/-- `roc_robot_init` up to the point where it enables the chassis. -/
def assemble : Proc (Ptr Unit) := do
  let leftForwardMotor ← singlePwmMotorCreate .leftForward Wheel.leftForward.motor
  let leftBackwardMotor ← singlePwmMotorCreate .leftBackward Wheel.leftBackward.motor
  let rightForwardMotor ← singlePwmMotorCreate .rightForward Wheel.rightForward.motor
  let rightBackwardMotor ← singlePwmMotorCreate .rightBackward Wheel.rightBackward.motor
  let leftForwardEncoder ← abPhaseEncoderCreate .leftForward 51 52 pulsePerRevol
  let leftBackwardEncoder ← abPhaseEncoderCreate .leftBackward 61 62 pulsePerRevol
  let rightForwardEncoder ← abPhaseEncoderCreate .rightForward 53 54 pulsePerRevol
  let rightBackwardEncoder ← abPhaseEncoderCreate .rightBackward 63 64 pulsePerRevol
  let leftForwardPid ← incPidControllerCreate .leftForward pidParamKp pidParamKi pidParamKd
  let leftBackwardPid ← incPidControllerCreate .leftBackward pidParamKp pidParamKi pidParamKd
  let rightForwardPid ← incPidControllerCreate .rightForward pidParamKp pidParamKi pidParamKd
  let rightBackwardPid ← incPidControllerCreate .rightBackward pidParamKp pidParamKi pidParamKd
  let leftForwardWheel ←
    wheelCreate .leftForward leftForwardMotor leftForwardEncoder leftForwardPid wheelRadius gearRatio
  store (.cWheels 0) leftForwardWheel
  let leftBackwardWheel ←
    wheelCreate .leftBackward leftBackwardMotor leftBackwardEncoder leftBackwardPid wheelRadius gearRatio
  store (.cWheels 1) leftBackwardWheel
  let rightForwardWheel ←
    wheelCreate .rightForward rightForwardMotor rightForwardEncoder rightForwardPid wheelRadius gearRatio
  store (.cWheels 2) rightForwardWheel
  let rightBackwardWheel ←
    wheelCreate .rightBackward rightBackwardMotor rightBackwardEncoder rightBackwardPid wheelRadius gearRatio
  store (.cWheels 3) rightBackwardWheel
  let cKinematics ← kinematicsCreate .mecanum wheelDistX wheelDistY wheelRadius
  let chas ← chassisCreate (.to ()) cKinematics
  rocRobotStop leftForwardMotor leftBackwardMotor rightForwardMotor rightBackwardMotor
  return chas

def rocRobotInit (inputs : Wheel → Inputs) : Proc Unit := do
  let chas ← assemble
  chassisEnable inputs chas
  setWheelSampleTime chas 0 sampleTime
  setWheelSampleTime chas 1 sampleTime
  setWheelSampleTime chas 2 sampleTime
  setWheelSampleTime chas 3 sampleTime
  setWheelPidSampleTime chas 0 pidSampleTime
  setWheelPidSampleTime chas 1 pidSampleTime
  setWheelPidSampleTime chas 2 pidSampleTime
  setWheelPidSampleTime chas 3 pidSampleTime

end RocCar.Boot

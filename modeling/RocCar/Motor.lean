import RocCar.Gpio
import RocCar.Pwm
import RocCar.Robot

/-!
# The motors

`single_pwm_motor.c` and the four motors of `roc_robot_init`. A motor command is
a sequence of calls of the pin and the PWM driver; `Board` is what these write,
the output data registers of the ports and the registers of the two timers.
-/

namespace RocCar

/-! ## The motors of the robot -/

inductive PwmDevice where
  | pwm2
  | pwm4
  deriving DecidableEq, Repr

def PwmDevice.inst : PwmDevice → TimInstance
  | .pwm2 => .tim2
  | .pwm4 => .tim4

structure SinglePwmMotor where
  pwmDev : PwmDevice
  channel : Int32
  pin1 : Int32
  pin2 : Int32
  deriving DecidableEq, Repr

def Wheel.motor : Wheel → SinglePwmMotor
  | .leftForward => ⟨.pwm4, 1, 60, 29⟩
  | .leftBackward => ⟨.pwm4, 3, 96, 67⟩
  | .rightForward => ⟨.pwm2, 1, 24, 17⟩
  | .rightBackward => ⟨.pwm2, 3, 48, 33⟩

/-! ## A motor command -/

inductive MotorOp where
  | pinWrite (pin : Int32) (value : Bool)
  | pwmSet (dev : PwmDevice) (channel : Int32) (period pulse : UInt32)
  deriving DecidableEq, Repr

def motorPwmPeriod : UInt32 := 50000

/-- The product is one of `int`s. -/
def motorPulse (thousands : Int16) : UInt32 :=
  let pluse := (motorPwmPeriod.toInt32 * thousands.toInt32 / 1000).toUInt32
  if pluse > motorPwmPeriod then motorPwmPeriod else pluse

def singlePwmMotorOps (mot : SinglePwmMotor) (thousands : Int16) : List MotorOp :=
  if thousands = 0 then
    [.pwmSet mot.pwmDev mot.channel motorPwmPeriod 0, .pinWrite mot.pin1 false, .pinWrite mot.pin2 false]
  else if thousands < 0 then
    let thousands := -thousands
    [.pinWrite mot.pin1 true, .pinWrite mot.pin2 false,
      .pwmSet mot.pwmDev mot.channel motorPwmPeriod (motorPulse thousands)]
  else
    [.pinWrite mot.pin1 false, .pinWrite mot.pin2 true,
      .pwmSet mot.pwmDev mot.channel motorPwmPeriod (motorPulse thousands)]

/-! ## The board -/

structure Board where
  tim : PwmDevice → Tim
  odr : Gpio → Fin 16 → Bool
  tim_inst : ∀ dev, (tim dev).inst = dev.inst

/-- `rt_pin_write`, which is `stm32_pin_write`. -/
def Board.rtPinWrite (b : Board) (pin : Int32) (value : Bool) : Board :=
  match pinOf pin with
  | none => b
  | some index => { b with
      odr := Function.update b.odr index.gpio (Function.update (b.odr index.gpio) index.pin value) }

def Board.rtPwmSet (rcc : Rcc) (b : Board) (dev : PwmDevice) (channel : Int32) (period pulse : UInt32) : Board where
  tim := Function.update b.tim dev (RocCar.rtPwmSet rcc (b.tim dev) channel period pulse)
  odr := b.odr
  tim_inst := by
    intro d
    by_cases h : d = dev
    · subst h
      rw [Function.update_self]
      exact b.tim_inst d
    · rw [Function.update_of_ne h]
      exact b.tim_inst d

def Board.apply (rcc : Rcc) (b : Board) : MotorOp → Board
  | .pinWrite pin value => b.rtPinWrite pin value
  | .pwmSet dev channel period pulse => b.rtPwmSet rcc dev channel period pulse

def Board.singlePwmMotorSetSpeed (rcc : Rcc) (b : Board) (mot : SinglePwmMotor) (thousands : Int16) : Board :=
  (singlePwmMotorOps mot thousands).foldl (Board.apply rcc) b

def Board.drive (rcc : Rcc) (b : Board) : List (Wheel × Int16) → Board
  | [] => b
  | (w, thousands) :: calls => (b.drive rcc calls).singlePwmMotorSetSpeed rcc w.motor thousands

/-! ## What can be seen of a motor -/

def Board.level (b : Board) (pin : Int32) : Bool :=
  match pinOf pin with
  | none => false
  | some index => b.odr index.gpio index.pin

def Board.arr (b : Board) (w : Wheel) : UInt32 := (b.tim w.motor.pwmDev).arr

def SinglePwmMotor.halChannel (mot : SinglePwmMotor) : UInt32 := 0x04 * (mot.channel.toUInt32 - 1)

def Board.ccr (b : Board) (w : Wheel) : UInt32 := (b.tim w.motor.pwmDev).getCompare w.motor.halChannel

end RocCar

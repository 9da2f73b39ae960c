/-!
# The robot's motion functions

`roc_robot.c`: the recorded status and speed, and the motor commands. `int`
arithmetic is exact in the ranges that occur; it is narrowed where the source
assigns to, or passes, an `rt_int16_t`.
-/

namespace RocCar

inductive Wheel where
  | leftForward
  | leftBackward
  | rightForward
  | rightBackward
  deriving DecidableEq, Repr

inductive RocRobotStatus where
  | eForward
  | eBack
  | eLeft
  | eRight
  | eRightRotate
  | eLeftRotate
  | eStop
  | eRunning
  | eSpeedUp
  | eSpeedDown
  | eLowPower
  deriving DecidableEq, Repr

/-- `ST_ROC_ROBOT`, zero-initialised, with the calls of
`single_pwm_motor_set_speed` made so far, latest first. -/
structure StRocRobot where
  status : RocRobotStatus := .eForward
  speed : Int8 := 0
  calls : List (Wheel × Int16) := []
  deriving DecidableEq, Repr

def StRocRobot.lastCmd (r : StRocRobot) (w : Wheel) : Option Int16 :=
  (r.calls.find? (·.1 = w)).map Prod.snd

def singlePwmMotorSetSpeed (r : StRocRobot) (w : Wheel) (thousands : Int) : StRocRobot :=
  { r with calls := (w, Int16.ofInt thousands) :: r.calls }

def setMotors (r : StRocRobot) (lf lb rf rb : Int) : StRocRobot :=
  let r := singlePwmMotorSetSpeed r .leftForward lf
  let r := singlePwmMotorSetSpeed r .leftBackward lb
  let r := singlePwmMotorSetSpeed r .rightForward rf
  singlePwmMotorSetSpeed r .rightBackward rb

/-! ## Moving by a pattern -/

/-- The wheels driven by `roc_robot.speed *10` with the signs of a motion. -/
def motion (r : StRocRobot) (lf lb rf rb : Int) (status : RocRobotStatus) : StRocRobot :=
  { setMotors r (lf * r.speed.toInt * 10) (lb * r.speed.toInt * 10) (rf * r.speed.toInt * 10)
      (rb * r.speed.toInt * 10) with status }

def rocRobotGoForward (r : StRocRobot) : StRocRobot := motion r 1 1 1 1 .eForward

def rocRobotGoBackward (r : StRocRobot) : StRocRobot := motion r (-1) (-1) (-1) (-1) .eBack

def rocRobotTurnRight (r : StRocRobot) : StRocRobot := motion r 1 (-1) (-1) 1 .eRight

def rocRobotTurnRightRotate (r : StRocRobot) : StRocRobot := motion r 1 1 (-1) (-1) .eRightRotate

def rocRobotTurnLeft (r : StRocRobot) : StRocRobot := motion r (-1) 1 1 (-1) .eLeft

def rocRobotTurnLeftRotate (r : StRocRobot) : StRocRobot := motion r (-1) (-1) 1 1 .eLeftRotate

def rocRobotStop (r : StRocRobot) : StRocRobot :=
  { setMotors r 0 0 0 0 with status := .eStop }

/-! ## Moving by a direction -/

def rocRobotRun (r : StRocRobot) (x y rotate : Int16) : StRocRobot :=
  let lfSpeed := Int16.ofInt (x.toInt + y.toInt + rotate.toInt)
  let lbSpeed := Int16.ofInt (-x.toInt + y.toInt + rotate.toInt)
  let rfSpeed := Int16.ofInt (-x.toInt + y.toInt - rotate.toInt)
  let rbSpeed := Int16.ofInt (x.toInt + y.toInt - rotate.toInt)
  setMotors r (lfSpeed.toInt * 10) (lbSpeed.toInt * 10) (rfSpeed.toInt * 10) (rbSpeed.toInt * 10)

/-- `cos(degree)*speed` and `sin(degree)*speed` as assigned to an `rt_int16_t`.
The functions of `math.h` are not part of the repository; their values lie
between -1 and 1. -/
structure Trig where
  cosTimes : UInt16 → Int8 → Int16
  sinTimes : UInt16 → Int8 → Int16
  cos_le : ∀ degree speed, (cosTimes degree speed).toInt.natAbs ≤ speed.toInt.natAbs
  sin_le : ∀ degree speed, (sinTimes degree speed).toInt.natAbs ≤ speed.toInt.natAbs

instance : Inhabited Trig := ⟨fun _ _ => 0, fun _ _ => 0, by simp, by simp⟩

def rocRobotDrive (trig : Trig) (r : StRocRobot) (degree : UInt16) : StRocRobot :=
  if degree = 0xFFFF then rocRobotStop r
  else rocRobotRun r (trig.cosTimes degree r.speed) (trig.sinTimes degree r.speed) 0

def rocRobotSetSpeed (r : StRocRobot) (s : Int16) : StRocRobot := { r with speed := s.toInt8 }

/-- `roc_robot_init` stops the motors; enabling the chassis and setting the
sample times sets no motor speed. -/
def rocRobotInit : StRocRobot := rocRobotStop {}

end RocCar

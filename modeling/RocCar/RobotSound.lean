import RocCar.Lib.Runs
import RocCar.Robot

/-!
# The recorded status and the wheels

Every motion function but `roc_robot_run` records what it makes the wheels do.
`status_agrees_iff` says for which headings `roc_robot_drive` leaves a status
that still describes the wheels.
-/

namespace RocCar

open Runs

/-! ## The last motor commands -/

def Wheel.pick {α : Type} (lf lb rf rb : α) : Wheel → α
  | .leftForward => lf
  | .leftBackward => lb
  | .rightForward => rf
  | .rightBackward => rb

theorem lastCmd_setMotors (r : StRocRobot) (lf lb rf rb : Int) (w : Wheel) :
    (setMotors r lf lb rf rb).lastCmd w = some (Int16.ofInt (w.pick lf lb rf rb)) := by
  cases w <;> simp [setMotors, singlePwmMotorSetSpeed, StRocRobot.lastCmd, Wheel.pick]

theorem lastCmd_motion (r : StRocRobot) (lf lb rf rb : Int) (status : RocRobotStatus) (w : Wheel) :
    (motion r lf lb rf rb status).lastCmd w = some (Int16.ofInt (w.pick lf lb rf rb * r.speed.toInt * 10)) := by
  have : (motion r lf lb rf rb status).lastCmd w =
      (setMotors r (lf * r.speed.toInt * 10) (lb * r.speed.toInt * 10) (rf * r.speed.toInt * 10)
        (rb * r.speed.toInt * 10)).lastCmd w := rfl
  rw [this, lastCmd_setMotors]
  cases w <;> rfl

theorem lastCmd_stop (r : StRocRobot) (w : Wheel) : (rocRobotStop r).lastCmd w = some 0 := by
  have : (rocRobotStop r).lastCmd w = (setMotors r 0 0 0 0).lastCmd w := rfl
  rw [this, lastCmd_setMotors]
  cases w <;> rfl

theorem speed_bounds (s : Int8) : -128 ≤ s.toInt ∧ s.toInt ≤ 127 :=
  ⟨s.le_toInt, Int.le_of_lt_add_one s.toInt_lt⟩

theorem lastCmd_run (r : StRocRobot) {x y : Int16} (hx : x.toInt.natAbs ≤ 128) (hy : y.toInt.natAbs ≤ 128)
    (w : Wheel) : (rocRobotRun r x y 0).lastCmd w = some (Int16.ofInt
      (w.pick (x.toInt + y.toInt) (-x.toInt + y.toInt) (-x.toInt + y.toInt) (x.toInt + y.toInt) * 10)) := by
  rw [rocRobotRun, lastCmd_setMotors]
  have h₁ : (Int16.ofInt (x.toInt + y.toInt)).toInt = x.toInt + y.toInt :=
    Int16.toInt_ofInt_of_le (by omega) (by omega)
  have h₂ : (Int16.ofInt (-x.toInt + y.toInt)).toInt = -x.toInt + y.toInt :=
    Int16.toInt_ofInt_of_le (by omega) (by omega)
  cases w <;> simp only [Wheel.pick, Int16.toInt_zero, Int.add_zero, Int.sub_zero, h₁, h₂]

theorem trig_le (trig : Trig) (degree : UInt16) (speed : Int8) :
    (trig.cosTimes degree speed).toInt.natAbs ≤ 128 ∧ (trig.sinTimes degree speed).toInt.natAbs ≤ 128 := by
  have h₁ := trig.cos_le degree speed
  have h₂ := trig.sin_le degree speed
  have := speed_bounds speed
  omega

/-! ## Commands -/

inductive Command where
  | drive (degree : UInt16)
  | setSpeed (s : Int16)
  | goForward
  | goBackward
  | turnLeft
  | turnRight
  | turnLeftRotate
  | turnRightRotate
  | stop
  deriving DecidableEq, Repr

def Command.apply (trig : Trig) (r : StRocRobot) : Command → StRocRobot
  | .drive degree => rocRobotDrive trig r degree
  | .setSpeed s => rocRobotSetSpeed r s
  | .goForward => rocRobotGoForward r
  | .goBackward => rocRobotGoBackward r
  | .turnLeft => rocRobotTurnLeft r
  | .turnRight => rocRobotTurnRight r
  | .turnLeftRotate => rocRobotTurnLeftRotate r
  | .turnRightRotate => rocRobotTurnRightRotate r
  | .stop => rocRobotStop r

/-! ## What a status says -/

def RocRobotStatus.pattern : RocRobotStatus → Option (Wheel → Int)
  | .eForward => some (Wheel.pick 1 1 1 1)
  | .eBack => some (Wheel.pick (-1) (-1) (-1) (-1))
  | .eLeft => some (Wheel.pick (-1) 1 1 (-1))
  | .eRight => some (Wheel.pick 1 (-1) (-1) 1)
  | .eLeftRotate => some (Wheel.pick (-1) (-1) 1 1)
  | .eRightRotate => some (Wheel.pick 1 1 (-1) (-1))
  | _ => none

def Commanded (r : StRocRobot) (v : Wheel → Int) : Prop :=
  ∀ w, (r.lastCmd w).map Int16.toInt = some (v w)

def StatusAgrees (r : StRocRobot) : Prop :=
  (r.status = .eStop → Commanded r fun _ => 0) ∧
    ∀ pattern, r.status.pattern = some pattern → ∃ v : Int, Commanded r fun w => v * pattern w

def KeepsStatus (status : RocRobotStatus) (x y : Int16) : Prop :=
  match status with
  | .eForward | .eBack => x = 0
  | .eLeft | .eRight => y = 0
  | .eLeftRotate | .eRightRotate | .eStop => x = 0 ∧ y = 0
  | _ => True

def DriveKeeps (trig : Trig) (r : StRocRobot) : Command → Prop
  | .drive degree =>
    degree = 0xFFFF ∨ KeepsStatus r.status (trig.cosTimes degree r.speed) (trig.sinTimes degree r.speed)
  | _ => True

theorem statusAgrees_stop (r : StRocRobot) : StatusAgrees (rocRobotStop r) := by
  refine ⟨fun _ w => by rw [lastCmd_stop]; rfl, fun pattern h => ?_⟩
  cases h

theorem statusAgrees_motion (r : StRocRobot) {lf lb rf rb : Int} {status : RocRobotStatus}
    (hp : status.pattern = some (Wheel.pick lf lb rf rb)) (hs : ∀ w, (Wheel.pick lf lb rf rb w).natAbs ≤ 1) :
    StatusAgrees (motion r lf lb rf rb status) := by
  refine ⟨fun h => ?_, fun pattern h => ⟨r.speed.toInt * 10, fun w => ?_⟩⟩
  · rw [show (motion r lf lb rf rb status).status = status from rfl] at h
    rw [h] at hp; cases hp
  · rw [show (motion r lf lb rf rb status).status = status from rfl, hp, Option.some.injEq] at h
    subst h
    have hb := speed_bounds r.speed
    have hw := hs w
    have hval : Wheel.pick lf lb rf rb w * r.speed.toInt * 10 = r.speed.toInt * 10 * Wheel.pick lf lb rf rb w := by
      rw [Int.mul_assoc, Int.mul_comm]
    rw [lastCmd_motion, Option.map_some, hval]
    have : Wheel.pick lf lb rf rb w = -1 ∨ Wheel.pick lf lb rf rb w = 0 ∨ Wheel.pick lf lb rf rb w = 1 := by omega
    rw [Int16.toInt_ofInt_of_le]
    all_goals rcases this with h | h | h <;> rw [h] <;> omega

theorem commanded_run_iff (r : StRocRobot) {x y : Int16} (hx : x.toInt.natAbs ≤ 128) (hy : y.toInt.natAbs ≤ 128)
    (v : Wheel → Int) :
    Commanded (rocRobotRun r x y 0) v ↔
      v .leftForward = (x.toInt + y.toInt) * 10 ∧ v .leftBackward = (-x.toInt + y.toInt) * 10 ∧
        v .rightForward = (-x.toInt + y.toInt) * 10 ∧ v .rightBackward = (x.toInt + y.toInt) * 10 := by
  have key : ∀ w, ((rocRobotRun r x y 0).lastCmd w).map Int16.toInt =
      some (w.pick (x.toInt + y.toInt) (-x.toInt + y.toInt) (-x.toInt + y.toInt) (x.toInt + y.toInt) * 10) := by
    intro w
    rw [lastCmd_run r hx hy, Option.map_some, Int16.toInt_ofInt_of_le]
    all_goals cases w <;> simp only [Wheel.pick] <;> omega
  constructor
  · intro h
    have h' := fun w => Option.some.inj ((key w).symm.trans (h w))
    exact ⟨(h' .leftForward).symm, (h' .leftBackward).symm, (h' .rightForward).symm, (h' .rightBackward).symm⟩
  · rintro ⟨h₁, h₂, h₃, h₄⟩ w
    rw [key w, Option.some.injEq]
    cases w <;> simp only [Wheel.pick] <;> omega

theorem eq_zero_iff (x : Int16) : x = 0 ↔ x.toInt = 0 := by
  rw [← Int16.toInt_inj]; rfl

theorem statusAgrees_run_iff (r : StRocRobot) {x y : Int16} (hx : x.toInt.natAbs ≤ 128) (hy : y.toInt.natAbs ≤ 128) :
    StatusAgrees (rocRobotRun r x y 0) ↔ KeepsStatus r.status x y := by
  have hs : (rocRobotRun r x y 0).status = r.status := rfl
  simp only [StatusAgrees, hs, commanded_run_iff r hx hy]
  cases r.status <;> simp only [RocRobotStatus.pattern, KeepsStatus, eq_zero_iff, Option.some.injEq, forall_eq',
    Wheel.pick, reduceCtorEq, false_implies, implies_true, and_self, true_and, and_true, forall_const]
  case eForward => exact ⟨fun ⟨v, h⟩ => by omega, fun h => ⟨y.toInt * 10, by omega⟩⟩
  case eBack => exact ⟨fun ⟨v, h⟩ => by omega, fun h => ⟨-y.toInt * 10, by omega⟩⟩
  case eLeft => exact ⟨fun ⟨v, h⟩ => by omega, fun h => ⟨-x.toInt * 10, by omega⟩⟩
  case eRight => exact ⟨fun ⟨v, h⟩ => by omega, fun h => ⟨x.toInt * 10, by omega⟩⟩
  case eRightRotate => exact ⟨fun ⟨v, h⟩ => by omega, fun h => ⟨0, by omega⟩⟩
  case eLeftRotate => exact ⟨fun ⟨v, h⟩ => by omega, fun h => ⟨0, by omega⟩⟩
  case eStop => omega

theorem statusAgrees_apply_iff {trig : Trig} {r : StRocRobot} (h : StatusAgrees r) (c : Command) :
    StatusAgrees (c.apply trig r) ↔ DriveKeeps trig r c := by
  have signs : ∀ {lf lb rf rb : Int}, lf.natAbs = 1 ∧ lb.natAbs = 1 ∧ rf.natAbs = 1 ∧ rb.natAbs = 1 →
      ∀ w, (Wheel.pick lf lb rf rb w).natAbs ≤ 1 := by
    rintro lf lb rf rb ⟨h₁, h₂, h₃, h₄⟩ w
    cases w <;> simp only [Wheel.pick] <;> omega
  cases c with
  | drive degree =>
    obtain ⟨hx, hy⟩ := trig_le trig degree r.speed
    simp only [Command.apply, DriveKeeps, rocRobotDrive]
    by_cases hd : degree = 0xFFFF
    · simp [hd, statusAgrees_stop]
    · rw [if_neg hd, statusAgrees_run_iff r hx hy]
      simp [hd]
  | setSpeed s => exact iff_of_true h trivial
  | goForward => exact iff_of_true (statusAgrees_motion r rfl (signs (by decide))) trivial
  | goBackward => exact iff_of_true (statusAgrees_motion r rfl (signs (by decide))) trivial
  | turnLeft => exact iff_of_true (statusAgrees_motion r rfl (signs (by decide))) trivial
  | turnRight => exact iff_of_true (statusAgrees_motion r rfl (signs (by decide))) trivial
  | turnLeftRotate => exact iff_of_true (statusAgrees_motion r rfl (signs (by decide))) trivial
  | turnRightRotate => exact iff_of_true (statusAgrees_motion r rfl (signs (by decide))) trivial
  | stop => exact iff_of_true (statusAgrees_stop r) trivial

/-- **Status invariant.** After every command of a sequence the status agrees
with the wheels, if and only if no heading is driven that the status does not
describe. -/
theorem status_agrees_iff (trig : Trig) (commands : List Command) :
    (∀ done, done <+: commands → StatusAgrees (done.foldl (Command.apply trig) rocRobotInit)) ↔
      Along (Command.apply trig) (DriveKeeps trig) rocRobotInit commands := by
  have hinit : StatusAgrees rocRobotInit := statusAgrees_stop _
  have hstep : ∀ r c, StatusAgrees r → (StatusAgrees (Command.apply trig r c) ↔ DriveKeeps trig r c) :=
    fun _ c h => statusAgrees_apply_iff h c
  rw [forall_prefix_iff hinit]
  exact along_step_iff hstep commands _ hinit

/-- `roc_robot_drive(0)` at speed 50 right after the robot has been stopped: the
status stays `E_STOP` and the wheels turn. -/
theorem status_disagrees : ¬ ∀ (trig : Trig) (commands done : List Command), done <+: commands →
    StatusAgrees (done.foldl (Command.apply trig) rocRobotInit) := by
  intro h
  -- at degree 0 the cosine is 1 and the sine 0
  let trig : Trig :=
    { cosTimes := fun degree speed => if degree = 0 then speed.toInt16 else 0
      sinTimes := fun _ _ => 0
      cos_le := by intro degree speed; split <;> simp
      sin_le := by simp }
  have hagree := h trig [.setSpeed 50, .drive 0] _ (List.prefix_refl _)
  have hw := hagree.1 rfl .leftForward
  exact absurd hw (by decide)

end RocCar

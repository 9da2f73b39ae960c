import Mathlib.Algebra.Ring.Nat
import RocCar.Motor
import RocCar.PwmSound
import RocCar.RobotSound

/-!
# From a command to the registers

A motor turns as the sign and the absolute value of its command say. The two motors
of a timer share its prescaler and auto-reload, which every command sets to the same
values (`wheels_independent`). `roc_robot_run` narrows its sums to 16 bits twice
before that (`rocRobotRun_ops_iff`).
-/

namespace RocCar

open Scale

/-! ## The pulse of a command -/

theorem int16_bounds (v : Int16) : -32768 ≤ v.toInt ∧ v.toInt ≤ 32767 :=
  ⟨v.le_toInt, Int.le_of_lt_add_one v.toInt_lt⟩

theorem motorPulse_of_pos {v : Int16} (h : 0 < v.toInt) : (motorPulse v).toNat = min 50000 (50 * v.toInt.natAbs) := by
  have hv := int16_bounds v
  have hprod : (motorPwmPeriod.toInt32 * v.toInt32).toInt = 50000 * v.toInt := by
    rw [Int32.toInt_mul, Int16.toInt_toInt32, show motorPwmPeriod.toInt32.toInt = 50000 from rfl]
    exact Int.bmod_eq_of_le (by omega) (by omega)
  have hdiv : (motorPwmPeriod.toInt32 * v.toInt32 / 1000).toInt = 50 * v.toInt := by
    rw [Int32.toInt_div, hprod, show (1000 : Int32).toInt = 1000 from rfl,
      show 50000 * v.toInt = 50 * v.toInt * 1000 by omega, Int.mul_tdiv_cancel _ (by decide)]
    exact Int.bmod_eq_of_le (by omega) (by omega)
  have hnat : (motorPwmPeriod.toInt32 * v.toInt32 / 1000).toUInt32.toNat = 50 * v.toInt.natAbs := by
    have hnonneg : 0 ≤ motorPwmPeriod.toInt32 * v.toInt32 / 1000 := by
      rw [Int32.le_iff_toInt_le, hdiv, Int32.toInt_zero]; omega
    rw [Int32.toNat_toUInt32_of_le hnonneg, Int32.toNatClampNeg, hdiv]
    omega
  have hmax : (motorPwmPeriod.toInt32 * v.toInt32 / 1000).toUInt32 > motorPwmPeriod ↔ 50000 < 50 * v.toInt.natAbs := by
    rw [gt_iff_lt, UInt32.lt_iff_toNat_lt, hnat]; rfl
  by_cases hbig : 50000 < 50 * v.toInt.natAbs
  · rw [motorPulse, if_pos (hmax.mpr hbig), show motorPwmPeriod.toNat = 50000 from rfl]; omega
  · rw [motorPulse, if_neg (mt hmax.mp hbig), hnat]; omega

/-- The driver calls that turn a motor as `n` says, with `scale` nanoseconds of
pulse for each unit. -/
def turnOps (mot : SinglePwmMotor) (n : Int) (scale : Nat) : List MotorOp :=
  if n = 0 then
    [.pwmSet mot.pwmDev mot.channel motorPwmPeriod 0, .pinWrite mot.pin1 false, .pinWrite mot.pin2 false]
  else
    [.pinWrite mot.pin1 (decide (n < 0)), .pinWrite mot.pin2 (decide (0 < n)),
      .pwmSet mot.pwmDev mot.channel motorPwmPeriod (UInt32.ofNat (min 50000 (scale * n.natAbs)))]

theorem motorPulse_eq {v : Int16} (h : 0 < v.toInt) :
    motorPulse v = UInt32.ofNat (min 50000 (50 * v.toInt.natAbs)) := by
  rw [← UInt32.toNat_inj, motorPulse_of_pos h, UInt32.toNat_ofNat']
  omega

/-- **A motor command** turns the motor as its value says. The most negative
value is its own negation, and its pulse is the maximum all the same. -/
theorem singlePwmMotorOps_eq (mot : SinglePwmMotor) (v : Int16) :
    singlePwmMotorOps mot v = turnOps mot v.toInt 50 := by
  have hzero : v = 0 ↔ v.toInt = 0 := by rw [← Int16.toInt_inj, Int16.toInt_zero]
  have hneg : v < 0 ↔ v.toInt < 0 := by rw [Int16.lt_iff_toInt_lt, Int16.toInt_zero]
  by_cases h₀ : v.toInt = 0
  · rw [singlePwmMotorOps, turnOps, if_pos (hzero.mpr h₀), if_pos h₀]
  · rw [singlePwmMotorOps, turnOps, if_neg (mt hzero.mp h₀), if_neg h₀]
    by_cases h₁ : v.toInt < 0
    · have h₂ : ¬ 0 < v.toInt := by omega
      rw [if_pos (hneg.mpr h₁)]
      by_cases hmin : v.toInt = -32768
      · obtain rfl : v = -32768 := Int16.toInt_inj.mp hmin
        rfl
      · have hv := int16_bounds v
        have hminus : (-v).toInt = -v.toInt := by
          rw [Int16.toInt_neg]
          exact Int.bmod_eq_of_le (by omega) (by omega)
        have hpulse := motorPulse_eq (v := -v) (by omega)
        rw [hminus, Int.natAbs_neg] at hpulse
        simp only [hpulse, h₁, h₂, decide_true, decide_false]
    · have h₂ : 0 < v.toInt := by omega
      rw [if_neg (mt hneg.mp h₁), motorPulse_eq h₂]
      simp only [h₁, h₂, decide_true, decide_false]

/-! ## Pins -/

variable {rcc : Rcc} (b : Board)

theorem level_rtPinWrite {pin pin' : Int32} (hpin : pinOf pin ≠ none) (value : Bool) :
    (b.rtPinWrite pin value).level pin' = if pinOf pin' = pinOf pin then value else b.level pin' := by
  obtain ⟨i, hi⟩ := Option.ne_none_iff_exists'.mp hpin
  unfold Board.level Board.rtPinWrite
  simp only [hi]
  cases hj : pinOf pin' with
  | none => simp
  | some j =>
    simp only [Option.some.injEq]
    by_cases hgpio : j.gpio = i.gpio
    · by_cases hbit : j.pin = i.pin
      · have hji : j = i := by cases i; cases j; simp_all
        simp [hji]
      · have hji : j ≠ i := fun h => hbit (h ▸ rfl)
        simp [hgpio, hbit, hji]
    · have hji : j ≠ i := fun h => hgpio (h ▸ rfl)
      simp [hgpio, hji]

@[simp] theorem tim_rtPinWrite (pin : Int32) (value : Bool) : (b.rtPinWrite pin value).tim = b.tim := by
  unfold Board.rtPinWrite
  split <;> rfl

@[simp] theorem level_rtPwmSet (dev : PwmDevice) (channel : Int32) (period pulse : UInt32) (pin : Int32) :
    (b.rtPwmSet rcc dev channel period pulse).level pin = b.level pin := rfl

theorem motor_pin_ne_none (w : Wheel) : pinOf w.motor.pin1 ≠ none ∧ pinOf w.motor.pin2 ≠ none := by
  cases w <;> decide

theorem motor_pin1_ne_pin2 (w w' : Wheel) : pinOf w.motor.pin1 ≠ pinOf w'.motor.pin2 := by
  cases w <;> cases w' <;> decide

theorem motor_pin_inj {w w' : Wheel} (h : w' ≠ w) :
    pinOf w.motor.pin1 ≠ pinOf w'.motor.pin1 ∧ pinOf w.motor.pin2 ≠ pinOf w'.motor.pin2 := by
  cases w <;> cases w' <;> first | exact absurd rfl h | decide

theorem motor_channel_ne {w w' : Wheel} (h : w' ≠ w) (hdev : w.motor.pwmDev = w'.motor.pwmDev) :
    ccrOf w.motor.halChannel ≠ ccrOf w'.motor.halChannel := by
  cases w <;> cases w' <;> first | exact absurd rfl h | exact absurd hdev (by decide) | decide

/-! ## A command on the board -/

def pulseNs (v : Int16) : UInt32 := UInt32.ofNat (min 50000 (50 * v.toInt.natAbs))

theorem pulseNs_toNat (v : Int16) : (pulseNs v).toNat = min 50000 (50 * v.toInt.natAbs) := by
  rw [pulseNs, UInt32.toNat_ofNat']
  omega

def SinglePwmMotor.configuration (mot : SinglePwmMotor) (v : Int16) : RtPwmConfiguration :=
  ⟨mot.channel.toUInt32, motorPwmPeriod, pulseNs v⟩

theorem setSpeed_tim (mot : SinglePwmMotor) (v : Int16) :
    (b.singlePwmMotorSetSpeed rcc mot v).tim =
      Function.update b.tim mot.pwmDev (drvPwmSet rcc (b.tim mot.pwmDev) (mot.configuration v)) := by
  rw [Board.singlePwmMotorSetSpeed, singlePwmMotorOps_eq, turnOps, SinglePwmMotor.configuration]
  split
  · rename_i h
    have hpulse : pulseNs v = 0 := by rw [← UInt32.toNat_inj, pulseNs_toNat, h]; rfl
    simp only [List.foldl_cons, List.foldl_nil, Board.apply, tim_rtPinWrite, hpulse]
    rfl
  · simp only [List.foldl_cons, List.foldl_nil, Board.apply, Board.rtPwmSet, tim_rtPinWrite, pulseNs]
    rfl

theorem setSpeed_level (w : Wheel) (v : Int16) (pin : Int32) :
    (b.singlePwmMotorSetSpeed rcc w.motor v).level pin =
      if pinOf pin = pinOf w.motor.pin2 then decide (0 < v.toInt)
      else if pinOf pin = pinOf w.motor.pin1 then decide (v.toInt < 0)
      else b.level pin := by
  have hpins := motor_pin_ne_none w
  rw [Board.singlePwmMotorSetSpeed, singlePwmMotorOps_eq, turnOps]
  split
  · rename_i h
    simp only [List.foldl_cons, List.foldl_nil, Board.apply, level_rtPinWrite _ hpins.1, level_rtPinWrite _ hpins.2,
      level_rtPwmSet, h, Int.lt_irrefl, decide_false]
  · simp only [List.foldl_cons, List.foldl_nil, Board.apply, level_rtPwmSet, level_rtPinWrite _ hpins.1,
      level_rtPinWrite _ hpins.2]

/-! ## Any order of commands -/

def lastSpeed (calls : List (Wheel × Int16)) (w : Wheel) : Option Int16 := (calls.find? (·.1 = w)).map Prod.snd

abbrev Rcc.motorMhz (rcc : Rcc) : UInt64 := rcc.mhz .tim2

theorem mhz_tim (rcc : Rcc) (dev : PwmDevice) : rcc.mhz (b.tim dev).inst = rcc.motorMhz := by
  rw [b.tim_inst]
  cases dev <;> rfl

structure Shown (rcc : Rcc) (b : Board) (w : Wheel) (v : Int16) : Prop where
  pin1 : b.level w.motor.pin1 = decide (v.toInt < 0)
  pin2 : b.level w.motor.pin2 = decide (0 < v.toInt)
  arr : (b.arr w).toNat + 1 = periodOf rcc.motorMhz.toNat 50000
  ccr : (b.ccr w).toNat + 1 = pulseOf rcc.motorMhz.toNat 50000 (min 50000 (50 * v.toInt.natAbs))

theorem arr_setSpeed (hc : rcc.motorMhz.toNat ≤ 80) {w w' : Wheel} (hdev : w.motor.pwmDev = w'.motor.pwmDev)
    (v : Int16) : ((b.singlePwmMotorSetSpeed rcc w'.motor v).arr w).toNat + 1 =
      periodOf rcc.motorMhz.toNat 50000 := by
  have harr := drvPwmSet_arr rcc (b.tim w'.motor.pwmDev) (w'.motor.configuration v)
    (by rw [mhz_tim]; exact hc)
  rw [mhz_tim] at harr
  rw [Board.arr, setSpeed_tim, hdev, Function.update_self]
  exact harr

theorem shown_setSpeed (hc : rcc.motorMhz.toNat ≤ 80) (w : Wheel) (v : Int16) :
    Shown rcc (b.singlePwmMotorSetSpeed rcc w.motor v) w v := by
  refine ⟨?_, ?_, arr_setSpeed b hc rfl v, ?_⟩
  · rw [setSpeed_level, if_neg (motor_pin1_ne_pin2 w w), if_pos rfl]
  · rw [setSpeed_level, if_pos rfl]
  · have hccr := drvPwmSet_ccr rcc (b.tim w.motor.pwmDev) (w.motor.configuration v)
      (by rw [mhz_tim]; exact hc)
    rw [mhz_tim] at hccr
    rw [Board.ccr, setSpeed_tim, Function.update_self, ← pulseNs_toNat]
    exact hccr

/-- A command of another motor rewrites the auto-reload with the value it has. -/
theorem Shown.other {b : Board} {w w' : Wheel} {v : Int16} (h : Shown rcc b w v) (hc : rcc.motorMhz.toNat ≤ 80)
    (hw : w' ≠ w) (v' : Int16) : Shown rcc (b.singlePwmMotorSetSpeed rcc w'.motor v') w v := by
  obtain ⟨hpin1, hpin2⟩ := motor_pin_inj hw
  refine ⟨?_, ?_, ?_, ?_⟩
  · rw [setSpeed_level, if_neg (motor_pin1_ne_pin2 w w'), if_neg hpin1, h.pin1]
  · rw [setSpeed_level, if_neg hpin2, if_neg (motor_pin1_ne_pin2 w' w).symm, h.pin2]
  · by_cases hdev : w.motor.pwmDev = w'.motor.pwmDev
    · exact arr_setSpeed b hc hdev v'
    · rw [Board.arr, setSpeed_tim, Function.update_of_ne hdev]
      exact h.arr
  · rw [Board.ccr, setSpeed_tim]
    by_cases hdev : w.motor.pwmDev = w'.motor.pwmDev
    · have hch := drvPwmSet_ccr_of_ne rcc (b.tim w'.motor.pwmDev) (w'.motor.configuration v')
        (motor_channel_ne hw hdev)
      rw [hdev, Function.update_self, hch, ← hdev]
      exact h.ccr
    · rw [Function.update_of_ne hdev]
      exact h.ccr

theorem shown_drive (hc : rcc.motorMhz.toNat ≤ 80) {w : Wheel} {v : Int16} : ∀ {calls : List (Wheel × Int16)},
    lastSpeed calls w = some v → Shown rcc (b.drive rcc calls) w v
  | [], h => by cases h
  | (w', v') :: calls, h => by
    by_cases hw : w' = w
    · subst hw
      have hv : v' = v := by simpa [lastSpeed] using h
      rw [← hv]
      exact shown_setSpeed _ hc w' v'
    · have hlast : lastSpeed calls w = some v := by simpa [lastSpeed, hw] using h
      exact (shown_drive hc hlast).other hc hw v'

theorem pulseOf_mono (c period : Nat) {p p' : Nat} (h : p ≤ p') : pulseOf c period p ≤ pulseOf c period p' := by
  have := blocks_mono (a := c) (b := 1000) (q := pscOf c period) h
  unfold pulseOf
  omega

/-- **The wheels are independent.** After any sequence of motor commands, latest
first, a motor shows the sign and the absolute value of its own last command,
whatever the commands of the others were. -/
theorem wheels_independent (rcc : Rcc) (hc : rcc.motorMhz ≤ 80) :
    (∀ (b : Board) (calls : List (Wheel × Int16)) (w : Wheel) (v : Int16), lastSpeed calls w = some v →
      let b' := b.drive rcc calls
      b'.level w.motor.pin1 = decide (v < 0) ∧ b'.level w.motor.pin2 = decide (0 < v) ∧ b'.ccr w ≤ b'.arr w) ∧
    (∀ (b₁ b₂ : Board) (calls₁ calls₂ : List (Wheel × Int16)) (w : Wheel) (v₁ v₂ : Int16),
      lastSpeed calls₁ w = some v₁ → lastSpeed calls₂ w = some v₂ → v₁.toInt.natAbs ≤ v₂.toInt.natAbs →
      (b₁.drive rcc calls₁).arr w = (b₂.drive rcc calls₂).arr w ∧
        (b₁.drive rcc calls₁).ccr w ≤ (b₂.drive rcc calls₂).ccr w) ∧
    ∀ (b : Board) (calls : List (Wheel × Int16)) (w w' : Wheel) (v v' : Int16), lastSpeed calls w = some v → w' ≠ w →
      let b₁ := b.drive rcc calls
      let b₂ := b.drive rcc ((w', v') :: calls)
      b₂.level w.motor.pin1 = b₁.level w.motor.pin1 ∧ b₂.level w.motor.pin2 = b₁.level w.motor.pin2 ∧
        b₂.arr w = b₁.arr w ∧ b₂.ccr w = b₁.ccr w := by
  have hc : rcc.motorMhz.toNat ≤ 80 := UInt64.le_iff_toNat_le.mp hc
  refine ⟨?_, ?_, ?_⟩
  · intro b calls w v h
    have hs := shown_drive b hc h
    have hle := pulseOf_le rcc.motorMhz.toNat 50000 (min 50000 (50 * v.toInt.natAbs))
    refine ⟨?_, ?_, ?_⟩
    · rw [hs.pin1, decide_eq_decide, Int16.lt_iff_toInt_lt, Int16.toInt_zero]
    · rw [hs.pin2, decide_eq_decide, Int16.lt_iff_toInt_lt, Int16.toInt_zero]
    · rw [UInt32.le_iff_toNat_le]
      have := hs.arr
      have := hs.ccr
      omega
  · intro b₁ b₂ calls₁ calls₂ w v₁ v₂ h₁ h₂ hle
    have hs₁ := shown_drive b₁ hc h₁
    have hs₂ := shown_drive b₂ hc h₂
    have hmono := pulseOf_mono rcc.motorMhz.toNat 50000
      (show min 50000 (50 * v₁.toInt.natAbs) ≤ min 50000 (50 * v₂.toInt.natAbs) by omega)
    refine ⟨?_, ?_⟩
    · rw [← UInt32.toNat_inj]
      exact Nat.succ.inj (hs₁.arr.trans hs₂.arr.symm)
    · rw [UInt32.le_iff_toNat_le]
      have := hs₁.ccr
      have := hs₂.ccr
      omega
  · intro b calls w w' v v' h hw
    have hs₁ := shown_drive b hc h
    have hs₂ := hs₁.other hc hw v'
    refine ⟨hs₂.pin1.trans hs₁.pin1.symm, hs₂.pin2.trans hs₁.pin2.symm, ?_, ?_⟩
    · rw [← UInt32.toNat_inj]
      exact Nat.succ.inj (hs₂.arr.trans hs₁.arr.symm)
    · rw [← UInt32.toNat_inj]
      exact Nat.succ.inj (hs₂.ccr.trans hs₁.ccr.symm)

/-- Two motors of one timer, whose channels share its prescaler and auto-reload. -/
theorem wheels_independent_80 :
    let rcc : Rcc := ⟨80000000, 80000000⟩
    let b : Board := ⟨fun dev => ⟨dev.inst, 0, 0, fun _ => 0, .div1, rfl⟩, fun _ _ => false, fun _ => rfl⟩
    let b₁ := b.drive rcc [(.leftForward, -500)]
    let b₂ := b.drive rcc [(.leftBackward, 800), (.leftForward, -500)]
    let b₃ := b.drive rcc [(.leftForward, 800), (.leftBackward, -32768)]
    (b₂.level 60 = true ∧ b₂.level 29 = false ∧ b₂.ccr .leftForward ≤ b₂.arr .leftForward) ∧
      (b₂.arr .leftForward = b₃.arr .leftForward ∧ b₂.ccr .leftForward ≤ b₃.ccr .leftForward) ∧
      b₂.level 60 = b₁.level 60 ∧ b₂.level 29 = b₁.level 29 ∧ b₂.arr .leftForward = b₁.arr .leftForward ∧
        b₂.ccr .leftForward = b₁.ccr .leftForward := by
  intro rcc b b₁ b₂ b₃
  obtain ⟨hshows, hmono, hother⟩ := wheels_independent rcc (by decide)
  exact ⟨hshows b [(.leftBackward, 800), (.leftForward, -500)] .leftForward (-500) (by decide),
    hmono b b [(.leftBackward, 800), (.leftForward, -500)] [(.leftForward, 800), (.leftBackward, -32768)] .leftForward
      (-500) 800 (by decide) (by decide) (by decide),
    hother b [(.leftForward, -500)] .leftForward .leftBackward (-500) 800 (by decide) (by decide)⟩

/-! ## Wheel mixing -/

def mix (x y rotate : Int16) : Wheel → Int :=
  Wheel.pick (x.toInt + y.toInt + rotate.toInt) (-x.toInt + y.toInt + rotate.toInt)
    (-x.toInt + y.toInt - rotate.toInt) (x.toInt + y.toInt - rotate.toInt)

theorem toInt_twice (m : Int) : (Int16.ofInt ((Int16.ofInt m).toInt * 10)).toInt = (m * 10).bmod 65536 := by
  rw [Int16.toInt_ofInt, Int16.toInt_ofInt]
  exact Int.bmod_mul_bmod

theorem lastCmd_rocRobotRun (r : StRocRobot) (x y rotate : Int16) (w : Wheel) :
    (rocRobotRun r x y rotate).lastCmd w =
      some (Int16.ofInt ((Int16.ofInt (mix x y rotate w)).toInt * 10)) := by
  rw [rocRobotRun, lastCmd_setMotors]
  cases w <;> rfl

theorem turnOps_eq_iff {mot : SinglePwmMotor} {a m : Int} {k l : Nat} : turnOps mot a k = turnOps mot m l ↔
    (a = 0 ↔ m = 0) ∧ (a < 0 ↔ m < 0) ∧ min 50000 (k * a.natAbs) = min 50000 (l * m.natAbs) := by
  have hpulse : UInt32.ofNat (min 50000 (k * a.natAbs)) = UInt32.ofNat (min 50000 (l * m.natAbs)) ↔
      min 50000 (k * a.natAbs) = min 50000 (l * m.natAbs) := by
    rw [← UInt32.toNat_inj, UInt32.toNat_ofNat', UInt32.toNat_ofNat']
    omega
  by_cases ha : a = 0
  · by_cases hm : m = 0
    · simp [turnOps, ha, hm]
    · simp [turnOps, ha, hm]
  · by_cases hm : m = 0
    · simp [turnOps, ha, hm]
    · rw [turnOps, turnOps, if_neg ha, if_neg hm]
      simp only [List.cons.injEq, MotorOp.pinWrite.injEq, MotorOp.pwmSet.injEq,
        decide_eq_decide, true_and, and_true, hpulse, ha, hm, iff_self]
      have ha' : 0 < a ↔ ¬ a < 0 := by omega
      have hm' : 0 < m ↔ ¬ m < 0 := by omega
      rw [ha', hm', not_iff_not, and_self_left]

/-- The sum `m` is small, or ten times it lands in the saturated range of its
sign when it is narrowed to 16 bits. -/
def Unwrapped (m : Int) : Prop :=
  m.natAbs ≤ 100 ∨
    (1000 ≤ m.natAbs * 10 % 65536 ∧ m.natAbs * 10 % 65536 ≤ if m < 0 then 32768 else 32767)

instance (m : Int) : Decidable (Unwrapped m) := inferInstanceAs (Decidable (_ ∨ _))

/-- `n` times ten, narrowed to 16 bits with the greatest value `k`. -/
theorem wrap_iff {n k : Nat} (hk : k = 32767 ∨ k = 32768) {u : Int}
    (hu : u = if n * 10 % 65536 ≤ k then ((n * 10 % 65536 : Nat) : Int) else ((n * 10 % 65536 : Nat) : Int) - 65536) :
    ((u = 0 ↔ n = 0) ∧ 0 ≤ u ∧ min 50000 (50 * u.natAbs) = min 50000 (500 * n)) ↔
      n ≤ 100 ∨ 1000 ≤ n * 10 % 65536 ∧ n * 10 % 65536 ≤ k := by
  by_cases hs : n ≤ 100
  · have : n * 10 % 65536 = n * 10 := by omega
    rw [this, if_pos (by omega)] at hu
    omega
  · have hlt : n * 10 % 65536 < 65536 := Nat.mod_lt _ (by decide)
    revert hlt hu
    generalize n * 10 % 65536 = r
    intro hu hlt
    split at hu <;> omega

theorem unwrapped_iff (m : Int) :
    (((m * 10).bmod 65536 = 0 ↔ m = 0) ∧ ((m * 10).bmod 65536 < 0 ↔ m < 0) ∧
      min 50000 (50 * ((m * 10).bmod 65536).natAbs) = min 50000 (500 * m.natAbs)) ↔ Unwrapped m := by
  rcases Int.natAbs_eq m with hm | hm
  · have hu : (m * 10).bmod 65536 = if m.natAbs * 10 % 65536 ≤ 32767 then ((m.natAbs * 10 % 65536 : Nat) : Int)
        else ((m.natAbs * 10 % 65536 : Nat) : Int) - 65536 := by
      rw [Int.bmod_def]
      split <;> split <;> omega
    have hneg : ¬ m < 0 := by omega
    rw [Unwrapped, if_neg hneg, ← wrap_iff (.inl rfl) hu]
    omega
  · by_cases h0 : m = 0
    · rw [h0]; decide
    have hu : -(m * 10).bmod 65536 = if m.natAbs * 10 % 65536 ≤ 32768 then ((m.natAbs * 10 % 65536 : Nat) : Int)
        else ((m.natAbs * 10 % 65536 : Nat) : Int) - 65536 := by
      rw [Int.bmod_def]
      split <;> split <;> omega
    have hneg : m < 0 := by omega
    rw [Unwrapped, if_pos hneg, ← wrap_iff (.inr rfl) hu]
    omega

/-- **Wheel mixing** turns every wheel as its exact sum says, saturated at the
full period, if and only if no sum wraps on its way to the motor. -/
theorem rocRobotRun_ops_iff (r : StRocRobot) (x y rotate : Int16) :
    (∀ w, ∃ v, (rocRobotRun r x y rotate).lastCmd w = some v ∧
      singlePwmMotorOps w.motor v = turnOps w.motor (mix x y rotate w) 500) ↔
      ∀ w, Unwrapped (mix x y rotate w) := by
  simp only [lastCmd_rocRobotRun, Option.some.injEq, exists_eq_left', singlePwmMotorOps_eq, turnOps_eq_iff, toInt_twice,
    unwrapped_iff]

/-- The sum of left forward is 3300: it should saturate, and turns backward. -/
theorem rocRobotRun_wraps : ¬ ∀ (r : StRocRobot) (x y rotate : Int16) (w : Wheel),
    ∃ v, (rocRobotRun r x y rotate).lastCmd w = some v ∧
      singlePwmMotorOps w.motor v = turnOps w.motor (mix x y rotate w) 500 := by
  intro h
  obtain ⟨v, hv, hops⟩ := h {} 3300 0 0 .leftForward
  rw [lastCmd_rocRobotRun, Option.some.injEq] at hv
  subst hv
  exact absurd hops (by decide)

end RocCar

import Mathlib.Analysis.Real.Pi.Irrational
import Mathlib.Analysis.SpecialFunctions.Trigonometric.Angle
import RocCar.Lib.Trunc
import RocCar.RobotSound

/-!
# Headings

The protocol gives a heading in degrees; `roc_robot_drive` passes the number to
`cos` and `sin`, which take radians. The heading is right for degree 0 and when
the robot stands still. Elsewhere the direction is another one, and only the
truncation can hide it.
-/

namespace RocCar

open Trunc

/-! ## Exact trigonometry -/

theorem natAbs_trunc_times_le (speed : Int8) {c : ℝ} (hc : |c| ≤ 1) :
    (trunc (speed.toInt * c)).natAbs ≤ speed.toInt.natAbs := by
  apply natAbs_trunc_le
  rw [abs_mul, Nat.cast_natAbs, Int.cast_abs]
  exact mul_le_of_le_one_right (abs_nonneg _) hc

theorem toInt_trunc_times (speed : Int8) {c : ℝ} (hc : |c| ≤ 1) :
    (Int16.ofInt (trunc (speed.toInt * c))).toInt = trunc (speed.toInt * c) := by
  have h := natAbs_trunc_times_le speed hc
  have hb := speed_bounds speed
  exact Int16.toInt_ofInt_of_le (by omega) (by omega)

/-- The real functions at the angle that a degree stands for, truncated toward
zero after the multiplication by the speed. -/
noncomputable def trigAt (angle : UInt16 → ℝ) : Trig where
  cosTimes degree speed := Int16.ofInt (trunc (speed.toInt * Real.cos (angle degree)))
  sinTimes degree speed := Int16.ofInt (trunc (speed.toInt * Real.sin (angle degree)))
  cos_le degree speed := by
    rw [toInt_trunc_times speed (Real.abs_cos_le_one _)]
    exact natAbs_trunc_times_le speed (Real.abs_cos_le_one _)
  sin_le degree speed := by
    rw [toInt_trunc_times speed (Real.abs_sin_le_one _)]
    exact natAbs_trunc_times_le speed (Real.abs_sin_le_one _)

/-- `cos(degree)` and `sin(degree)` as `math.h` has them. -/
noncomputable def mathTrig : Trig := trigAt fun degree => degree.toNat

noncomputable def headingTrig : Trig := trigAt fun degree => Real.pi * degree.toNat / 180

theorem toInt_cosTimes (angle : UInt16 → ℝ) (degree : UInt16) (speed : Int8) :
    ((trigAt angle).cosTimes degree speed).toInt = trunc (speed.toInt * Real.cos (angle degree)) :=
  toInt_trunc_times speed (Real.abs_cos_le_one _)

theorem toInt_sinTimes (angle : UInt16 → ℝ) (degree : UInt16) (speed : Int8) :
    ((trigAt angle).sinTimes degree speed).toInt = trunc (speed.toInt * Real.sin (angle degree)) :=
  toInt_trunc_times speed (Real.abs_sin_le_one _)

/-! ## Turning the heading -/

theorem angle_add (degree k : UInt16) (h : degree.toNat + k.toNat < 2 ^ 16) :
    Real.pi * ((degree + k).toNat : ℝ) / 180 = Real.pi * degree.toNat / 180 + Real.pi * k.toNat / 180 := by
  rw [UInt16.toNat_add, Nat.mod_eq_of_lt h]
  push_cast
  ring

theorem headingTrig_add_360 (degree : UInt16) (speed : Int8) (h : degree.toNat + 360 < 2 ^ 16) :
    headingTrig.cosTimes (degree + 360) speed = headingTrig.cosTimes degree speed ∧
      headingTrig.sinTimes (degree + 360) speed = headingTrig.sinTimes degree speed := by
  have hangle : Real.pi * ((degree + 360).toNat : ℝ) / 180 = Real.pi * degree.toNat / 180 + 2 * Real.pi := by
    rw [angle_add degree 360 h, show (360 : UInt16).toNat = 360 from rfl]
    push_cast
    ring
  rw [← Int16.toInt_inj, ← Int16.toInt_inj, headingTrig, toInt_cosTimes, toInt_cosTimes, toInt_sinTimes,
    toInt_sinTimes, hangle, Real.cos_add_two_pi, Real.sin_add_two_pi]
  exact ⟨rfl, rfl⟩

theorem headingTrig_add_180 (degree : UInt16) (speed : Int8) (h : degree.toNat + 180 < 2 ^ 16) :
    (headingTrig.cosTimes (degree + 180) speed).toInt = -(headingTrig.cosTimes degree speed).toInt ∧
      (headingTrig.sinTimes (degree + 180) speed).toInt = -(headingTrig.sinTimes degree speed).toInt := by
  have hangle : Real.pi * ((degree + 180).toNat : ℝ) / 180 = Real.pi * degree.toNat / 180 + Real.pi := by
    rw [angle_add degree 180 h, show (180 : UInt16).toNat = 180 from rfl]
    push_cast
    ring
  rw [headingTrig, toInt_cosTimes, toInt_cosTimes, toInt_sinTimes, toInt_sinTimes, hangle, Real.cos_add_pi,
    Real.sin_add_pi, mul_neg, mul_neg, trunc_neg, trunc_neg]
  exact ⟨rfl, rfl⟩

/-! ## Radians and degrees -/

def FollowsHeading (r : StRocRobot) (degree : UInt16) : Prop :=
  rocRobotDrive mathTrig r degree =
    rocRobotRun r (headingTrig.cosTimes degree r.speed) (headingTrig.sinTimes degree r.speed) 0

def AnglesAgree (degree : UInt16) (speed : Int8) : Prop :=
  trunc (speed.toInt * Real.cos degree.toNat) = trunc (speed.toInt * Real.cos (Real.pi * degree.toNat / 180)) ∧
    trunc (speed.toInt * Real.sin degree.toNat) = trunc (speed.toInt * Real.sin (Real.pi * degree.toNat / 180))

theorem anglesAgree_iff (degree : UInt16) (speed : Int8) :
    AnglesAgree degree speed ↔ mathTrig.cosTimes degree speed = headingTrig.cosTimes degree speed ∧
      mathTrig.sinTimes degree speed = headingTrig.sinTimes degree speed := by
  rw [← Int16.toInt_inj, ← Int16.toInt_inj, mathTrig, headingTrig, toInt_cosTimes, toInt_cosTimes, toInt_sinTimes,
    toInt_sinTimes, AnglesAgree]

theorem commanded_run (r : StRocRobot) (x y : Int16) (hx : x.toInt.natAbs ≤ 128) (hy : y.toInt.natAbs ≤ 128) :
    Commanded (rocRobotRun r x y 0) (Wheel.pick ((x.toInt + y.toInt) * 10) ((-x.toInt + y.toInt) * 10)
      ((-x.toInt + y.toInt) * 10) ((x.toInt + y.toInt) * 10)) :=
  (commanded_run_iff r hx hy _).mpr ⟨rfl, rfl, rfl, rfl⟩

def SameWheels (r r' : StRocRobot) : Prop := ∀ w, r'.lastCmd w = r.lastCmd w

def OppositeWheels (r r' : StRocRobot) : Prop :=
  ∀ w, (r'.lastCmd w).map Int16.toInt = (r.lastCmd w).map fun v => -v.toInt

theorem sameWheels_run_iff (r : StRocRobot) {x y x' y' : Int16} (hx : x.toInt.natAbs ≤ 128)
    (hy : y.toInt.natAbs ≤ 128) (hx' : x'.toInt.natAbs ≤ 128) (hy' : y'.toInt.natAbs ≤ 128) :
    SameWheels (rocRobotRun r x y 0) (rocRobotRun r x' y' 0) ↔ x = x' ∧ y = y' := by
  have hc := commanded_run r x y hx hy
  have hc' := commanded_run r x' y' hx' hy'
  constructor
  · intro h
    have h₁ := Option.some.inj ((hc' .leftForward).symm.trans ((congrArg _ (h .leftForward)).trans (hc .leftForward)))
    have h₂ := Option.some.inj
      ((hc' .leftBackward).symm.trans ((congrArg _ (h .leftBackward)).trans (hc .leftBackward)))
    simp only [Wheel.pick] at h₁ h₂
    exact ⟨Int16.toInt_inj.mp (by omega), Int16.toInt_inj.mp (by omega)⟩
  · rintro ⟨rfl, rfl⟩ w
    rfl

theorem oppositeWheels_run_iff (r : StRocRobot) {x y x' y' : Int16} (hx : x.toInt.natAbs ≤ 128)
    (hy : y.toInt.natAbs ≤ 128) (hx' : x'.toInt.natAbs ≤ 128) (hy' : y'.toInt.natAbs ≤ 128) :
    OppositeWheels (rocRobotRun r x y 0) (rocRobotRun r x' y' 0) ↔ x'.toInt = -x.toInt ∧ y'.toInt = -y.toInt := by
  have hc := commanded_run r x y hx hy
  have hc' := commanded_run r x' y' hx' hy'
  have hneg : ∀ w, ((rocRobotRun r x y 0).lastCmd w).map (fun v => -v.toInt) = some (-Wheel.pick
      ((x.toInt + y.toInt) * 10) ((-x.toInt + y.toInt) * 10) ((-x.toInt + y.toInt) * 10)
      ((x.toInt + y.toInt) * 10) w) := by
    intro w
    obtain ⟨v, hv, hval⟩ := Option.map_eq_some_iff.mp (hc w)
    rw [hv, Option.map_some, hval]
  constructor
  · intro h
    have h₁ := Option.some.inj ((hc' .leftForward).symm.trans ((h .leftForward).trans (hneg .leftForward)))
    have h₂ := Option.some.inj ((hc' .leftBackward).symm.trans ((h .leftBackward).trans (hneg .leftBackward)))
    simp only [Wheel.pick] at h₁ h₂
    omega
  · rintro ⟨h₁, h₂⟩ w
    rw [hc' w, hneg w, Option.some.injEq]
    cases w <;> simp only [Wheel.pick] <;> omega

theorem drive_eq (trig : Trig) (r : StRocRobot) {degree : UInt16} (hd : degree ≠ 0xFFFF) :
    rocRobotDrive trig r degree = rocRobotRun r (trig.cosTimes degree r.speed) (trig.sinTimes degree r.speed) 0 := by
  rw [rocRobotDrive, if_neg hd]

theorem followsHeading_iff (r : StRocRobot) (degree : UInt16) (hd : degree ≠ 0xFFFF) :
    FollowsHeading r degree ↔ AnglesAgree degree r.speed := by
  rw [FollowsHeading, drive_eq mathTrig r hd, anglesAgree_iff]
  have hm := trig_le mathTrig degree r.speed
  have hh := trig_le headingTrig degree r.speed
  constructor
  · intro h
    exact (sameWheels_run_iff r hm.1 hm.2 hh.1 hh.2).mp fun w => by rw [h]
  · rintro ⟨hx, hy⟩
    rw [hx, hy]

theorem anglesAgree_zero (speed : Int8) : AnglesAgree 0 speed := by simp [AnglesAgree]

theorem anglesAgree_still (degree : UInt16) : AnglesAgree degree 0 := by simp [AnglesAgree]

/-! ## Right angles

A whole number of radians other than 0 is no multiple of a right angle, so none
of the headings 90, 180, 270, … is driven at any speed. -/

theorem natCast_ne_mul_pi {n : ℕ} (hn : 0 < n) (q : ℚ) : (n : ℝ) ≠ q * Real.pi := by
  intro h
  have hq : (q : ℝ) ≠ 0 := by
    intro hq
    rw [hq, zero_mul, Nat.cast_eq_zero] at h
    omega
  refine irrational_pi ⟨n / q, ?_⟩
  push_cast
  rw [h]
  field_simp

theorem sin_natCast_ne_zero {n : ℕ} (hn : 0 < n) : Real.sin n ≠ 0 := by
  rw [ne_eq, Real.sin_eq_zero_iff]
  rintro ⟨k, hk⟩
  exact natCast_ne_mul_pi hn k (by push_cast; exact hk.symm)

theorem cos_natCast_ne_zero {n : ℕ} (hn : 0 < n) : Real.cos n ≠ 0 := by
  rw [ne_eq, Real.cos_eq_zero_iff]
  rintro ⟨k, hk⟩
  refine natCast_ne_mul_pi hn ((2 * k + 1) / 2) ?_
  push_cast
  rw [hk]
  ring

theorem abs_lt_one_of_sq {a b : ℝ} (hb : b ≠ 0) (h : a ^ 2 + b ^ 2 = 1) : |a| < 1 := by
  rw [← sq_lt_one_iff_abs_lt_one]
  have := sq_pos_of_ne_zero hb
  linarith

theorem natAbs_trunc_times_lt {speed : Int8} {c : ℝ} (hs : speed ≠ 0) (hc : |c| < 1) :
    (trunc (speed.toInt * c)).natAbs < speed.toInt.natAbs := by
  have hspeed : speed.toInt ≠ 0 := fun h => hs (Int8.toInt_inj.mp h)
  apply natAbs_trunc_lt
  rw [abs_mul, Nat.cast_natAbs, Int.cast_abs]
  have : 0 < |(speed.toInt : ℝ)| := abs_pos.mpr (Int.cast_ne_zero.mpr hspeed)
  exact mul_lt_of_lt_one_right this hc

/-- A component that is all of the speed is not one of an angle that is no
multiple of a right angle. -/
theorem trunc_times_ne {speed : Int8} {c e : ℝ} (hs : speed ≠ 0) (hc : |c| < 1) (he : e ^ 2 = 1) :
    trunc (speed.toInt * c) ≠ trunc (speed.toInt * e) := by
  have hsmall := natAbs_trunc_times_lt hs hc
  intro heq
  rw [heq] at hsmall
  rw [sq] at he
  rcases mul_self_eq_one_iff.mp he with rfl | rfl
  · rw [mul_one, trunc_intCast] at hsmall
    exact absurd hsmall (lt_irrefl _)
  · rw [mul_neg_one, trunc_neg, trunc_intCast, Int.natAbs_neg] at hsmall
    exact absurd hsmall (lt_irrefl _)

theorem abs_components_lt {degree : UInt16} (hd : degree ≠ 0) :
    |Real.cos degree.toNat| < 1 ∧ |Real.sin degree.toNat| < 1 := by
  have hpos : 0 < degree.toNat := Nat.pos_of_ne_zero fun h => hd (UInt16.toNat_inj.mp h)
  exact ⟨abs_lt_one_of_sq (sin_natCast_ne_zero hpos) (Real.cos_sq_add_sin_sq _),
    abs_lt_one_of_sq (cos_natCast_ne_zero hpos) (Real.sin_sq_add_cos_sq _)⟩

theorem anglesAgree_right_iff {degree : UInt16} {speed : Int8} (hd : degree ≠ 0) (h90 : 90 ∣ degree.toNat) :
    AnglesAgree degree speed ↔ speed = 0 := by
  obtain ⟨hcos, hsin⟩ := abs_components_lt hd
  constructor
  · rintro ⟨hx, hy⟩
    by_contra hs
    obtain ⟨k, hk⟩ := h90
    set angle := Real.pi * degree.toNat / 180 with hangle
    -- twice the angle is a multiple of π, so one component is 0 and the other all of the speed
    have hdouble : 2 * Real.sin angle * Real.cos angle = 0 := by
      rw [← Real.sin_two_mul, hangle, hk, show 2 * (Real.pi * ((90 * k : ℕ) : ℝ) / 180) = k * Real.pi by
        push_cast; ring]
      exact Real.sin_nat_mul_pi k
    have hone := Real.cos_sq_add_sin_sq angle
    rcases mul_eq_zero.mp hdouble with hzero | hzero
    · have hzero : Real.sin angle = 0 := by linarith
      rw [hzero] at hone
      exact trunc_times_ne hs hcos (by linarith) hx
    · rw [hzero] at hone
      exact trunc_times_ne hs hsin (by linarith) hy
  · rintro rfl
    exact anglesAgree_still degree

/-- At a speed of 1 a component that is not all of it is lost. -/
theorem trunc_unit_eq_zero {speed : Int8} {c : ℝ} (hs : speed.toInt.natAbs = 1) (hc : |c| < 1) :
    trunc (speed.toInt * c) = 0 := by
  have hspeed : speed ≠ 0 := by
    rintro rfl
    exact absurd hs (by decide)
  have hsmall := natAbs_trunc_times_lt hspeed hc
  omega

theorem abs_components_heading_lt {degree : UInt16} (h90 : ¬ 90 ∣ degree.toNat) :
    |Real.cos (Real.pi * degree.toNat / 180)| < 1 ∧ |Real.sin (Real.pi * degree.toNat / 180)| < 1 := by
  have hpi := Real.pi_ne_zero
  have hsin : Real.sin (Real.pi * degree.toNat / 180) ≠ 0 := by
    rw [ne_eq, Real.sin_eq_zero_iff]
    rintro ⟨k, hk⟩
    have hreal : (degree.toNat : ℝ) = 180 * k := by
      field_simp at hk
      linarith
    have hint : (degree.toNat : ℤ) = 180 * k := by exact_mod_cast hreal
    exact h90 (Int.natCast_dvd_natCast.mp ⟨2 * k, by rw [hint]; ring⟩)
  have hcos : Real.cos (Real.pi * degree.toNat / 180) ≠ 0 := by
    rw [ne_eq, Real.cos_eq_zero_iff]
    rintro ⟨k, hk⟩
    have hreal : (degree.toNat : ℝ) = 90 * (2 * k + 1) := by
      field_simp at hk
      linarith
    have hint : (degree.toNat : ℤ) = 90 * (2 * k + 1) := by exact_mod_cast hreal
    exact h90 (Int.natCast_dvd_natCast.mp ⟨2 * k + 1, by rw [hint]; rfl⟩)
  exact ⟨abs_lt_one_of_sq hsin (Real.cos_sq_add_sin_sq _), abs_lt_one_of_sq hcos (Real.sin_sq_add_cos_sq _)⟩

theorem anglesAgree_unit_iff {degree : UInt16} {speed : Int8} (hs : speed.toInt.natAbs = 1) :
    AnglesAgree degree speed ↔ degree = 0 ∨ ¬ 90 ∣ degree.toNat := by
  have hspeed : speed ≠ 0 := by
    rintro rfl
    exact absurd hs (by decide)
  by_cases hd : degree = 0
  · subst hd
    exact iff_of_true (anglesAgree_zero speed) (.inl rfl)
  · by_cases h90 : 90 ∣ degree.toNat
    · rw [anglesAgree_right_iff hd h90]
      exact iff_of_false hspeed (by simp [hd, h90])
    · obtain ⟨hcos, hsin⟩ := abs_components_lt hd
      obtain ⟨hcos', hsin'⟩ := abs_components_heading_lt h90
      refine iff_of_true ⟨?_, ?_⟩ (.inr h90)
      · rw [trunc_unit_eq_zero hs hcos, trunc_unit_eq_zero hs hcos']
      · rw [trunc_unit_eq_zero hs hsin, trunc_unit_eq_zero hs hsin']

/-! ## Before the truncation -/

def ComponentsAgree (degree : UInt16) (speed : Int8) : Prop :=
  speed.toInt * Real.cos degree.toNat = speed.toInt * Real.cos (Real.pi * degree.toNat / 180) ∧
    speed.toInt * Real.sin degree.toNat = speed.toInt * Real.sin (Real.pi * degree.toNat / 180)

theorem componentsAgree_iff {degree : UInt16} {speed : Int8} :
    ComponentsAgree degree speed ↔ degree = 0 ∨ speed = 0 := by
  constructor
  · rintro ⟨hx, hy⟩
    by_contra hne
    obtain ⟨hd, hs⟩ := not_or.mp hne
    have hpos : 0 < degree.toNat := Nat.pos_of_ne_zero fun h => hd (UInt16.toNat_inj.mp h)
    have hspeed : (speed.toInt : ℝ) ≠ 0 := Int.cast_ne_zero.mpr fun h => hs (Int8.toInt_inj.mp h)
    have hangle := Real.Angle.cos_sin_inj (mul_left_cancel₀ hspeed hx) (mul_left_cancel₀ hspeed hy)
    -- two angles of one direction differ by full turns, and the degree would be a multiple of π
    obtain ⟨k, hk⟩ := Real.Angle.angle_eq_iff_two_pi_dvd_sub.mp hangle
    refine natCast_ne_mul_pi hpos (2 * k + degree.toNat / 180) ?_
    push_cast
    linarith
  · rintro (rfl | rfl) <;> simp [ComponentsAgree]

/-! ## Turns -/

def FullTurnKeeps (r : StRocRobot) (degree : UInt16) : Prop :=
  SameWheels (rocRobotDrive mathTrig r degree) (rocRobotDrive mathTrig r (degree + 360))

def HalfTurnReverses (r : StRocRobot) (degree : UInt16) : Prop :=
  OppositeWheels (rocRobotDrive mathTrig r degree) (rocRobotDrive mathTrig r (degree + 180))

theorem add_ne {degree k : UInt16} (h : degree.toNat + k.toNat < 0xFFFF) :
    degree + k ≠ 0xFFFF ∧ (k ≠ 0 → degree + k ≠ 0) := by
  have hadd : (degree + k).toNat = degree.toNat + k.toNat := by rw [UInt16.toNat_add, Nat.mod_eq_of_lt (by omega)]
  refine ⟨fun he => ?_, fun hk he => hk (UInt16.toNat_inj.mp ?_)⟩
  · rw [he] at hadd
    exact absurd hadd (Nat.ne_of_gt h)
  · rw [he] at hadd
    change 0 = _ at hadd
    change _ = 0
    omega

theorem components_lt {degree : UInt16} {speed : Int8} (hd : degree ≠ 0) (hs : speed ≠ 0) :
    (mathTrig.cosTimes degree speed).toInt.natAbs < speed.toInt.natAbs ∧
      (mathTrig.sinTimes degree speed).toInt.natAbs < speed.toInt.natAbs := by
  obtain ⟨hcos, hsin⟩ := abs_components_lt hd
  rw [mathTrig, toInt_cosTimes, toInt_sinTimes]
  exact ⟨natAbs_trunc_times_lt hs hcos, natAbs_trunc_times_lt hs hsin⟩

theorem cosTimes_zero (speed : Int8) : (mathTrig.cosTimes 0 speed).toInt = speed.toInt := by
  have hzero : ((0 : UInt16).toNat : ℝ) = 0 := Nat.cast_zero
  rw [mathTrig, toInt_cosTimes, hzero, Real.cos_zero, mul_one, trunc_intCast]

theorem components_turn_iff {degree k : UInt16} {speed : Int8} {e : ℤ} (he : e.natAbs = 1) (hk : k ≠ 0)
    (h : degree.toNat + k.toNat < 0xFFFF) (hcase : degree = 0 ∨ speed.toInt.natAbs = 1) :
    (mathTrig.cosTimes (degree + k) speed).toInt = e * (mathTrig.cosTimes degree speed).toInt ∧
      (mathTrig.sinTimes (degree + k) speed).toInt = e * (mathTrig.sinTimes degree speed).toInt ↔
    speed = 0 ∨ degree ≠ 0 := by
  by_cases hs : speed = 0
  · subst hs
    have hzero : ∀ d, (mathTrig.cosTimes d 0).toInt = 0 ∧ (mathTrig.sinTimes d 0).toInt = 0 := fun d =>
      ⟨Int.natAbs_eq_zero.mp (Nat.le_zero.mp (mathTrig.cos_le d 0)),
        Int.natAbs_eq_zero.mp (Nat.le_zero.mp (mathTrig.sin_le d 0))⟩
    refine iff_of_true ?_ (.inl rfl)
    rw [(hzero _).1, (hzero _).1, (hzero _).2, (hzero _).2, mul_zero]
    exact ⟨rfl, rfl⟩
  · have hlt := components_lt ((add_ne h).2 hk) hs
    by_cases hd : degree = 0
    · subst hd
      refine iff_of_false ?_ (by simp [hs])
      rintro ⟨hx, -⟩
      have hlt := hlt.1
      rw [hx, cosTimes_zero, Int.natAbs_mul, he, one_mul] at hlt
      exact absurd hlt (lt_irrefl _)
    · have hone := hcase.resolve_left hd
      have hlt' := components_lt hd hs
      have hzero : ∀ a : ℤ, a.natAbs < speed.toInt.natAbs → a = 0 := fun a ha => by omega
      refine iff_of_true ?_ (.inr hd)
      rw [hzero _ hlt.1, hzero _ hlt.2, hzero _ hlt'.1, hzero _ hlt'.2, mul_zero]
      exact ⟨rfl, rfl⟩

section
variable {r : StRocRobot} {degree : UInt16}

theorem fullTurnKeeps_iff (h : degree.toNat + 360 < 0xFFFF) (hd : degree ≠ 0xFFFF)
    (hcase : degree = 0 ∨ r.speed.toInt.natAbs = 1) : FullTurnKeeps r degree ↔ r.speed = 0 ∨ degree ≠ 0 := by
  have hm := trig_le mathTrig degree r.speed
  have hm' := trig_le mathTrig (degree + 360) r.speed
  rw [← @components_turn_iff degree 360 r.speed 1 rfl (by decide) h hcase, FullTurnKeeps, drive_eq mathTrig r hd,
    drive_eq mathTrig r (add_ne h).1, sameWheels_run_iff r hm.1 hm.2 hm'.1 hm'.2, one_mul, one_mul, Int16.toInt_inj,
    Int16.toInt_inj, eq_comm, @eq_comm _ (mathTrig.sinTimes degree r.speed)]

theorem halfTurnReverses_iff (h : degree.toNat + 180 < 0xFFFF) (hd : degree ≠ 0xFFFF)
    (hcase : degree = 0 ∨ r.speed.toInt.natAbs = 1) : HalfTurnReverses r degree ↔ r.speed = 0 ∨ degree ≠ 0 := by
  have hm := trig_le mathTrig degree r.speed
  have hm' := trig_le mathTrig (degree + 180) r.speed
  rw [← @components_turn_iff degree 180 r.speed (-1) rfl (by decide) h hcase, HalfTurnReverses,
    drive_eq mathTrig r hd, drive_eq mathTrig r (add_ne h).1, oppositeWheels_run_iff r hm.1 hm.2 hm'.1 hm'.2,
    neg_one_mul, neg_one_mul]

theorem FollowsHeading.fullTurn (h : degree.toNat + 360 < 0xFFFF) (h₁ : FollowsHeading r degree)
    (h₂ : FollowsHeading r (degree + 360)) : FullTurnKeeps r degree := by
  obtain ⟨hx, hy⟩ := headingTrig_add_360 degree r.speed (by omega)
  intro w
  rw [h₁, h₂, hx, hy]

theorem FollowsHeading.halfTurn (h : degree.toNat + 180 < 0xFFFF) (h₁ : FollowsHeading r degree)
    (h₂ : FollowsHeading r (degree + 180)) : HalfTurnReverses r degree := by
  have hh := trig_le headingTrig degree r.speed
  have hh' := trig_le headingTrig (degree + 180) r.speed
  rw [HalfTurnReverses, h₁, h₂, oppositeWheels_run_iff r hh.1 hh.2 hh'.1 hh'.2]
  exact headingTrig_add_180 degree r.speed (by omega)

theorem followsHeading_of (hd : degree ≠ 0xFFFF) (h : degree = 0 ∨ r.speed = 0) : FollowsHeading r degree := by
  rw [followsHeading_iff r degree hd]
  obtain rfl | h := h
  · exact anglesAgree_zero _
  · rw [h]
    exact anglesAgree_still degree

end

/-! ## The heading law -/

/-- **Heading law.** Degree 0 is driven as the protocol documents it, and so is
every heading at speed 0. Anywhere else the components are those of another
direction before they are truncated. The wheels can be the same all the same: not
for 90, 180, 270, …, and at a speed of 1 for all other degrees. -/
theorem heading_law (r : StRocRobot) (degree : UInt16) (hd : degree ≠ 0xFFFF) :
    (degree = 0 ∨ r.speed = 0 → FollowsHeading r degree) ∧
    (ComponentsAgree degree r.speed → degree = 0 ∨ r.speed = 0) ∧
    (90 ∣ degree.toNat → FollowsHeading r degree → degree = 0 ∨ r.speed = 0) ∧
    (r.speed.toInt.natAbs = 1 → (FollowsHeading r degree ↔ degree = 0 ∨ ¬ 90 ∣ degree.toNat)) ∧
    (degree.toNat + 360 < 0xFFFF →
      (r.speed = 0 ∨ FollowsHeading r degree ∧ FollowsHeading r (degree + 360) → FullTurnKeeps r degree) ∧
      (degree = 0 ∨ r.speed.toInt.natAbs = 1 → (FullTurnKeeps r degree ↔ r.speed = 0 ∨ degree ≠ 0))) ∧
    (degree.toNat + 180 < 0xFFFF →
      (r.speed = 0 ∨ FollowsHeading r degree ∧ FollowsHeading r (degree + 180) → HalfTurnReverses r degree) ∧
      (degree = 0 ∨ r.speed.toInt.natAbs = 1 → (HalfTurnReverses r degree ↔ r.speed = 0 ∨ degree ≠ 0))) := by
  have hagree := followsHeading_iff r degree hd
  refine ⟨followsHeading_of hd, componentsAgree_iff.mp, fun h90 hf => ?_, fun hs => ?_, fun h => ⟨?_, ?_⟩,
    fun h => ⟨?_, ?_⟩⟩
  · by_cases h0 : degree = 0
    · exact .inl h0
    · exact .inr ((anglesAgree_right_iff h0 h90).mp (hagree.mp hf))
  · exact hagree.trans (anglesAgree_unit_iff hs)
  · rintro (hs | ⟨h₁, h₂⟩)
    · exact (followsHeading_of hd (.inr hs)).fullTurn h (followsHeading_of (add_ne h).1 (.inr hs))
    · exact h₁.fullTurn h h₂
  · exact fullTurnKeeps_iff h hd
  · rintro (hs | ⟨h₁, h₂⟩)
    · exact (followsHeading_of hd (.inr hs)).halfTurn h (followsHeading_of (add_ne h).1 (.inr hs))
    · exact h₁.halfTurn h h₂
  · exact halfTurnReverses_iff h hd

/-- Degree 0 at speed 50, where a full turn does not keep the wheels, and degree
45 at speed 1, where everything is lost in the truncation. -/
theorem heading_law_45 : FollowsHeading { rocRobotInit with speed := 50 } 0 ∧
    ¬ FullTurnKeeps { rocRobotInit with speed := 50 } 0 ∧ FollowsHeading { rocRobotInit with speed := 1 } 45 ∧
    ¬ ComponentsAgree 45 1 := by
  obtain ⟨hzero, -, -, -, hturn, -⟩ := heading_law { rocRobotInit with speed := 50 } 0 (by decide)
  obtain ⟨-, hcomp, -, hunit, -⟩ := heading_law { rocRobotInit with speed := 1 } 45 (by decide)
  refine ⟨hzero (.inl rfl), fun h => ?_, (hunit (by decide)).mpr (.inr (by decide)), fun h => ?_⟩
  · obtain hs | h0 := ((hturn (by decide)).2 (.inl rfl)).mp h
    · exact absurd hs (by decide)
    · exact h0 rfl
  · exact absurd (hcomp h) (by decide)

theorem heading_360 : ¬ ∀ (r : StRocRobot) (degree : UInt16), degree ≠ 0xFFFF → FollowsHeading r degree := by
  intro h
  have hagree : AnglesAgree 360 100 :=
    (followsHeading_iff { rocRobotInit with speed := 100 } 360 (by decide)).mp (h _ 360 (by decide))
  exact absurd ((anglesAgree_right_iff (by decide) (by decide)).mp hagree) (by decide)

end RocCar

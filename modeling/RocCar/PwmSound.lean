import Mathlib.Algebra.Ring.Nat
import Mathlib.Tactic.NormNum
import RocCar.Lib.Scale
import RocCar.Pwm

/-!
# The registers of the PWM driver

What `drv_pwm_set` writes, in natural numbers: with a clock of at most 80 MHz no
product and no conversion loses anything, and the clamps leave a valid
configuration (`drvPwmSet_valid`). `drv_pwm_get` multiplies in 32 bits, so it
returns what was set only for periods that are short enough.
-/

namespace RocCar

open Scale

variable {c : UInt64}

/-! ## Intermediate values -/

def Fits (x : UInt64) : Prop := x.toUInt32.toUInt64 = x

theorem toNat_toUInt32 {x : UInt64} (h : x.toNat < 2 ^ 32) : x.toUInt32.toNat = x.toNat := by
  rw [UInt64.toNat_toUInt32, Nat.mod_eq_of_lt h]

theorem fits_of_lt {x : UInt64} (h : x.toNat < 2 ^ 32) : Fits x := by
  rw [Fits, ← UInt64.toNat_inj, UInt32.toNat_toUInt64, toNat_toUInt32 h]

theorem product_lt (hc : c.toNat ≤ 80) (ns : UInt32) : ns.toNat * c.toNat < 2 ^ 39 := by
  have hn := ns.toNat_lt
  have : ns.toNat * c.toNat ≤ ns.toNat * 80 := Nat.mul_le_mul_left _ hc
  omega

theorem product_toNat (hc : c.toNat ≤ 80) (ns : UInt32) : (ns.toUInt64 * c).toNat = ns.toNat * c.toNat := by
  have := product_lt hc ns
  rw [UInt64.toNat_mul, UInt32.toNat_toUInt64, Nat.mod_eq_of_lt (by omega)]

theorem periodTicks_toNat (hc : c.toNat ≤ 80) (period : UInt32) :
    (periodTicks c period).toNat = period.toNat * c.toNat / 1000 := by
  rw [periodTicks, UInt64.toNat_div, product_toNat hc]
  rfl

theorem periodTicks_lt (hc : c.toNat ≤ 80) (period : UInt32) : (periodTicks c period).toNat < 2 ^ 32 := by
  have := product_lt hc period
  rw [periodTicks_toNat hc]
  omega

theorem prescaler_toNat (period : UInt32) : (prescaler period).toNat = period.toNat / 65535 + 1 := by
  have h := period.toNat_lt
  rw [prescaler, UInt32.toNat_toUInt64, UInt32.toNat_add, UInt32.toNat_div, show maxPeriod.toNat = 65535 from rfl,
    show (1 : UInt32).toNat = 1 from rfl]
  omega

theorem pulseTicks_toNat (hc : c.toNat ≤ 80) (psc : UInt64) (pulse : UInt32) :
    (pulseTicks c psc pulse).toNat = blocks c.toNat 1000 psc.toNat pulse.toNat := by
  rw [pulseTicks, UInt64.toNat_div, UInt64.toNat_div, product_toNat hc, blocks, Nat.div_div_eq_div_mul,
    Nat.div_div_eq_div_mul, Nat.mul_comm psc.toNat]
  rfl

theorem pulseTicks_lt (hc : c.toNat ≤ 80) (psc : UInt64) (pulse : UInt32) :
    (pulseTicks c psc pulse).toNat < 2 ^ 32 := by
  have := product_lt hc pulse
  rw [pulseTicks_toNat hc]
  exact (Nat.div_le_self _ _).trans_lt (by omega)

def pscOf (c ns : Nat) : Nat := ns * c / 1000 / 65535 + 1

theorem pscOf_le (ns : UInt32) (hc : c.toNat ≤ 80) : pscOf c.toNat ns.toNat ≤ 65536 := by
  have := product_lt hc ns
  unfold pscOf; omega

theorem blocks_pscOf_lt (c ns : Nat) : blocks c 1000 (pscOf c ns) ns < 65535 :=
  div_succ_div_lt (by decide)

theorem prescaler_ticks (hc : c.toNat ≤ 80) (period : UInt32) :
    (prescaler (periodTicks c period).toUInt32).toNat = pscOf c.toNat period.toNat := by
  rw [prescaler_toNat, toNat_toUInt32 (periodTicks_lt hc period), periodTicks_toNat hc, pscOf]

theorem period_div_toNat (hc : c.toNat ≤ 80) (period : UInt32) :
    ((periodTicks c period).toUInt32.toUInt64 / prescaler (periodTicks c period).toUInt32).toNat =
      blocks c.toNat 1000 (pscOf c.toNat period.toNat) period.toNat := by
  rw [UInt64.toNat_div, UInt32.toNat_toUInt64, prescaler_ticks hc, toNat_toUInt32 (periodTicks_lt hc period),
    periodTicks_toNat hc, blocks]

theorem clampPeriod_toNat (period : UInt32) : (clampPeriod period).toNat = max 3 period.toNat := by
  have h : period < minPeriod ↔ period.toNat < 3 := UInt32.lt_iff_toNat_lt
  by_cases hp : period.toNat < 3
  · rw [clampPeriod, if_pos (h.mpr hp), show minPeriod.toNat = 3 from rfl]; omega
  · rw [clampPeriod, if_neg (mt h.mp hp)]; omega

theorem clampPulse_toNat {period : UInt32} (hp : 3 ≤ period.toNat) (pulse : UInt32) :
    (clampPulse period pulse).toNat = min (max 2 pulse.toNat) period.toNat := by
  have h₁ : pulse < minPulse ↔ pulse.toNat < 2 := UInt32.lt_iff_toNat_lt
  have h₂ : pulse > period ↔ period.toNat < pulse.toNat := UInt32.lt_iff_toNat_lt
  by_cases hmin : pulse.toNat < 2
  · rw [clampPulse, if_pos (h₁.mpr hmin), show minPulse.toNat = 2 from rfl]; omega
  · rw [clampPulse, if_neg (mt h₁.mp hmin)]
    by_cases hmax : period.toNat < pulse.toNat
    · rw [if_pos (h₂.mpr hmax)]; omega
    · rw [if_neg (mt h₂.mp hmax)]; omega

theorem sub_one_toNat {x : UInt32} (h : 0 < x.toNat) : (x - 1).toNat = x.toNat - 1 :=
  UInt32.toNat_sub_of_le _ _ (UInt32.le_iff_toNat_le.mpr h)

/-! ## What is written -/

variable (rcc : Rcc) (htim : Tim) (configuration : RtPwmConfiguration)

@[simp] theorem drvPwmSet_inst : (drvPwmSet rcc htim configuration).inst = htim.inst := rfl

theorem drvPwmSet_ccr_of_ne {channel : UInt32} (h : ccrOf channel ≠ ccrOf configuration.halChannel) :
    (drvPwmSet rcc htim configuration).getCompare channel = htim.getCompare channel :=
  Function.update_of_ne h _ _

theorem prescaler_sub_one (hc : c.toNat ≤ 80) (period : UInt32) :
    (prescaler (periodTicks c period).toUInt32 - 1).toNat = pscOf c.toNat period.toNat - 1 := by
  have h := prescaler_ticks hc period
  have hpos : (1 : UInt64).toNat ≤ (prescaler (periodTicks c period).toUInt32).toNat := by
    rw [h]; exact Nat.le_add_left 1 _
  rw [UInt64.toNat_sub_of_le _ _ (UInt64.le_iff_toNat_le.mpr hpos), h]
  rfl

theorem drvPwmSet_psc (hc : (rcc.mhz htim.inst).toNat ≤ 80) :
    (drvPwmSet rcc htim configuration).psc.toNat + 1 =
      pscOf (rcc.mhz htim.inst).toNat configuration.period.toNat := by
  have h := prescaler_sub_one hc configuration.period
  have hle := pscOf_le configuration.period hc
  have hpos : 1 ≤ pscOf (rcc.mhz htim.inst).toNat configuration.period.toNat := Nat.le_add_left 1 _
  simp only [drvPwmSet, Tim.setCompare, Tim.setAutoreload, Tim.setPrescaler]
  rw [toNat_toUInt32 (by omega), h]
  exact Nat.sub_add_cancel hpos

def periodOf (c ns : Nat) : Nat := max 3 (blocks c 1000 (pscOf c ns) ns)

def pulseOf (c period pulse : Nat) : Nat :=
  min (max 2 (blocks c 1000 (pscOf c period) pulse)) (periodOf c period)

theorem clampPeriod_ticks (hc : c.toNat ≤ 80) (period : UInt32) :
    (clampPeriod ((periodTicks c period).toUInt32.toUInt64 /
      prescaler (periodTicks c period).toUInt32).toUInt32).toNat = periodOf c.toNat period.toNat := by
  have h := period_div_toNat hc period
  have hlt := blocks_pscOf_lt c.toNat period.toNat
  rw [clampPeriod_toNat, toNat_toUInt32 (by omega), h, periodOf]

theorem drvPwmSet_arr (hc : (rcc.mhz htim.inst).toNat ≤ 80) :
    (drvPwmSet rcc htim configuration).arr.toNat + 1 =
      periodOf (rcc.mhz htim.inst).toNat configuration.period.toNat := by
  have h := clampPeriod_ticks hc configuration.period
  have hpos : 3 ≤ periodOf (rcc.mhz htim.inst).toNat configuration.period.toNat := le_max_left _ _
  simp only [drvPwmSet, Tim.setCompare, Tim.setAutoreload, Tim.setPrescaler]
  rw [sub_one_toNat (by omega), h]
  omega

theorem drvPwmSet_ccr (hc : (rcc.mhz htim.inst).toNat ≤ 80) :
    ((drvPwmSet rcc htim configuration).getCompare configuration.halChannel).toNat + 1 =
      pulseOf (rcc.mhz htim.inst).toNat configuration.period.toNat configuration.pulse.toNat := by
  have hperiod := clampPeriod_ticks hc configuration.period
  have hpulse := pulseTicks_toNat hc (prescaler (periodTicks (rcc.mhz htim.inst) configuration.period).toUInt32)
    configuration.pulse
  have hlt := pulseTicks_lt hc (prescaler (periodTicks (rcc.mhz htim.inst) configuration.period).toUInt32)
    configuration.pulse
  have hpos : 3 ≤ periodOf (rcc.mhz htim.inst).toNat configuration.period.toNat := le_max_left _ _
  simp only [drvPwmSet, Tim.setCompare, Tim.setAutoreload, Tim.setPrescaler, Tim.getCompare, Function.update_self]
  have hclamp := clampPulse_toNat (hperiod.symm ▸ hpos)
    (pulseTicks (rcc.mhz htim.inst) (prescaler (periodTicks (rcc.mhz htim.inst) configuration.period).toUInt32)
      configuration.pulse).toUInt32
  rw [toNat_toUInt32 hlt, hpulse, hperiod, prescaler_ticks hc, ← pulseOf] at hclamp
  have : 2 ≤ pulseOf (rcc.mhz htim.inst).toNat configuration.period.toNat configuration.pulse.toNat := by
    unfold pulseOf; omega
  rw [sub_one_toNat (by omega), hclamp]
  omega

theorem mhz_le (hc : rcc.mhz htim.inst ≤ 80) : (rcc.mhz htim.inst).toNat ≤ 80 := UInt64.le_iff_toNat_le.mp hc

theorem pulseOf_le (c period pulse : Nat) : pulseOf c period pulse ≤ periodOf c period := min_le_right _ _

theorem two_le_pulseOf (c period pulse : Nat) : 2 ≤ pulseOf c period pulse := by
  unfold pulseOf periodOf; omega

theorem periodOf_le (c ns : Nat) : periodOf c ns ≤ 65534 := by
  have := blocks_pscOf_lt c ns
  unfold periodOf; omega

/-- **The registers are valid** for every period and pulse, and no value is lost
on the way to them: they hold what the computation gives without a bound. -/
theorem drvPwmSet_valid (rcc : Rcc) (htim : Tim) (configuration : RtPwmConfiguration)
    (hc : rcc.mhz htim.inst ≤ 80) :
    let c := rcc.mhz htim.inst
    let ticks := periodTicks c configuration.period
    let psc := prescaler ticks.toUInt32
    let t := drvPwmSet rcc htim configuration
    ((configuration.period.toUInt64 * c).toNat = configuration.period.toNat * c.toNat ∧
      (configuration.pulse.toUInt64 * c).toNat = configuration.pulse.toNat * c.toNat ∧ psc ≠ 0) ∧
    (Fits ticks ∧ Fits (ticks.toUInt32.toUInt64 / psc) ∧ Fits (psc - 1) ∧
      Fits (pulseTicks c psc configuration.pulse)) ∧
    (t.psc.toNat + 1 = pscOf c.toNat configuration.period.toNat ∧
      t.arr.toNat + 1 = periodOf c.toNat configuration.period.toNat ∧
      (t.getCompare configuration.halChannel).toNat + 1 =
        pulseOf c.toNat configuration.period.toNat configuration.pulse.toNat) ∧
    t.psc ≤ 65535 ∧ (2 ≤ t.arr ∧ t.arr ≤ 65534) ∧
    1 ≤ t.getCompare configuration.halChannel ∧ t.getCompare configuration.halChannel ≤ t.arr := by
  have hc := mhz_le rcc htim hc
  intro c ticks psc t
  have hpsc : psc.toNat = pscOf c.toNat configuration.period.toNat := prescaler_ticks hc configuration.period
  have hle : pscOf c.toNat configuration.period.toNat ≤ 65536 := pscOf_le _ hc
  have h₁ : t.psc.toNat + 1 = pscOf c.toNat configuration.period.toNat := drvPwmSet_psc rcc htim configuration hc
  have h₂ : t.arr.toNat + 1 = periodOf c.toNat configuration.period.toNat := drvPwmSet_arr rcc htim configuration hc
  have h₃ : (t.getCompare configuration.halChannel).toNat + 1 =
      pulseOf c.toNat configuration.period.toNat configuration.pulse.toNat := drvPwmSet_ccr rcc htim configuration hc
  refine ⟨⟨product_toNat hc _, product_toNat hc _, fun h0 => ?_⟩, ⟨?_, ?_, ?_, ?_⟩, ⟨h₁, h₂, h₃⟩, ?_⟩
  · rw [h0] at hpsc
    exact absurd hpsc.symm (Nat.succ_ne_zero _)
  · exact fits_of_lt (periodTicks_lt hc _)
  · have hlt := blocks_pscOf_lt c.toNat configuration.period.toNat
    exact fits_of_lt ((period_div_toNat (c := c) hc configuration.period).trans_lt (by omega))
  · exact fits_of_lt ((prescaler_sub_one (c := c) hc configuration.period).trans_lt (by omega))
  · exact fits_of_lt (pulseTicks_lt hc _ _)
  · have h₄ := pulseOf_le c.toNat configuration.period.toNat configuration.pulse.toNat
    have h₅ := two_le_pulseOf c.toNat configuration.period.toNat configuration.pulse.toNat
    have h₆ := periodOf_le c.toNat configuration.period.toNat
    have h₇ : 3 ≤ periodOf c.toNat configuration.period.toNat := le_max_left _ _
    simp only [UInt32.le_iff_toNat_le, UInt32.reduceToNat]
    omega

theorem drvPwmSet_valid_80 :
    let rcc : Rcc := ⟨80000000, 80000000⟩
    let t := drvPwmSet rcc ⟨.tim4, 0, 0, fun _ => 0, .div1, rfl⟩ ⟨1, 4294967295, 0⟩
    rcc.mhz .tim4 ≤ 80 ∧ t.psc ≤ 65535 ∧ 2 ≤ t.arr ∧ t.arr ≤ 65534 ∧ 1 ≤ t.getCompare 0 ∧ t.getCompare 0 ≤ t.arr :=
  have hc : Rcc.mhz ⟨80000000, 80000000⟩ .tim4 ≤ 80 := by decide
  have h := drvPwmSet_valid ⟨80000000, 80000000⟩ ⟨.tim4, 0, 0, fun _ => 0, .div1, rfl⟩ ⟨1, 4294967295, 0⟩ hc
  ⟨hc, h.2.2.2.1, h.2.2.2.2.1.1, h.2.2.2.2.1.2, h.2.2.2.2.2.1, h.2.2.2.2.2.2⟩

/-! ## Reading back -/

theorem ticksToNs_toNat {reg psc : UInt32} (hreg : reg.toNat + 1 < 2 ^ 32) (hpsc : psc.toNat + 1 < 2 ^ 32) :
    (ticksToNs reg psc c).toNat = (reg.toNat + 1) * (psc.toNat + 1) * 1000 % 2 ^ 32 / c.toNat := by
  have hprod : ((reg + 1) * (psc + 1) * 1000).toNat = (reg.toNat + 1) * (psc.toNat + 1) * 1000 % 2 ^ 32 := by
    rw [UInt32.toNat_mul, UInt32.toNat_mul, UInt32.toNat_add, UInt32.toNat_add, show (1 : UInt32).toNat = 1 from rfl,
      Nat.mod_eq_of_lt hreg, Nat.mod_eq_of_lt hpsc, Nat.mod_mul_mod]
    rfl
  have hlt : (reg.toNat + 1) * (psc.toNat + 1) * 1000 % 2 ^ 32 / c.toNat < 2 ^ 32 :=
    (Nat.div_le_self _ _).trans_lt (Nat.mod_lt _ (by decide))
  rw [ticksToNs, toNat_toUInt32, UInt64.toNat_div, UInt32.toNat_toUInt64, hprod]
  rw [UInt64.toNat_div, UInt32.toNat_toUInt64, hprod]
  exact hlt

theorem drvPwmGet_eq (rcc : Rcc) (htim : Tim) :
    drvPwmGet rcc htim configuration =
      { configuration with
        period := ticksToNs htim.arr htim.psc (rcc.mhz htim.inst)
        pulse := ticksToNs (htim.getCompare configuration.halChannel) htim.psc (rcc.mhz htim.inst) } := by
  unfold drvPwmGet
  rw [htim.ckd_init]
  rfl

/-- `got` is `ns` up to one prescaled tick of `psc * 1000 / c` and one nanosecond. -/
def Within (c psc : Nat) (ns got : UInt32) : Prop :=
  (ns.toNat : ℚ) - psc * 1000 / c - 1 < got.toNat ∧ got ≤ ns

/-- The period whose ticks are the first that do not fit, multiplied by 1000, in 32 bits. -/
theorem no_wrap_iff (n : Nat) : n / (n / 65535 + 1) * (n / 65535 + 1) * 1000 < 2 ^ 32 ↔ n < 4295016 := by
  -- around the limit the prescaler is 66
  have h66 : 4259775 ≤ n → n < 4325310 → n / 65535 = 65 := by omega
  constructor
  · intro h
    by_contra hn
    by_cases hlt : n < 4325310
    · rw [h66 (by omega) hlt] at h
      omega
    · have := Nat.lt_div_mul_add (a := n) (b := n / 65535 + 1) (Nat.succ_pos _)
      omega
  · intro h
    by_cases hlt : n < 4294968
    · have := Nat.div_mul_le_self n (n / 65535 + 1)
      omega
    · rw [h66 (by omega) (by omega)]
      omega

theorem ticksToNs_within {ns reg psc : UInt32} (hpos : 0 < c.toNat) (hpsc : psc.toNat + 1 < 2 ^ 32)
    (hreg : reg.toNat + 1 = blocks c.toNat 1000 (psc.toNat + 1) ns.toNat)
    (hfit : (reg.toNat + 1) * (psc.toNat + 1) * 1000 < 2 ^ 32) :
    Within c.toNat (psc.toNat + 1) ns (ticksToNs reg psc c) := by
  have hn : reg.toNat + 1 < 2 ^ 32 := by
    have : (reg.toNat + 1) * 1 ≤ (reg.toNat + 1) * (psc.toNat + 1) := Nat.mul_le_mul_left _ (Nat.le_add_left 1 _)
    omega
  have hgot : (ticksToNs reg psc c).toNat =
      back c.toNat 1000 (psc.toNat + 1) (blocks c.toNat 1000 (psc.toNat + 1) ns.toNat) := by
    rw [ticksToNs_toNat hn hpsc, Nat.mod_eq_of_lt hfit, ← hreg, back]
  refine ⟨?_, ?_⟩
  · have := lt_back_blocks (q := psc.toNat + 1) hpos (show 0 < 1000 by decide) (Nat.succ_pos _) ns.toNat
    rw [← hgot] at this
    exact_mod_cast this
  · rw [UInt32.le_iff_toNat_le, hgot]
    exact back_blocks_le _ _ _ _

/-- With a factor 1000 too many for 32 bits, what is read back is too short. -/
theorem not_within_of_wrap {ns reg psc : UInt32} (hpos : 0 < c.toNat) (hc : c.toNat ≤ 80)
    (hpsc : psc.toNat + 1 ≤ 65536) (hn : reg.toNat + 1 < 2 ^ 32)
    (hle : (reg.toNat + 1) * (psc.toNat + 1) * 1000 ≤ ns.toNat * c.toNat)
    (hwrap : 2 ^ 32 ≤ (reg.toNat + 1) * (psc.toNat + 1) * 1000) :
    ¬ Within c.toNat (psc.toNat + 1) ns (ticksToNs reg psc c) := by
  rintro ⟨hlow, -⟩
  have hgot := ticksToNs_toNat (c := c) hn (show psc.toNat + 1 < 2 ^ 32 by omega)
  have hmul : (ticksToNs reg psc c).toNat * c.toNat ≤ (reg.toNat + 1) * (psc.toNat + 1) * 1000 % 2 ^ 32 := by
    rw [hgot]; exact Nat.div_mul_le_self _ _
  have hc' : (0 : ℚ) < c.toNat := by exact_mod_cast hpos
  rw [sub_sub, sub_lt_iff_lt_add] at hlow
  have hcross : (ns.toNat : ℚ) * c.toNat <
      (ticksToNs reg psc c).toNat * c.toNat + (psc.toNat + 1) * 1000 + c.toNat := by
    calc (ns.toNat : ℚ) * c.toNat
        < ((ticksToNs reg psc c).toNat + (((psc.toNat + 1 : Nat) : ℚ) * 1000 / c.toNat + 1)) * c.toNat := by gcongr
      _ = (ticksToNs reg psc c).toNat * c.toNat + (psc.toNat + 1) * 1000 + c.toNat := by
        push_cast; field_simp; ring
  have hcross' : ns.toNat * c.toNat < (ticksToNs reg psc c).toNat * c.toNat + (psc.toNat + 1) * 1000 + c.toNat := by
    exact_mod_cast hcross
  omega

/-- **Reading back what was set.** Period and pulse come back short by less than
a prescaled tick and one nanosecond, if and only if the period times the clock
in MHz is below 4295016000. -/
theorem drvPwmGet_drvPwmSet_iff (rcc : Rcc) (htim : Tim) (configuration query : RtPwmConfiguration)
    (hch : query.channel = configuration.channel) (h₁ : 1 ≤ rcc.mhz htim.inst) (h₈₀ : rcc.mhz htim.inst ≤ 80)
    (hD : configuration.pulse ≤ configuration.period)
    (hperiod : 3 ≤ configuration.period.toNat * (rcc.mhz htim.inst).toNat / 1000 /
      ((drvPwmSet rcc htim configuration).psc.toNat + 1))
    (hpulse : 2 ≤ configuration.pulse.toNat * (rcc.mhz htim.inst).toNat / 1000 /
      ((drvPwmSet rcc htim configuration).psc.toNat + 1)) :
    let c := (rcc.mhz htim.inst).toNat
    let t := drvPwmSet rcc htim configuration
    let got := drvPwmGet rcc t query
    Within c (t.psc.toNat + 1) configuration.period got.period ∧
        Within c (t.psc.toNat + 1) configuration.pulse got.pulse ↔
      configuration.period.toNat * c < 4295016000 := by
  intro c t got
  have hc : c ≤ 80 := mhz_le rcc htim h₈₀
  have hpos : 0 < c := UInt64.le_iff_toNat_le.mp h₁
  have hpsc : t.psc.toNat + 1 = pscOf c configuration.period.toNat := drvPwmSet_psc rcc htim configuration hc
  have harr : t.arr.toNat + 1 = periodOf c configuration.period.toNat := drvPwmSet_arr rcc htim configuration hc
  have hccr : (t.getCompare configuration.halChannel).toNat + 1 =
      pulseOf c configuration.period.toNat configuration.pulse.toNat := drvPwmSet_ccr rcc htim configuration hc
  have hle : pscOf c configuration.period.toNat ≤ 65536 := pscOf_le (c := rcc.mhz htim.inst) _ hc
  have hlt : blocks c 1000 (t.psc.toNat + 1) configuration.period.toNat < 65535 := by
    rw [hpsc]; exact blocks_pscOf_lt _ _
  have hgot : got = { query with
      period := ticksToNs t.arr t.psc (rcc.mhz htim.inst)
      pulse := ticksToNs (t.getCompare configuration.halChannel) t.psc (rcc.mhz htim.inst) } := by
    rw [show got = drvPwmGet rcc t query from rfl, drvPwmGet_eq]
    simp only [RtPwmConfiguration.halChannel, hch, t, drvPwmSet_inst]
  -- neither clamp is taken
  change 3 ≤ blocks c 1000 (t.psc.toNat + 1) configuration.period.toNat at hperiod
  change 2 ≤ blocks c 1000 (t.psc.toNat + 1) configuration.pulse.toNat at hpulse
  have hmono : blocks c 1000 (t.psc.toNat + 1) configuration.pulse.toNat ≤
      blocks c 1000 (t.psc.toNat + 1) configuration.period.toNat :=
    blocks_mono (UInt32.le_iff_toNat_le.mp hD)
  rw [periodOf, ← hpsc, max_eq_right hperiod] at harr
  rw [pulseOf, periodOf, ← hpsc, max_eq_right hpulse, max_eq_right hperiod, min_eq_left hmono] at hccr
  have hfit : (t.arr.toNat + 1) * (t.psc.toNat + 1) * 1000 < 2 ^ 32 ↔ configuration.period.toNat * c < 4295016000 := by
    rw [harr, hpsc, blocks, pscOf, no_wrap_iff]
    omega
  rw [hgot, ← hfit]
  constructor
  · rintro ⟨hw, -⟩
    by_contra hwrap
    exact not_within_of_wrap hpos hc (by omega) (by omega)
      (by rw [harr]; exact blocks_mul_le _ _ _ _) (Nat.le_of_not_lt hwrap) hw
  · intro hfit
    refine ⟨ticksToNs_within hpos (by omega) harr hfit, ticksToNs_within hpos (by omega) hccr ?_⟩
    have : ((t.getCompare configuration.halChannel).toNat + 1) * (t.psc.toNat + 1) * 1000 ≤
        (t.arr.toNat + 1) * (t.psc.toNat + 1) * 1000 := by
      rw [hccr, harr]
      exact Nat.mul_le_mul_right _ (Nat.mul_le_mul_right _ hmono)
    exact this.trans_lt hfit

theorem drvPwmGet_drvPwmSet_1ms :
    let rcc : Rcc := ⟨80000000, 80000000⟩
    let t := drvPwmSet rcc ⟨.tim4, 0, 0, fun _ => 0, .div1, rfl⟩ ⟨1, 1000000, 500000⟩
    let got := drvPwmGet rcc t ⟨1, 0, 0⟩
    Within 80 (t.psc.toNat + 1) 1000000 got.period ∧ Within 80 (t.psc.toNat + 1) 500000 got.pulse :=
  (drvPwmGet_drvPwmSet_iff ⟨80000000, 80000000⟩ ⟨.tim4, 0, 0, fun _ => 0, .div1, rfl⟩ ⟨1, 1000000, 500000⟩ ⟨1, 0, 0⟩
    rfl (by decide) (by decide) (by decide) (by decide) (by decide)).mpr (by decide)

theorem drvPwmGet_drvPwmSet_100ms : ¬ ∀ (rcc : Rcc) (htim : Tim) (configuration query : RtPwmConfiguration),
    query.channel = configuration.channel → 1 ≤ rcc.mhz htim.inst → rcc.mhz htim.inst ≤ 80 →
    configuration.pulse ≤ configuration.period →
    3 ≤ configuration.period.toNat * (rcc.mhz htim.inst).toNat / 1000 /
      ((drvPwmSet rcc htim configuration).psc.toNat + 1) →
    2 ≤ configuration.pulse.toNat * (rcc.mhz htim.inst).toNat / 1000 /
      ((drvPwmSet rcc htim configuration).psc.toNat + 1) →
    let c := (rcc.mhz htim.inst).toNat
    let t := drvPwmSet rcc htim configuration
    let got := drvPwmGet rcc t query
    Within c (t.psc.toNat + 1) configuration.period got.period ∧
      Within c (t.psc.toNat + 1) configuration.pulse got.pulse := by
  intro h
  have hw := (h ⟨80000000, 80000000⟩ ⟨.tim4, 0, 0, fun _ => 0, .div1, rfl⟩ ⟨1, 100000000, 50000000⟩ ⟨1, 0, 0⟩ rfl
    (by decide) (by decide) (by decide) (by decide) (by decide)).1.1
  have hgot : (drvPwmGet ⟨80000000, 80000000⟩ (drvPwmSet ⟨80000000, 80000000⟩
      ⟨.tim4, 0, 0, fun _ => 0, .div1, rfl⟩ ⟨1, 100000000, 50000000⟩) ⟨1, 0, 0⟩).period = 46311908 := by decide
  have hpsc : (drvPwmSet ⟨80000000, 80000000⟩ ⟨.tim4, 0, 0, fun _ => 0, .div1, rfl⟩
      ⟨1, 100000000, 50000000⟩).psc = 122 := by decide
  have hmhz : (Rcc.mhz ⟨80000000, 80000000⟩ .tim4).toNat = 80 := by decide
  simp only [hgot, hpsc, hmhz, UInt32.reduceToNat] at hw
  norm_num at hw

end RocCar

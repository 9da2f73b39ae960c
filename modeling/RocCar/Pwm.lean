import Mathlib.Logic.Function.Basic

/-!
# The PWM driver

`drv_pwm.c` on the registers of one timer: `drv_pwm_set` turns a period and a
pulse in nanoseconds into prescaler, auto-reload and compare values, and
`drv_pwm_get` turns them back. The counter and the update event are left out.
-/

namespace RocCar

/-! ## Clocks -/

inductive TimInstance where
  | tim1
  | tim2
  | tim3
  | tim4
  | tim5
  | tim8
  | tim15
  | tim16
  | tim17
  deriving DecidableEq, Repr

structure Rcc where
  pclk1 : UInt32
  pclk2 : UInt32
  deriving DecidableEq, Repr

def timClock (rcc : Rcc) : TimInstance → UInt64
  | .tim15 | .tim16 | .tim17 => (rcc.pclk2 * 2).toUInt64
  | _ => rcc.pclk1.toUInt64

def Rcc.mhz (rcc : Rcc) (inst : TimInstance) : UInt64 := timClock rcc inst / 1000000

/-! ## Registers -/

inductive ClockDivision where
  | div1
  | div2
  | div4
  | reserved
  deriving DecidableEq, Repr

inductive Ccr where
  | ccr1
  | ccr2
  | ccr3
  | ccr4
  | ccr5
  | ccr6
  deriving DecidableEq, Repr

/-- A timer behind `stm32_hw_pwm_init`, which sets the clock division; nothing
changes it afterwards. -/
structure Tim where
  inst : TimInstance
  psc : UInt32 := 0
  arr : UInt32 := 0
  ccr : Ccr → UInt32 := fun _ => 0
  ckd : ClockDivision := .div1
  ckd_init : ckd = .div1 := by rfl

/-- The register of a channel as `__HAL_TIM_SET_COMPARE` and
`__HAL_TIM_GET_COMPARE` choose it. -/
def ccrOf (channel : UInt32) : Ccr :=
  if channel = 0x0 then .ccr1
  else if channel = 0x4 then .ccr2
  else if channel = 0x8 then .ccr3
  else if channel = 0xC then .ccr4
  else if channel = 0x10 then .ccr5
  else .ccr6

def Tim.setPrescaler (htim : Tim) (psc : UInt32) : Tim := { htim with psc }

def Tim.setAutoreload (htim : Tim) (arr : UInt32) : Tim := { htim with arr }

def Tim.setCompare (htim : Tim) (channel compare : UInt32) : Tim :=
  { htim with ccr := Function.update htim.ccr (ccrOf channel) compare }

def Tim.getCompare (htim : Tim) (channel : UInt32) : UInt32 := htim.ccr (ccrOf channel)

/-! ## Set and get -/

structure RtPwmConfiguration where
  channel : UInt32
  period : UInt32
  pulse : UInt32
  deriving DecidableEq, Repr

def RtPwmConfiguration.halChannel (configuration : RtPwmConfiguration) : UInt32 := 0x04 * (configuration.channel - 1)

def maxPeriod : UInt32 := 65535
def minPeriod : UInt32 := 3
def minPulse : UInt32 := 2

def periodTicks (timClock : UInt64) (period : UInt32) : UInt64 := period.toUInt64 * timClock / 1000

def prescaler (period : UInt32) : UInt64 := (period / maxPeriod + 1).toUInt64

def pulseTicks (timClock psc : UInt64) (pulse : UInt32) : UInt64 := pulse.toUInt64 * timClock / psc / 1000

def clampPeriod (period : UInt32) : UInt32 := if period < minPeriod then minPeriod else period

def clampPulse (period pulse : UInt32) : UInt32 :=
  if pulse < minPulse then minPulse
  else if pulse > period then period
  else pulse

def drvPwmSet (rcc : Rcc) (htim : Tim) (configuration : RtPwmConfiguration) : Tim :=
  let timClock := rcc.mhz htim.inst
  let period := (periodTicks timClock configuration.period).toUInt32
  let psc := prescaler period
  let period := (period.toUInt64 / psc).toUInt32
  let htim := htim.setPrescaler (psc - 1).toUInt32
  let period := clampPeriod period
  let htim := htim.setAutoreload (period - 1)
  let pulse := (pulseTicks timClock psc configuration.pulse).toUInt32
  let pulse := clampPulse period pulse
  htim.setCompare configuration.halChannel (pulse - 1)

/-- The products of `drv_pwm_get` are taken in 32 bits. -/
def ticksToNs (reg psc : UInt32) (timClock : UInt64) : UInt32 :=
  (((reg + 1) * (psc + 1) * 1000).toUInt64 / timClock).toUInt32

def drvPwmGet (rcc : Rcc) (htim : Tim) (configuration : RtPwmConfiguration) : RtPwmConfiguration :=
  let timClock := timClock rcc htim.inst
  let timClock :=
    match htim.ckd with
    | .div2 => timClock / 2
    | .div4 => timClock / 4
    | _ => timClock
  let timClock := timClock / 1000000
  { configuration with
    period := ticksToNs htim.arr htim.psc timClock
    pulse := ticksToNs (htim.getCompare configuration.halChannel) htim.psc timClock }

def rtPwmSet (rcc : Rcc) (device : Tim) (channel : Int32) (period pulse : UInt32) : Tim :=
  drvPwmSet rcc device { channel := channel.toUInt32, period, pulse }

end RocCar

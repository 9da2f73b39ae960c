import Mathlib.Logic.Function.Basic

/-!
# The pin driver

`drv_gpio.c`: the table of pins and the interrupts of the EXTI lines. A pin is
its port and the number `n` of its bit `GPIO_PIN_n`, which `bit2bitno` gives
back. Handlers and their arguments are of any types.
-/

namespace RocCar

inductive Gpio where
  | a
  | b
  | c
  | d
  | e
  deriving DecidableEq, Repr

structure PinIndex where
  gpio : Gpio
  pin : Fin 16
  deriving DecidableEq, Repr

/-- `pins`; `none` is `__STM32_PIN_DEFAULT`. -/
def pins : List (Option PinIndex) :=
  [none, some ⟨.e, 2⟩, some ⟨.e, 3⟩, some ⟨.e, 4⟩, some ⟨.e, 5⟩, some ⟨.e, 6⟩, none, some ⟨.c, 13⟩,
    some ⟨.c, 14⟩, some ⟨.c, 15⟩, none, none, none, none, none, some ⟨.c, 0⟩, some ⟨.c, 1⟩, some ⟨.c, 2⟩,
    some ⟨.c, 3⟩, none, none, none, none, some ⟨.a, 0⟩, some ⟨.a, 1⟩, some ⟨.a, 2⟩, some ⟨.a, 3⟩, none, none,
    some ⟨.a, 4⟩, some ⟨.a, 5⟩, some ⟨.a, 6⟩, some ⟨.a, 7⟩, some ⟨.c, 4⟩, some ⟨.c, 5⟩, some ⟨.b, 0⟩,
    some ⟨.b, 1⟩, some ⟨.b, 2⟩, some ⟨.e, 7⟩, some ⟨.e, 8⟩, some ⟨.e, 9⟩, some ⟨.e, 10⟩, some ⟨.e, 11⟩,
    some ⟨.e, 12⟩, some ⟨.e, 13⟩, some ⟨.e, 14⟩, some ⟨.e, 15⟩, some ⟨.b, 10⟩, some ⟨.b, 11⟩, none, none,
    some ⟨.b, 12⟩, some ⟨.b, 13⟩, some ⟨.b, 14⟩, some ⟨.b, 15⟩, some ⟨.d, 8⟩, some ⟨.d, 9⟩, some ⟨.d, 10⟩,
    some ⟨.d, 11⟩, some ⟨.d, 12⟩, some ⟨.d, 13⟩, some ⟨.d, 14⟩, some ⟨.d, 15⟩, some ⟨.c, 6⟩, some ⟨.c, 7⟩,
    some ⟨.c, 8⟩, some ⟨.c, 9⟩, some ⟨.a, 8⟩, some ⟨.a, 9⟩, some ⟨.a, 10⟩, some ⟨.a, 11⟩, some ⟨.a, 12⟩,
    some ⟨.a, 13⟩, none, none, none, some ⟨.a, 14⟩, some ⟨.a, 15⟩, some ⟨.c, 10⟩, some ⟨.c, 11⟩, some ⟨.c, 12⟩,
    some ⟨.d, 0⟩, some ⟨.d, 1⟩, some ⟨.d, 2⟩, some ⟨.d, 3⟩, some ⟨.d, 4⟩, some ⟨.d, 5⟩, some ⟨.d, 6⟩,
    some ⟨.d, 7⟩, some ⟨.b, 3⟩, some ⟨.b, 4⟩, some ⟨.b, 5⟩, some ⟨.b, 6⟩, some ⟨.b, 7⟩, none, some ⟨.b, 8⟩,
    some ⟨.b, 9⟩, some ⟨.e, 0⟩, some ⟨.e, 1⟩, none, none]

def getPin (pin : UInt8) : Option PinIndex := (pins[pin.toNat]?).join

/-- The pin of a number as a caller passes it; `get_pin` takes a `uint8_t`. -/
def pinOf (pin : Int32) : Option PinIndex := getPin pin.toUInt32.toUInt8

/-! ## Interrupt numbers -/

inductive IRQn where
  | exti0
  | exti1
  | exti2
  | exti3
  | exti4
  | exti9_5
  | exti15_10
  deriving DecidableEq, Repr

def pinIrqMap (line : Fin 16) : IRQn :=
  match line with
  | 0 => .exti0
  | 1 => .exti1
  | 2 => .exti2
  | 3 => .exti3
  | 4 => .exti4
  | 5 | 6 | 7 | 8 | 9 => .exti9_5
  | _ => .exti15_10

/-! ## State -/

inductive RtErr where
  | eok
  | enosys
  | ebusy
  deriving DecidableEq, Repr

structure RtPinIrqHdr (H A : Type) where
  pin : Int16 := -1
  mode : UInt16 := 0
  hdr : Option H := none
  args : Option A := none
  deriving DecidableEq

inductive GpioMode where
  | itRising
  | itFalling
  | itRisingFalling
  | event
  | noExti
  deriving DecidableEq, Repr

/-- `pin_irq_hdr_tab`, the port that is the source of each EXTI line, and the
enable bits of the NVIC. A line that is masked has no source. -/
structure PinIrq (H A : Type) where
  hdrTab : Fin 16 → RtPinIrqHdr H A := fun _ => {}
  source : Fin 16 → Option Gpio := fun _ => none
  nvic : IRQn → Bool := fun _ => false

variable {H A : Type}

/-- What `HAL_GPIO_Init` does to the EXTI line of the pin. -/
def halGpioInit (s : PinIrq H A) (index : PinIndex) (mode : GpioMode) : PinIrq H A :=
  match mode with
  | .noExti => s
  | .event => { s with source := Function.update s.source index.pin none }
  | _ => { s with source := Function.update s.source index.pin (some index.gpio) }

/-! ## Attach, detach, enable -/

def pinIrqModeRising : UInt16 := 0
def pinIrqModeFalling : UInt16 := 1
def pinIrqModeRisingFalling : UInt16 := 2

def pinIrqDisable : UInt32 := 0
def pinIrqEnable : UInt32 := 1

def stm32PinAttachIrq [DecidableEq H] [DecidableEq A] (s : PinIrq H A) (pin : Int32) (mode : UInt32) (hdr : Option H)
    (args : Option A) : RtErr × PinIrq H A :=
  match pinOf pin with
  | none => (.enosys, s)
  | some index =>
    let entry := s.hdrTab index.pin
    if entry.pin.toInt32 = pin ∧ entry.hdr = hdr ∧ entry.mode.toUInt32 = mode ∧ entry.args = args then (.eok, s)
    else if entry.pin ≠ -1 then (.ebusy, s)
    else (.eok, { s with
      hdrTab := Function.update s.hdrTab index.pin { pin := pin.toInt16, mode := mode.toUInt16, hdr, args } })

def stm32PinDettachIrq (s : PinIrq H A) (pin : Int32) : RtErr × PinIrq H A :=
  match pinOf pin with
  | none => (.enosys, s)
  | some index =>
    if (s.hdrTab index.pin).pin = -1 then (.eok, s)
    else (.eok, { s with hdrTab := Function.update s.hdrTab index.pin {} })

/-- The switch over the mode of the entry; `garbage` is what it leaves where no
case applies, the uninitialised field. -/
def irqGpioMode (mode : UInt16) (garbage : GpioMode) : GpioMode :=
  if mode = pinIrqModeRising then .itRising
  else if mode = pinIrqModeFalling then .itFalling
  else if mode = pinIrqModeRisingFalling then .itRisingFalling
  else garbage

def stm32PinIrqEnable (s : PinIrq H A) (pin : Int32) (enabled : UInt32) (garbage : GpioMode) : RtErr × PinIrq H A :=
  match pinOf pin with
  | none => (.enosys, s)
  | some index =>
    let irqno := pinIrqMap index.pin
    if enabled = pinIrqEnable then
      let entry := s.hdrTab index.pin
      if entry.pin = -1 then (.enosys, s)
      else
        let s := halGpioInit s index (irqGpioMode entry.mode garbage)
        (.eok, { s with nvic := Function.update s.nvic irqno true })
    else if enabled = pinIrqDisable then (.eok, { s with nvic := Function.update s.nvic irqno false })
    else (.enosys, s)

/-! ## Edges -/

/-- The entry that `pin_irq_hdr` calls when an edge comes on the pin. -/
def pinIrqHdr (s : PinIrq H A) (index : PinIndex) : Option (RtPinIrqHdr H A) :=
  let entry := s.hdrTab index.pin
  if s.source index.pin = some index.gpio ∧ s.nvic (pinIrqMap index.pin) = true ∧ entry.hdr.isSome then some entry
  else none

end RocCar

import RocCar.Lib.Runs
import RocCar.Gpio

/-!
# Isolation of pin interrupts

Pins of different ports share an EXTI line and with it an entry of
`pin_irq_hdr_tab`; several lines share an interrupt number. `stm32_pin_attach_irq`
refuses a line that is taken, but detaching, enabling and disabling do not look
at whose line it is. `isolation_iff` says for which calls an attached and enabled
pin keeps its interrupt.
-/

namespace RocCar

open Runs

variable {H A : Type}

/-! ## Numbers and pins -/

def entryPin (pin : Int16) : Option PinIndex := getPin pin.toUInt16.toUInt8

theorem entryPin_toInt16 (pin : Int32) : entryPin pin.toInt16 = pinOf pin := by
  have h : pin.toInt16.toUInt16.toUInt8 = pin.toUInt32.toUInt8 := by
    apply UInt8.toBitVec_inj.mp
    have hlow : pin.toInt16.toUInt16.toBitVec = pin.toBitVec.setWidth 16 :=
      BitVec.signExtend_eq_setWidth_of_le _ (by decide)
    rw [UInt16.toBitVec_toUInt8, hlow, UInt32.toBitVec_toUInt8]
    exact BitVec.setWidth_setWidth_of_le _ (by decide)
  rw [entryPin, h, pinOf]

theorem entryPin_none : entryPin (-1) = none := by decide

theorem toInt16_ne {pin : Int32} {i : PinIndex} (h : pinOf pin = some i) : pin.toInt16 ≠ -1 := by
  intro he
  rw [← entryPin_toInt16, he, entryPin_none] at h
  cases h

/-! ## Calls -/

inductive PinCall (H A : Type) where
  | attach (pin : Int32) (mode : UInt32) (hdr : Option H) (args : Option A)
  | dettach (pin : Int32)
  /-- `garbage` is the uninitialised `GPIO_InitStruct.Mode`. -/
  | irqEnable (pin : Int32) (enabled : UInt32) (garbage : GpioMode)

def WellPlaced (s : PinIrq H A) : Prop :=
  ∀ line, (s.hdrTab line).pin ≠ -1 → ∃ i, entryPin (s.hdrTab line).pin = some i ∧ i.pin = line

theorem wellPlaced_init : WellPlaced ({} : PinIrq H A) := fun _ h => absurd rfl h

def Regular (mode : UInt16) : Prop :=
  mode = pinIrqModeRising ∨ mode = pinIrqModeFalling ∨ mode = pinIrqModeRisingFalling

instance (mode : UInt16) : Decidable (Regular mode) := inferInstanceAs (Decidable (_ ∨ _ ∨ _))

theorem irqGpioMode_irregular {mode : UInt16} (h : ¬ Regular mode) (garbage : GpioMode) :
    irqGpioMode mode garbage = garbage := by
  simp only [Regular, not_or] at h
  rw [irqGpioMode, if_neg h.1, if_neg h.2.1, if_neg h.2.2]

theorem halGpioInit_regular {mode : UInt16} (h : Regular mode) (s : PinIrq H A) (i : PinIndex) (garbage : GpioMode) :
    halGpioInit s i (irqGpioMode mode garbage) = { s with source := Function.update s.source i.pin (some i.gpio) } := by
  rcases h with rfl | rfl | rfl <;> rfl

theorem halGpioInit_hdrTab (s : PinIrq H A) (i : PinIndex) (mode : GpioMode) :
    (halGpioInit s i mode).hdrTab = s.hdrTab := by
  cases mode <;> rfl

theorem halGpioInit_nvic (s : PinIrq H A) (i : PinIndex) (mode : GpioMode) : (halGpioInit s i mode).nvic = s.nvic := by
  cases mode <;> rfl

theorem halGpioInit_source_of_ne (s : PinIrq H A) {i : PinIndex} {line : Fin 16} (h : line ≠ i.pin) (mode : GpioMode) :
    (halGpioInit s i mode).source line = s.source line := by
  cases mode <;> simp [halGpioInit, h]

theorem dettach_hdrTab (s : PinIrq H A) {pin : Int32} {i : PinIndex} (hp : pinOf pin = some i) :
    (stm32PinDettachIrq s pin).2.hdrTab i.pin = s.hdrTab i.pin ∧ (s.hdrTab i.pin).pin = -1 ∨
      (stm32PinDettachIrq s pin).2.hdrTab i.pin = {} := by
  unfold stm32PinDettachIrq
  simp only [hp]
  split
  · rename_i hfree
    exact .inl ⟨rfl, hfree⟩
  · exact .inr (by simp)

theorem dettach_hdrTab_of_ne (s : PinIrq H A) {pin : Int32} {line : Fin 16}
    (h : ∀ i, pinOf pin = some i → i.pin ≠ line) : (stm32PinDettachIrq s pin).2.hdrTab line = s.hdrTab line := by
  unfold stm32PinDettachIrq
  cases hp : pinOf pin with
  | none => rfl
  | some i =>
    simp only
    split
    · rfl
    · simp [Ne.symm (h i hp)]

theorem dettach_frame (s : PinIrq H A) (pin : Int32) :
    (stm32PinDettachIrq s pin).2.source = s.source ∧ (stm32PinDettachIrq s pin).2.nvic = s.nvic := by
  unfold stm32PinDettachIrq
  split
  · exact ⟨rfl, rfl⟩
  · split
    · exact ⟨rfl, rfl⟩
    · exact ⟨rfl, rfl⟩

theorem irqEnable_hdrTab (s : PinIrq H A) (pin : Int32) (enabled : UInt32) (garbage : GpioMode) :
    (stm32PinIrqEnable s pin enabled garbage).2.hdrTab = s.hdrTab := by
  unfold stm32PinIrqEnable
  split
  · rfl
  · simp only
    split
    · split
      · rfl
      · simp [halGpioInit_hdrTab]
    · split <;> rfl

/-! ## An enabled pin -/

/-- An edge on the pin `i`, attached under the number `q`, calls its handler
with its arguments, and an edge on another pin does not call its entry. -/
def Isolated (s : PinIrq H A) (q : Int32) (i : PinIndex) (hdr : H) (args : Option A) : Prop :=
  (∃ r, pinIrqHdr s i = some r ∧ r.pin = q.toInt16 ∧ r.hdr = some hdr ∧ r.args = args) ∧
    ∀ e, e ≠ i → ∀ r, pinIrqHdr s e = some r → r.pin ≠ q.toInt16

structure Serving (s : PinIrq H A) (i : PinIndex) (entry : RtPinIrqHdr H A) : Prop where
  entry : s.hdrTab i.pin = entry
  source : s.source i.pin = some i.gpio
  nvic : s.nvic (pinIrqMap i.pin) = true
  placed : WellPlaced s

def PinCall.Releases (i : PinIndex) : PinCall H A → Prop
  | .dettach pin => pinOf pin = some i
  | .irqEnable pin enabled _ => pinOf pin = some i ∧ enabled = pinIrqDisable
  | .attach .. => False

def PinCall.Dettaches (i : PinIndex) : PinCall H A → Prop
  | .dettach pin => pinOf pin = some i
  | _ => False

def PinCall.Clears (i : PinIndex) : PinCall H A → Prop
  | .dettach pin => ∃ j, pinOf pin = some j ∧ j.pin = i.pin
  | _ => False

def PinCall.ClearsOther (i : PinIndex) : PinCall H A → Prop
  | .dettach pin => ∃ j, pinOf pin = some j ∧ j ≠ i ∧ j.pin = i.pin
  | _ => False

/-- A call that does not detach a pin on the line of `i`, nor enable another one
there, nor disable a pin with the same interrupt number. -/
def PinCall.Spares (i : PinIndex) : PinCall H A → Prop
  | .attach .. => True
  | .dettach pin => ∀ j, pinOf pin = some j → j.pin ≠ i.pin
  | .irqEnable pin enabled _ => ∀ j, pinOf pin = some j →
      (enabled = pinIrqEnable → j.pin = i.pin → j = i) ∧
      (enabled = pinIrqDisable → pinIrqMap j.pin ≠ pinIrqMap i.pin)

variable {s : PinIrq H A} {i : PinIndex} {q : Int32} {hdr : H} {args : Option A} {mode : UInt16}

theorem PinCall.clears_iff {c : PinCall H A} (hc : ¬ c.Dettaches i) : c.Clears i ↔ c.ClearsOther i := by
  cases c with
  | attach => rfl
  | irqEnable => rfl
  | dettach pin =>
    refine exists_congr fun j => and_congr_right fun hj => (and_iff_right ?_).symm
    rintro rfl
    exact hc hj

theorem Serving.isolated (h : Serving s i ⟨q.toInt16, mode, some hdr, args⟩) (hq : pinOf q = some i) :
    Isolated s q i hdr args := by
  refine ⟨⟨⟨q.toInt16, mode, some hdr, args⟩, ?_, rfl, rfl, rfl⟩, ?_⟩
  · simp only [pinIrqHdr, h.entry, h.source, h.nvic, Option.isSome_some, and_self, ite_true]
  · intro e hne r hr hpin
    simp only [pinIrqHdr, Option.ite_none_right_eq_some, Option.some.injEq] at hr
    obtain ⟨⟨hsource, -, -⟩, rfl⟩ := hr
    obtain ⟨j, hj, hline⟩ := h.placed e.pin (by rw [hpin]; exact toInt16_ne hq)
    rw [hpin, entryPin_toInt16, hq, Option.some.injEq] at hj
    subst hj
    -- the edge comes on the line of `i`, from another port
    rw [← hline, h.source, Option.some.injEq] at hsource
    exact hne (by cases e; cases i; simp_all)

def Foreign (s : PinIrq H A) (i : PinIndex) : Prop := entryPin (s.hdrTab i.pin).pin ≠ some i

theorem Foreign.not_isolated (h : Foreign s i) (hq : pinOf q = some i) : ¬ Isolated s q i hdr args := by
  rintro ⟨⟨r, hr, hpin, -, -⟩, -⟩
  simp only [pinIrqHdr, Option.ite_none_right_eq_some, Option.some.injEq] at hr
  rw [Foreign, hr.2, hpin, entryPin_toInt16] at h
  exact h hq

section
variable [DecidableEq H] [DecidableEq A]

def PinCall.exec (s : PinIrq H A) : PinCall H A → RtErr × PinIrq H A
  | .attach pin mode hdr args => stm32PinAttachIrq s pin mode hdr args
  | .dettach pin => stm32PinDettachIrq s pin
  | .irqEnable pin enabled garbage => stm32PinIrqEnable s pin enabled garbage

def PinIrq.after (s : PinIrq H A) (c : PinCall H A) : PinIrq H A := (c.exec s).2

def PinIrq.run (s : PinIrq H A) (calls : List (PinCall H A)) : PinIrq H A := calls.foldl PinIrq.after s

/-! ## What a call does -/

theorem attach_cases (s : PinIrq H A) (pin : Int32) (mode : UInt32) (hdr : Option H) (args : Option A) :
    (stm32PinAttachIrq s pin mode hdr args).2 = s ∨
      ∃ i, pinOf pin = some i ∧ (s.hdrTab i.pin).pin = -1 ∧ stm32PinAttachIrq s pin mode hdr args = (.eok, { s with
        hdrTab := Function.update s.hdrTab i.pin ⟨pin.toInt16, mode.toUInt16, hdr, args⟩ }) := by
  unfold stm32PinAttachIrq
  cases hp : pinOf pin with
  | none => exact .inl rfl
  | some i =>
    simp only
    split
    · exact .inl rfl
    · split
      · exact .inl rfl
      · rename_i hfree
        exact .inr ⟨i, rfl, not_not.mp hfree, rfl⟩

theorem attach_eok {s : PinIrq H A} {pin : Int32} {mode : UInt32} {hdr : Option H} {args : Option A} {i : PinIndex}
    (hp : pinOf pin = some i) (h : (stm32PinAttachIrq s pin mode hdr args).1 = .eok) :
    (stm32PinAttachIrq s pin mode hdr args).2.hdrTab i.pin = ⟨pin.toInt16, mode.toUInt16, hdr, args⟩ := by
  revert h
  unfold stm32PinAttachIrq
  simp only [hp]
  split
  · rename_i hsame
    intro _
    have hpin : (s.hdrTab i.pin).pin = pin.toInt16 := by rw [← hsame.1, Int16.toInt16_toInt32]
    have hmode : (s.hdrTab i.pin).mode = mode.toUInt16 := by rw [← hsame.2.2.1, UInt16.toUInt16_toUInt32]
    rw [← hpin, ← hsame.2.1, ← hmode, ← hsame.2.2.2]
  · split
    · intro h; cases h
    · intro _; simp

/-- Of the table a call changes one line at most: it takes a free one, or frees it. -/
theorem hdrTab_after (s : PinIrq H A) (c : PinCall H A) (line : Fin 16) :
    (s.after c).hdrTab line = s.hdrTab line ∨
    (∃ pin mode hdr args i, c = .attach pin mode hdr args ∧ (c.exec s).1 = .eok ∧ pinOf pin = some i ∧ i.pin = line ∧
      (s.hdrTab line).pin = -1 ∧ (s.after c).hdrTab line = ⟨pin.toInt16, mode.toUInt16, hdr, args⟩) ∨
    ∃ pin i, c = .dettach pin ∧ pinOf pin = some i ∧ i.pin = line ∧ (s.after c).hdrTab line = {} := by
  cases c with
  | attach pin mode hdr args =>
    rcases attach_cases s pin mode hdr args with h | ⟨i, hp, hfree, h⟩
    · exact .inl (by simp only [PinIrq.after, PinCall.exec, h])
    · by_cases hl : i.pin = line
      · subst hl
        exact .inr (.inl ⟨pin, mode, hdr, args, i, rfl, by simp only [PinCall.exec, h], hp, rfl, hfree,
          by simp [PinIrq.after, PinCall.exec, h]⟩)
      · exact .inl (by simp [PinIrq.after, PinCall.exec, h, Ne.symm hl])
  | dettach pin =>
    by_cases hl : ∃ i, pinOf pin = some i ∧ i.pin = line
    · obtain ⟨i, hp, rfl⟩ := hl
      rcases dettach_hdrTab s hp with ⟨h, -⟩ | h
      · exact .inl h
      · exact .inr (.inr ⟨pin, i, rfl, hp, rfl, h⟩)
    · exact .inl (dettach_hdrTab_of_ne s fun i hp he => hl ⟨i, hp, he⟩)
  | irqEnable pin enabled garbage =>
    exact .inl (by simp only [PinIrq.after, PinCall.exec, irqEnable_hdrTab])

theorem WellPlaced.after {s : PinIrq H A} (h : WellPlaced s) (c : PinCall H A) : WellPlaced (s.after c) := by
  intro line hne
  rcases hdrTab_after s c line with he | ⟨pin, mode, hdr, args, i, -, -, hp, hl, -, he⟩ | ⟨pin, i, -, -, -, he⟩
  · rw [he] at hne ⊢
    exact h line hne
  · exact ⟨i, by rw [he, entryPin_toInt16, hp], hl⟩
  · rw [he] at hne
    exact absurd rfl hne

theorem WellPlaced.run {s : PinIrq H A} (h : WellPlaced s) : ∀ calls : List (PinCall H A), WellPlaced (s.run calls)
  | [] => h
  | c :: calls => (h.after c).run calls

/-! ## Keeping an interrupt -/

def PinCall.Reattaches (i : PinIndex) (s : PinIrq H A) (c : PinCall H A) : Prop :=
  match c with
  | .attach pin .. => pinOf pin = some i ∧ (c.exec s).1 = .eok
  | _ => False

theorem irqEnable_eq {pin : Int32} {j : PinIndex} (hp : pinOf pin = some j) (hne : (s.hdrTab j.pin).pin ≠ -1)
    (garbage : GpioMode) :
    s.after (.irqEnable pin pinIrqEnable garbage) =
      { halGpioInit s j (irqGpioMode (s.hdrTab j.pin).mode garbage) with
        nvic := Function.update s.nvic (pinIrqMap j.pin) true } := by
  simp only [PinIrq.after, PinCall.exec, stm32PinIrqEnable, hp, ite_true, if_neg hne, halGpioInit_nvic]

theorem entry_of_enabled {pin : Int32} {j : PinIndex} (hp : pinOf pin = some j) {garbage : GpioMode}
    (h : ((PinCall.irqEnable pin pinIrqEnable garbage).exec s).1 = .eok) : (s.hdrTab j.pin).pin ≠ -1 := by
  intro hfree
  simp only [PinCall.exec, stm32PinIrqEnable, hp, ite_true, if_pos hfree] at h
  cases h

theorem irqEnable_free {pin : Int32} {j : PinIndex} (hp : pinOf pin = some j) (hfree : (s.hdrTab j.pin).pin = -1)
    (garbage : GpioMode) : s.after (.irqEnable pin pinIrqEnable garbage) = s := by
  simp only [PinIrq.after, PinCall.exec, stm32PinIrqEnable, hp, ite_true, if_pos hfree]

theorem irqEnable_none {pin : Int32} (hp : pinOf pin = none) (enabled : UInt32) (garbage : GpioMode) :
    s.after (.irqEnable pin enabled garbage) = s := by
  simp only [PinIrq.after, PinCall.exec, stm32PinIrqEnable, hp]

theorem irqEnable_other (s : PinIrq H A) (pin : Int32) {enabled : UInt32} (he : enabled ≠ pinIrqEnable)
    (hd : enabled ≠ pinIrqDisable) (garbage : GpioMode) : s.after (.irqEnable pin enabled garbage) = s := by
  simp only [PinIrq.after, PinCall.exec, stm32PinIrqEnable, if_neg he, if_neg hd]
  cases pinOf pin with
  | none => rfl
  | some j => rfl

theorem irqDisable_eq {pin : Int32} {j : PinIndex} (hp : pinOf pin = some j) (garbage : GpioMode) :
    s.after (.irqEnable pin pinIrqDisable garbage) =
      { s with nvic := Function.update s.nvic (pinIrqMap j.pin) false } := by
  simp only [PinIrq.after, PinCall.exec, stm32PinIrqEnable, hp]
  rfl

theorem attach_frame (s : PinIrq H A) (pin : Int32) (mode : UInt32) (hdr : Option H) (args : Option A) :
    (s.after (.attach pin mode hdr args)).source = s.source ∧ (s.after (.attach pin mode hdr args)).nvic = s.nvic := by
  simp only [PinIrq.after, PinCall.exec]
  rcases attach_cases s pin mode hdr args with h | ⟨j, -, -, h⟩
  · rw [h]
    exact ⟨rfl, rfl⟩
  · rw [h]
    exact ⟨rfl, rfl⟩

theorem Serving.of_enable {pin : Int32} (hp : pinOf pin = some i) (hw : WellPlaced s)
    {entry : RtPinIrqHdr H A} (he : s.hdrTab i.pin = entry) (hne : entry.pin ≠ -1) (hm : Regular entry.mode)
    (garbage : GpioMode) : Serving (s.after (.irqEnable pin pinIrqEnable garbage)) i entry := by
  have hw' := hw.after (.irqEnable pin pinIrqEnable garbage)
  rw [irqEnable_eq hp (by rw [he]; exact hne), he, halGpioInit_regular hm] at hw' ⊢
  exact ⟨he, by simp, by simp, hw'⟩

theorem Serving.step {entry : RtPinIrqHdr H A} (h : Serving s i entry) (hne : entry.pin ≠ -1)
    (hm : Regular entry.mode) {c : PinCall H A} (hs : c.Spares i) : Serving (s.after c) i entry := by
  have hw := h.placed.after c
  cases c with
  | attach pin mode hdr args =>
    obtain ⟨hsource, hnvic⟩ := attach_frame s pin mode hdr args
    refine ⟨?_, by rw [hsource, h.source], by rw [hnvic, h.nvic], hw⟩
    rcases hdrTab_after s (.attach pin mode hdr args) i.pin with he | ⟨_, _, _, _, _, -, -, -, -, hfree, -⟩ |
      ⟨_, _, hc, -⟩
    · rw [he, h.entry]
    · rw [h.entry] at hfree
      exact absurd hfree hne
    · cases hc
  | dettach pin =>
    obtain ⟨hsource, hnvic⟩ := dettach_frame s pin
    refine ⟨?_, ?_, ?_, hw⟩
    · simp only [PinIrq.after, PinCall.exec, dettach_hdrTab_of_ne s hs, h.entry]
    · simp only [PinIrq.after, PinCall.exec, hsource, h.source]
    · simp only [PinIrq.after, PinCall.exec, hnvic, h.nvic]
  | irqEnable pin enabled garbage =>
    cases hp : pinOf pin with
    | none => rw [irqEnable_none hp]; exact h
    | some j =>
      obtain ⟨henable, hdisable⟩ := hs j hp
      by_cases he : enabled = pinIrqEnable
      · subst he
        by_cases hj : j.pin = i.pin
        · obtain rfl := henable rfl hj
          exact Serving.of_enable hp h.placed h.entry hne hm garbage
        · by_cases hfree : (s.hdrTab j.pin).pin = -1
          · rw [irqEnable_free hp hfree]; exact h
          · rw [irqEnable_eq hp hfree] at hw ⊢
            refine ⟨?_, ?_, ?_, hw⟩
            · simp only [halGpioInit_hdrTab, h.entry]
            · simp only [halGpioInit_source_of_ne s (Ne.symm hj), h.source]
            · by_cases hirq : pinIrqMap i.pin = pinIrqMap j.pin
              · rw [hirq]; simp
              · simp [hirq, h.nvic]
      · by_cases hd : enabled = pinIrqDisable
        · subst hd
          rw [irqDisable_eq hp] at hw ⊢
          exact ⟨h.entry, h.source, by simp [Ne.symm (hdisable rfl), h.nvic], hw⟩
        · rw [irqEnable_other s pin he hd]; exact h

theorem Serving.lost {entry : RtPinIrqHdr H A} (h : Serving s i entry) (hne : entry.pin ≠ -1)
    (hm : Regular entry.mode) {c : PinCall H A} (hs : ¬ c.Spares i) : pinIrqHdr (s.after c) i = none := by
  cases c with
  | attach => exact absurd trivial hs
  | dettach pin =>
    simp only [PinCall.Spares, not_forall, not_not] at hs
    obtain ⟨j, hp, hj⟩ := hs
    have hfree : ((s.after (.dettach pin)).hdrTab i.pin).hdr = none := by
      rw [← hj]
      rcases dettach_hdrTab s hp with ⟨-, he⟩ | he
      · rw [hj, h.entry] at he
        exact absurd he hne
      · simp only [PinIrq.after, PinCall.exec, he]
    simp [pinIrqHdr, hfree]
  | irqEnable pin enabled garbage =>
    simp only [PinCall.Spares, not_forall, not_and_or] at hs
    obtain ⟨j, hp, hs⟩ := hs
    rcases hs with ⟨rfl, hj, hji⟩ | ⟨rfl, hirq⟩
    · have hgpio : j.gpio ≠ i.gpio := fun hg => hji (by cases j; cases i; simp_all)
      rw [irqEnable_eq hp (by rw [hj, h.entry]; exact hne), hj, h.entry, halGpioInit_regular hm]
      simp [pinIrqHdr, hj, hgpio]
    · rw [irqDisable_eq hp]
      simp [pinIrqHdr, not_not.mp hirq]

theorem Serving.isolated_iff (h : Serving s i ⟨q.toInt16, mode, some hdr, args⟩) (hq : pinOf q = some i)
    (hm : Regular mode) (calls : List (PinCall H A)) :
    (∀ done, done <+: calls → Isolated (s.run done) q i hdr args) ↔ ∀ c ∈ calls, c.Spares i := by
  have hne := toInt16_ne hq
  have hstep : ∀ (s : PinIrq H A) (c : PinCall H A), Serving s i ⟨q.toInt16, mode, some hdr, args⟩ →
      (Isolated (s.after c) q i hdr args ↔ c.Spares i) := by
    intro s c h
    constructor
    · rintro ⟨⟨r, hr, -⟩, -⟩
      by_contra hs
      rw [h.lost hne hm hs] at hr
      cases hr
    · exact fun hs => (h.step hne hm hs).isolated hq
  have hkeep : ∀ (s : PinIrq H A) (c : PinCall H A), Serving s i ⟨q.toInt16, mode, some hdr, args⟩ → c.Spares i →
      Serving (s.after c) i ⟨q.toInt16, mode, some hdr, args⟩ := fun _ _ h hs => h.step hne hm hs
  have hiff := along_iff_of_step (P := fun s => Isolated s q i hdr args) (G := fun _ c => c.Spares i)
    hstep hkeep calls s h
  have hprefix : (∀ done, done <+: calls → Isolated (s.run done) q i hdr args) ↔ _ :=
    forall_prefix_iff (f := PinIrq.after) (P := fun s => Isolated s q i hdr args) (h.isolated hq)
  exact hprefix.trans (hiff.trans (along_const calls s))

/-! ## From the attach to the enable -/

theorem Foreign.after {c : PinCall H A} (h : Foreign s i) (hc : ¬ c.Reattaches i s) : Foreign (s.after c) i := by
  rcases hdrTab_after s c i.pin with he | ⟨pin, mode, hdr, args, j, rfl, hok, hp, -, -, he⟩ | ⟨pin, j, -, -, -, he⟩
  · rw [Foreign, he]
    exact h
  · rw [Foreign, he, entryPin_toInt16]
    exact fun hi => hc ⟨hi, hok⟩
  · rw [Foreign, he, show entryPin ({} : RtPinIrqHdr H A).pin = none from entryPin_none]
    simp

theorem Foreign.run : ∀ {calls : List (PinCall H A)} {s : PinIrq H A}, Foreign s i →
    Along PinIrq.after (fun s c => ¬ c.Reattaches i s) s calls → Foreign (s.run calls) i
  | [], _, h, _ => h
  | _ :: _, _, h, hc => (h.after hc.1).run hc.2

theorem entry_after {entry : RtPinIrqHdr H A} {c : PinCall H A} (h : s.hdrTab i.pin = entry) (hne : entry.pin ≠ -1)
    (hc : ¬ c.Clears i) : (s.after c).hdrTab i.pin = entry := by
  rcases hdrTab_after s c i.pin with he | ⟨_, _, _, _, _, -, -, -, -, hfree, -⟩ | ⟨pin, j, rfl, hp, hj, -⟩
  · rw [he, h]
  · rw [h] at hfree
    exact absurd hfree hne
  · exact absurd ⟨j, hp, hj⟩ hc

theorem foreign_of_clears {c : PinCall H A} (hc : c.Clears i) : Foreign (s.after c) i := by
  cases c with
  | attach => cases hc
  | irqEnable => cases hc
  | dettach pin =>
    obtain ⟨j, hp, hj⟩ := hc
    have hnone : entryPin ((stm32PinDettachIrq s pin).2.hdrTab i.pin).pin = none := by
      rw [← hj]
      rcases dettach_hdrTab s hp with ⟨he, hfree⟩ | he
      · rw [he, hfree, entryPin_none]
      · rw [he, entryPin_none]
    rw [Foreign, show s.after (.dettach pin) = (stm32PinDettachIrq s pin).2 from rfl, hnone]
    simp

/-- Between its attach and its enabling a pin keeps its entry, or loses it for good. -/
theorem entry_or_foreign {entry : RtPinIrqHdr H A} (hne : entry.pin ≠ -1) : ∀ {calls : List (PinCall H A)}
    {s : PinIrq H A}, s.hdrTab i.pin = entry → Along PinIrq.after (fun s c => ¬ c.Reattaches i s) s calls →
    (∀ c ∈ calls, ¬ c.Clears i) ∧ (s.run calls).hdrTab i.pin = entry ∨
      ¬ (∀ c ∈ calls, ¬ c.Clears i) ∧ Foreign (s.run calls) i
  | [], _, h, _ => .inl ⟨by simp, h⟩
  | c :: calls, s, h, hc => by
    by_cases hclear : c.Clears i
    · exact .inr ⟨fun hall => hall c (List.mem_cons_self ..) hclear, (foreign_of_clears hclear).run hc.2⟩
    · rcases entry_or_foreign hne (entry_after h hne hclear) hc.2 with ⟨hall, he⟩ | ⟨hall, hf⟩
      · exact .inl ⟨List.forall_mem_cons.mpr ⟨hclear, hall⟩, he⟩
      · exact .inr ⟨fun h' => hall (List.forall_mem_cons.mp h').2, hf⟩

theorem foldl_after (s : PinIrq H A) (calls calls' : List (PinCall H A)) :
    s.run (calls ++ calls') = (s.run calls).run calls' := List.foldl_append

/-- **Who can take an interrupt away.** A pin is attached, for the last time
before it is enabled, and is not detached in between. It then keeps its interrupt
until it is detached or disabled, whatever the uninitialised mode was, if and only
if: no other pin on its line is detached before it is enabled; its mode is one of
the three edge modes; and no call afterwards detaches or enables another pin of
its line, or disables a pin with its interrupt number. -/
theorem isolation_iff (as bs cs : List (PinCall H A)) {q : Int32} {i : PinIndex} (hq : pinOf q = some i)
    {mode : UInt32} {hdr : H} {args : Option A}
    (hattach : ((PinCall.attach q mode (some hdr) args).exec (PinIrq.run {} as)).1 = .eok)
    (hlast : Along PinIrq.after (fun s c => ¬ c.Reattaches i s)
      (PinIrq.run {} (as ++ [.attach q mode (some hdr) args])) bs)
    (hkept : ∀ c ∈ bs, ¬ c.Dettaches i)
    (henabled : ∀ garbage, ((PinCall.irqEnable q pinIrqEnable garbage).exec
      (PinIrq.run {} (as ++ .attach q mode (some hdr) args :: bs))).1 = .eok) :
    (∀ garbage done, done <+: cs → (∀ c ∈ done, ¬ c.Releases i) →
      Isolated (PinIrq.run {} (as ++ .attach q mode (some hdr) args :: bs ++ .irqEnable q pinIrqEnable garbage :: done))
        q i hdr args) ↔
      (∀ c ∈ bs, ¬ c.ClearsOther i) ∧ Regular mode.toUInt16 ∧
        ∀ done, done <+: cs → (∀ c ∈ done, ¬ c.Releases i) → ∀ c ∈ done, c.Spares i := by
  have hclears : (∀ c ∈ bs, ¬ c.ClearsOther i) ↔ ∀ c ∈ bs, ¬ c.Clears i :=
    forall₂_congr fun c hc => not_congr (PinCall.clears_iff (hkept c hc)).symm
  rw [hclears]
  have hne := toInt16_ne hq
  have hentry : (PinIrq.run {} (as ++ [.attach q mode (some hdr) args])).hdrTab i.pin =
      ⟨q.toInt16, mode.toUInt16, some hdr, args⟩ := by
    rw [foldl_after]
    exact attach_eok hq hattach
  have hrun : PinIrq.run {} (as ++ .attach q mode (some hdr) args :: bs) =
      (PinIrq.run {} (as ++ [.attach q mode (some hdr) args])).run bs := by
    rw [← foldl_after, List.append_assoc, List.singleton_append]
  have hplaced : WellPlaced (PinIrq.run {} (as ++ .attach q mode (some hdr) args :: bs)) := wellPlaced_init.run _
  have hdone : ∀ garbage done,
      PinIrq.run {} (as ++ .attach q mode (some hdr) args :: bs ++ .irqEnable q pinIrqEnable garbage :: done) =
        ((PinIrq.run {} (as ++ .attach q mode (some hdr) args :: bs)).after (.irqEnable q pinIrqEnable garbage)).run
          done := fun _ _ => foldl_after _ _ _
  simp only [hdone]
  rcases entry_or_foreign hne hentry hlast with ⟨hkeep, he⟩ | ⟨hlost, hforeign⟩
  · rw [← hrun] at he
    by_cases hm : Regular mode.toUInt16
    · have hserve := fun garbage => Serving.of_enable hq hplaced he hne hm garbage
      have hiff := fun garbage => (hserve garbage).isolated_iff hq hm
      constructor
      · intro h
        refine ⟨hkeep, hm, fun done hd hr => (hiff .noExti done).mp fun done' hd' => ?_⟩
        exact h .noExti done' (hd'.trans hd) fun c hc => hr c (hd'.subset hc)
      · rintro ⟨-, -, h⟩ garbage done hd hr
        exact (hiff garbage done).mpr (h done hd hr) done List.prefix_rfl
    · -- the mode can be one that masks the line
      refine ⟨fun h => ?_, fun h => absurd h.2.1 hm⟩
      obtain ⟨⟨r, hr, -⟩, -⟩ := h .event [] List.nil_prefix (by simp)
      have hne' := entry_of_enabled hq (henabled .event)
      simp only [PinIrq.run, List.foldl_nil] at hr
      rw [← PinIrq.run, irqEnable_eq hq hne', he, irqGpioMode_irregular hm] at hr
      simp [pinIrqHdr, halGpioInit] at hr
  · rw [← hrun] at hforeign
    refine ⟨fun h => ?_, fun h => absurd h.1 hlost⟩
    refine absurd (h .event [] List.nil_prefix (by simp)) (Foreign.not_isolated ?_ hq)
    exact hforeign.after fun hc => hc

end

/-- The encoders of two wheels: C6 does not touch B12. -/
theorem isolation_iff_encoders :
    let calls : List (PinCall Unit (Fin 4)) := [.attach 63 2 (some ()) (some 3), .irqEnable 63 1 .noExti]
    Isolated (PinIrq.run {} ([] ++ .attach 51 2 (some ()) (some 0) :: [] ++ .irqEnable 51 1 .noExti :: calls))
      51 ⟨.b, 12⟩ () (some 0) := by
  intro calls
  have hspares : ∀ c ∈ calls, c.Spares ⟨.b, 12⟩ := by
    have hpin : pinOf 63 = some ⟨.c, 6⟩ := by decide
    simp [calls, PinCall.Spares, hpin, pinIrqEnable, pinIrqDisable]
  exact (isolation_iff [] [] calls (by decide) (by decide) trivial (by simp)
    fun garbage => by cases garbage <;> decide).mpr
    ⟨by simp, by decide, fun done hd _ c hc => hspares c (hd.subset hc)⟩ .noExti calls List.prefix_rfl
    (by simp [calls, PinCall.Releases, pinIrqDisable])

/-- The encoders that `roc_robot_init` enables: B14 takes the line of D14. -/
theorem isolation_encoders : ¬ ∀ (H A : Type) [DecidableEq H] [DecidableEq A] (as bs cs : List (PinCall H A))
    (q : Int32) (i : PinIndex) (mode : UInt32) (hdr : H) (args : Option A) (garbage : GpioMode),
    pinOf q = some i → ((PinCall.attach q mode (some hdr) args).exec (PinIrq.run {} as)).1 = .eok →
    (∀ c ∈ bs ++ cs, ¬ c.Releases i) →
    ((PinCall.irqEnable q pinIrqEnable garbage).exec
      (PinIrq.run {} (as ++ .attach q mode (some hdr) args :: bs))).1 = .eok →
    Isolated (PinIrq.run {} (as ++ .attach q mode (some hdr) args :: bs ++ .irqEnable q pinIrqEnable garbage :: cs))
      q i hdr args := by
  intro h
  obtain ⟨⟨r, hr, -⟩, -⟩ := h Unit (Fin 4) [] [] [.attach 53 2 (some ()) (some 2), .irqEnable 53 1 .noExti] 61
    ⟨.d, 14⟩ 2 () (some 1) .noExti (by decide) (by decide)
    (by simp [PinCall.Releases, pinIrqDisable]) (by decide)
  have hnone : pinIrqHdr (PinIrq.run {} [.attach 61 2 (some ()) (some 1), .irqEnable 61 1 .noExti,
      .attach 53 2 (some ()) (some 2), .irqEnable 53 1 .noExti]) (⟨.d, 14⟩ : PinIndex) =
      (none : Option (RtPinIrqHdr Unit (Fin 4))) := by decide
  exact absurd (hnone.symm.trans hr) (by simp)

end RocCar

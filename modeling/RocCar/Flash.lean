import RocCar.Lib.Bytes

/-!
# The on-chip flash

`fal_flash_stm32l4_port.c`: `write` and `erase` of the flash device. The HAL
programs one double word, and erases pages of one bank by their number modulo
256; what it refuses is a parameter.
-/

namespace RocCar.Flash

open Bytes

def flashStartAdress : UInt32 := 0x08000000
def flashEndAddress : UInt32 := 0x08080000
def flashPageSize : UInt32 := 0x800

/-! ## Write -/

/-- `*(uint64_t*)addr` -/
def loadWord (flash : Nat → UInt8) (addr : Nat) : UInt64 :=
  UInt64.ofNat (value ((List.range 8).map fun k => flash (addr + k)))

def Erased (flash : Nat → UInt8) (addr : Nat) : Prop := ∀ k < 8, flash (addr + k) = 0xFF

instance (flash : Nat → UInt8) (addr : Nat) : Decidable (Erased flash addr) :=
  decidable_of_iff (∀ k ∈ List.range 8, flash (addr + k) = 0xFF) (by simp only [List.mem_range, Erased])

/-- Programs an erased double word, unless the device refuses it. -/
def halFlashProgram (accepts : Nat → Bool) (flash : Nat → UInt8) (addr : UInt32) (data : UInt64) :
    Bool × (Nat → UInt8) :=
  if accepts addr.toNat ∧ 8 ∣ addr.toNat ∧ Erased flash addr.toNat then
    (true, overwrite flash addr.toNat (digits 8 data.toNat))
  else (false, flash)

/-- The inner loops: the next bytes of `buf`, at most eight, from byte `j` of
`write_data` on. -/
def packBytes : List UInt8 → Nat → UInt64 → UInt64
  | [], _, writeData => writeData
  | tempData :: buf, j, writeData => packBytes buf (j + 1) (writeData ||| tempData.toUInt64 <<< UInt64.ofNat (8 * j))

/-- The outer loop, on what is left of `buf`; it returns `status`. -/
def writeLoop (accepts : Nat → Bool) (flash : Nat → UInt8) (addr : UInt32) (buf : List UInt8) :
    Int8 × (Nat → UInt8) :=
  if _h : buf = [] then (0, flash)
  else
    -- a last double word of fewer than eight bytes is packed in a loop of its own
    let writeData := packBytes (buf.take 8) 0 0
    match halFlashProgram accepts flash addr writeData with
    | (true, flash) =>
      if loadWord flash addr.toNat ≠ writeData then (-1, flash)
      else writeLoop accepts flash (addr + 8) (buf.drop 8)
    | (false, flash) => (-1, flash)
termination_by buf.length
decreasing_by
  have := List.length_pos_iff.mpr _h
  rw [List.length_drop]; omega

def write (accepts : Nat → Bool) (flash : Nat → UInt8) (offset : UInt32) (buf : List UInt8) :
    Int32 × (Nat → UInt8) :=
  let size := UInt32.ofNat buf.length
  let addr := flashStartAdress + offset
  if addr + size > flashEndAddress then (-1, flash)
  else if size < 1 then (-1, flash)
  else
    match writeLoop accepts flash addr buf with
    | (status, flash) => if status ≠ 0 then (status.toInt32, flash) else (size.toInt32, flash)

/-! ## Erase -/

inductive FlashBank where
  | bank1
  | bank2
  deriving DecidableEq, Repr

/-- `FLASH_EraseInitTypeDef`, for the erase of pages. `nb_pages` is set before
each call. -/
structure FlashEraseInit where
  banks : FlashBank
  page : UInt32
  nbPages : UInt32

/-- The pages erased so far, each with its bank and its number there, and the
status of each call. -/
structure EraseLog where
  erased : List (FlashBank × Nat) := []
  statuses : List Bool := []

/-- Erases the pages up to the first that fails. `fails n` is `none` when the
`n`-th call succeeds, and else the number of pages that it erases. -/
def halFlashExErase (fails : Nat → Option Nat) (log : EraseLog) (init : FlashEraseInit) : Bool × EraseLog :=
  let result := fails log.statuses.length
  let done := (result.getD init.nbPages.toNat).min init.nbPages.toNat
  (result.isNone,
    { erased := log.erased ++ (List.range done).map fun i => (init.banks, (init.page.toNat + i) % 256)
      statuses := log.statuses ++ [result.isNone] })

/-- The calls for `nbr_of_pages` pages from `page` on, in the numbering of the
port: the pages of bank 2 start at 256. -/
def eraseBanks (fails : Nat → Option Nat) (log : EraseLog) (pEraseInit : FlashEraseInit) (nbrOfPages : UInt32) :
    EraseLog :=
  if pEraseInit.page < 128 ∧ nbrOfPages + pEraseInit.page > 128 then
    if nbrOfPages + pEraseInit.page > 256 then log
    else
      let pEraseInit := { pEraseInit with nbPages := 128 - pEraseInit.page }
      match halFlashExErase fails log pEraseInit with
      | (false, log) => log
      | (true, log) => (halFlashExErase fails log ⟨.bank2, 256, nbrOfPages - pEraseInit.nbPages⟩).2
  else if pEraseInit.page < 128 ∧ nbrOfPages + pEraseInit.page ≤ 128 then
    (halFlashExErase fails log { pEraseInit with banks := .bank1, nbPages := nbrOfPages }).2
  else if pEraseInit.page ≥ 256 ∧ nbrOfPages + pEraseInit.page ≤ 384 then
    (halFlashExErase fails log { pEraseInit with banks := .bank2, nbPages := nbrOfPages }).2
  else log

def erase (fails : Nat → Option Nat) (log : EraseLog) (offset size : UInt32) : Int32 × EraseLog :=
  let addr := flashStartAdress + offset
  if addr + size > flashEndAddress then (-1, log)
  else
    let pEraseInit : FlashEraseInit :=
      if addr < 0x08040000 then ⟨.bank1, (addr - flashStartAdress) / flashPageSize, 0⟩
      else ⟨.bank2, (addr - flashStartAdress) / flashPageSize + 128, 0⟩
    let nbrOfPages := if size % flashPageSize = 0 then size / flashPageSize else size / flashPageSize + 1
    -- every path ends at `exit`, which does not look at `status`
    (size.toInt32, eraseBanks fails log pEraseInit nbrOfPages)

end RocCar.Flash

import Mathlib.Algebra.Ring.Nat
import RocCar.Lib.Nor

/-!
# The flash abstraction layer

`fal_flash.c` and `fal_partition.c` with the tables of `fal_cfg.h`. Addresses
and sizes are words of 32 bits: the bound of a partition is compared with a sum
that wraps. What the functions of a flash device do is a parameter.
-/

namespace RocCar.Fal

structure FalFlashDev where
  name : String
  addr : Nat
  len : Nat
  blkSize : Nat
  deriving DecidableEq, Repr

structure FalPartition where
  name : String
  flashName : String
  offset : Nat
  len : Nat
  deriving DecidableEq, Repr

def stm32l4OnchipFlash : FalFlashDev := ⟨"onchip_flash", 0x08000000, 512 * 1024, 2048⟩

def norFlash0 : FalFlashDev := ⟨"nor_flash", 0, 16 * 1024 * 1024, 4096⟩

def deviceTable : List FalFlashDev := [stm32l4OnchipFlash, norFlash0]

def partitionTableDef : List FalPartition := [
  ⟨"app", "onchip_flash", 0, 384 * 1024⟩,
  ⟨"param", "onchip_flash", 384 * 1024, 128 * 1024⟩,
  ⟨"easyflash", "nor_flash", 0, 512 * 1024⟩,
  ⟨"download", "nor_flash", 512 * 1024, 1024 * 1024⟩,
  ⟨"wifi_image", "nor_flash", (512 + 1024) * 1024, 512 * 1024⟩,
  ⟨"font", "nor_flash", (512 + 1024 + 512) * 1024, 7 * 1024 * 1024⟩,
  ⟨"filesystem", "nor_flash", (512 + 1024 + 512 + 7 * 1024) * 1024, 7 * 1024 * 1024⟩]

def falFlashDeviceFind (name : String) : Option FalFlashDev := deviceTable.find? fun dev => name = dev.name

/-! ## The partition table -/

/-- The statics of `fal_partition.c`; a table of length 0 is empty. -/
structure FalState where
  partitionTable : List FalPartition := []
  initOk : Bool := false
  deriving DecidableEq, Repr

/-- The device exists, and the partition starts on it; its end is not checked. -/
def deviceOk (part : FalPartition) : Bool :=
  match falFlashDeviceFind part.flashName with
  | none => false
  | some flashDev => part.offset < flashDev.len

def falPartitionInit (s : FalState) : Nat × FalState :=
  if s.initOk then (s.partitionTable.length, s)
  else if partitionTableDef.all deviceOk then
    (partitionTableDef.length, { partitionTable := partitionTableDef, initOk := true })
  else (0, { s with partitionTable := [] })

def falPartitionFind (s : FalState) (name : String) : Option FalPartition :=
  s.partitionTable.find? fun part => name = part.name

/-! ## Access to a partition -/

/-- `ops` of a flash device, on a memory of type `μ`. -/
structure Ops (μ : Type) where
  read : μ → Nat → Nat → Int × List UInt8
  write : μ → Nat → List UInt8 → Int × μ
  erase : μ → Nat → Nat → Int × μ

variable {μ : Type}

/-- The device and the offset on it, for `size` bytes from `addr` on. -/
def locate (part : FalPartition) (addr size : Nat) : Option (FalFlashDev × Nat) :=
  if (addr + size) % 2 ^ 32 > part.len then none
  else (falFlashDeviceFind part.flashName).map fun flashDev => (flashDev, (part.offset + addr) % 2 ^ 32)

def falPartitionRead (ops : FalFlashDev → Ops μ) (m : μ) (part : FalPartition) (addr size : Nat) : Int × List UInt8 :=
  match locate part addr size with
  | none => (-1, [])
  | some (flashDev, offset) => (ops flashDev).read m offset size

def falPartitionWrite (ops : FalFlashDev → Ops μ) (m : μ) (part : FalPartition) (addr : Nat) (buf : List UInt8) :
    Int × μ :=
  match locate part addr buf.length with
  | none => (-1, m)
  | some (flashDev, offset) => (ops flashDev).write m offset buf

def falPartitionErase (ops : FalFlashDev → Ops μ) (m : μ) (part : FalPartition) (addr size : Nat) : Int × μ :=
  match locate part addr size with
  | none => (-1, m)
  | some (flashDev, offset) => (ops flashDev).erase m offset size

end RocCar.Fal

import Mathlib.Logic.Function.Basic
import RocCar.Fal
import RocCar.Lib.Bytes

/-!
# Partitions keep apart

An access that does not wrap stays inside its partition, and an erase does so
with the whole blocks it touches. So whatever is done to other partitions, in any
order, a partition reads as before.
-/

namespace RocCar.Fal

/-! ## The table -/

structure FalPartition.On (part : FalPartition) (dev : FalFlashDev) : Prop where
  found : falFlashDeviceFind part.flashName = some dev
  end_le : part.offset + part.len ≤ dev.len
  len_lt : dev.len < 2 ^ 32
  blkSize_pos : 0 < dev.blkSize
  offset_dvd : dev.blkSize ∣ part.offset
  len_dvd : dev.blkSize ∣ part.len

instance (part : FalPartition) (dev : FalFlashDev) : Decidable (part.On dev) :=
  decidable_of_iff
    (falFlashDeviceFind part.flashName = some dev ∧ part.offset + part.len ≤ dev.len ∧ dev.len < 2 ^ 32 ∧
      0 < dev.blkSize ∧ dev.blkSize ∣ part.offset ∧ dev.blkSize ∣ part.len)
    ⟨fun ⟨h₁, h₂, h₃, h₄, h₅, h₆⟩ => ⟨h₁, h₂, h₃, h₄, h₅, h₆⟩,
      fun h => ⟨h.found, h.end_le, h.len_lt, h.blkSize_pos, h.offset_dvd, h.len_dvd⟩⟩

def FalPartition.Apart (p q : FalPartition) : Prop :=
  p.flashName ≠ q.flashName ∨ p.offset + p.len ≤ q.offset ∨ q.offset + q.len ≤ p.offset

instance (p q : FalPartition) : Decidable (p.Apart q) := inferInstanceAs (Decidable (_ ∨ _ ∨ _))

theorem partitionTableDef_on : ∀ p ∈ partitionTableDef, ∃ dev ∈ deviceTable, p.On dev := by decide

theorem partitionTableDef_apart : ∀ p ∈ partitionTableDef, ∀ q ∈ partitionTableDef, p ≠ q → p.Apart q := by
  decide

theorem partitionTableDef_ok : partitionTableDef.all deviceOk = true := by decide

theorem falPartitionInit_table : (falPartitionInit {}).2.partitionTable = partitionTableDef := by
  rw [falPartitionInit, if_neg (by decide), partitionTableDef_ok, if_pos rfl]

theorem mem_of_find {name : String} {p : FalPartition} (h : falPartitionFind (falPartitionInit {}).2 name = some p) :
    p ∈ partitionTableDef := by
  rw [falPartitionFind, falPartitionInit_table] at h
  exact List.mem_of_find?_eq_some h

theorem flashName_eq {p : FalPartition} {dev : FalFlashDev} (h : p.On dev) : p.flashName = dev.name := by
  have := List.find?_some h.found
  simpa using this

/-! ## Where an access goes -/

theorem locate_eq_some {part : FalPartition} {dev dev' : FalFlashDev} (h : part.On dev) {addr size off : Nat} :
    locate part addr size = some (dev', off) ↔
      (addr + size) % 2 ^ 32 ≤ part.len ∧ dev' = dev ∧ off = (part.offset + addr) % 2 ^ 32 := by
  rw [locate, h.found]
  split
  · rename_i hgt
    exact ⟨fun h => absurd h.symm (Option.some_ne_none _), fun h => absurd h.1 (Nat.not_le.mpr hgt)⟩
  · rename_i hle
    rw [Option.map_some, Option.some.injEq, Prod.mk.injEq]
    exact ⟨fun h => ⟨Nat.not_lt.mp hle, h.1.symm, h.2.symm⟩, fun h => ⟨h.2.1.symm, h.2.2.symm⟩⟩

theorem locate_fits {part : FalPartition} {dev dev' : FalFlashDev} (h : part.On dev) {addr size off : Nat}
    (hw : addr + size < 2 ^ 32) (hl : locate part addr size = some (dev', off)) :
    dev' = dev ∧ off = part.offset + addr ∧ addr + size ≤ part.len := by
  obtain ⟨hle, rfl, rfl⟩ := (locate_eq_some h).mp hl
  have := h.end_le
  have := h.len_lt
  rw [Nat.mod_eq_of_lt hw] at hle
  exact ⟨rfl, Nat.mod_eq_of_lt (by omega), hle⟩

/-- **What is accepted stays inside**, unless the sum of address and size wraps. -/
theorem accepted_inside_iff {name : String} {part : FalPartition} {dev : FalFlashDev} {addr size off : Nat}
    (hp : falPartitionFind (falPartitionInit {}).2 name = some part) (ha : addr < 2 ^ 32)
    (hl : locate part addr size = some (dev, off)) :
    part.offset ≤ off ∧ off + size ≤ part.offset + part.len ↔ addr + size < 2 ^ 32 := by
  obtain ⟨dev', -, hon⟩ := partitionTableDef_on part (mem_of_find hp)
  have hend := hon.end_le
  have hlen := hon.len_lt
  constructor
  · rintro ⟨h₁, h₂⟩
    obtain ⟨-, -, rfl⟩ := (locate_eq_some hon).mp hl
    omega
  · intro hw
    obtain ⟨-, rfl, hle⟩ := locate_fits hon hw hl
    omega

theorem accepted_inside_iff_easyflash :
    (⟨"easyflash", "nor_flash", 0, 512 * 1024⟩ : FalPartition).offset ≤ 4096 ∧
      4096 + 2044 ≤ (⟨"easyflash", "nor_flash", 0, 512 * 1024⟩ : FalPartition).offset + 512 * 1024 ↔
      4096 + 2044 < 2 ^ 32 :=
  @accepted_inside_iff "easyflash" ⟨"easyflash", "nor_flash", 0, 512 * 1024⟩ norFlash0 4096 2044 4096
    (by decide) (by decide) (by decide)

/-! ## Runs -/

abbrev Flashes := String → Nat → UInt8

/-- What an access may depend on and change: an erase works on whole blocks. -/
structure Confined (ops : FalFlashDev → Ops Flashes) : Prop where
  read_congr : ∀ (dev : FalFlashDev) (m m' : Flashes) (off n : Nat),
    (∀ i, off ≤ i → i < off + n → m' dev.name i = m dev.name i) → (ops dev).read m' off n = (ops dev).read m off n
  write_frame : ∀ (dev : FalFlashDev) (m : Flashes) (off : Nat) (bs : List UInt8) (name : String) (i : Nat),
    name ≠ dev.name ∨ i < off ∨ off + bs.length ≤ i → ((ops dev).write m off bs).2 name i = m name i
  erase_frame : ∀ (dev : FalFlashDev) (m : Flashes) (off n : Nat) (name : String) (i : Nat),
    name ≠ dev.name ∨ i < off / dev.blkSize * dev.blkSize ∨
      (off + n + (dev.blkSize - 1)) / dev.blkSize * dev.blkSize ≤ i → ((ops dev).erase m off n).2 name i = m name i

inductive Call where
  | write (part : FalPartition) (addr : Nat) (buf : List UInt8)
  | erase (part : FalPartition) (addr size : Nat)

namespace Call

def part : Call → FalPartition
  | write part _ _ => part
  | erase part _ _ => part

def last : Call → Nat
  | write _ addr buf => addr + buf.length
  | erase _ addr size => addr + size

def perform (ops : FalFlashDev → Ops Flashes) (m : Flashes) : Call → Flashes
  | write part addr buf => (falPartitionWrite ops m part addr buf).2
  | erase part addr size => (falPartitionErase ops m part addr size).2

end Call

variable {ops : FalFlashDev → Ops Flashes}

theorem perform_frame (hops : Confined ops) {dev : FalFlashDev} (m : Flashes) {c : Call} (hon : c.part.On dev)
    (hw : c.last < 2 ^ 32) {name : String} {i : Nat}
    (hi : name ≠ c.part.flashName ∨ i < c.part.offset ∨ c.part.offset + c.part.len ≤ i) :
    c.perform ops m name i = m name i := by
  rw [flashName_eq hon] at hi
  cases c with
  | write part addr buf =>
    dsimp only [Call.part, Call.last] at hi hon hw
    rw [Call.perform, falPartitionWrite]
    cases hl : locate part addr buf.length with
    | none => rfl
    | some p =>
      obtain ⟨dev', off⟩ := p
      obtain ⟨rfl, hoff, hle⟩ := locate_fits hon hw hl
      refine hops.write_frame _ _ _ _ _ _ (hi.imp_right fun hi => ?_)
      rw [hoff]
      omega
  | erase part addr size =>
    dsimp only [Call.part, Call.last] at hi hon hw
    rw [Call.perform, falPartitionErase]
    cases hl : locate part addr size with
    | none => rfl
    | some p =>
      obtain ⟨dev', off⟩ := p
      obtain ⟨rfl, hoff, hle⟩ := locate_fits hon hw hl
      refine hops.erase_frame _ _ _ _ _ _ (hi.imp_right fun hi => ?_)
      rw [hoff]
      refine hi.imp (fun hi => ?_) fun hi => ?_
      · exact Nat.lt_of_lt_of_le hi (Nor.le_blockStart hon.offset_dvd (Nat.le_add_right ..))
      · refine Nat.le_trans (Nor.blockEnd_le hon.blkSize_pos ((Nat.dvd_add_right hon.offset_dvd).mpr hon.len_dvd) ?_) hi
        omega

theorem read_frame (hops : Confined ops) {part : FalPartition} {dev : FalFlashDev} (hon : part.On dev) {m m' : Flashes}
    {addr size : Nat} (hw : addr + size < 2 ^ 32)
    (h : ∀ i, part.offset ≤ i → i < part.offset + part.len → m' part.flashName i = m part.flashName i) :
    falPartitionRead ops m' part addr size = falPartitionRead ops m part addr size := by
  rw [falPartitionRead, falPartitionRead]
  cases hl : locate part addr size with
  | none => rfl
  | some p =>
    obtain ⟨dev', off⟩ := p
    obtain ⟨rfl, hoff, hle⟩ := locate_fits hon hw hl
    apply hops.read_congr
    intro i hi hi'
    rw [← flashName_eq hon]
    exact h i (by omega) (by omega)

def plainOps (dev : FalFlashDev) : Ops Flashes where
  read m off n := (n, Nor.read (m dev.name) off n)
  write m off bs := (bs.length, Function.update m dev.name (Bytes.overwrite (m dev.name) off bs))
  erase m off n := (n, Function.update m dev.name fun i =>
    if off / dev.blkSize * dev.blkSize ≤ i ∧ i < (off + n + (dev.blkSize - 1)) / dev.blkSize * dev.blkSize then 0xFF
    else m dev.name i)

theorem plainOps_confined : Confined plainOps where
  read_congr dev m m' off n h := by
    dsimp only [plainOps]
    rw [Nor.read_congr h]
  write_frame dev m off bs name i h := by
    dsimp only [plainOps]
    by_cases hn : name = dev.name
    · subst hn
      rw [Function.update_self]
      rcases h with h | h | h
      · exact absurd rfl h
      · exact Bytes.overwrite_of_lt bs h
      · exact Bytes.overwrite_of_ge h
    · rw [Function.update_of_ne hn]
  erase_frame dev m off n name i h := by
    dsimp only [plainOps]
    by_cases hn : name = dev.name
    · subst hn
      rw [Function.update_self]
      exact if_neg (by have := h.resolve_left (not_not.mpr rfl); omega)
    · rw [Function.update_of_ne hn]

def numbered : Flashes := fun _ i => UInt8.ofNat i

end RocCar.Fal

import RocCar.EnvOps
import RocCar.FalSound
import RocCar.Lib.TwoSlot

/-!
# The areas on the flash

An area is saved when it holds what the cache held: a header with the end of the
data and the number of saves, the checksum over both and the data. The start of
the program takes the area with the bigger number; a save writes the other one.
-/

namespace RocCar.EasyFlash

open Cells Fallible Fal
open Nor (Mem Device)
open Wifi (CString equalSign)

/-! ## The port -/

theorem part_on : part.On norFlash0 := by decide

theorem locate_part {addr size : Nat} (h : addr + size ≤ 512 * 1024) :
    locate part addr size = some (norFlash0, addr) := by
  have hlen : part.len = 512 * 1024 := rfl
  have hoff : part.offset = 0 := rfl
  exact (locate_eq_some part_on).mpr ⟨by omega, rfl, by rw [hoff]; omega⟩

variable (d : Device efEraseMinSize)

theorem efPortRead_eq (m : Mem) {addr size : Nat} (h : addr + size ≤ 512 * 1024) :
    efPortRead d m addr size = Nor.read m addr size := by
  rw [efPortRead, falPartitionRead, locate_part h]
  dsimp only [sfudOps]
  rw [show norFlash0.addr + addr = addr from Nat.zero_add addr]

theorem efPortErase_eq (m : Mem) {addr size : Nat} (h : addr + size ≤ 512 * 1024) (ha : addr % efEraseMinSize = 0) :
    efPortErase d m addr size =
      .ok (if (d.erase m addr size).1 then .efNoErr else .efEraseErr, (d.erase m addr size).2) := by
  rw [efPortErase, falPartitionErase, locate_part h, ha]
  dsimp only [sfudOps]
  rw [show norFlash0.addr + addr = addr from Nat.zero_add addr]
  obtain ⟨ok, m'⟩ := d.erase m addr size
  cases ok with
  | false => rfl
  | true => rfl

theorem efPortWrite_eq (m : Mem) {addr : Nat} {buf : List UInt8} (h : addr + buf.length ≤ 512 * 1024) :
    efPortWrite d m addr buf =
      (if (d.write m addr buf).1 then .efNoErr else .efWriteErr, (d.write m addr buf).2) := by
  rw [efPortWrite, falPartitionWrite, locate_part h]
  dsimp only [sfudOps]
  rw [show norFlash0.addr + addr = addr from Nat.zero_add addr]
  obtain ⟨ok, m'⟩ := d.write m addr buf
  cases ok with
  | false => rfl
  | true => rfl

/-! ## Saved areas -/

def memWord (m : Mem) (a : Nat) : Nat := Bytes.value (Nor.read m a 4)

/-- The checksum over the end address, the number of saves, and `size` bytes of
data of the area at `a`. -/
def areaCrc (m : Mem) (a size : Nat) : UInt32 :=
  efCalcCrc32 0 (Nor.read m a 8 ++ Nor.read m (a + envParamByteSize) size)

structure Saved (m : Mem) (a count ver : Nat) (es : List Entry) : Prop where
  end_eq : memWord m a = a + envParamByteSize + (encAll es).length
  count_eq : memWord m (a + envParamIndexSavedCount * 4) = count
  ver_eq : memWord m (a + envParamIndexVerNum * 4) = ver
  crc_eq : memWord m (a + envParamIndexDataCrc * 4) = (areaCrc m a (encAll es).length).toNat
  data : Nor.read m (a + envParamByteSize) (encAll es).length = encAll es
  room : envParamByteSize + (encAll es).length < envUserSettingSize
  distinct : es.Pairwise fun e e' => e.key ≠ e'.key

/-- The end address is out of range, or it is in range behind the header and the
checksum is wrong. -/
def Rejected (m : Mem) (a : Nat) : Prop :=
  memWord m a = 0xFFFFFFFF ∨ memWord m a < a ∨ memWord m a > a + envUserSettingSize ∨
    a + envParamByteSize ≤ memWord m a ∧
      (areaCrc m a (memWord m a - (a + envParamByteSize))).toNat ≠ memWord m (a + envParamIndexDataCrc * 4)

instance (m : Mem) (a : Nat) : Decidable (Rejected m a) := inferInstanceAs (Decidable (_ ∨ _ ∨ _ ∨ _ ∧ _))

theorem portWord_eq (m : Mem) {a : Nat} (h : a + 4 ≤ 512 * 1024) : portWord d m a = memWord m a := by
  rw [portWord, efPortRead_eq d m h, memWord]

theorem bytes_bytes {n : Nat} (c : Vector UInt8 n) {i k u : Nat} (h : i + k ≤ u) :
    ((bytes c 0 u).drop i).take k = bytes c i k := by
  rw [bytes, bytes, List.drop_zero, List.drop_take, List.take_take, Nat.min_eq_left (by omega)]

theorem calcEnvCrc_eq {s : EnvState} (h : envParamByteSize + getEnvDataSize s ≤ envUserSettingSize) :
    calcEnvCrc s =
      .ok (efCalcCrc32 0 (bytes s.envCache 0 8 ++ bytes s.envCache envParamByteSize (getEnvDataSize s))) := by
  have hsplit : bytes s.envCache 0 8 = bytes s.envCache 0 4 ++ bytes s.envCache 4 4 := by
    rw [bytes, bytes, bytes, List.drop_zero, ← List.take_add]
  rw [calcEnvCrc, loadRange, if_pos h, ok_bind, hsplit, efCalcCrc32_append, efCalcCrc32_append]
  rfl

/-! ## Loading an area -/

def loaded (s : EnvState) (m : Mem) (a : Nat) : EnvState :=
  { s with envCache := blit s.envCache 0 (Nor.read m a (memWord m a - a)), curLoadAreaAddr := a }

structure EndInRange (m : Mem) (a : Nat) : Prop where
  le_end : a + envParamByteSize ≤ memWord m a
  end_le : memWord m a ≤ a + envUserSettingSize
  area_le : a ≤ envAreaSize

variable {m : Mem} {a : Nat}

theorem EndInRange.bytes_loaded (h : EndInRange m a) (s : EnvState) {i k : Nat} (hk : i + k ≤ memWord m a - a) :
    bytes (loaded s m a).envCache i k = Nor.read m (a + i) k := by
  have hle := h.end_le
  have hlen : (Nor.read m a (memWord m a - a)).length = memWord m a - a := Nor.length_read ..
  have hself : bytes (blit s.envCache 0 (Nor.read m a (memWord m a - a))) 0 _ = _ :=
    bytes_blit_self s.envCache (by rw [hlen]; omega)
  rw [hlen] at hself
  rw [← bytes_bytes (loaded s m a).envCache hk, loaded, hself, Nor.drop_read m (by omega), Nor.take_read m (by omega)]

theorem EndInRange.word_loaded (h : EndInRange m a) (s : EnvState) {k : Nat} (hk : 4 * k + 4 ≤ envParamByteSize) :
    wordAt (loaded s m a).envCache k = memWord m (a + k * 4) := by
  have := h.le_end
  rw [wordAt, h.bytes_loaded s (by omega), Nat.mul_comm 4 k, memWord]

theorem EndInRange.dataSize_loaded (h : EndInRange m a) (s : EnvState) :
    getEnvDataSize (loaded s m a) = memWord m a - (a + envParamByteSize) := by
  have hend : getEnvEndAddr (loaded s m a) = memWord m a := by
    rw [getEnvEndAddr, h.word_loaded s (by decide)]
    rfl
  have hdata : getEnvDataAddr (loaded s m a) = a + envParamByteSize := rfl
  rw [getEnvDataSize, hend, hdata]
  split
  · rfl
  · omega

theorem EndInRange.calcEnvCrc_loaded (h : EndInRange m a) (s : EnvState) :
    calcEnvCrc (loaded s m a) = .ok (areaCrc m a (memWord m a - (a + envParamByteSize))) := by
  have hle := h.end_le
  have hge := h.le_end
  have hparam := envParamByteSize_eq
  rw [calcEnvCrc_eq (by rw [h.dataSize_loaded]; omega), h.dataSize_loaded, h.bytes_loaded s (by omega),
    h.bytes_loaded s (by omega)]
  rfl

theorem loadArea_inRange (h : EndInRange m a) (s : EnvState) :
    loadArea d m a s = .ok (decide ((areaCrc m a (memWord m a - (a + envParamByteSize))).toNat =
      memWord m (a + envParamIndexDataCrc * 4)), loaded s m a) := by
  have hle := h.end_le
  have hge := h.le_end
  have harea := h.area_le
  have hsize := envUserSettingSize_eq
  have hpsize := envAreaSize_eq
  have hcrc := h.calcEnvCrc_loaded s
  have hword := h.word_loaded s (k := envParamIndexDataCrc) (by decide)
  rw [loadArea, portWord_eq d m (by omega)]
  dsimp only
  rw [if_neg (by omega), efPortRead_eq d m (by omega), storeAt_ok s (by rw [Nor.length_read]; omega), ok_bind]
  dsimp only
  rw [← loaded, envCrcIsOk, hcrc, ok_bind, hword]
  rfl

theorem loadArea_outOfRange {s : EnvState} (ha : a ≤ envAreaSize)
    (h : memWord m a = 0xFFFFFFFF ∨ memWord m a < a ∨ memWord m a > a + envUserSettingSize) :
    loadArea d m a s = .ok (false, s) := by
  have hsize := envAreaSize_eq
  rw [loadArea, portWord_eq d m (by omega)]
  dsimp only
  rw [if_pos h]
  rfl

theorem Rejected.loadArea (h : Rejected m a) (ha : a ≤ envAreaSize) (s : EnvState) :
    loadArea d m a s = .ok (false, s) ∨ loadArea d m a s = .ok (false, loaded s m a) := by
  by_cases hr : memWord m a = 0xFFFFFFFF ∨ memWord m a < a ∨ memWord m a > a + envUserSettingSize
  · exact .inl (loadArea_outOfRange d ha hr)
  · obtain ⟨hge, hcrc⟩ : a + envParamByteSize ≤ memWord m a ∧
        (areaCrc m a (memWord m a - (a + envParamByteSize))).toNat ≠ memWord m (a + envParamIndexDataCrc * 4) := by
      rcases h with h | h | h | h
      · exact absurd (.inl h) hr
      · exact absurd (.inr (.inl h)) hr
      · exact absurd (.inr (.inr h)) hr
      · exact h
    have hin : EndInRange m a := ⟨hge, by omega, ha⟩
    refine .inr ?_
    rw [loadArea_inRange d hin, decide_eq_false hcrc]

theorem Saved.endInRange {count ver : Nat} {es : List Entry} (h : Saved m a count ver es) (ha : a ≤ envAreaSize) :
    EndInRange m a := by
  have := h.room
  exact ⟨by rw [h.end_eq]; omega, by rw [h.end_eq]; omega, ha⟩

theorem Saved.loadArea {count ver : Nat} {es : List Entry} (h : Saved m a count ver es) (ha : a ≤ envAreaSize)
    (s : EnvState) : loadArea d m a s = .ok (true, loaded s m a) := by
  have hsize : memWord m a - (a + envParamByteSize) = (encAll es).length := by rw [h.end_eq]; omega
  rw [loadArea_inRange d (h.endInRange ha), hsize, h.crc_eq, decide_eq_true rfl]

theorem Saved.holds {count ver : Nat} {es : List Entry} (h : Saved m a count ver es) (ha : a ≤ envAreaSize)
    (s : EnvState) : Holds (loaded s m a) es ∧ wordAt (loaded s m a).envCache envParamIndexSavedCount = count ∧
      wordAt (loaded s m a).envCache envParamIndexVerNum = ver := by
  have hin := h.endInRange ha
  have hend := h.end_eq
  refine ⟨⟨ha, ?_, ?_, h.room, h.distinct⟩, ?_, ?_⟩
  · exact (hin.word_loaded s (by decide)).trans hend
  · have := hin.bytes_loaded s (i := envParamByteSize) (k := (encAll es).length) (by omega)
    rw [h.data] at this
    rw [charsAt, ← this]
    exact List.take_prefix ..
  · rw [hin.word_loaded s (by decide), h.count_eq]
  · rw [hin.word_loaded s (by decide), h.ver_eq]

end RocCar.EasyFlash

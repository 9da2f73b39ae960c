import RocCar.EnvFlash

/-!
# Save and load

The two areas as two slots. A load takes the current slot, a save writes the
other one; a save that fails leaves the current slot alone.
-/

namespace RocCar.EasyFlash

open Cells Fallible TwoSlot
open Nor (Mem Device)

def areaAddr (i : Bool) : Nat := if i then area1StartAddress else area0StartAddress

theorem areaAddr_le (i : Bool) : areaAddr i + efEraseMinSize ≤ envAreaSize := by cases i <;> decide

theorem areaAddr_mod (i : Bool) : areaAddr i % efEraseMinSize = 0 := by cases i <;> rfl

theorem areaAddr_apart (i : Bool) : areaAddr i + efEraseMinSize ≤ areaAddr (!i) ∨
    areaAddr (!i) + efEraseMinSize ≤ areaAddr i := by
  cases i <;> decide

/-- What is saved: the entries, under the version of the program that saved them. -/
structure Contents where
  ver : ℕ
  entries : List Entry

def AreaIs (m : Mem) (i : Bool) : Option (ℕ × Contents) → Prop
  | none => Rejected m (areaAddr i)
  | some (n, c) => Saved m (areaAddr i) n c.ver c.entries

def Represents (m : Mem) (slots : Slots Contents) : Prop := ∀ i, AreaIs m i (slots i)

/-- Equal in all that a load does not read. -/
structure SameFlags (s s' : EnvState) : Prop where
  defaults : s'.defaultEnvSet = s.defaultEnvSet
  init : s'.initOk = s.initOk
  changed : s'.envCacheChanged = s.envCacheChanged

variable (d : Device efEraseMinSize) {m : Mem}

/-! ## Load -/

theorem SameFlags.loaded {s s' : EnvState} (h : SameFlags s s') (a next : Nat) :
    SameFlags s { loaded s' m a with nextSaveAreaAddr := next } :=
  ⟨h.defaults, h.init, h.changed⟩

theorem AreaIs.loadArea {i : Bool} : ∀ {slot : Option (ℕ × Contents)}, AreaIs m i slot → ∀ s : EnvState,
    ∃ s', loadArea d m (areaAddr i) s = .ok (slot.isSome, s') ∧ SameFlags s s' ∧
      (slot.isSome = true → s' = loaded s m (areaAddr i))
  | none, h, s => by
    have hle := areaAddr_le i
    obtain h | h := Rejected.loadArea d h (by omega) s
    · exact ⟨s, h, ⟨rfl, rfl, rfl⟩, fun hc => absurd hc (by decide)⟩
    · exact ⟨_, h, ⟨rfl, rfl, rfl⟩, fun hc => absurd hc (by decide)⟩
  | some (n, c), h, s => by
    have hle := areaAddr_le i
    exact ⟨_, Saved.loadArea d h (by omega) s, ⟨rfl, rfl, rfl⟩, fun _ => rfl⟩

/-- The cache is a copy of area `i`, up to the entries, and the next save goes to
the other area. -/
structure Ready (s : EnvState) (i : Bool) (n : ℕ) (c : Contents) : Prop where
  cur : s.curLoadAreaAddr = areaAddr i
  next : s.nextSaveAreaAddr = areaAddr !i
  holds : Holds s c.entries
  count : wordAt s.envCache envParamIndexSavedCount = n
  ver : wordAt s.envCache envParamIndexVerNum = c.ver

theorem ready_of_saved (s : EnvState) {i : Bool} {n : ℕ} {c : Contents}
    (h : Saved m (areaAddr i) n c.ver c.entries) :
    Ready { loaded s m (areaAddr i) with nextSaveAreaAddr := areaAddr !i } i n c := by
  have hle := areaAddr_le i
  obtain ⟨hh, hcount, hver⟩ := h.holds (by omega) s
  exact ⟨rfl, rfl, hh.congr rfl rfl, hcount, hver⟩

theorem savedCount_eq {i : Bool} {n ver : ℕ} {es : List Entry} (h : Saved m (areaAddr i) n ver es) :
    savedCount d m (areaAddr i) = n := by
  have hle := areaAddr_le i
  have hsize := envAreaSize_eq
  have hindex : envParamIndexSavedCount * 4 = 4 := rfl
  rw [savedCount, portWord_eq d m (by omega), h.count_eq]

theorem readAgain {s : EnvState} {i : Bool} {n ver : ℕ} {es : List Entry} (h : Saved m (areaAddr i) n ver es) :
    storeAt { s with curLoadAreaAddr := areaAddr i, nextSaveAreaAddr := areaAddr !i } 0
        (efPortRead d m (areaAddr i) (portWord d m (areaAddr i) - areaAddr i)) =
      .ok { loaded s m (areaAddr i) with nextSaveAreaAddr := areaAddr !i } := by
  have hle := areaAddr_le i
  have hsize := envAreaSize_eq
  have husize := envUserSettingSize_eq
  have hend := h.end_eq
  have hroom := h.room
  rw [portWord_eq d m (by omega), efPortRead_eq d m (by omega), storeAt_ok _ (by rw [Nor.length_read]; omega)]
  rfl

theorem compareSavedCount_newest {slots : Slots Contents} {i : Bool} (hm : Represents m slots)
    (hn : ∀ n c, slots true = some (n, c) → n < 0xFFFFFFFF) (h : newest slots = some i) :
    compareSavedCount ((slots false).isSome, (slots true).isSome) (savedCount d m (areaAddr false))
      (savedCount d m (areaAddr true)) = (!i, i) := by
  have h₀ := hm false
  have h₁ := hm true
  unfold newest at h
  cases hs₀ : slots false with
  | none =>
    cases hs₁ : slots true with
    | none => rw [hs₀, hs₁] at h; cases h
    | some q => rw [hs₀, hs₁] at h; cases h; rfl
  | some p =>
    cases hs₁ : slots true with
    | none => rw [hs₀, hs₁] at h; cases h; rfl
    | some q =>
      rw [hs₀, hs₁, Option.some.injEq] at h
      rw [hs₀] at h₀
      rw [hs₁] at h₁
      have hlt := hn q.1 q.2 hs₁
      rw [savedCount_eq d h₀, savedCount_eq d h₁]
      subst h
      by_cases hle : p.1 ≤ q.1
      · simp [compareSavedCount, hle, Nat.not_lt.mpr hle, Nat.ne_of_lt hlt]
      · simp [compareSavedCount, hle, Nat.not_le.mp hle]

theorem efLoadEnv_of_compare {slots : Slots Contents} {i : Bool} {n : ℕ} {c : Contents} (s : EnvState)
    (hm : Represents m slots) (hi : slots i = some (n, c))
    (hv : compareSavedCount ((slots false).isSome, (slots true).isSome) (savedCount d m (areaAddr false))
      (savedCount d m (areaAddr true)) = (!i, i)) :
    ∃ s', efLoadEnv d ⟨s, m⟩ = .ok (.efNoErr, ⟨s', m⟩) ∧ SameFlags s s' ∧ Ready s' i n c := by
  obtain ⟨s₀, h₀, hf₀, -⟩ := (hm false).loadArea d s
  obtain ⟨s₁, h₁, hf₁, he₁⟩ := (hm true).loadArea d s₀
  have hf : SameFlags s s₁ := ⟨hf₁.defaults.trans hf₀.defaults, hf₁.init.trans hf₀.init, hf₁.changed.trans hf₀.changed⟩
  have hhere := hm i
  rw [hi] at hhere
  unfold efLoadEnv
  rw [show area0StartAddress = areaAddr false from rfl, show area1StartAddress = areaAddr true from rfl]
  dsimp only
  rw [h₀, ok_bind]
  dsimp only
  rw [h₁, ok_bind]
  dsimp only
  rw [hv]
  cases i with
  | false =>
    have hagain := readAgain d (s := s₁) hhere
    rw [Bool.not_false] at hagain
    rw [if_pos Bool.not_false, hagain, ok_bind]
    exact ⟨_, rfl, hf.loaded _ _, ready_of_saved s₁ hhere⟩
  | true =>
    rw [if_neg (by rw [Bool.not_true]; exact Bool.false_ne_true), if_pos rfl, he₁ (by rw [hi]; rfl)]
    exact ⟨_, rfl, hf₀.loaded _ _, ready_of_saved s₀ hhere⟩

/-- **A load takes the current area.** -/
theorem efLoadEnv_current {slots : Slots Contents} {i : Bool} {n : ℕ} {c : Contents} (s : EnvState)
    (hm : Represents m slots) (hc : Current slots i n c) (hn : n < 0xFFFFFFFF) :
    ∃ s', efLoadEnv d ⟨s, m⟩ = .ok (.efNoErr, ⟨s', m⟩) ∧ SameFlags s s' ∧ Ready s' i n c := by
  have hbound : ∀ k c', slots true = some (k, c') → k < 0xFFFFFFFF := by
    intro k c' hk
    cases i with
    | false => exact Nat.lt_of_le_of_lt (hc.other_le hk) hn
    | true =>
      rw [hc.here, Option.some.injEq, Prod.mk.injEq] at hk
      omega
  exact efLoadEnv_of_compare d s hm hc.here (compareSavedCount_newest d hm hbound hc.newest)

/-! ## Save -/

/-- The state with the header of the next save, the checksum not included. -/
def headed (s : EnvState) : EnvState :=
  let ram := { s with nextSaveAreaAddr := s.curLoadAreaAddr, curLoadAreaAddr := s.nextSaveAreaAddr }
  let ram := setEnvEndAddr ram (s.nextSaveAreaAddr + getEnvUserUsedSize s)
  setParam ram envParamIndexSavedCount (wordAt ram.envCache envParamIndexSavedCount + 1)

def cacheCrc (s : EnvState) : UInt32 :=
  efCalcCrc32 0 (bytes s.envCache 0 8 ++ bytes s.envCache envParamByteSize (getEnvDataSize s))

def sealed (s : EnvState) : EnvState := setParam (headed s) envParamIndexDataCrc (cacheCrc (headed s)).toNat

def image (s : EnvState) : List UInt8 := bytes (sealed s).envCache 0 (getEnvUserUsedSize s)

variable {s : EnvState} {es : List Entry}

theorem word_setParam_ne {j k w : Nat} (hk : 4 * k + 4 ≤ envParamByteSize) (hj : j ≠ k) :
    wordAt (setParam s k w).envCache j = wordAt s.envCache j :=
  word_setWord_ne (by have := envUserSettingSize_eq; have := envParamByteSize_eq; omega) hj

theorem word_setParam {k w : Nat} (hk : 4 * k + 4 ≤ envParamByteSize) :
    wordAt (setParam s k w).envCache k = w % 2 ^ 32 :=
  word_setWord (by have := envUserSettingSize_eq; have := envParamByteSize_eq; omega)

theorem charsAt_setParam {k w : Nat} (hk : 4 * k + 4 ≤ envParamByteSize) :
    charsAt (setParam s k w) envParamByteSize = charsAt s envParamByteSize :=
  drop_setWord (by have := envUserSettingSize_eq; have := envParamByteSize_eq; omega) hk

theorem Holds.setParam (h : Holds s es) {k : Nat} (w : Nat) (hk : 4 * k + 4 ≤ envParamByteSize) (h₀ : 0 ≠ k) :
    Holds (setParam s k w) es where
  area_le := h.area_le
  end_eq := (word_setParam_ne hk h₀).trans h.end_eq
  data := by rw [charsAt_setParam hk]; exact h.data
  room := h.room
  distinct := h.distinct

theorem headed_holds (h : Holds s es) (ha : s.nextSaveAreaAddr ≤ envAreaSize) : Holds (headed s) es := by
  have hsize := envUserSettingSize_eq
  have harea := envAreaSize_eq
  have hroom := h.room
  apply Holds.setParam _ _ (by decide) (by decide)
  refine ⟨ha, ?_, ?_, h.room, h.distinct⟩
  · refine (word_setParam (by decide)).trans ?_
    rw [h.usedSize, Nat.mod_eq_of_lt (by omega)]
    exact (Nat.add_assoc ..).symm
  · rw [setEnvEndAddr, charsAt_setParam (by decide)]
    exact h.data

theorem sealed_holds (h : Holds s es) (ha : s.nextSaveAreaAddr ≤ envAreaSize) : Holds (sealed s) es :=
  (headed_holds h ha).setParam _ (by decide) (by decide)

theorem count_sealed : wordAt (sealed s).envCache envParamIndexSavedCount =
    (wordAt s.envCache envParamIndexSavedCount + 1) % 2 ^ 32 := by
  rw [sealed, word_setParam_ne (by decide) (by decide), headed, word_setParam (by decide), setEnvEndAddr,
    word_setParam_ne (by decide) (by decide)]

theorem ver_sealed : wordAt (sealed s).envCache envParamIndexVerNum = wordAt s.envCache envParamIndexVerNum := by
  rw [sealed, word_setParam_ne (by decide) (by decide), headed, word_setParam_ne (by decide) (by decide),
    setEnvEndAddr, word_setParam_ne (by decide) (by decide)]

theorem crc_sealed (h : Holds s es) (ha : s.nextSaveAreaAddr ≤ envAreaSize) :
    wordAt (sealed s).envCache envParamIndexDataCrc = (cacheCrc (sealed s)).toNat := by
  have hbytes : ∀ i k, i + k ≤ 12 ∨ 16 ≤ i → bytes (sealed s).envCache i k = bytes (headed s).envCache i k := by
    intro i k hik
    rcases hik with hik | hik
    · exact bytes_setWord_before (by decide) hik
    · exact bytes_setWord_after (by decide) hik
  rw [sealed, word_setParam (by decide), ← sealed, Nat.mod_eq_of_lt (UInt32.toNat_lt _), cacheCrc, cacheCrc,
    hbytes 0 8 (by omega), hbytes envParamByteSize _ (Or.inr (Nat.le_refl 16)), (sealed_holds h ha).dataSize,
    (headed_holds h ha).dataSize]

theorem saved_of_read (h : Holds s es) (hcrc : wordAt s.envCache envParamIndexDataCrc = (cacheCrc s).toNat)
    (hr : Nor.read m s.curLoadAreaAddr (envParamByteSize + (encAll es).length) =
      bytes s.envCache 0 (envParamByteSize + (encAll es).length)) :
    Saved m s.curLoadAreaAddr (wordAt s.envCache envParamIndexSavedCount) (wordAt s.envCache envParamIndexVerNum)
      es := by
  have hread : ∀ i k, i + k ≤ envParamByteSize + (encAll es).length →
      Nor.read m (s.curLoadAreaAddr + i) k = bytes s.envCache i k := by
    intro i k hik
    rw [← bytes_bytes s.envCache hik, ← hr, Nor.drop_read m (by omega), Nor.take_read m (by omega)]
  have hword : ∀ k, 4 * k + 4 ≤ envParamByteSize → memWord m (s.curLoadAreaAddr + k * 4) = wordAt s.envCache k := by
    intro k hk
    rw [memWord, hread _ _ (by omega), wordAt, Nat.mul_comm]
  have hcrc' : areaCrc m s.curLoadAreaAddr (encAll es).length = cacheCrc s := by
    have := hread 0 8 (by have := envParamByteSize_eq; omega)
    rw [Nat.add_zero] at this
    rw [areaCrc, cacheCrc, h.dataSize, hread _ _ (Nat.le_refl _), this]
  refine ⟨?_, hword 1 (by decide), hword 2 (by decide), ?_, ?_, h.room, h.distinct⟩
  · rw [← h.end_eq]
    exact hword 0 (by decide)
  · rw [hcrc', ← hcrc]
    exact hword 3 (by decide)
  · rw [hread _ _ (Nat.le_refl _), h.bytes_data]

/-- **What a save does**: it erases the other area, and writes the cache with
its new header. -/
theorem efSaveEnv_eq (h : Holds s es) {i : Bool} (hn : s.nextSaveAreaAddr = areaAddr i)
    (hc : s.envCacheChanged = true) :
    efSaveEnv d ⟨s, m⟩ = .ok
      (let erased := d.erase m (areaAddr i) (getEnvUserUsedSize s)
      if erased.1 = false then (.efEraseErr, ⟨sealed s, erased.2⟩)
      else
        let written := d.write erased.2 (areaAddr i) (image s)
        (if written.1 then .efNoErr else .efWriteErr, ⟨{ sealed s with envCacheChanged := false }, written.2⟩)) := by
  have hle := areaAddr_le i
  have hsize := envUserSettingSize_eq
  have hpsize := envAreaSize_eq
  have hmin : efEraseMinSize = 4096 := rfl
  have hroom := h.room
  have hused := h.usedSize
  have hh := headed_holds h (by omega)
  have hcrc : calcEnvCrc (headed s) = .ok (cacheCrc (headed s)) := calcEnvCrc_eq (by rw [hh.dataSize]; omega)
  have himage : (image s).length ≤ getEnvUserUsedSize s := List.length_take_le ..
  unfold efSaveEnv
  dsimp only
  rw [if_neg (by rw [hc]; decide)]
  have hfold : setParam
      (setEnvEndAddr { s with nextSaveAreaAddr := s.curLoadAreaAddr, curLoadAreaAddr := s.nextSaveAreaAddr }
        (s.nextSaveAreaAddr + getEnvUserUsedSize s)) envParamIndexSavedCount
      (wordAt (setEnvEndAddr { s with nextSaveAreaAddr := s.curLoadAreaAddr, curLoadAreaAddr := s.nextSaveAreaAddr }
        (s.nextSaveAreaAddr + getEnvUserUsedSize s)).envCache envParamIndexSavedCount + 1) = headed s := rfl
  rw [hfold, hcrc, ok_bind, ← sealed, hn, efPortErase_eq d m (by omega) (areaAddr_mod i), ok_bind]
  cases he : (d.erase m (areaAddr i) (getEnvUserUsedSize s)).1 with
  | false => rfl
  | true =>
    rw [if_pos rfl, if_neg (by decide), ← image]
    dsimp only
    rw [efPortWrite_eq d _ (by omega)]
    rfl

end RocCar.EasyFlash

import RocCar.EnvSave

/-!
# Runs of the store, with losses of power

A store is a list of entries that is saved and a list that is in use. This is
what the program keeps, in every order of operations, when an operation that
fails is followed by a start of the program: a loss of power is a failure of the
device. A torn area must be one that the check rejects.
-/

namespace RocCar.EasyFlash

open Cells Fallible TwoSlot
open Nor (Mem Device)
open Wifi (CString)

variable (d : Device efEraseMinSize) {m m' : Mem}

/-! ## One area at a time -/

theorem AreaIs.congr {i : Bool} : ∀ {slot : Option (ℕ × Contents)},
    (∀ j, areaAddr i ≤ j → j < areaAddr i + efEraseMinSize → m' j = m j) → AreaIs m i slot → AreaIs m' i slot := by
  intro slot hj h
  have hsize := envUserSettingSize_eq
  have hparam := envParamByteSize_eq
  have hmin : efEraseMinSize = 4096 := rfl
  have hread : ∀ k n, k + n ≤ envUserSettingSize → Nor.read m' (areaAddr i + k) n = Nor.read m (areaAddr i + k) n :=
    fun k n hk => Nor.read_congr fun j h₁ h₂ => hj j (by omega) (by omega)
  have hword : ∀ k, k ≤ 12 → memWord m' (areaAddr i + k) = memWord m (areaAddr i + k) := by
    intro k hk
    rw [memWord, memWord, hread k 4 (by omega)]
  have hend : memWord m' (areaAddr i) = memWord m (areaAddr i) := hword 0 (by omega)
  have hcrc : ∀ n, envParamByteSize + n ≤ envUserSettingSize →
      areaCrc m' (areaAddr i) n = areaCrc m (areaAddr i) n := by
    intro n hn
    rw [areaCrc, areaCrc, hread _ n hn, show Nor.read m' (areaAddr i) 8 = Nor.read m (areaAddr i) 8 from
      hread 0 8 (by omega)]
  cases slot with
  | none =>
    show Rejected m' (areaAddr i)
    unfold Rejected
    rw [hend, hword _ (by decide)]
    by_cases hle : memWord m (areaAddr i) > areaAddr i + envUserSettingSize
    · exact .inr (.inr (.inl hle))
    · rcases h with h | h | h | ⟨h, hne⟩
      · exact .inl h
      · exact .inr (.inl h)
      · exact absurd h hle
      · exact .inr (.inr (.inr ⟨h, by rw [hcrc _ (by omega)]; exact hne⟩))
  | some p =>
    obtain ⟨n, c⟩ := p
    have hroom := Saved.room h
    exact ⟨by rw [hend]; exact h.end_eq, by rw [hword _ (by decide)]; exact h.count_eq,
      by rw [hword _ (by decide)]; exact h.ver_eq,
      by rw [hword _ (by decide), hcrc _ (by omega)]; exact h.crc_eq,
      by rw [hread _ _ (by omega)]; exact h.data, h.room, h.distinct⟩

theorem erase_elsewhere {i : Bool} {n j : Nat} (hn : n ≤ efEraseMinSize)
    (hj : j < areaAddr i ∨ areaAddr i + efEraseMinSize ≤ j) : (d.erase m (areaAddr i) n).2 j = m j := by
  have hdvd : efEraseMinSize ∣ areaAddr i := Nat.dvd_of_mod_eq_zero (areaAddr_mod i)
  apply d.erase_frame
  rcases hj with hj | hj
  · exact .inl (Nat.lt_of_lt_of_le hj (Nor.le_blockStart hdvd (Nat.le_refl _)))
  · have hdvd' := (Nat.dvd_add_right hdvd).mpr (Nat.dvd_refl efEraseMinSize)
    exact .inr (Nat.le_trans (Nor.blockEnd_le (by decide) hdvd' (by omega)) hj)

theorem write_elsewhere {i : Bool} {bs : List UInt8} {j : Nat} (hn : bs.length ≤ efEraseMinSize)
    (hj : j < areaAddr i ∨ areaAddr i + efEraseMinSize ≤ j) : (d.write m (areaAddr i) bs).2 j = m j :=
  d.write_frame _ _ _ _ (by omega)

theorem Represents.update {slots : Slots Contents} {i : Bool} {slot : Option (ℕ × Contents)}
    (h : Represents m slots) (hi : AreaIs m' i slot)
    (hj : ∀ j, j < areaAddr i ∨ areaAddr i + efEraseMinSize ≤ j → m' j = m j) :
    Represents m' (Function.update slots i slot) := by
  intro k
  by_cases hk : k = i
  · subst hk
    rw [Function.update_self]
    exact hi
  · rw [Function.update_of_ne hk]
    have hk' : i = !k := by cases i <;> cases k <;> simp_all
    have hapart := areaAddr_apart k
    rw [← hk'] at hapart
    exact (h k).congr fun j h₁ h₂ => hj j (by omega)

/-! ## The outcome of a save -/

/-- What a failed operation leaves of an area is what it was, or is rejected, or
is complete. -/
structure Detectable : Prop where
  erase_fail : ∀ m i n, envParamByteSize ≤ n → n ≤ envUserSettingSize → (d.erase m (areaAddr i) n).1 = false →
    Rejected (d.erase m (areaAddr i) n).2 (areaAddr i) ∨
      ∀ j, areaAddr i ≤ j → j < areaAddr i + efEraseMinSize → (d.erase m (areaAddr i) n).2 j = m j
  write_fail : ∀ m i bs, envParamByteSize ≤ bs.length → bs.length ≤ envUserSettingSize →
    (∀ j, areaAddr i ≤ j → j < areaAddr i + bs.length → m j = 0xFF) → (d.write m (areaAddr i) bs).1 = false →
    Rejected (d.write m (areaAddr i) bs).2 (areaAddr i) ∨
      Nor.read (d.write m (areaAddr i) bs).2 (areaAddr i) bs.length = bs

theorem length_image {s : EnvState} {es : List Entry} (h : Holds s es) :
    (image s).length = envParamByteSize + (encAll es).length := by
  have := h.room
  rw [image, length_bytes _ (by rw [h.usedSize]; omega), h.usedSize]

variable {s : EnvState} {slots : Slots Contents} {i : Bool} {n : ℕ} {c : Contents}

theorem Ready.next_le (h : Ready s i n c) : s.nextSaveAreaAddr ≤ envAreaSize := by
  have hle := areaAddr_le !i
  have hnext := h.next
  omega

theorem Ready.areaIs (h : Ready s i n c) (hb : n + 1 < 2 ^ 32)
    (hr : Nor.read m (areaAddr !i) (image s).length = image s) : AreaIs m (!i) (some (n + 1, c)) := by
  have hh := sealed_holds h.holds h.next_le
  have hcur : (sealed s).curLoadAreaAddr = areaAddr !i := h.next
  have hread : Nor.read m (sealed s).curLoadAreaAddr (envParamByteSize + (encAll c.entries).length) =
      bytes (sealed s).envCache 0 (envParamByteSize + (encAll c.entries).length) := by
    rw [length_image h.holds] at hr
    rw [hcur, hr, image, h.holds.usedSize]
  have := saved_of_read hh (crc_sealed h.holds h.next_le) hread
  rw [hcur, count_sealed, h.count, Nat.mod_eq_of_lt hb, ver_sealed, h.ver] at this
  exact this

theorem Ready.sealed (h : Ready s i n c) (hb : n + 1 < 2 ^ 32) : Ready (sealed s) (!i) (n + 1) c where
  cur := h.next
  next := by rw [Bool.not_not]; exact h.cur
  holds := sealed_holds h.holds h.next_le
  count := by rw [count_sealed, h.count, Nat.mod_eq_of_lt hb]
  ver := by rw [ver_sealed, h.ver]

theorem Ready.setChanged (h : Ready s i n c) (b : Bool) : Ready { s with envCacheChanged := b } i n c :=
  ⟨h.cur, h.next, h.holds.congr rfl rfl, h.count, h.ver⟩

inductive SaveOutcome (s : EnvState) (slots : Slots Contents) (i : Bool) (n : ℕ) (c : Contents) :
    EfErrCode → Store → Prop
  | done {s' : EnvState} {m' : Mem} : Ready s' (!i) (n + 1) c → s'.defaultEnvSet = s.defaultEnvSet →
      s'.initOk = s.initOk → s'.envCacheChanged = false →
      Represents m' (Function.update slots (!i) (some (n + 1, c))) → SaveOutcome s slots i n c .efNoErr ⟨s', m'⟩
  | failed {code : EfErrCode} {s' : EnvState} {m' : Mem} (slot : Option (ℕ × Contents)) :
      code = .efEraseErr ∨ code = .efWriteErr → slot = none ∨ slot = slots (!i) ∨ slot = some (n + 1, c) →
      Represents m' (Function.update slots (!i) slot) → Holds s' c.entries → SaveOutcome s slots i n c code ⟨s', m'⟩

theorem efSaveEnv_outcome (hd : Detectable d) (h : Ready s i n c) (hm : Represents m slots)
    (hc : s.envCacheChanged = true) (hb : n + 1 < 2 ^ 32) :
    ∃ code S, efSaveEnv d ⟨s, m⟩ = .ok (code, S) ∧ SaveOutcome s slots i n c code S := by
  have hlen := length_image h.holds
  have hroom := h.holds.room
  have hused := h.holds.usedSize
  have hsize := envUserSettingSize_eq
  have hmin : efEraseMinSize = 4096 := rfl
  rw [efSaveEnv_eq d h.holds h.next hc]
  dsimp only
  cases he : (d.erase m (areaAddr !i) (getEnvUserUsedSize s)).1 with
  | false =>
    rw [if_pos rfl]
    refine ⟨_, _, rfl, ?_⟩
    have hj : ∀ j, j < areaAddr (!i) ∨ areaAddr (!i) + efEraseMinSize ≤ j →
        (d.erase m (areaAddr !i) (getEnvUserUsedSize s)).2 j = m j :=
      fun j hj => erase_elsewhere d (by omega) hj
    rcases hd.erase_fail m (!i) _ (by omega) (by omega) he with hr | hr
    · exact .failed none (.inl rfl) (.inl rfl) (hm.update hr hj) (h.sealed hb).holds
    · exact .failed (slots !i) (.inl rfl) (.inr (.inl rfl)) (hm.update ((hm !i).congr hr) hj) (h.sealed hb).holds
  | true =>
    have hj : ∀ j, j < areaAddr (!i) ∨ areaAddr (!i) + efEraseMinSize ≤ j →
        (d.write (d.erase m (areaAddr !i) (getEnvUserUsedSize s)).2 (areaAddr !i) (image s)).2 j = m j := by
      intro j hj
      rw [write_elsewhere d (by omega) hj, erase_elsewhere d (by omega) hj]
    have herased : ∀ j, areaAddr (!i) ≤ j → j < areaAddr (!i) + (image s).length →
        (d.erase m (areaAddr !i) (getEnvUserUsedSize s)).2 j = 0xFF :=
      fun j h₁ h₂ => d.erase_ok _ _ _ he j h₁ (by omega)
    rw [if_neg (by decide)]
    cases hw : (d.write (d.erase m (areaAddr !i) (getEnvUserUsedSize s)).2 (areaAddr !i) (image s)).1 with
    | false =>
      rw [if_neg (by decide)]
      have hholds := ((h.sealed hb).setChanged false).holds
      refine ⟨_, _, rfl, ?_⟩
      rcases hd.write_fail _ (!i) _ (by omega) (by omega) herased hw with hr | hr
      · exact .failed none (.inr rfl) (.inl rfl) (hm.update hr hj) hholds
      · exact .failed _ (.inr rfl) (.inr (.inr rfl)) (hm.update (h.areaIs hb hr) hj) hholds
    | true =>
      rw [if_pos rfl]
      have hr := d.write_ok _ _ _ hw herased
      exact ⟨_, _, rfl, .done ((h.sealed hb).setChanged false) rfl rfl rfl (hm.update (h.areaIs hb hr) hj)⟩

end RocCar.EasyFlash

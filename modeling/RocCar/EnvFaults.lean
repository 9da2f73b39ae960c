import RocCar.EnvRun

/-!
# Failures that the store does not survive, or does not tell

A program that goes on behind a failed save: what the next save then does. And
what the header of an area does not protect: the number of saves when it wraps,
and the version number.
-/

namespace RocCar.EasyFlash

open Cells Fallible TwoSlot
open Nor (Mem Device)

variable {d : Device efEraseMinSize} {m m' : Mem} {S S' : Store} {slots : Slots Contents} {i : Bool} {n : ℕ}
  {c : Contents}

/-! ## Behind a failed save -/

theorem save_error {code : EfErrCode} (h : Ready S.ram i n c) (hsave : efSaveEnv d S = .ok (code, S'))
    (hcode : code ≠ .efNoErr) :
    S.ram.envCacheChanged = true ∧
      (code = .efEraseErr ∧ S' = ⟨sealed S.ram, (d.erase S.flash (areaAddr !i) (getEnvUserUsedSize S.ram)).2⟩ ∨
        code = .efWriteErr ∧ S' = ⟨{ sealed S.ram with envCacheChanged := false },
          (d.write (d.erase S.flash (areaAddr !i) (getEnvUserUsedSize S.ram)).2 (areaAddr !i) (image S.ram)).2⟩) := by
  cases hch : S.ram.envCacheChanged with
  | false =>
    rw [efSaveEnv, hch, Bool.not_false, if_pos rfl] at hsave
    exact absurd (Prod.mk.inj (Except.ok.inj hsave)).1.symm hcode
  | true =>
    refine ⟨rfl, ?_⟩
    rw [show S = ⟨S.ram, S.flash⟩ from rfl, efSaveEnv_eq d h.holds h.next hch] at hsave
    dsimp only at hsave
    cases he : (d.erase S.flash (areaAddr !i) (getEnvUserUsedSize S.ram)).1 with
    | false =>
      rw [he, if_pos rfl] at hsave
      obtain ⟨rfl, rfl⟩ := Prod.mk.inj (Except.ok.inj hsave)
      exact .inl ⟨rfl, rfl⟩
    | true =>
      rw [he, if_neg (by decide)] at hsave
      obtain ⟨hc, rfl⟩ := Prod.mk.inj (Except.ok.inj hsave)
      refine .inr ⟨?_, rfl⟩
      cases hw : (d.write (d.erase S.flash (areaAddr !i) (getEnvUserUsedSize S.ram)).2 (areaAddr !i) (image S.ram)).1
      · rw [hw, if_neg (by decide)] at hc
        exact hc.symm
      · rw [hw, if_pos rfl] at hc
        exact absurd hc.symm hcode

theorem save_error_frame {code : EfErrCode} (h : Ready S.ram i n c) (hsave : efSaveEnv d S = .ok (code, S'))
    (hcode : code ≠ .efNoErr) {j : Nat} (hj : j < areaAddr (!i) ∨ areaAddr (!i) + efEraseMinSize ≤ j) :
    S'.flash j = S.flash j := by
  have hroom := h.holds.room
  have hused := h.holds.usedSize
  have hsize := envUserSettingSize_eq
  have hmin : efEraseMinSize = 4096 := rfl
  have hlen := length_image h.holds
  obtain ⟨-, ⟨-, rfl⟩ | ⟨-, rfl⟩⟩ := save_error h hsave hcode
  · exact erase_elsewhere d (by omega) hj
  · exact (write_elsewhere d (by omega) hj).trans (erase_elsewhere d (by omega) hj)

theorem save_torn {code : EfErrCode} (h : Ready S.ram i n c) (hm : Represents S.flash slots)
    (hsave : efSaveEnv d S = .ok (code, S')) (hcode : code ≠ .efNoErr)
    (htorn : Rejected S'.flash S.ram.nextSaveAreaAddr) : Represents S'.flash (Function.update slots (!i) none) := by
  rw [h.next] at htorn
  exact hm.update htorn fun j hj => save_error_frame h hsave hcode hj

def unwrittenStore : Store := storeOf (efSaveEnv (device true false) setStore)

theorem unwrittenStore_eq : efSaveEnv (device true false) setStore = .ok (.efWriteErr, unwrittenStore) := by
  have hcode : (efSaveEnv (device true false) setStore).map Prod.fst = .ok .efWriteErr := by decide
  rw [unwrittenStore]
  exact eq_storeOf hcode

/-- **Two failed saves lose everything.** A save that fails to erase has already
exchanged the areas, so that the next save writes over the good one. -/
theorem two_failures_lose {d₁ d₂ : Device efEraseMinSize} {S₁ S₂ : Store} {code : EfErrCode} {k : ℕ} (h : Reachable k S)
    (hk : k < 0xFFFFFFFD) (h₁ : efSaveEnv d S = .ok (.efEraseErr, S₁)) (t₁ : Rejected S₁.flash S.ram.nextSaveAreaAddr)
    (h₂ : efSaveEnv d₁ S₁ = .ok (code, S₂)) (hcode : code ≠ .efNoErr) (t₂ : Rejected S₂.flash S.ram.curLoadAreaAddr)
    (hd : Detectable d₂) :
    ∃ code' S₃, easyflashInit d₂ S₂.flash = .ok (code', S₃) ∧
      (FlashError code' ∨ code' = .efNoErr ∧ ∀ key, readEnv S₃.ram key = .ok (Entries.get defaults key)) := by
  obtain ⟨v, slots, i, n, hs, hn⟩ := h.within hk
  obtain ⟨-, ⟨-, hS₁⟩ | ⟨hc, -⟩⟩ := save_error hs.ready h₁ (by decide)
  · have hready : Ready S₁.ram (!i) (n + 1) ⟨efEnvVerNum, v.ram⟩ := by
      rw [hS₁]
      exact hs.ready.sealed (by omega)
    have hnext : S₁.ram.nextSaveAreaAddr = S.ram.curLoadAreaAddr := by rw [hS₁]; rfl
    have hm := save_torn hready (save_torn hs.ready hs.flash h₁ (by decide) t₁) h₂ hcode (by rw [hnext]; exact t₂)
    have hnone : Function.update (Function.update slots (!i) none) (!!i) none = fun _ => none := by
      rw [Bool.not_not]
      funext j
      cases i <;> cases j <;> rfl
    rw [hnone] at hm
    obtain ⟨code', S₃, h₃, ⟨hcode', slots', i', n', hs', -⟩ | ⟨hcode', -⟩⟩ := easyflashInit_fresh d₂ hd (.inl hm)
    · exact ⟨code', S₃, h₃, .inr ⟨hcode', hs'.readEnv⟩⟩
    · exact ⟨code', S₃, h₃, .inl hcode'⟩
  · cases hc

def unerasedStore : Store := storeOf (efSaveEnv (device false true) setStore)

def lostStore : Store := storeOf (efSaveEnv (device true false) unerasedStore)

theorem unerasedStore_eq : efSaveEnv (device false true) setStore = .ok (.efEraseErr, unerasedStore) := by
  have hcode : (efSaveEnv (device false true) setStore).map Prod.fst = .ok .efEraseErr := by decide +kernel
  rw [unerasedStore]
  exact eq_storeOf hcode

theorem lostStore_eq : efSaveEnv (device true false) unerasedStore = .ok (.efWriteErr, lostStore) := by
  have hcode : (efSaveEnv (device true false) unerasedStore).map Prod.fst = .ok .efWriteErr := by decide
  rw [lostStore]
  exact eq_storeOf hcode

theorem two_failures_lose_set :
    ∃ code' S₃, easyflashInit (device true true) lostStore.flash = .ok (code', S₃) ∧
      (FlashError code' ∨ code' = .efNoErr ∧ ∀ key, readEnv S₃.ram key = .ok (Entries.get defaults key)) :=
  two_failures_lose setStore_reachable (by decide) unerasedStore_eq (by decide) lostStore_eq (by decide)
    (by decide) (device_detectable true true)

/-! ## What the header does not protect -/

/-- **Two areas saved one after the other**: a load takes the newer one, but not
when it is area 1 and the number of saves has wrapped. -/
theorem efLoadEnv_wrap {ver ver' : ℕ} {es es' : List Entry} (s : EnvState) (hn : n < 2 ^ 32)
    (h : Saved m (areaAddr i) n ver es) (h' : Saved m (areaAddr !i) ((n + 1) % 2 ^ 32) ver' es') :
    ∃ s', efLoadEnv d ⟨s, m⟩ = .ok (.efNoErr, ⟨s', m⟩) ∧
      Holds s' (if i = false ∧ n = 0xFFFFFFFF then es else es') := by
  have hm : Represents m
      (Function.update (fun _ => some (n, ⟨ver, es⟩)) (!i) (some ((n + 1) % 2 ^ 32, ⟨ver', es'⟩))) := by
    intro j
    by_cases hj : j = !i
    · subst hj
      rw [Function.update_self]
      exact h'
    · rw [Function.update_of_ne hj]
      obtain rfl : j = i := by cases i <;> cases j <;> simp_all
      exact h
  have hold := savedCount_eq d h
  have hnew := savedCount_eq d h'
  by_cases hw : i = false ∧ n = 0xFFFFFFFF
  · obtain ⟨rfl, rfl⟩ := hw
    obtain ⟨s', hs', -, hready⟩ := efLoadEnv_of_compare d s hm (i := false) (Function.update_of_ne (by decide) ..) (by
      rw [hold, show (true : Bool) = !false from rfl, hnew]
      rfl)
    exact ⟨s', hs', hready.holds⟩
  · have hcmp : compareSavedCount (true, true) (savedCount d m (areaAddr false)) (savedCount d m (areaAddr true)) =
        (i, !i) := by
      rw [compareSavedCount, if_pos (Bool.and_self true)]
      cases i with
      | false =>
        have hne : n ≠ 0xFFFFFFFF := fun he => hw ⟨rfl, he⟩
        rw [hold, show (true : Bool) = !false from rfl, hnew, if_neg (by omega)]
      | true =>
        rw [hold, show (false : Bool) = !true from rfl, hnew, if_pos (by omega)]
    obtain ⟨s', hs', -, hready⟩ := efLoadEnv_of_compare d s hm (i := !i) (Function.update_self ..) (by
      rw [Bool.not_not, ← hcmp]
      cases i <;> rfl)
    rw [if_neg hw]
    exact ⟨s', hs', hready.holds⟩

def wrapped : Mem :=
  Bytes.overwrite (Bytes.overwrite blank 0 (areaImage 0 0xFFFFFFFF 0 [])) 4096 (areaImage 4096 0 0 defaults)

theorem efLoadEnv_wrap_area1 :
    ∃ s', efLoadEnv (device true true) ⟨{}, wrapped⟩ = .ok (.efNoErr, ⟨s', wrapped⟩) ∧
      Holds s' (if false = false ∧ 0xFFFFFFFF = 0xFFFFFFFF then [] else defaults) :=
  @efLoadEnv_wrap (device true true) wrapped false 0xFFFFFFFF 0 0 [] defaults {} (by decide)
    ⟨by decide, by decide, by decide, by decide, by decide, by decide, .nil⟩
    ⟨by decide, by decide, by decide, by decide +kernel, by decide, by decide,
      by decide⟩

/-! ## What the checksum protects -/

theorem read_split (m : Mem) {a p k n : Nat} (h₁ : a ≤ p) (h₂ : p + k ≤ a + n) :
    Nor.read m a n = Nor.read m a (p - a) ++ Nor.read m p k ++ Nor.read m (p + k) (a + n - (p + k)) := by
  have hn : n = (p - a) + k + (a + n - (p + k)) := by omega
  have hp : a + (p - a) = p := by omega
  conv_lhs => rw [hn]
  rw [Nor.read_add, Nor.read_add, hp, show a + (p - a + k) = p + k by omega]

theorem memWord_inj {a : Nat} (h : memWord m' a = memWord m a) : Nor.read m' a 4 = Nor.read m a 4 := by
  have hdigits := congrArg (Bytes.digits 4) h
  rw [memWord, memWord, Bytes.digits_value _ (Nat.le_of_eq (Nor.length_read ..)),
    Bytes.digits_value _ (Nat.le_of_eq (Nor.length_read ..)), Nor.length_read, Nor.length_read] at hdigits
  exact List.append_cancel_right hdigits

/-- A change of up to four bytes in a row that one of the two reads under the
checksum sees, and that is in front of the other one or behind it. -/
theorem areaCrc_ne {a p k size : Nat} (hk : k ≤ 4)
    (hp : a ≤ p ∧ p + k ≤ a + 8 ∨ a + 16 ≤ p ∧ p + k ≤ a + 16 + size)
    (hj : ∀ j, j < p ∨ p + k ≤ j → m' j = m j) (hne : Nor.read m' p k ≠ Nor.read m p k) :
    areaCrc m' a size ≠ areaCrc m a size := by
  intro heq
  have hsize := envParamByteSize_eq
  have hsame : ∀ b n, (b + n ≤ p ∨ p + k ≤ b) → Nor.read m' b n = Nor.read m b n :=
    fun b n hb => Nor.read_congr fun j h₁ h₂ => hj j (by omega)
  apply hne
  unfold areaCrc at heq
  rcases hp with ⟨h₁, h₂⟩ | ⟨h₁, h₂⟩
  · rw [read_split m' h₁ h₂, read_split m h₁ h₂, List.append_assoc, List.append_assoc (_ ++ _) (Nor.read m (p + k) _),
      hsame a (p - a) (by omega), hsame (p + k) (a + 8 - (p + k)) (by omega),
      hsame (a + envParamByteSize) size (by omega)] at heq
    exact efCalcCrc32_burst 0 _ _ (by rw [Nor.length_read, Nor.length_read]) (by rw [Nor.length_read]; exact hk) heq
  · rw [← hsize] at h₁ h₂
    rw [read_split m' h₁ h₂, read_split m h₁ h₂, ← List.append_assoc, ← List.append_assoc, ← List.append_assoc,
      ← List.append_assoc, hsame a 8 (by omega), hsame (a + envParamByteSize) _ (by omega),
      hsame (p + k) _ (by omega)] at heq
    exact efCalcCrc32_burst 0 _ _ (by rw [Nor.length_read, Nor.length_read]) (by rw [Nor.length_read]; exact hk) heq

/-- **A change of up to four bytes in a row** of a saved area is seen, in the
number of saves, in the checksum and in the data. -/
theorem burst_rejected {a count ver p k : Nat} {es : List Entry} (h : Saved m a count ver es) (hk : k ≤ 4)
    (hp : a + 4 ≤ p ∧ p + k ≤ a + 8 ∨ a + 12 ≤ p ∧ p + k ≤ a + 16 ∨
      a + 16 ≤ p ∧ p + k ≤ a + 16 + (encAll es).length)
    (hj : ∀ j, j < p ∨ p + k ≤ j → m' j = m j) (hne : Nor.read m' p k ≠ Nor.read m p k) : Rejected m' a := by
  have hsize := envParamByteSize_eq
  have hsame : ∀ b n, (b + n ≤ p ∨ p + k ≤ b) → Nor.read m' b n = Nor.read m b n :=
    fun b n hb => Nor.read_congr fun j h₁ h₂ => hj j (by omega)
  have hend : memWord m' a = a + envParamByteSize + (encAll es).length := by
    rw [← h.end_eq, memWord, memWord, hsame a 4 (by omega)]
  have hlen : memWord m' a - (a + envParamByteSize) = (encAll es).length := by omega
  have hindex : envParamIndexDataCrc * 4 = 12 := rfl
  refine .inr (.inr (.inr ⟨by omega, ?_⟩))
  rw [hlen]
  by_cases hcrc : a + 12 ≤ p ∧ p + k ≤ a + 16
  · have harea : areaCrc m' a (encAll es).length = areaCrc m a (encAll es).length := by
      rw [areaCrc, areaCrc, hsame a 8 (by omega), hsame (a + envParamByteSize) _ (by omega)]
    rw [harea, ← h.crc_eq]
    intro heq
    apply hne
    exact Nor.read_congr fun j h₁ h₂ => Nor.eq_of_read_eq (memWord_inj heq.symm) (by omega) (by omega)
  · have hword : memWord m' (a + envParamIndexDataCrc * 4) = memWord m (a + envParamIndexDataCrc * 4) := by
      rw [memWord, memWord, hsame _ 4 (by omega)]
    rw [hword, h.crc_eq]
    intro heq
    exact areaCrc_ne hk (by omega) hj hne (UInt32.toNat_inj.mp heq)

def twoAreas : Mem := Bytes.overwrite (Bytes.overwrite blank 0 (areaImage 0 3 0 defaults)) 4096 (areaImage 4096 4 0 [])

end RocCar.EasyFlash

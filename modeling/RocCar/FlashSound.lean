import RocCar.Flash

/-!
# Writing and erasing the on-chip flash

`write` programs whole double words: the bytes that a last one has behind the
end of the range are programmed as zeros.
-/

namespace RocCar.Flash

open Bytes

variable {accepts : Nat → Bool} {flash : Nat → UInt8} {buf : List UInt8}

/-! ## Double words -/

theorem toNat_packBytes : ∀ (bs : List UInt8) {j : Nat} {w : UInt64}, j + bs.length ≤ 8 → w.toNat < 256 ^ j →
    (packBytes bs j w).toNat = w.toNat + 256 ^ j * value bs
  | [], j, w, _, _ => by simp [packBytes, value]
  | b :: bs, j, w, hj, hw => by
    rw [List.length_cons] at hj
    have hb := b.toNat_lt
    have hpow : 256 ^ j = 2 ^ (8 * j) := by rw [Nat.pow_mul]
    have hle : 256 ^ j ≤ 256 ^ 7 := Nat.pow_le_pow_right (by decide) (by omega)
    have hshift : (b.toUInt64 <<< UInt64.ofNat (8 * j)).toNat = b.toNat <<< (8 * j) := by
      have hlt : b.toNat * 256 ^ j < 2 ^ 64 :=
        Nat.lt_of_lt_of_le (Nat.mul_lt_mul_of_lt_of_le hb hle (by decide)) (by decide)
      rw [UInt64.toNat_shiftLeft, UInt8.toNat_toUInt64, UInt64.toNat_ofNat', Nat.mod_eq_of_lt (a := 8 * j) (by omega),
        Nat.mod_eq_of_lt (a := 8 * j) (by omega), Nat.shiftLeft_eq, ← hpow, Nat.mod_eq_of_lt hlt]
    have hor : (w ||| b.toUInt64 <<< UInt64.ofNat (8 * j)).toNat = w.toNat + 256 ^ j * b.toNat := by
      rw [UInt64.toNat_or, hshift, Nat.or_comm, ← Nat.shiftLeft_add_eq_or_of_lt (hpow ▸ hw), Nat.shiftLeft_eq, ← hpow,
        Nat.add_comm, Nat.mul_comm]
    have hlt : w.toNat + 256 ^ j * b.toNat < 256 ^ (j + 1) := by
      have := Nat.mul_le_mul_left (256 ^ j) (Nat.le_sub_one_of_lt hb)
      rw [Nat.pow_succ]
      omega
    rw [packBytes, toNat_packBytes bs (by omega) (by rw [hor]; exact hlt), hor, value_cons, Nat.pow_succ]
    ring

def padded (buf : List UInt8) : List UInt8 := buf ++ List.replicate ((8 - buf.length % 8) % 8) 0

theorem digits_packBytes (h : buf ≠ []) :
    digits 8 (packBytes (buf.take 8) 0 0).toNat ++ padded (buf.drop 8) = padded buf := by
  have hpos := List.length_pos_iff.mpr h
  have hlen : (buf.take 8).length = min 8 buf.length := List.length_take
  rw [toNat_packBytes _ (by omega) (by simp), show (0 : UInt64).toNat + 256 ^ 0 * value (buf.take 8) =
    value (buf.take 8) by simp, digits_value _ (by omega), hlen, padded, padded, List.length_drop]
  by_cases hlong : 8 ≤ buf.length
  · rw [show 8 - min 8 buf.length = 0 by omega, show (buf.length - 8) % 8 = buf.length % 8 by omega,
      List.replicate_zero, List.append_nil, ← List.append_assoc, List.take_append_drop]
  · rw [List.take_of_length_le (by omega), List.drop_of_length_le (by omega),
      show 8 - min 8 buf.length = (8 - buf.length % 8) % 8 by omega, show buf.length - 8 = 0 by omega]
    simp

def Programs (accepts : Nat → Bool) (flash : Nat → UInt8) (addr size : Nat) : Prop :=
  ∀ k, 8 * k < size → accepts (addr + 8 * k) = true ∧ Erased flash (addr + 8 * k)

theorem programs_step {addr size : Nat} (hsize : 0 < size) {word : List UInt8} (hword : word.length = 8) :
    Programs accepts flash addr size ↔ (accepts addr = true ∧ Erased flash addr) ∧
      Programs accepts (overwrite flash addr word) (addr + 8) (size - 8) := by
  have hshift : ∀ k, addr + 8 * (k + 1) = addr + 8 + 8 * k := fun k => by omega
  constructor
  · refine fun h => ⟨h 0 (by omega), fun k hk => ?_⟩
    obtain ⟨haccept, herased⟩ := h (k + 1) (by omega)
    rw [hshift] at haccept herased
    refine ⟨haccept, fun j hj => ?_⟩
    rw [overwrite_of_ge (by omega), herased j hj]
  · rintro ⟨hfirst, hrest⟩ k hk
    cases k with
    | zero => exact hfirst
    | succ k =>
      obtain ⟨haccept, herased⟩ := hrest k (by omega)
      rw [hshift]
      refine ⟨haccept, fun j hj => ?_⟩
      rw [← herased j hj, overwrite_of_ge (by omega)]

theorem loadWord_overwrite (flash : Nat → UInt8) (addr : Nat) (data : UInt64) :
    loadWord (overwrite flash addr (digits 8 data.toNat)) addr = data := by
  have hread := map_overwrite (m := flash) (a := addr) (digits 8 data.toNat)
  rw [length_digits] at hread
  rw [loadWord, hread, value_digits, Nat.mod_eq_of_lt (b := 256 ^ 8) data.toNat_lt, UInt64.ofNat_toNat]

/-! ## The loop of `write` -/

theorem writeLoop_cons {addr : UInt32} (h : buf ≠ []) : writeLoop accepts flash addr buf =
    if accepts addr.toNat ∧ 8 ∣ addr.toNat ∧ Erased flash addr.toNat then
      writeLoop accepts (overwrite flash addr.toNat (digits 8 (packBytes (buf.take 8) 0 0).toNat)) (addr + 8)
        (buf.drop 8)
    else (-1, flash) := by
  by_cases hp : accepts addr.toNat ∧ 8 ∣ addr.toNat ∧ Erased flash addr.toNat
  · have hprogram : halFlashProgram accepts flash addr (packBytes (buf.take 8) 0 0) = (true, _) := if_pos hp
    rw [writeLoop, dif_neg h, if_pos hp]
    simp only [hprogram, ne_eq, loadWord_overwrite, not_true_eq_false, if_false]
  · have hprogram : halFlashProgram accepts flash addr (packBytes (buf.take 8) 0 0) = (false, flash) := if_neg hp
    rw [writeLoop, dif_neg h, if_neg hp]
    simp only [hprogram]

theorem toNat_add_eight (addr : UInt32) (h : addr.toNat + 8 < 2 ^ 32) : (addr + 8).toNat = addr.toNat + 8 := by
  rw [UInt32.toNat_add]
  exact Nat.mod_eq_of_lt h

theorem writeLoop_of_programs : ∀ {buf : List UInt8} {flash : Nat → UInt8} {addr : UInt32}, 8 ∣ addr.toNat →
    addr.toNat + (buf.length + 7) / 8 * 8 < 2 ^ 32 → Programs accepts flash addr.toNat buf.length →
    writeLoop accepts flash addr buf = (0, overwrite flash addr.toNat (padded buf))
  | buf, flash, addr, halign, hlt, hp => by
    by_cases h : buf = []
    · subst h
      rw [writeLoop, dif_pos rfl, show padded [] = [] from rfl, overwrite_nil]
    · have hpos := List.length_pos_iff.mpr h
      have hnext := toNat_add_eight addr (by omega)
      obtain ⟨hfirst, hrest⟩ := (programs_step hpos (length_digits 8 (packBytes (buf.take 8) 0 0).toNat)).mp hp
      rw [← hnext, ← List.length_drop] at hrest
      rw [writeLoop_cons h, if_pos ⟨hfirst.1, halign, hfirst.2⟩, writeLoop_of_programs (by omega)
        (by rw [List.length_drop]; omega) hrest, hnext]
      have hword := overwrite_append (m := flash) (a := addr.toNat) (digits 8 (packBytes (buf.take 8) 0 0).toNat)
        (padded (buf.drop 8))
      rw [length_digits, digits_packBytes h] at hword
      rw [hword]
termination_by buf => buf.length
decreasing_by rw [List.length_drop]; omega

theorem writeLoop_of_not_programs : ∀ {buf : List UInt8} {flash : Nat → UInt8} {addr : UInt32}, 8 ∣ addr.toNat →
    addr.toNat + (buf.length + 7) / 8 * 8 < 2 ^ 32 → ¬ Programs accepts flash addr.toNat buf.length →
    (writeLoop accepts flash addr buf).1 = -1
  | buf, flash, addr, halign, hlt, hp => by
    by_cases h : buf = []
    · subst h
      exact absurd (fun k hk => absurd hk (Nat.not_lt_zero _)) hp
    · have hpos := List.length_pos_iff.mpr h
      have hnext := toNat_add_eight addr (by omega)
      rw [programs_step hpos (length_digits 8 (packBytes (buf.take 8) 0 0).toNat)] at hp
      rw [writeLoop_cons h]
      split
      · rename_i hfirst
        have hrest := fun hr => hp ⟨⟨hfirst.1, hfirst.2.2⟩, hr⟩
        rw [← hnext, ← List.length_drop] at hrest
        exact writeLoop_of_not_programs (by omega) (by rw [List.length_drop]; omega) hrest
      · rfl
termination_by buf => buf.length
decreasing_by rw [List.length_drop]; omega

/-! ## Write -/

variable {offset : UInt32}

/-- `offset` and the range behind it are in the device, on its double words, and
the range is erased. -/
structure Target (flash : Nat → UInt8) (offset : UInt32) (size : Nat) : Prop where
  aligned : 8 ∣ offset.toNat
  size_pos : 0 < size
  inside : offset.toNat + size ≤ 512 * 1024
  erased : ∀ k < size, flash (flashStartAdress.toNat + offset.toNat + k) = 0xFF

/-- When `write` returns the size, the range holds the buffer and the other bytes
are unchanged. -/
def WritesRange (accepts : Nat → Bool) (flash : Nat → UInt8) (offset : UInt32) (buf : List UInt8) : Prop :=
  (write accepts flash offset buf).1 = (UInt32.ofNat buf.length).toInt32 →
    (∀ k (h : k < buf.length),
      (write accepts flash offset buf).2 (flashStartAdress.toNat + offset.toNat + k) = buf[k]) ∧
    ∀ a, a < flashStartAdress.toNat + offset.toNat ∨ flashStartAdress.toNat + offset.toNat + buf.length ≤ a →
      (write accepts flash offset buf).2 a = flash a

theorem flashStartAdress_toNat : flashStartAdress.toNat = 0x08000000 := rfl

theorem toNat_addr (offset : UInt32) (h : offset.toNat ≤ 512 * 1024) :
    (flashStartAdress + offset).toNat = flashStartAdress.toNat + offset.toNat := by
  rw [UInt32.toNat_add, Nat.mod_eq_of_lt (by rw [flashStartAdress_toNat]; omega)]

theorem write_eq (ht : Target flash offset buf.length) : write accepts flash offset buf =
    match writeLoop accepts flash (flashStartAdress + offset) buf with
    | (status, flash) =>
      if status ≠ 0 then (status.toInt32, flash) else ((UInt32.ofNat buf.length).toInt32, flash) := by
  have hin := ht.inside
  have hpos := ht.size_pos
  have hsize : (UInt32.ofNat buf.length).toNat = buf.length := by
    rw [UInt32.toNat_ofNat', Nat.mod_eq_of_lt (by omega)]
  have hend : ¬ flashStartAdress + offset + UInt32.ofNat buf.length > flashEndAddress := by
    rw [gt_iff_lt, UInt32.lt_iff_toNat_lt, UInt32.toNat_add, toNat_addr offset (by omega), hsize,
      flashStartAdress_toNat, show flashEndAddress.toNat = 0x08080000 from rfl]
    omega
  have hone : ¬ UInt32.ofNat buf.length < 1 := by
    rw [UInt32.lt_iff_toNat_lt, hsize, show (1 : UInt32).toNat = 1 from rfl]
    omega
  rw [write, if_neg hend, if_neg hone]

theorem size_ne_neg_one (h : buf.length < 2 ^ 31) : (-1 : Int32) ≠ (UInt32.ofNat buf.length).toInt32 := by
  intro hc
  have := congrArg (fun n : Int32 => n.toUInt32.toNat) hc
  rw [show (UInt32.ofNat buf.length).toInt32.toUInt32 = UInt32.ofNat buf.length from rfl, UInt32.toNat_ofNat',
    show (-1 : Int32).toUInt32.toNat = 2 ^ 32 - 1 from rfl] at this
  omega

theorem write_of_programs (ht : Target flash offset buf.length)
    (hp : Programs accepts flash (flashStartAdress.toNat + offset.toNat) buf.length) :
    write accepts flash offset buf = ((UInt32.ofNat buf.length).toInt32,
      overwrite flash (flashStartAdress.toNat + offset.toNat) (padded buf)) := by
  have hin := ht.inside
  have haddr := toNat_addr offset (by omega)
  have halign := ht.aligned
  rw [write_eq ht, writeLoop_of_programs (by rw [haddr, flashStartAdress_toNat]; omega)
    (by rw [haddr, flashStartAdress_toNat]; omega) (haddr ▸ hp), haddr]
  rfl

theorem write_of_not_programs (ht : Target flash offset buf.length)
    (hp : ¬ Programs accepts flash (flashStartAdress.toNat + offset.toNat) buf.length) :
    (write accepts flash offset buf).1 ≠ (UInt32.ofNat buf.length).toInt32 := by
  have hin := ht.inside
  have haddr := toNat_addr offset (by omega)
  have halign := ht.aligned
  have hstatus : (writeLoop accepts flash (flashStartAdress + offset) buf).1 = -1 :=
    writeLoop_of_not_programs (by rw [haddr, flashStartAdress_toNat]; omega)
      (by rw [haddr, flashStartAdress_toNat]; omega) (haddr ▸ hp)
  rw [write_eq ht]
  generalize writeLoop accepts flash (flashStartAdress + offset) buf = r at hstatus
  obtain ⟨status, flash'⟩ := r
  cases hstatus
  exact size_ne_neg_one (by omega)

/-- Some double word of the range cannot be programmed: the device refuses it, or
it is the last one and not erased behind the range. -/
def Stuck (accepts : Nat → Bool) (flash : Nat → UInt8) (offset : UInt32) (size : Nat) : Prop :=
  (∃ k, 8 * k < size ∧ accepts (flashStartAdress.toNat + offset.toNat + 8 * k) = false) ∨
    ∃ k, size ≤ k ∧ k < (size + 7) / 8 * 8 ∧ flash (flashStartAdress.toNat + offset.toNat + k) ≠ 0xFF

theorem not_programs_iff {size : Nat} (ht : Target flash offset size) :
    ¬ Programs accepts flash (flashStartAdress.toNat + offset.toNat) size ↔ Stuck accepts flash offset size := by
  constructor
  · intro hp
    by_contra hstuck
    rw [Stuck, not_or] at hstuck
    refine hp fun k hk => ⟨?_, fun j hj => ?_⟩
    · exact Bool.not_eq_false _ ▸ fun h => hstuck.1 ⟨k, hk, h⟩
    · by_cases hin : 8 * k + j < size
      · rw [Nat.add_assoc, ht.erased _ hin]
      · by_contra hne
        exact hstuck.2 ⟨8 * k + j, Nat.le_of_not_lt hin, by omega, by rwa [← Nat.add_assoc]⟩
  · rintro (⟨k, hk, hrefused⟩ | ⟨k, hge, hlt, hne⟩) hp
    · rw [(hp k hk).1] at hrefused
      cases hrefused
    · have herased := (hp (k / 8) (by omega)).2 (k % 8) (Nat.mod_lt _ (by decide))
      rw [Nat.add_assoc, Nat.div_add_mod] at herased
      exact hne herased

theorem writesRange_of_dvd (h : 8 ∣ buf.length) (hwrite : write accepts flash offset buf =
    ((UInt32.ofNat buf.length).toInt32, overwrite flash (flashStartAdress.toNat + offset.toNat) (padded buf))) :
    WritesRange accepts flash offset buf := by
  have hpad : padded buf = buf := by
    rw [padded, show (8 - buf.length % 8) % 8 = 0 by omega, List.replicate_zero, List.append_nil]
  intro _
  rw [hwrite, hpad]
  refine ⟨fun k hk => overwrite_add hk, fun a ha => ?_⟩
  rcases ha with ha | ha
  · exact overwrite_of_lt _ ha
  · exact overwrite_of_ge ha

theorem overwrite_padded (flash : Nat → UInt8) (a : Nat) (h : ¬ 8 ∣ buf.length) :
    overwrite flash a (padded buf) (a + buf.length) = 0 := by
  have hbyte : (padded buf)[buf.length]? = some 0 := by
    rw [padded, List.getElem?_append_right (Nat.le_refl _), List.getElem?_replicate, if_pos (by omega)]
  rw [overwrite, if_pos (Nat.le_add_right _ _), Nat.add_sub_cancel_left, hbyte]
  rfl

theorem dvd_of_writesRange (ht : Target flash offset buf.length)
    (hp : Programs accepts flash (flashStartAdress.toNat + offset.toNat) buf.length)
    (h : WritesRange accepts flash offset buf) : 8 ∣ buf.length := by
  have hwrite := write_of_programs ht hp
  rw [WritesRange, hwrite] at h
  by_contra hdvd
  -- the first byte behind the range was erased, and is zero now
  have herased : flash (flashStartAdress.toNat + offset.toNat + buf.length) = 0xFF := by
    have := (hp (buf.length / 8) (by omega)).2 (buf.length % 8) (Nat.mod_lt _ (by decide))
    rwa [Nat.add_assoc, Nat.div_add_mod] at this
  have hzero : overwrite flash (flashStartAdress.toNat + offset.toNat) (padded buf)
      (flashStartAdress.toNat + offset.toNat + buf.length) = _ := (h rfl).2 _ (.inr (Nat.le_refl _))
  rw [overwrite_padded _ _ hdvd, herased] at hzero
  cases hzero

/-- **A write touches only its range** if and only if its size is a multiple of
eight, or some double word of the range cannot be programmed, so that it fails. -/
theorem writesRange_iff (accepts : Nat → Bool) (flash : Nat → UInt8) (offset : UInt32) (buf : List UInt8)
    (ht : Target flash offset buf.length) :
    WritesRange accepts flash offset buf ↔ 8 ∣ buf.length ∨ Stuck accepts flash offset buf.length := by
  rw [← not_programs_iff ht]
  constructor
  · intro h
    by_cases hp : Programs accepts flash (flashStartAdress.toNat + offset.toNat) buf.length
    · exact .inl (dvd_of_writesRange ht hp h)
    · exact .inr hp
  · intro h
    by_cases hp : Programs accepts flash (flashStartAdress.toNat + offset.toNat) buf.length
    · exact writesRange_of_dvd (h.resolve_right (not_not.mpr hp)) (write_of_programs ht hp)
    · exact fun hret => absurd hret (write_of_not_programs ht hp)

theorem target_blank {size : Nat} (hpos : 0 < size) (hle : size ≤ 512 * 1024) : Target (fun _ => 0xFF) 0 size :=
  ⟨by decide, hpos, by simpa using hle, fun _ _ => rfl⟩

theorem writesRange_iff_eight : WritesRange (fun _ => true) (fun _ => 0xFF) 0 [1, 2, 3, 4, 5, 6, 7, 8] :=
  (writesRange_iff _ _ _ _ (target_blank (by decide) (by decide))).mpr (.inl (by decide))

theorem write_past_range : ¬ ∀ (accepts : Nat → Bool) (flash : Nat → UInt8) (offset : UInt32) (buf : List UInt8),
    Target flash offset buf.length → WritesRange accepts flash offset buf := by
  intro h
  have ht : Target (fun _ => 0xFF) 0 [0x2A].length := target_blank (by decide) (by decide)
  have hdvd := dvd_of_writesRange ht (fun _ _ => ⟨rfl, fun _ _ => rfl⟩) (h (fun _ => true) _ 0 [0x2A] ht)
  exact absurd hdvd (by decide)

/-! ## Pages -/

def pageOf (i : Nat) : FlashBank × Nat := if i < 128 then (.bank1, i) else (.bank2, i - 128)

theorem pageOf_inj {i j : Nat} (h : pageOf i = pageOf j) : i = j := by
  simp only [pageOf] at h
  split at h <;> split at h <;> simp only [Prod.mk.injEq, reduceCtorEq, false_and, true_and] at h <;> omega

def pageCount (size : Nat) : Nat := (size + 2047) / 2048

/-- A call that erases `n` pages of the device from page `first` on. -/
def erasePages (fails : Nat → Option Nat) (log : EraseLog) (first n : Nat) : Bool × EraseLog :=
  let result := fails log.statuses.length
  (result.isNone,
    { erased := log.erased ++ (List.range ((result.getD n).min n)).map fun i => pageOf (first + i)
      statuses := log.statuses ++ [result.isNone] })

/-- The calls for `n` pages from page `first` of bank 1 on that reach into bank 2. -/
def eraseAcross (fails : Nat → Option Nat) (log : EraseLog) (first n : Nat) : EraseLog :=
  let result := erasePages fails log first (128 - first)
  if result.1 then (erasePages fails result.2 128 (first + n - 128)).2 else result.2

variable {fails : Nat → Option Nat} {log : EraseLog} {size : UInt32}

theorem bank1_page {first i : Nat} (h : first + i < 128) :
    (FlashBank.bank1, (first + i) % 256) = pageOf (first + i) := by
  rw [pageOf, if_pos h, Nat.mod_eq_of_lt (by omega)]

theorem bank2_page {first i : Nat} (h₁ : 128 ≤ first) (h₂ : first + i < 256) :
    (FlashBank.bank2, (first + 128 + i) % 256) = pageOf (first + i) := by
  rw [pageOf, if_neg (by omega)]
  exact congrArg _ (by omega)

theorem halFlashExErase_eq {init : FlashEraseInit} {page first n : Nat} (hpage : init.page.toNat = page)
    (hn : init.nbPages.toNat = n) (h : ∀ i < n, (init.banks, (page + i) % 256) = pageOf (first + i)) :
    halFlashExErase fails log init = erasePages fails log first n := by
  subst hpage hn
  have hpages : (List.range (((fails log.statuses.length).getD init.nbPages.toNat).min init.nbPages.toNat)).map
      (fun i => (init.banks, (init.page.toNat + i) % 256)) =
      (List.range (((fails log.statuses.length).getD init.nbPages.toNat).min init.nbPages.toNat)).map
        fun i => pageOf (first + i) :=
    List.map_congr_left fun i hi => h i (Nat.lt_of_lt_of_le (List.mem_range.mp hi) (Nat.min_le_right _ _))
  rw [halFlashExErase, erasePages, hpages]

/-! ## Erase -/

def Crosses (offset size : Nat) : Prop := offset / 2048 < 128 ∧ 128 < offset / 2048 + pageCount size

instance (offset size : Nat) : Decidable (Crosses offset size) := inferInstanceAs (Decidable (_ ∧ _))

theorem eraseBanks_crosses {page count : UInt32} {first n : Nat} (hpage : page.toNat = first)
    (hcount : count.toNat = n) (hfirst : first < 128) (hcross : 128 < first + n) (hin : first + n ≤ 256) :
    eraseBanks fails log ⟨.bank1, page, 0⟩ count = eraseAcross fails log first n := by
  have hlt : page < 128 := by rw [UInt32.lt_iff_toNat_lt, hpage]; exact hfirst
  have hsum : (count + page).toNat = n + first := by rw [UInt32.toNat_add, hcount, hpage]; omega
  have hgt : count + page > 128 := by rw [gt_iff_lt, UInt32.lt_iff_toNat_lt, hsum, Nat.add_comm]; exact hcross
  have hfit : ¬ count + page > 256 := by
    rw [gt_iff_lt, UInt32.lt_iff_toNat_lt, hsum, show (256 : UInt32).toNat = 256 from rfl]; omega
  have hleft : (128 - page).toNat = 128 - first := by
    rw [UInt32.toNat_sub, hpage, show (128 : UInt32).toNat = 128 from rfl]; omega
  have hrest : (count - (128 - page)).toNat = first + n - 128 := by rw [UInt32.toNat_sub, hcount, hleft]; omega
  have hcall₁ : halFlashExErase fails log ⟨.bank1, page, 128 - page⟩ = erasePages fails log first (128 - first) :=
    halFlashExErase_eq hpage hleft fun i hi => bank1_page (by omega)
  have hcall₂ : ∀ log, halFlashExErase fails log ⟨.bank2, 256, count - (128 - page)⟩ =
      erasePages fails log 128 (first + n - 128) :=
    fun log => halFlashExErase_eq rfl hrest fun i hi => bank2_page (Nat.le_refl _) (by omega)
  rw [eraseBanks, if_pos ⟨hlt, hgt⟩, if_neg hfit, eraseAcross]
  simp only [hcall₁, hcall₂]
  generalize erasePages fails log first (128 - first) = r
  obtain ⟨ok, log⟩ := r
  cases ok <;> rfl

theorem eraseBanks_bank1 {page count : UInt32} {first n : Nat} (hpage : page.toNat = first)
    (hcount : count.toNat = n) (hfirst : first < 128) (hin : first + n ≤ 128) :
    eraseBanks fails log ⟨.bank1, page, 0⟩ count = (erasePages fails log first n).2 := by
  have hlt : page < 128 := by rw [UInt32.lt_iff_toNat_lt, hpage]; exact hfirst
  have hle : count + page ≤ 128 := by
    rw [UInt32.le_iff_toNat_le, UInt32.toNat_add, hcount, hpage, show (128 : UInt32).toNat = 128 from rfl]; omega
  have hcall : halFlashExErase fails log ⟨.bank1, page, count⟩ = erasePages fails log first n :=
    halFlashExErase_eq hpage hcount fun i hi => bank1_page (by omega)
  rw [eraseBanks, if_neg fun h => UInt32.not_lt.mpr hle h.2, if_pos ⟨hlt, hle⟩, hcall]

theorem eraseBanks_bank2 {page count : UInt32} {first n : Nat} (hpage : page.toNat = first + 128)
    (hcount : count.toNat = n) (hfirst : 128 ≤ first) (hin : first + n ≤ 256) :
    eraseBanks fails log ⟨.bank2, page, 0⟩ count = (erasePages fails log first n).2 := by
  have hnot : ¬ page < 128 := by
    rw [UInt32.lt_iff_toNat_lt, hpage, show (128 : UInt32).toNat = 128 from rfl]; omega
  have hge : page ≥ 256 := by
    rw [ge_iff_le, UInt32.le_iff_toNat_le, hpage]
    exact Nat.add_le_add_right hfirst 128
  have hle : count + page ≤ 384 := by
    rw [UInt32.le_iff_toNat_le, UInt32.toNat_add, hcount, hpage, show (384 : UInt32).toNat = 384 from rfl]; omega
  have hcall : halFlashExErase fails log ⟨.bank2, page, count⟩ = erasePages fails log first n :=
    halFlashExErase_eq hpage hcount fun i hi => bank2_page hfirst (by omega)
  rw [eraseBanks, if_neg fun h => hnot h.1, if_neg fun h => hnot h.1, if_pos ⟨hge, hle⟩, hcall]

theorem toNat_nbrOfPages (size : UInt32) :
    (if size % flashPageSize = 0 then size / flashPageSize else size / flashPageSize + 1).toNat =
      pageCount size.toNat := by
  have hlt := size.toNat_lt
  have hmod : (size % flashPageSize).toNat = size.toNat % 2048 := UInt32.toNat_mod ..
  have hdiv : (size / flashPageSize).toNat = size.toNat / 2048 := UInt32.toNat_div ..
  rw [pageCount]
  split
  · rename_i h
    rw [h] at hmod
    rw [hdiv]
    change 0 = _ at hmod
    omega
  · rename_i h
    have hne : size.toNat % 2048 ≠ 0 := fun hz => h (UInt32.toNat_inj.mp (hmod.trans hz))
    rw [UInt32.toNat_add, hdiv, show (1 : UInt32).toNat = 1 from rfl]
    omega

theorem toNat_page (offset : UInt32) (h : offset.toNat ≤ 512 * 1024) :
    ((flashStartAdress + offset - flashStartAdress) / flashPageSize).toNat = offset.toNat / 2048 := by
  rw [UInt32.toNat_div, UInt32.toNat_sub, toNat_addr offset h, flashStartAdress_toNat,
    show flashPageSize.toNat = 2048 from rfl]
  omega

theorem erase_eq (fails : Nat → Option Nat) (log : EraseLog) (hin : offset.toNat + size.toNat ≤ 512 * 1024) :
    erase fails log offset size = (size.toInt32,
      if Crosses offset.toNat size.toNat then
        eraseAcross fails log (offset.toNat / 2048) (pageCount size.toNat)
      else (erasePages fails log (offset.toNat / 2048) (pageCount size.toNat)).2) := by
  have haddr := toNat_addr offset (by omega)
  have hend : ¬ flashStartAdress + offset + size > flashEndAddress := by
    rw [gt_iff_lt, UInt32.lt_iff_toNat_lt, UInt32.toNat_add, haddr, flashStartAdress_toNat,
      show flashEndAddress.toNat = 0x08080000 from rfl]
    omega
  have hpage := toNat_page offset (by omega)
  have hcount := toNat_nbrOfPages size
  have hlast : offset.toNat / 2048 + pageCount size.toNat ≤ 256 := by rw [pageCount]; omega
  simp only [erase, if_neg hend]
  by_cases hbank : flashStartAdress + offset < 0x08040000
  · have hfirst : offset.toNat / 2048 < 128 := by
      rw [UInt32.lt_iff_toNat_lt, haddr, flashStartAdress_toNat] at hbank
      change _ < 0x08040000 at hbank
      omega
    rw [if_pos hbank]
    by_cases hc : Crosses offset.toNat size.toNat
    · rw [if_pos hc, eraseBanks_crosses hpage hcount hfirst hc.2 hlast]
    · rw [if_neg hc, eraseBanks_bank1 hpage hcount hfirst (Nat.le_of_not_lt fun h => hc ⟨hfirst, h⟩)]
  · have hfirst : 128 ≤ offset.toNat / 2048 := by
      rw [UInt32.lt_iff_toNat_lt, haddr, flashStartAdress_toNat] at hbank
      change ¬ _ < 0x08040000 at hbank
      omega
    have hpage₂ : ((flashStartAdress + offset - flashStartAdress) / flashPageSize + 128).toNat =
        offset.toNat / 2048 + 128 := by
      rw [UInt32.toNat_add, hpage, show (128 : UInt32).toNat = 128 from rfl]; omega
    rw [if_neg hbank, if_neg fun h : Crosses _ _ => Nat.not_lt.mpr hfirst h.1,
      eraseBanks_bank2 hpage₂ hcount hfirst hlast]

/-- What `erase` should do: when it returns the size, exactly the pages that meet
the range have been erased, and a call that fails is not reported as a success. -/
structure ErasesRange (fails : Nat → Option Nat) (offset size : UInt32) : Prop where
  pages : (erase fails {} offset size).1 = size.toInt32 → ∀ page, page ∈ (erase fails {} offset size).2.erased ↔
    ∃ a, offset.toNat ≤ a ∧ a < offset.toNat + size.toNat ∧ pageOf (a / 2048) = page
  status : false ∈ (erase fails {} offset size).2.statuses → (erase fails {} offset size).1 ≠ size.toInt32

def Succeeds (fails : Nat → Option Nat) (offset size : Nat) : Prop :=
  fails 0 = none ∧ (Crosses offset size → fails 1 = none)

theorem erasePages_none {first n : Nat} (h : fails log.statuses.length = none) : erasePages fails log first n =
    (true, ⟨log.erased ++ (List.range n).map fun i => pageOf (first + i), log.statuses ++ [true]⟩) := by
  rw [erasePages, h]
  simp only [Option.getD_none, Option.isNone_none, Nat.min_self]

theorem erasePages_some (log : EraseLog) (first n : Nat) {k : Nat} (h : fails log.statuses.length = some k) :
    (erasePages fails log first n).1 = false ∧ false ∈ (erasePages fails log first n).2.statuses := by
  rw [erasePages, h]
  exact ⟨rfl, List.mem_append_right _ (List.mem_singleton_self _)⟩

theorem erase_returns (fails : Nat → Option Nat) (hin : offset.toNat + size.toNat ≤ 512 * 1024) :
    (erase fails {} offset size).1 = size.toInt32 := by
  rw [erase_eq fails {} hin]

theorem failed_of_not_succeeds (hin : offset.toNat + size.toNat ≤ 512 * 1024)
    (h : ¬ Succeeds fails offset.toNat size.toNat) : false ∈ (erase fails {} offset size).2.statuses := by
  rw [erase_eq fails {} hin]
  by_cases hc : Crosses offset.toNat size.toNat
  · simp only [if_pos hc, eraseAcross]
    cases h₀ : fails 0 with
    | some k =>
      obtain ⟨hstatus, hfalse⟩ := erasePages_some {} (offset.toNat / 2048) (128 - offset.toNat / 2048) h₀
      rw [hstatus]
      exact hfalse
    | none =>
      rw [erasePages_none h₀]
      obtain ⟨k, h₁⟩ := Option.ne_none_iff_exists'.mp fun h₁ => h ⟨h₀, fun _ => h₁⟩
      exact (erasePages_some ⟨_, [true]⟩ 128 _ h₁).2
  · simp only [if_neg hc]
    obtain ⟨k, h₀⟩ := Option.ne_none_iff_exists'.mp fun h₀ => h ⟨h₀, fun hc' => absurd hc' hc⟩
    exact (erasePages_some {} _ _ h₀).2

theorem erase_of_succeeds (hin : offset.toNat + size.toNat ≤ 512 * 1024)
    (h : Succeeds fails offset.toNat size.toNat) :
    (∀ page, page ∈ (erase fails {} offset size).2.erased ↔
      ∃ i, i < pageCount size.toNat ∧ pageOf (offset.toNat / 2048 + i) = page) ∧
    false ∉ (erase fails {} offset size).2.statuses := by
  rw [erase_eq fails {} hin]
  by_cases hc : Crosses offset.toNat size.toNat
  · have hcount : pageCount size.toNat =
        128 - offset.toNat / 2048 + (offset.toNat / 2048 + pageCount size.toNat - 128) := by
      have := hc.1
      have := hc.2
      omega
    have hshift : ∀ i, offset.toNat / 2048 + (128 - offset.toNat / 2048 + i) = 128 + i := fun i => by
      have := hc.1
      omega
    have hpages : (List.range (128 - offset.toNat / 2048)).map (fun i => pageOf (offset.toNat / 2048 + i)) ++
        (List.range (offset.toNat / 2048 + pageCount size.toNat - 128)).map (fun i => pageOf (128 + i)) =
        (List.range (pageCount size.toNat)).map fun i => pageOf (offset.toNat / 2048 + i) := by
      conv_rhs => rw [hcount, List.range_add, List.map_append, List.map_map]
      simp only [Function.comp_def, hshift]
    have hfirst : erasePages fails {} (offset.toNat / 2048) (128 - offset.toNat / 2048) = _ := erasePages_none h.1
    simp only [if_pos hc, eraseAcross, hfirst, if_true]
    rw [erasePages_none (h.2 hc)]
    simp only [List.nil_append, hpages]
    simp
  · rw [if_neg hc, erasePages_none h.1]
    simp

/-- The pages of the size, from the page of the offset on, are the pages that meet
the range if and only if the part of the first page in front of the range does
not push its end onto one more page. -/
theorem pages_iff (offset size : Nat) :
    (∀ p, (∃ i, i < pageCount size ∧ offset / 2048 + i = p) ↔
      ∃ a, offset ≤ a ∧ a < offset + size ∧ a / 2048 = p) ↔
    size = 0 ∨ offset % 2048 + size ≤ pageCount size * 2048 := by
  constructor
  · intro h
    by_cases hz : size = 0
    · exact .inl hz
    · obtain ⟨i, hi, hlast⟩ := (h ((offset + size - 1) / 2048)).mpr ⟨offset + size - 1, by omega, by omega, rfl⟩
      right
      omega
  · intro h p
    constructor
    · rintro ⟨i, hi, rfl⟩
      rw [pageCount] at hi h
      exact ⟨max offset ((offset / 2048 + i) * 2048), by omega, by omega, by omega⟩
    · rintro ⟨a, ha, hlt, rfl⟩
      exact ⟨a / 2048 - offset / 2048, by omega, by omega⟩

/-- **`erase` does what it reports** if and only if every call succeeds and the
range takes up no more pages than its size alone. -/
theorem erasesRange_iff (fails : Nat → Option Nat) (offset size : UInt32)
    (hin : offset.toNat + size.toNat ≤ 512 * 1024) :
    ErasesRange fails offset size ↔ Succeeds fails offset.toNat size.toNat ∧
      (size.toNat = 0 ∨ offset.toNat % 2048 + size.toNat ≤ pageCount size.toNat * 2048) := by
  rw [← pages_iff]
  have hret := erase_returns fails hin
  constructor
  · intro h
    have hs : Succeeds fails offset.toNat size.toNat := by
      by_contra hs
      exact h.status (failed_of_not_succeeds hin hs) hret
    refine ⟨hs, fun p => ?_⟩
    have hpages := h.pages hret (pageOf p)
    rw [(erase_of_succeeds hin hs).1] at hpages
    constructor
    · rintro ⟨i, hi, rfl⟩
      obtain ⟨a, ha, hlt, hp⟩ := hpages.mp ⟨i, hi, rfl⟩
      exact ⟨a, ha, hlt, pageOf_inj hp⟩
    · rintro ⟨a, ha, hlt, rfl⟩
      obtain ⟨i, hi, hp⟩ := hpages.mpr ⟨a, ha, hlt, rfl⟩
      exact ⟨i, hi, pageOf_inj hp⟩
  · rintro ⟨hs, hpages⟩
    obtain ⟨herased, hstatus⟩ := erase_of_succeeds hin hs
    refine ⟨fun _ page => ?_, fun hfailed => absurd hfailed hstatus⟩
    rw [herased]
    constructor
    · rintro ⟨i, hi, rfl⟩
      obtain ⟨a, ha, hlt, hp⟩ := (hpages _).mp ⟨i, hi, rfl⟩
      exact ⟨a, ha, hlt, congrArg pageOf hp⟩
    · rintro ⟨a, ha, hlt, rfl⟩
      obtain ⟨i, hi, hp⟩ := (hpages _).mpr ⟨a, ha, hlt, rfl⟩
      exact ⟨i, hi, congrArg pageOf hp⟩

theorem erasesRange_iff_boundary : ErasesRange (fun _ => none) 0x3F800 0x1000 :=
  (erasesRange_iff _ _ _ (by decide)).mpr ⟨⟨rfl, fun _ => rfl⟩, .inr (by decide)⟩

/-- A page's size from the middle of the first page on, without a failure. -/
theorem erase_short : ¬ ∀ (fails : Nat → Option Nat) (offset size : UInt32),
    offset.toNat + size.toNat ≤ 512 * 1024 → ErasesRange fails offset size := by
  intro h
  have hs : Succeeds (fun _ => none) (0x400 : UInt32).toNat (0x800 : UInt32).toNat := ⟨rfl, fun _ => rfl⟩
  have hin : (0x400 : UInt32).toNat + (0x800 : UInt32).toNat ≤ 512 * 1024 := by decide
  have hpages := (h (fun _ => none) 0x400 0x800 hin).pages (erase_returns _ hin) (pageOf 1)
  rw [(erase_of_succeeds hin hs).1] at hpages
  obtain ⟨i, hi, hp⟩ := hpages.mpr ⟨2048, by decide, by decide, rfl⟩
  have hcount : pageCount (0x800 : UInt32).toNat = 1 := rfl
  have hone : (0x400 : UInt32).toNat / 2048 + i = 1 := pageOf_inj hp
  have hzero : (0x400 : UInt32).toNat / 2048 = 0 := rfl
  omega

end RocCar.Flash

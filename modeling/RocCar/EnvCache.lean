import RocCar.EasyFlash

/-!
# What the cache holds

The data section of the cache is a list of entries, each `key=value` with a zero
behind it and zeros up to a multiple of 4. A search finds the first entry that
starts with the key and an equal sign, and never leaves the data section.
-/

namespace RocCar.EasyFlash

open Cells Fallible
open Wifi (CString equalSign)

theorem envUserSettingSize_eq : envUserSettingSize = 2048 := rfl

theorem envParamByteSize_eq : envParamByteSize = 16 := rfl

theorem envAreaSize_eq : envAreaSize = 8192 := rfl

structure Entry where
  key : CString
  value : CString
  key_ne : key.bytes ≠ []
  key_plain : equalSign ∉ key.bytes
  deriving DecidableEq

namespace Entry

def line (e : Entry) : List UInt8 := e.key.bytes ++ equalSign :: e.value.bytes

def pad (n : Nat) : List UInt8 := List.replicate (wordAlign n - n) 0

def enc (e : Entry) : List UInt8 := e.line ++ 0 :: pad (e.line.length + 1)

end Entry

def encAll (es : List Entry) : List UInt8 := es.flatMap Entry.enc

theorem le_wordAlign (n : Nat) : n ≤ wordAlign n := by
  unfold wordAlign; split <;> omega

theorem wordAlign_mod (n : Nat) : wordAlign n % 4 = 0 := by
  unfold wordAlign; split <;> omega

namespace Entry

theorem line_nul_free (e : Entry) : 0 ∉ e.line := by
  rw [line, List.mem_append, List.mem_cons, not_or, not_or]
  exact ⟨e.key.nul_free, by decide, e.value.nul_free⟩

theorem length_line (e : Entry) : e.line.length = e.key.strlen + e.value.strlen + 1 := by
  rw [line, List.length_append, List.length_cons]; rfl

theorem length_enc (e : Entry) : e.enc.length = wordAlign (e.line.length + 1) := by
  have := le_wordAlign (e.line.length + 1)
  rw [enc, List.length_append, List.length_cons, pad, List.length_replicate]
  omega

theorem length_enc_pos (e : Entry) : 4 ≤ e.enc.length := by
  have := le_wordAlign (e.line.length + 1)
  have := wordAlign_mod (e.line.length + 1)
  rw [length_enc]; omega

end Entry

@[simp] theorem encAll_nil : encAll [] = [] := rfl

@[simp] theorem encAll_cons (e : Entry) (es : List Entry) : encAll (e :: es) = e.enc ++ encAll es := rfl

@[simp] theorem encAll_append (es es' : List Entry) : encAll (es ++ es') = encAll es ++ encAll es' :=
  List.flatMap_append

theorem four_mul_length_le : ∀ es : List Entry, 4 * es.length ≤ (encAll es).length
  | [] => Nat.le_refl 0
  | e :: es => by
    have := four_mul_length_le es
    have := e.length_enc_pos
    rw [encAll_cons, List.length_append, List.length_cons]; omega

/-! ## The search -/

def Entry.matches (key : List UInt8) (e : Entry) : Bool := (key ++ [equalSign]).isPrefixOf e.line

theorem takeWhile_line {key : List UInt8} (h : equalSign ∉ key) (rest : List UInt8) :
    (key ++ equalSign :: rest).takeWhile (· ≠ equalSign) = key := by
  have hkey : ∀ c ∈ key, decide (c ≠ equalSign) = true := by
    intro c hc
    exact decide_eq_true (ne_of_mem_of_not_mem hc h)
  rw [List.takeWhile_append_of_pos hkey]
  simp

theorem Entry.matches_iff {key : List UInt8} (h : equalSign ∉ key) (e : Entry) :
    e.matches key = true ↔ e.key.bytes = key := by
  rw [Entry.matches, List.isPrefixOf_iff_prefix]
  constructor
  · rintro ⟨rest, hr⟩
    rw [List.append_assoc, List.singleton_append] at hr
    rw [← takeWhile_line e.key_plain e.value.bytes, ← takeWhile_line h rest, hr, Entry.line]
  · rintro rfl
    exact ⟨e.value.bytes, by rw [List.append_assoc, List.singleton_append, Entry.line]⟩

theorem keyAt_line (e : Entry) {key : List UInt8} (h : 0 ∉ key) (rest : List UInt8) :
    keyAt (e.line ++ 0 :: rest) key = .ok (e.matches key) := by
  rw [keyAt, Strings.startsWith_eq _ rest h, ok_bind, Entry.matches]
  by_cases hp : key <+: e.line
  · obtain ⟨t, ht⟩ := hp
    rw [← ht, List.isPrefixOf_iff_prefix.mpr (List.prefix_append key t), if_pos rfl, List.append_assoc]
    cases t with
    | nil =>
      rw [Strings.loadAt_of_getElem? (b := 0) _ (by simp), ok_bind]
      have : ¬ key ++ [equalSign] <+: key ++ [] := by
        intro hp
        have := hp.length_le
        simp at this
      rw [Bool.eq_false_iff.mpr (mt List.isPrefixOf_iff_prefix.mp this)]
      rfl
    | cons b t =>
      rw [Strings.loadAt_of_getElem? (b := b) _ (by simp), ok_bind]
      have : (key ++ [equalSign]).isPrefixOf (key ++ b :: t) = (b == equalSign) := by
        rw [Bool.eq_iff_iff, List.isPrefixOf_iff_prefix, List.prefix_append_right_inj, List.cons_prefix_cons,
          beq_iff_eq]
        exact ⟨fun hb => hb.1.symm, fun hb => ⟨hb.symm, List.nil_prefix⟩⟩
      rw [this]
      rfl
  · have : ¬ key ++ [equalSign] <+: e.line := fun hq => hp ((List.prefix_append ..).trans hq)
    rw [Bool.eq_false_iff.mpr (mt List.isPrefixOf_iff_prefix.mp hp),
      Bool.eq_false_iff.mpr (mt List.isPrefixOf_iff_prefix.mp this)]
    rfl

/-- Where the search stops, when the data is at `a`. -/
def offsetOf (key : List UInt8) : List Entry → Nat → Option Nat
  | [], _ => none
  | e :: es, a => if e.matches key then some a else offsetOf key es (a + e.enc.length)

theorem charsAt_add (s : EnvState) (a k : Nat) : charsAt s (a + k) = (charsAt s a).drop k := by
  rw [charsAt, charsAt, List.drop_drop]

theorem findLoop_eq {s : EnvState} {key : List UInt8} (h : 0 ∉ key) : ∀ {es : List Entry} {n a : Nat},
    es.length < n → encAll es <+: charsAt s a →
    findLoop s key (a + (encAll es).length) n a = .ok (offsetOf key es a)
  | [], n + 1, a, _, _ => by
    rw [findLoop, if_neg (by simp)]
    rfl
  | e :: es, n + 1, a, hn, ⟨tail, ht⟩ => by
    rw [List.length_cons] at hn
    have hpos := e.length_enc_pos
    have hat : charsAt s a = e.line ++ 0 :: (Entry.pad (e.line.length + 1) ++ (encAll es ++ tail)) := by
      rw [← ht, encAll_cons, Entry.enc]
      simp only [List.append_assoc, List.cons_append]
    have hnext : encAll es <+: charsAt s (a + e.enc.length) := by
      rw [charsAt_add, ← ht, encAll_cons, List.append_assoc, List.drop_left]
      exact List.prefix_append ..
    rw [findLoop, if_pos (by rw [encAll_cons, List.length_append]; omega), hat, keyAt_line e h, ok_bind, offsetOf]
    cases e.matches key with
    | true => rfl
    | false =>
      have ih := findLoop_eq h (Nat.lt_of_succ_lt_succ hn) hnext
      rw [if_neg Bool.false_ne_true, if_neg Bool.false_ne_true, Strings.strlen_eq _ _ e.line_nul_free, ok_bind,
        encAll_cons, List.length_append, ← Nat.add_assoc]
      dsimp only
      rw [← e.length_enc, ih]

/-! ## The entries in the cache -/

structure Holds (s : EnvState) (es : List Entry) : Prop where
  area_le : s.curLoadAreaAddr ≤ envAreaSize
  end_eq : getEnvEndAddr s = s.curLoadAreaAddr + envParamByteSize + (encAll es).length
  data : encAll es <+: charsAt s envParamByteSize
  room : envParamByteSize + (encAll es).length < envUserSettingSize
  distinct : es.Pairwise fun e e' => e.key ≠ e'.key

variable {s : EnvState} {es : List Entry}

theorem Holds.congr {s' : EnvState} (h : Holds s es) (hc : s'.envCache = s.envCache)
    (ha : s'.curLoadAreaAddr = s.curLoadAreaAddr) : Holds s' es where
  area_le := by rw [ha]; exact h.area_le
  end_eq := by rw [getEnvEndAddr, hc, ha]; exact h.end_eq
  data := by rw [charsAt, hc]; exact h.data
  room := h.room
  distinct := h.distinct

theorem Holds.usedSize (h : Holds s es) : getEnvUserUsedSize s = envParamByteSize + (encAll es).length := by
  rw [getEnvUserUsedSize, h.end_eq, getEnvSystemAddr, if_pos (by have := envParamByteSize_eq; omega)]
  omega

theorem Holds.dataSize (h : Holds s es) : getEnvDataSize s = (encAll es).length := by
  rw [getEnvDataSize, h.end_eq, getEnvDataAddr, getEnvSystemAddr]
  split <;> omega

theorem Holds.findEnv (h : Holds s es) (key : CString) :
    findEnv s key = .ok (if key.bytes = [] then none else offsetOf key.bytes es envParamByteSize) := by
  rw [EasyFlash.findEnv]
  split
  · rfl
  · have := four_mul_length_le es
    have := h.room
    have := envUserSettingSize_eq
    rw [h.usedSize, findLoop_eq key.nul_free (by omega) h.data]

theorem offsetOf_eq_some {key : List UInt8} : ∀ {es : List Entry} {a p : Nat}, offsetOf key es a = some p →
    ∃ pre e post, es = pre ++ e :: post ∧ (∀ e' ∈ pre, e'.matches key = false) ∧ e.matches key = true ∧
      p = a + (encAll pre).length
  | e :: es, a, p, h => by
    rw [offsetOf] at h
    split at h
    · rename_i hm
      exact ⟨[], e, es, rfl, by simp, hm, by simpa using h.symm⟩
    · rename_i hm
      obtain ⟨pre, e', post, rfl, hpre, hm', rfl⟩ := offsetOf_eq_some h
      refine ⟨e :: pre, e', post, rfl, ?_, hm', by rw [encAll_cons, List.length_append]; omega⟩
      exact List.forall_mem_cons.mpr ⟨Bool.eq_false_iff.mpr hm, hpre⟩

theorem offsetOf_eq_none {key : List UInt8} : ∀ {es : List Entry} {a : Nat}, offsetOf key es a = none ↔
    ∀ e ∈ es, e.matches key = false
  | [], a => by simp [offsetOf]
  | e :: es, a => by
    rw [offsetOf, List.forall_mem_cons]
    cases e.matches key <;> simp [offsetOf_eq_none]

end RocCar.EasyFlash

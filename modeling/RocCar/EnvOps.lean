import RocCar.Base64Sound
import RocCar.EnvCache

/-!
# The operations on the cache

Each operation of the store acts on the entries in the cache as the function of
its name does on a list of entries: it finds, appends and removes entries, and
fails for the same reasons. No operation leaves the cache.
-/

namespace RocCar.EasyFlash

open Cells Fallible
open Wifi (CString equalSign)

/-! ## The operations on entries -/

namespace Entries

def get (es : List Entry) (key : CString) : Option CString :=
  (es.find? fun e => e.matches key.bytes).map Entry.value

def del (es : List Entry) (key : CString) : List Entry := es.filter fun e => e.key ≠ key

def Room (es : List Entry) (key value : CString) : Prop :=
  envParamByteSize + (encAll es).length + wordAlign (key.strlen + value.strlen + 2) < envUserSettingSize

instance (es : List Entry) (key value : CString) : Decidable (Room es key value) := inferInstanceAs (Decidable (_ < _))

def Plain (key : CString) : Prop := key.bytes ≠ [] ∧ equalSign ∉ key.bytes

instance (key : CString) : Decidable (Plain key) := inferInstanceAs (Decidable (_ ∧ _))

def create (es : List Entry) (key value : CString) : EfErrCode × List Entry :=
  if h : Plain key then
    if ∃ e ∈ es, e.key = key then (.efEnvNameExist, es)
    else if Room es key value then (.efNoErr, es ++ [⟨key, value, h.1, h.2⟩])
    else (.efEnvFull, es)
  else (.efEnvNameErr, es)

def delete (es : List Entry) (key : CString) : EfErrCode × List Entry :=
  if Plain key ∧ ∃ e ∈ es, e.key = key then (.efNoErr, del es key) else (.efEnvNameErr, es)

/-- An entry with another value is deleted first, and stays deleted when there
is no room for the new one. -/
def set (es : List Entry) (key value : CString) : EfErrCode × List Entry :=
  if get es key = some value then (.efNoErr, es)
  else if Plain key then create (del es key) key value
  else (.efEnvNameErr, es)

end Entries

/-- What an operation may change beside the cache and its flag: nothing. -/
structure SameStatics (s s' : EnvState) : Prop where
  defaults : s'.defaultEnvSet = s.defaultEnvSet
  init : s'.initOk = s.initOk
  cur : s'.curLoadAreaAddr = s.curLoadAreaAddr
  next : s'.nextSaveAreaAddr = s.nextSaveAreaAddr
  count : wordAt s'.envCache envParamIndexSavedCount = wordAt s.envCache envParamIndexSavedCount
  ver : wordAt s'.envCache envParamIndexVerNum = wordAt s.envCache envParamIndexVerNum

theorem SameStatics.refl (s : EnvState) : SameStatics s s := ⟨rfl, rfl, rfl, rfl, rfl, rfl⟩

theorem SameStatics.trans {s s' s'' : EnvState} (h : SameStatics s s') (h' : SameStatics s' s'') : SameStatics s s'' :=
  ⟨h'.defaults.trans h.defaults, h'.init.trans h.init, h'.cur.trans h.cur, h'.next.trans h.next,
    h'.count.trans h.count, h'.ver.trans h.ver⟩

/-! ## Storing -/

theorem storeAt_ok (s : EnvState) {p : Nat} {bs : List UInt8} (h : p + bs.length ≤ envUserSettingSize) :
    storeAt s p bs = .ok { s with envCache := blit s.envCache p bs } := if_pos h

theorem storeAt_bind_append {β : Type} (s : EnvState) {p q : Nat} {xs ys : List UInt8} (hq : q = p + xs.length)
    (h : p + (xs ++ ys).length ≤ envUserSettingSize) (f : EnvState → Except Fault β) :
    (storeAt s p xs >>= fun s => storeAt s q ys >>= f) = storeAt s p (xs ++ ys) >>= f := by
  have hl : p + xs.length + ys.length = p + (xs ++ ys).length := by rw [List.length_append]; omega
  subst hq
  rw [storeAt_ok s (by omega), ok_bind, storeAt_ok _ (by omega), storeAt_ok s h]
  dsimp only
  rw [blit_blit_append _ h]

variable {s : EnvState} {es : List Entry}

def rewritten (s : EnvState) (p : Nat) (bs : List UInt8) (endAddr : Nat) : EnvState :=
  { setEnvEndAddr { s with envCache := blit s.envCache p bs } endAddr with envCacheChanged := true }

theorem getEnvEndAddr_blit (s : EnvState) {p : Nat} {bs : List UInt8} (h : p + bs.length ≤ envUserSettingSize)
    (hp : 4 ≤ p) : getEnvEndAddr { s with envCache := blit s.envCache p bs } = getEnvEndAddr s := by
  unfold getEnvEndAddr wordAt
  dsimp only
  rw [bytes_blit_before _ h hp]

theorem writeEnv_room (h : Holds s es) (e : Entry) (hr : Entries.Room es e.key e.value) :
    writeEnv s e.key e.value =
      .ok (.efNoErr, rewritten s (getEnvUserUsedSize s) e.enc (getEnvEndAddr s + e.enc.length)) := by
  unfold Entries.Room at hr
  have hline := e.length_line
  have hlen : e.enc.length = wordAlign (e.key.strlen + e.value.strlen + 2) := by rw [e.length_enc, hline]
  have hle := le_wordAlign (e.key.strlen + e.value.strlen + 2)
  have hk : e.key.bytes.length = e.key.strlen := rfl
  have hv : e.value.bytes.length = e.value.strlen := rfl
  have hpad : (List.replicate (wordAlign (e.key.strlen + e.value.strlen + 2) -
      (e.key.strlen + e.value.strlen + 2)) (0 : UInt8)).length =
      wordAlign (e.key.strlen + e.value.strlen + 2) - (e.key.strlen + e.value.strlen + 2) := List.length_replicate ..
  have henc : e.key.bytes ++ [equalSign] ++ e.value.bytes ++ [0] ++ List.replicate
      (wordAlign (e.key.strlen + e.value.strlen + 2) - (e.key.strlen + e.value.strlen + 2)) 0 = e.enc := by
    rw [Entry.enc, hline, Entry.line, Entry.pad]
    simp only [List.append_assoc, List.cons_append, List.nil_append]
  unfold writeEnv
  dsimp only
  rw [if_neg (by rw [h.usedSize]; omega)]
  -- the five stores are one
  rw [storeAt_bind_append s, storeAt_bind_append s, storeAt_bind_append s, storeAt_bind_append s, henc,
    storeAt_ok s (by rw [h.usedSize, hlen]; omega), ok_bind]
  · have hfit : getEnvUserUsedSize s + e.enc.length ≤ envUserSettingSize := by rw [h.usedSize, hlen]; omega
    have hend := getEnvEndAddr_blit s hfit (by rw [h.usedSize]; have := envParamByteSize_eq; omega)
    rw [hend, rewritten, hlen]
    rfl
  all_goals simp only [List.length_append, List.length_singleton, h.usedSize, hpad, hk, hv] <;> omega

theorem Holds.bytes_data (h : Holds s es) : bytes s.envCache envParamByteSize (encAll es).length = encAll es := by
  obtain ⟨tail, ht⟩ := h.data
  rw [bytes, ← charsAt, ← ht, List.take_left]

theorem word_blit (c : Vector UInt8 envUserSettingSize) {p k : Nat} {bs : List UInt8}
    (h : p + bs.length ≤ envUserSettingSize) (hp : 4 * k + 4 ≤ p) : wordAt (blit c p bs) k = wordAt c k := by
  rw [wordAt, bytes_blit_before c h hp, wordAt]

theorem rewritten_holds (h : Holds s es) {keep new : List Entry} {p endAddr : Nat} {bs : List UInt8}
    (hkeep : bytes s.envCache envParamByteSize (encAll keep).length = encAll keep)
    (hp : p = envParamByteSize + (encAll keep).length) (hbs : bs = encAll new)
    (hroom : envParamByteSize + (encAll (keep ++ new)).length < envUserSettingSize)
    (hend : endAddr % 2 ^ 32 = s.curLoadAreaAddr + envParamByteSize + (encAll (keep ++ new)).length)
    (hd : (keep ++ new).Pairwise fun e e' => e.key ≠ e'.key) :
    Holds (rewritten s p bs endAddr) (keep ++ new) ∧ SameStatics s (rewritten s p bs endAddr) := by
  subst hp hbs
  have hsize := envUserSettingSize_eq
  have hfit : envParamByteSize + (encAll keep).length + (encAll new).length ≤ envUserSettingSize := by
    rw [encAll_append, List.length_append] at hroom; omega
  have hword : ∀ k, k ≠ 0 → 4 * k + 4 ≤ envParamByteSize →
      wordAt (rewritten s (envParamByteSize + (encAll keep).length) (encAll new) endAddr).envCache k =
        wordAt s.envCache k := by
    intro k hk hle
    unfold rewritten setEnvEndAddr setParam
    dsimp only
    rw [word_setWord_ne (by decide) hk, word_blit _ hfit (by omega)]
  refine ⟨⟨h.area_le, ?_, ?_, hroom, hd⟩, rfl, rfl, rfl, rfl, hword 1 (by decide) (by decide),
    hword 2 (by decide) (by decide)⟩
  · exact (word_setWord (by decide)).trans hend
  · refine ⟨s.envCache.toList.drop (envParamByteSize + (encAll keep).length + (encAll new).length), ?_⟩
    unfold charsAt rewritten setEnvEndAddr setParam
    dsimp only
    rw [drop_setWord (by decide) (by decide), drop_blit_before _ hfit (Nat.le_add_right ..), Nat.add_sub_cancel_left,
      hkeep, encAll_append, List.append_assoc]

/-! ## Create -/

theorem appended_holds (h : Holds s es) {e : Entry} (hnew : ∀ e' ∈ es, e'.key ≠ e.key)
    (hr : Entries.Room es e.key e.value) :
    Holds (rewritten s (getEnvUserUsedSize s) e.enc (getEnvEndAddr s + e.enc.length)) (es ++ [e]) ∧
      SameStatics s (rewritten s (getEnvUserUsedSize s) e.enc (getEnvEndAddr s + e.enc.length)) := by
  unfold Entries.Room at hr
  have hsize := envUserSettingSize_eq
  have harea := envAreaSize_eq
  have hcur := h.area_le
  have hlen : e.enc.length = wordAlign (e.key.strlen + e.value.strlen + 2) := by rw [e.length_enc, e.length_line]
  have hall : (encAll (es ++ [e])).length = (encAll es).length + e.enc.length := by
    rw [encAll_append, List.length_append, encAll_cons, encAll_nil, List.append_nil]
  refine rewritten_holds h h.bytes_data h.usedSize (by rw [encAll_cons, encAll_nil, List.append_nil]) ?_ ?_ ?_
  · rw [hall]; omega
  · rw [hall, h.end_eq, Nat.mod_eq_of_lt (by omega)]; omega
  · refine List.pairwise_append.mpr ⟨h.distinct, List.pairwise_singleton .., ?_⟩
    intro e' he' e'' he''
    rw [List.mem_singleton] at he''
    rw [he'']
    exact hnew e' he'

theorem writeEnv_full (h : Holds s es) {key value : CString} (hr : ¬ Entries.Room es key value) :
    writeEnv s key value = .ok (.efEnvFull, s) := by
  unfold Entries.Room at hr
  unfold writeEnv
  dsimp only
  rw [if_pos (by rw [h.usedSize]; omega)]
  rfl

/-- What an operation does to the cache: the entries become those of `r`, and
the flag is set unless nothing has changed. -/
structure Effect (s : EnvState) (es : List Entry) (r : EfErrCode × List Entry) (s' : EnvState) : Prop where
  holds : Holds s' r.2
  statics : SameStatics s s'
  changed : s' = s ∧ r.2 = es ∨ s'.envCacheChanged = true

theorem Effect.same (h : Holds s es) (code : EfErrCode) : Effect s es (code, es) s :=
  ⟨h, .refl s, .inl ⟨rfl, rfl⟩⟩

theorem cstring_eq_iff {a b : CString} : a = b ↔ a.bytes = b.bytes := by
  cases a; cases b; simp

theorem Entry.matches_iff_key {key : CString} (h : equalSign ∉ key.bytes) (e : Entry) :
    e.matches key.bytes = true ↔ e.key = key := by
  rw [Entry.matches_iff h, cstring_eq_iff]

theorem offsetOf_isSome_iff {key : CString} (hp : Entries.Plain key) (es : List Entry) (a : Nat) :
    (offsetOf key.bytes es a).isSome = true ↔ ∃ e ∈ es, e.key = key := by
  rw [← not_iff_not, Bool.not_eq_true, Option.isSome_eq_false_iff, Option.isNone_iff_eq_none, offsetOf_eq_none]
  simp only [Bool.eq_false_iff, ne_eq, Entry.matches_iff_key hp.2, not_exists, not_and]

theorem createEnv_effect (h : Holds s es) (key value : CString) :
    ∃ s', createEnv s key value = .ok ((Entries.create es key value).1, s') ∧
      Effect s es (Entries.create es key value) s' := by
  unfold createEnv Entries.create
  by_cases hne : key.bytes = []
  · rw [if_pos hne, dif_neg (fun hp => hp.1 hne)]
    exact ⟨s, rfl, .same h _⟩
  by_cases heq : equalSign ∈ key.bytes
  · rw [if_neg hne, if_pos heq, dif_neg (fun hp => hp.2 heq)]
    exact ⟨s, rfl, .same h _⟩
  have hp : Entries.Plain key := ⟨hne, heq⟩
  rw [if_neg hne, if_neg heq, dif_pos hp, h.findEnv, if_neg hne, ok_bind]
  by_cases hex : ∃ e ∈ es, e.key = key
  · rw [if_pos ((offsetOf_isSome_iff hp _ _).mpr hex), if_pos hex]
    exact ⟨s, rfl, .same h _⟩
  rw [if_neg (mt (offsetOf_isSome_iff hp _ _).mp hex), if_neg hex]
  by_cases hr : Entries.Room es key value
  · rw [if_pos hr]
    have hnew : ∀ e' ∈ es, e'.key ≠ key := fun e' he' hk => hex ⟨e', he', hk⟩
    obtain ⟨hh, hs⟩ := appended_holds (e := ⟨key, value, hp.1, hp.2⟩) h hnew hr
    exact ⟨_, writeEnv_room h ⟨key, value, hp.1, hp.2⟩ hr, hh, hs, .inr rfl⟩
  · rw [if_neg hr]
    exact ⟨s, writeEnv_full h hr, .same h _⟩

/-! ## Delete -/

theorem charsAt_entry (h : Holds s es) {pre post : List Entry} {e : Entry} (hes : es = pre ++ e :: post) :
    ∃ rest, charsAt s (envParamByteSize + (encAll pre).length) = e.enc ++ (encAll post ++ rest) := by
  obtain ⟨tail, ht⟩ := h.data
  refine ⟨tail, ?_⟩
  rw [charsAt_add, ← ht, hes, encAll_append, List.append_assoc, List.drop_left, encAll_cons, List.append_assoc]

theorem enc_append (e : Entry) (rest : List UInt8) :
    e.enc ++ rest = e.line ++ 0 :: (Entry.pad (e.line.length + 1) ++ rest) := by
  rw [Entry.enc]
  simp only [List.append_assoc, List.cons_append]

theorem del_eq {key : CString} {pre post : List Entry} {e : Entry}
    (hd : (pre ++ e :: post).Pairwise fun e e' => e.key ≠ e'.key) (hk : e.key = key) :
    Entries.del (pre ++ e :: post) key = pre ++ post := by
  obtain ⟨-, hpost, hpre⟩ := List.pairwise_append.mp hd
  obtain ⟨hpost, -⟩ := List.pairwise_cons.mp hpost
  have h₁ : pre.filter (fun e => e.key ≠ key) = pre :=
    List.filter_eq_self.mpr fun e' he' => decide_eq_true (hk ▸ hpre e' he' e (List.mem_cons_self ..))
  have h₂ : post.filter (fun e => e.key ≠ key) = post :=
    List.filter_eq_self.mpr fun e' he' => decide_eq_true (hk ▸ (hpost e' he').symm)
  rw [Entries.del, List.filter_append, List.filter_cons, if_neg (by simp [hk]), h₁, h₂]

theorem delEnv_effect (h : Holds s es) (key : CString) :
    ∃ s', delEnv s key = .ok ((Entries.delete es key).1, s') ∧ Effect s es (Entries.delete es key) s' := by
  unfold delEnv Entries.delete
  by_cases hne : key.bytes = []
  · rw [if_pos hne, if_neg (fun hp => hp.1.1 hne)]
    exact ⟨s, rfl, .same h _⟩
  by_cases heq : equalSign ∈ key.bytes
  · rw [if_neg hne, if_pos heq, if_neg (fun hp => hp.1.2 heq)]
    exact ⟨s, rfl, .same h _⟩
  have hp : Entries.Plain key := ⟨hne, heq⟩
  rw [if_neg hne, if_neg heq, h.findEnv, if_neg hne, ok_bind]
  have hex := offsetOf_isSome_iff hp es envParamByteSize
  cases ho : offsetOf key.bytes es envParamByteSize with
  | none =>
    rw [ho] at hex
    rw [if_neg (fun hc => Bool.false_ne_true (hex.mpr hc.2))]
    exact ⟨s, rfl, .same h _⟩
  | some p =>
    rw [ho] at hex
    rw [if_pos ⟨hp, hex.mp rfl⟩]
    obtain ⟨pre, e, post, rfl, -, hm, rfl⟩ := offsetOf_eq_some ho
    have hk := (e.matches_iff_key hp.2).mp hm
    obtain ⟨rest, hat⟩ := charsAt_entry h rfl
    rw [del_eq h.distinct hk]
    -- the sizes of the parts
    have hsize := envUserSettingSize_eq
    have hparam := envParamByteSize_eq
    have harea := envAreaSize_eq
    have hcur := h.area_le
    have hroom := h.room
    have hpos := e.length_enc_pos
    have hall : (encAll (pre ++ e :: post)).length = (encAll pre).length + e.enc.length + (encAll post).length := by
      rw [encAll_append, encAll_cons, List.length_append, List.length_append, Nat.add_assoc]
    have hrest : (encAll (pre ++ post)).length = (encAll pre).length + (encAll post).length := by
      rw [encAll_append, List.length_append]
    have hremain : ((encAll (pre ++ e :: post)).length + 2 ^ 32 -
        (envParamByteSize + (encAll pre).length + e.enc.length - envParamByteSize)) % 2 ^ 32 =
        (encAll post).length := by
      rw [hall]; omega
    have hmove : bytes s.envCache (envParamByteSize + (encAll pre).length + e.enc.length) (encAll post).length =
        encAll post := by
      rw [bytes, ← charsAt, charsAt_add, hat, List.drop_left, List.take_left]
    have hkeep : bytes s.envCache envParamByteSize (encAll pre).length = encAll pre := by
      obtain ⟨tail, ht⟩ := h.data
      rw [bytes, ← charsAt, ← ht, encAll_append, List.append_assoc, List.take_left]
    dsimp only
    rw [hat, enc_append, Strings.strlen_eq _ _ e.line_nul_free, ok_bind, ← e.length_enc, h.dataSize, hremain, loadRange,
      if_pos (by omega), ok_bind, hmove, storeAt_ok s (by omega), ok_bind, getEnvEndAddr_blit s (by omega) (by omega)]
    have hd : (pre ++ post).Pairwise fun e e' => e.key ≠ e'.key :=
      h.distinct.sublist (List.Sublist.append_left (List.sublist_cons_self e post) pre)
    have hend : (getEnvEndAddr s + 2 ^ 32 - e.enc.length) % 2 ^ 32 =
        s.curLoadAreaAddr + envParamByteSize + (encAll (pre ++ post)).length := by
      rw [h.end_eq]; omega
    obtain ⟨hh, hs⟩ := rewritten_holds h hkeep rfl rfl (by omega) hend hd
    exact ⟨_, rfl, hh, hs, .inr rfl⟩

/-! ## Get and set -/

theorem Effect.trans {s' s'' : EnvState} {r r' : EfErrCode × List Entry} (h : Effect s es r s')
    (h' : Effect s' r.2 r' s'') : Effect s es r' s'' := by
  refine ⟨h'.holds, h.statics.trans h'.statics, ?_⟩
  obtain ⟨rfl, he⟩ | hc := h.changed
  · rw [← he]; exact h'.changed
  · obtain ⟨rfl, -⟩ | hc' := h'.changed
    · exact .inr hc
    · exact .inr hc'

theorem get_eq_some {key : CString} {pre post : List Entry} {e : Entry}
    (hpre : ∀ e' ∈ pre, e'.matches key.bytes = false) (hm : e.matches key.bytes = true) :
    Entries.get (pre ++ e :: post) key = some e.value := by
  rw [Entries.get, List.find?_append, List.find?_eq_none.mpr (fun e' he' => by rw [hpre e' he']; decide),
    Option.none_or, List.find?_cons_of_pos hm]
  rfl

theorem get_eq_none_iff {key : CString} : Entries.get es key = none ↔ ∀ e ∈ es, e.matches key.bytes = false := by
  rw [Entries.get, Option.map_eq_none_iff, List.find?_eq_none]
  simp

theorem matches_nil (e : Entry) : e.matches [] = false := by
  rw [Bool.eq_false_iff, ne_eq, e.matches_iff List.not_mem_nil]
  exact e.key_ne

theorem findEnv_spec (h : Holds s es) (key : CString) :
    findEnv s key = .ok none ∧ Entries.get es key = none ∨
      ∃ pre e post, es = pre ++ e :: post ∧ (∀ e' ∈ pre, e'.matches key.bytes = false) ∧
        e.matches key.bytes = true ∧ Entries.get es key = some e.value ∧
        findEnv s key = .ok (some (envParamByteSize + (encAll pre).length)) := by
  rw [h.findEnv]
  by_cases hne : key.bytes = []
  · rw [if_pos hne, get_eq_none_iff, hne]
    exact .inl ⟨rfl, fun e _ => matches_nil e⟩
  · rw [if_neg hne]
    cases ho : offsetOf key.bytes es envParamByteSize with
    | none => exact .inl ⟨rfl, get_eq_none_iff.mpr (offsetOf_eq_none.mp ho)⟩
    | some p =>
      obtain ⟨pre, e, post, rfl, hpre, hm, rfl⟩ := offsetOf_eq_some ho
      exact .inr ⟨pre, e, post, rfl, hpre, hm, get_eq_some hpre hm, rfl⟩

theorem strchr_entry (e : Entry) (rest : List UInt8) :
    Strings.strchr Fault.read equalSign (e.enc ++ rest) = .ok (some e.key.strlen) := by
  rw [enc_append, Entry.line, List.append_assoc, List.cons_append,
    Strings.strchr_eq _ _ e.key_plain e.key.nul_free]
  rfl

theorem charsAt_value (h : Holds s es) {pre post : List Entry} {e : Entry} (hes : es = pre ++ e :: post) :
    ∃ rest, charsAt s (envParamByteSize + (encAll pre).length + e.key.strlen + 1) = e.value.bytes ++ 0 :: rest := by
  obtain ⟨rest, hat⟩ := charsAt_entry h hes
  refine ⟨Entry.pad (e.line.length + 1) ++ (encAll post ++ rest), ?_⟩
  have hsplit : e.enc ++ (encAll post ++ rest) = (e.key.bytes ++ [equalSign]) ++
      (e.value.bytes ++ 0 :: (Entry.pad (e.line.length + 1) ++ (encAll post ++ rest))) := by
    rw [enc_append, Entry.line]
    simp only [List.append_assoc, List.cons_append, List.nil_append]
  rw [Nat.add_assoc, charsAt_add, hat, hsplit, List.drop_left' (by rw [List.length_append]; rfl)]

theorem efSetEnv_effect (h : Holds s es) (hi : s.initOk = true) (key value : CString) :
    ∃ s', efSetEnv s key (some value) = .ok ((Entries.set es key value).1, s') ∧
      Effect s es (Entries.set es key value) s' := by
  unfold efSetEnv Entries.set
  rw [hi, Bool.not_true, if_neg Bool.false_ne_true]
  dsimp only
  obtain ⟨hf, hg⟩ | ⟨pre, e, post, hes, hpre, hm, hg, hf⟩ := findEnv_spec h key
  · rw [hf, ok_bind, hg, if_neg (by simp)]
    by_cases hp : Entries.Plain key
    · have hdel : Entries.del es key = es := List.filter_eq_self.mpr fun e he => decide_eq_true fun hk =>
        Bool.false_ne_true ((get_eq_none_iff.mp hg e he).symm.trans ((e.matches_iff_key hp.2).mpr hk))
      rw [if_pos hp, hdel]
      exact createEnv_effect h key value
    · rw [if_neg hp]
      have := createEnv_effect h key value
      rwa [Entries.create, dif_neg hp] at this
  · obtain ⟨rest, hat⟩ := charsAt_entry h hes
    obtain ⟨rest', hval⟩ := charsAt_value h hes
    rw [hf, ok_bind, hg]
    dsimp only
    rw [hat, strchr_entry, ok_bind]
    dsimp only
    rw [hval, Strings.streq_eq _ _ e.value.nul_free value.nul_free, ok_bind]
    by_cases hv : e.value = value
    · rw [if_pos (decide_eq_true (cstring_eq_iff.mp hv)), if_pos (by rw [hv])]
      exact ⟨s, rfl, .same h _⟩
    · rw [if_neg (by simpa [← cstring_eq_iff] using hv), if_neg (by simpa using hv)]
      obtain ⟨s', hd, he⟩ := delEnv_effect h key
      rw [hd, ok_bind]
      by_cases hp : Entries.Plain key
      · have hex : ∃ e ∈ es, e.key = key := ⟨e, by rw [hes]; simp, (e.matches_iff_key hp.2).mp hm⟩
        rw [Entries.delete, if_pos ⟨hp, hex⟩] at he ⊢
        rw [if_pos hp]
        obtain ⟨s'', hc, he'⟩ := createEnv_effect he.holds key value
        exact ⟨s'', hc, he.trans he'⟩
      · rw [Entries.delete, if_neg (fun hc => hp hc.1)] at he ⊢
        rw [if_neg hp]
        exact ⟨s', rfl, he⟩

theorem efDelEnv_effect (h : Holds s es) (hi : s.initOk = true) (key : CString) :
    ∃ s', efDelEnv s key = .ok ((Entries.delete es key).1, s') ∧ Effect s es (Entries.delete es key) s' := by
  rw [efDelEnv, hi, Bool.not_true, if_neg Bool.false_ne_true]
  exact delEnv_effect h key

/-- What the caller of `ef_get_env` reads at the address it gets. -/
def readEnv (s : EnvState) (key : CString) : Except Fault (Option CString) := do
  return (← efGetEnv s key).map fun p => CString.ofBlock (charsAt s p)

theorem readEnv_eq (h : Holds s es) (hi : s.initOk = true) (key : CString) :
    readEnv s key = .ok (Entries.get es key) := by
  unfold readEnv efGetEnv
  rw [hi, Bool.not_true, if_neg Bool.false_ne_true]
  obtain ⟨hf, hg⟩ | ⟨pre, e, post, hes, -, -, hg, hf⟩ := findEnv_spec h key
  · rw [hf, hg]
    rfl
  · obtain ⟨rest, hat⟩ := charsAt_entry h hes
    obtain ⟨rest', hval⟩ := charsAt_value h hes
    rw [hf, ok_bind, hg]
    dsimp only
    rw [hat, strchr_entry, ok_bind, Option.map_some, pure_eq_ok, ok_bind, Option.map_some, hval, Wifi.ofBlock_append]
    rfl

end RocCar.EasyFlash

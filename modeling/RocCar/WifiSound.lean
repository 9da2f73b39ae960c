import RocCar.Base64Sound

/-!
# Reading and writing the Wi-Fi configuration

The length and the text of the configuration are two entries of the store.
`read_cfg` does not compare them, and `write_cfg` does not look at whether they
were stored.
-/

namespace RocCar.Wifi

open Bytes Fallible

variable {before : Nat → Option UInt8} {data : CString}

/-! ## Reading -/

/-- `read_cfg` on a buffer of as many bytes as `get_len` says stores in it only,
reads in the stored string only, and returns the length only when the decoder has
stored that many bytes. -/
def ReadsSafely (env : Env) : Prop :=
  ∀ buff : List UInt8, (buff.length : Int) = getLen env → ∃ ret buff',
    readCfg (fun _ => none) env buff (getLen env) = .ok (ret, buff') ∧
      (ret = getLen env → ∃ info, env "wlan_cfg_info" = some info ∧
        strBase64Decode (fun _ => none) info buff = .ok (getLen env, buff'))

theorem readCfg_some {env : Env} {info : CString} (h : env "wlan_cfg_info" = some info) (buff : List UInt8)
    (len : Int) : readCfg before env buff len = strBase64Decode before info buff >>= fun r => .ok (len, r.2) := by
  rw [readCfg, h]
  rfl

theorem readCfg_none {env : Env} (h : env "wlan_cfg_info" = none) (buff : List UInt8) (len : Int) :
    readCfg before env buff len = .ok (0, buff) := by
  rw [readCfg, h]
  rfl

theorem strBase64Decode_nil (h : data.bytes = []) (dst : List UInt8) :
    strBase64Decode (fun _ => none) data dst = .error (.read (-1)) := by
  have hlen : data.strlen = 0 := by rw [CString.strlen, h]; rfl
  rw [strBase64Decode, hlen]
  rfl

theorem length_decode_eq_iff (h : 4 ∣ data.strlen) (hne : data.bytes ≠ []) (n : Int) :
    ((Base64.decode alphabet data.bytes).length : Int) = n ↔
      ((data.strlen / 4 * 3 : Nat) : Int) = n + Base64.padding alphabet data.bytes := by
  have hpos := decode_length_pos h hne
  rw [Base64.length_decode] at hpos ⊢
  change 0 < data.strlen / 4 * 3 - _ at hpos
  change ((data.strlen / 4 * 3 - _ : Nat) : Int) = n ↔ _
  omega

/-- **Reading the stored configuration** is safe if and only if there is none, or
its length without the padding is the stored length. -/
theorem readsSafely_iff (env : Env) (h : 0 < getLen env) :
    ReadsSafely env ↔ ∀ info, env "wlan_cfg_info" = some info → info.bytes ≠ [] ∧ 4 ∣ info.strlen ∧
      ((info.strlen / 4 * 3 : Nat) : Int) = getLen env + Base64.padding alphabet info.bytes := by
  constructor
  · intro hsafe info hinfo
    obtain ⟨buff, hbuff⟩ : ∃ buff : List UInt8, (buff.length : Int) = getLen env :=
      ⟨List.replicate (getLen env).toNat 0, by rw [List.length_replicate]; omega⟩
    obtain ⟨ret, buff', hread, hret⟩ := hsafe buff hbuff
    rw [readCfg_some hinfo] at hread
    obtain ⟨⟨outLen, stored⟩, hdecode, hok⟩ := bind_eq_ok.mp hread
    obtain ⟨hlen, rfl⟩ := Prod.mk.inj (Except.ok.inj hok)
    obtain ⟨info', hinfo', hdecode'⟩ := hret hlen.symm
    obtain rfl := Option.some.inj (hinfo.symm.trans hinfo')
    have hne : info.bytes ≠ [] := by
      intro hnil
      rw [strBase64Decode_nil hnil] at hdecode
      cases hdecode
    have hdvd : 4 ∣ info.strlen := by
      by_contra hdvd
      rw [strBase64Decode_of_not_dvd hdvd, Except.ok.injEq, Prod.mk.injEq] at hdecode'
      omega
    exact ⟨hne, hdvd, (length_decode_eq_iff hdvd hne _).mp (strBase64Decode_stored hdvd hne hdecode').1.symm⟩
  · intro hinfo buff hbuff
    cases henv : env "wlan_cfg_info" with
    | none => exact ⟨0, buff, readCfg_none henv buff _, fun hret => by omega⟩
    | some info =>
      obtain ⟨hne, hdvd, hcount⟩ := hinfo info henv
      have hlen := (length_decode_eq_iff hdvd hne _).mpr hcount
      have hle : (Base64.decode alphabet info.bytes).length ≤ buff.length := by omega
      have hdecode := strBase64Decode_ok (fun _ => none) hdvd hne hle
      rw [hlen] at hdecode
      exact ⟨getLen env, _, by rw [readCfg_some henv, hdecode]; rfl, fun _ => ⟨info, rfl, hdecode⟩⟩

def stored (len info : CString) : Env := fun key =>
  if key = "wlan_cfg_len" then some len else if key = "wlan_cfg_info" then some info else none

theorem readsSafely_iff_three : ReadsSafely (stored ⟨[0x33], by decide⟩ (text [0x52, 0x6F, 0x63])) := by
  refine (readsSafely_iff _ (by decide)).mpr fun info hinfo => ?_
  obtain rfl := Option.some.inj hinfo
  decide +kernel

/-- The stored length is 1 and the text holds three bytes. -/
theorem read_cfg_overflows : ¬ ∀ env : Env, 0 < getLen env → ReadsSafely env := by
  intro h
  have hlen : getLen (stored ⟨[0x31], by decide⟩ (text [0x52, 0x6F, 0x63])) = 1 := by decide
  obtain ⟨ret, buff', hread, -⟩ := h _ (hlen ▸ Int.one_pos) [0] hlen.symm
  have hlt : ([0] : List UInt8).length < (Base64.decode alphabet (text [0x52, 0x6F, 0x63]).bytes).length := by
    decide +kernel
  obtain ⟨i, hfault⟩ := strBase64Decode_error (fun _ => none)
    (show 4 ∣ (text [0x52, 0x6F, 0x63]).strlen by decide +kernel) (by decide +kernel) hlt
  rw [readCfg_some rfl, hfault] at hread
  cases hread

/-! ## Writing -/

def digitChars (ds : List Nat) : List UInt8 := ds.map fun d => UInt8.ofNat (0x30 + d)

theorem decimal_eq (n : Nat) : ∃ ds, decimal n = digitChars ds ∧ ds ≠ [] ∧ (∀ d ∈ ds, d < 10) ∧
    ds.foldl (fun m d => m * 10 + d) 0 = n := by
  by_cases hz : n = 0
  · exact ⟨[0], by rw [decimal, if_pos hz]; rfl, by simp, by simp, hz.symm⟩
  · refine ⟨(Nat.digits 10 n).reverse, by rw [decimal, if_neg hz]; rfl, ?_, ?_, ?_⟩
    · rw [ne_eq, List.reverse_eq_nil_iff]
      exact Nat.digits_ne_nil_iff_ne_zero.mpr hz
    · intro d hd
      exact Nat.digits_lt_base (by decide) (List.mem_reverse.mp hd)
    · have hvalue := Nat.ofDigits_digits 10 n
      rw [Nat.ofDigits_eq_foldr] at hvalue
      rw [List.foldl_reverse]
      conv_rhs => rw [← hvalue]
      congr 1
      funext d m
      simp only [Nat.cast_id]
      omega

theorem toNat_digitChar {d : Nat} (h : d < 10) : (UInt8.ofNat (0x30 + d)).toNat = 0x30 + d := by
  rw [UInt8.toNat_ofNat']
  omega

theorem foldl_digitChars {ds : List Nat} (h : ∀ d ∈ ds, d < 10) (m : Nat) :
    (digitChars ds).foldl (fun n c => n * 10 + (c.toNat - 0x30)) m = ds.foldl (fun m d => m * 10 + d) m := by
  induction ds generalizing m with
  | nil => rfl
  | cons d ds ih =>
    have hd := toNat_digitChar (h d (List.mem_cons_self ..))
    rw [digitChars, List.map_cons, List.foldl_cons, List.foldl_cons, hd, Nat.add_sub_cancel_left]
    exact ih (fun e he => h e (List.mem_cons_of_mem _ he)) _

theorem isdigit_digitChar {d : Nat} (h : d < 10) : isdigit (UInt8.ofNat (0x30 + d)) = true := by
  have hd := toNat_digitChar h
  simp only [isdigit, Bool.and_eq_true, decide_eq_true_eq, UInt8.le_iff_toNat_le, hd]
  exact ⟨Nat.le_add_right _ _, show 0x30 + d ≤ 0x39 by omega⟩

theorem isspace_digitChar {d : Nat} (h : d < 10) : isspace (UInt8.ofNat (0x30 + d)) = false := by
  have hd := toNat_digitChar h
  simp only [isspace, Bool.or_eq_false_iff, Bool.and_eq_false_iff, decide_eq_false_iff_not, UInt8.le_iff_toNat_le,
    ← UInt8.toNat_inj, hd]
  exact ⟨show 0x30 + d ≠ 0x20 by omega, .inr (show ¬ 0x30 + d ≤ 0x0D by omega)⟩

theorem takeWhile_digitChars {ds : List Nat} (h : ∀ d ∈ ds, d < 10) :
    (digitChars ds).takeWhile isdigit = digitChars ds := by
  rw [List.takeWhile_eq_self_iff]
  intro c hc
  obtain ⟨d, hd, rfl⟩ := List.mem_map.mp hc
  exact isdigit_digitChar (h d hd)

theorem atoi_digitChars {ds : List Nat} (hne : ds ≠ []) (h : ∀ d ∈ ds, d < 10) {s : CString}
    (hs : s.bytes = digitChars ds) : atoi s = min ((ds.foldl (fun m d => m * 10 + d) 0 : Nat) : Int) (2 ^ 31 - 1) := by
  obtain ⟨d, ds, rfl⟩ := List.exists_cons_of_ne_nil hne
  have hd := h d (List.mem_cons_self ..)
  have hchar := toNat_digitChar hd
  have hspace : s.bytes.dropWhile isspace = digitChars (d :: ds) := by
    rw [hs, digitChars, List.map_cons, List.dropWhile_cons, isspace_digitChar hd]
    rfl
  have hsign : ∀ c : UInt8, c.toNat < 0x30 → ∀ rest, digitChars (d :: ds) ≠ c :: rest := by
    intro c hc rest heq
    have : (UInt8.ofNat (0x30 + d)).toNat = c.toNat := congrArg UInt8.toNat (List.cons.inj heq).1
    omega
  unfold atoi
  rw [hspace]
  split
  · rename_i heq
    exact absurd heq (hsign _ (by decide) _)
  · rename_i heq
    exact absurd heq (hsign _ (by decide) _)
  · rw [digitsValue, takeWhile_digitChars h, foldl_digitChars h]

theorem atoi_decimal {n : Nat} (h : n < 2 ^ 31) : atoi (CString.ofBlock (decimal n ++ [0])) = n := by
  obtain ⟨ds, hds, hne, hlt, hvalue⟩ := decimal_eq n
  have hnul : 0 ∉ decimal n := by
    intro hmem
    rw [hds] at hmem
    obtain ⟨d, hd, hz⟩ := List.mem_map.mp hmem
    have := congrArg UInt8.toNat hz
    rw [toNat_digitChar (hlt d hd), show (0 : UInt8).toNat = 0 from rfl] at this
    omega
  have hblock : CString.ofBlock (decimal n ++ [0]) = ⟨decimal n, hnul⟩ := ofBlock_append ⟨decimal n, hnul⟩ []
  rw [hblock, atoi_digitChars hne hlt hds, hvalue]
  omega

def Fits (full : String → Bool) (env : Env) (key : String) (value : CString) : Prop :=
  env key = some value ∨ full key = false

instance (full : String → Bool) (env : Env) (key : String) (value : CString) : Decidable (Fits full env key value) :=
  inferInstanceAs (Decidable (_ ∨ _))

theorem efSetEnv_key (full : String → Bool) (env : Env) (key : String) (value : CString) :
    (efSetEnv full env key value).2 key = if Fits full env key value then some value else none := by
  unfold efSetEnv
  by_cases hsame : env key = some value
  · have hfits : Fits full env key value := .inl hsame
    rw [if_pos hsame, if_pos hfits]
    exact hsame
  · rw [if_neg hsame]
    cases hfull : full key with
    | true =>
      have hfits : ¬ Fits full env key value := not_or.mpr ⟨hsame, by rw [hfull]; decide⟩
      rw [if_pos rfl, if_neg hfits]
      exact Function.update_self ..
    | false =>
      have hfits : Fits full env key value := .inr hfull
      rw [if_neg Bool.false_ne_true, if_pos hfits]
      exact Function.update_self ..

theorem efSetEnv_of_ne (full : String → Bool) (env : Env) {key key' : String} (value : CString) (h : key' ≠ key) :
    (efSetEnv full env key value).2 key' = env key' := by
  unfold efSetEnv
  split
  · rfl
  · split <;> exact Function.update_of_ne h _ _

/-- When `write_cfg` returns the length, the length and the block can be read back. -/
def Saves (malloc : Option (Nat → UInt8)) (full : String → Bool) (env : Env) (buff : List UInt8) : Prop :=
  ∀ ret env', writeCfg malloc full env buff = .ok (ret, env') → ret = buff.length →
    getLen env' = buff.length ∧ ∀ before dst, dst.length = buff.length →
      readCfg before env' dst buff.length = .ok ((buff.length : Int), buff)

variable {malloc : Option (Nat → UInt8)} {full : String → Bool} {env : Env} {buff : List UInt8}

theorem writeCfg_some (fill : Nat → UInt8) (full : String → Bool) (env : Env) (buff : List UInt8) :
    ∃ env', writeCfg (some fill) full env buff = .ok ((buff.length : Int), env') ∧
      env' "wlan_cfg_len" = (if Fits full env "wlan_cfg_len" (CString.ofBlock (decimal buff.length ++ [0])) then
        some (CString.ofBlock (decimal buff.length ++ [0])) else none) ∧
      env' "wlan_cfg_info" = if Fits full env "wlan_cfg_info" (text buff) then some (text buff) else none := by
  have hblock : (text buff).strlen < (List.replicate buff.length 0 ++
      ((List.range (buff.length * 4 / 3 + 4)).map fill).drop buff.length).length := by
    have := strlen_text_lt buff
    simp only [List.length_append, List.length_replicate, List.length_drop, List.length_map, List.length_range]
    omega
  obtain ⟨out, hencode, htext⟩ := strBase64EncodeLen_ok buff hblock
  have hwrite : writeCfg (some fill) full env buff = strBase64EncodeLen buff _ >>= fun out => .ok
      ((buff.length : Int), (efSetEnv full (efSetEnv full env "wlan_cfg_len" (CString.ofBlock
        (decimal buff.length ++ [0]))).2 "wlan_cfg_info" (CString.ofBlock out)).2) := rfl
  rw [hencode, ok_bind, htext] at hwrite
  refine ⟨_, hwrite, ?_, ?_⟩
  · rw [efSetEnv_of_ne _ _ _ (by decide), efSetEnv_key]
  · rw [efSetEnv_key]
    refine if_congr ?_ rfl rfl
    rw [Fits, efSetEnv_of_ne full env _ (show "wlan_cfg_info" ≠ "wlan_cfg_len" by decide), Fits]

theorem readCfg_text {env' : Env} (henv : env' "wlan_cfg_info" = some (text buff)) (hne : buff ≠ [])
    {before : Nat → Option UInt8} {dst : List UInt8} (hdst : dst.length = buff.length) :
    readCfg before env' dst buff.length = .ok ((buff.length : Int), buff) := by
  rw [readCfg_some henv, strBase64Decode_text before hne (Nat.le_of_eq hdst.symm), ok_bind, ← hdst, List.drop_length,
    List.append_nil]

/-- **A reported save is a real save** if and only if there is no memory for the
text, so that none is reported, or each of the two entries has its value already
or there is room for it. -/
theorem saves_iff (malloc : Option (Nat → UInt8)) (full : String → Bool) (env : Env) (buff : List UInt8)
    (hpos : 0 < buff.length) (hint : buff.length < 2 ^ 31) :
    Saves malloc full env buff ↔ malloc = none ∨
      (Fits full env "wlan_cfg_len" (CString.ofBlock (decimal buff.length ++ [0])) ∧
        Fits full env "wlan_cfg_info" (text buff)) := by
  have hne := List.ne_nil_of_length_pos hpos
  cases malloc with
  | none =>
    refine ⟨fun _ => .inl rfl, fun _ ret env' hwrite hret => ?_⟩
    obtain ⟨rfl, -⟩ := Prod.mk.inj (Except.ok.inj hwrite)
    change (-5 : Int) = _ at hret
    omega
  | some fill =>
    obtain ⟨env', hwrite, hlen, hinfo⟩ := writeCfg_some fill full env buff
    constructor
    · intro h
      obtain ⟨hget, hread⟩ := h _ _ hwrite rfl
      refine .inr ⟨?_, ?_⟩
      · by_contra hfits
        rw [if_neg hfits] at hlen
        rw [getLen, hlen] at hget
        change (0 : Int) = _ at hget
        omega
      · by_contra hfits
        rw [if_neg hfits] at hinfo
        have hsaved := hread (fun _ => none) buff rfl
        rw [readCfg_none hinfo, Except.ok.injEq, Prod.mk.injEq] at hsaved
        omega
    · rintro (hnone | ⟨hfits₁, hfits₂⟩) ret env'' hwrite' -
      · cases hnone
      · rw [hwrite, Except.ok.injEq, Prod.mk.injEq] at hwrite'
        obtain ⟨-, rfl⟩ := hwrite'
        rw [if_pos hfits₁] at hlen
        rw [if_pos hfits₂] at hinfo
        exact ⟨by rw [getLen, hlen]; exact atoi_decimal hint, fun before dst hdst => readCfg_text hinfo hne hdst⟩

theorem saves_iff_empty : Saves (some fun _ => 0) (fun _ => false) (fun _ => none) [0x52, 0x6F, 0x63] :=
  (saves_iff _ _ _ _ (by decide) (by decide)).mpr (.inr ⟨.inr rfl, .inr rfl⟩)

theorem write_cfg_lost : ¬ ∀ (malloc : Option (Nat → UInt8)) (full : String → Bool) (env : Env) (buff : List UInt8),
    0 < buff.length → buff.length < 2 ^ 31 → Saves malloc full env buff := by
  intro h
  obtain ⟨env', hwrite, -, hinfo⟩ :=
    writeCfg_some (fun _ => 0) (fun key => key = "wlan_cfg_info") (fun _ => none) [0x52]
  rw [if_neg (by decide)] at hinfo
  have hsaved := (h _ _ _ [0x52] (by decide) (by decide) _ _ hwrite rfl).2 (fun _ => none) [0] rfl
  rw [readCfg_none hinfo, Except.ok.injEq, Prod.mk.injEq] at hsaved
  exact absurd hsaved.1 (by decide)

end RocCar.Wifi

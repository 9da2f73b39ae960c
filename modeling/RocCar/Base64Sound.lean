import RocCar.Lib.Base64
import RocCar.Wifi

/-!
# The base 64 encoder and decoder

The encoder stores the base 64 text of its input and a terminator. The decoder
stores what base 64 makes of any text: it rejects a text by its length only.
-/

namespace RocCar.Wifi

open Bytes Fallible

/-! ## The tables -/

/-- The tables as an alphabet; what is not in `base64_table` is read as zero. -/
def alphabet : Base64.Alphabet UInt8 where
  sym k := base64Table.getD k 0
  val c := if c = equalSign then 0 else (base64DecodeTable.getD c.toNat 0).toNat
  pad := equalSign
  val_sym := by decide +kernel
  val_pad := if_pos rfl
  sym_ne_pad := by decide +kernel

theorem base64DecodeTable_lt : ∀ k < 256, (base64DecodeTable.getD k 0).toNat < 64 := by decide +kernel

theorem base64Table_ne_zero : ∀ k < 64, base64Table.getD k 0 ≠ 0 := by decide +kernel

theorem alphabet_val_lt (c : UInt8) : alphabet.val c < 64 := by
  simp only [alphabet]
  split
  · decide
  · exact base64DecodeTable_lt _ c.toNat_lt

/-! ## Encoding -/

theorem toNat_high (a : UInt8) : (a >>> 2).toNat = a.toNat / 4 := by
  rw [UInt8.toNat_shiftRight]
  exact Nat.shiftRight_eq_div_pow _ _

theorem toNat_low (a : UInt8) : (a &&& 0x3F).toNat = a.toNat % 64 := by
  rw [UInt8.toNat_and]
  exact Nat.and_two_pow_sub_one_eq_mod _ 6

theorem toNat_mid₁ (a : UInt8) : ((a &&& 0x03) <<< 4).toNat = a.toNat % 4 * 16 := by
  rw [UInt8.toNat_shiftLeft, UInt8.toNat_and, show (4 : UInt8).toNat % 8 = 4 from rfl,
    show a.toNat &&& (0x03 : UInt8).toNat = a.toNat % 4 from Nat.and_two_pow_sub_one_eq_mod _ 2, Nat.shiftLeft_eq]
  omega

theorem toNat_mid₂ (a : UInt8) : ((a &&& 0x0F) <<< 2).toNat = a.toNat % 16 * 4 := by
  rw [UInt8.toNat_shiftLeft, UInt8.toNat_and, show (2 : UInt8).toNat % 8 = 2 from rfl,
    show a.toNat &&& (0x0F : UInt8).toNat = a.toNat % 16 from Nat.and_two_pow_sub_one_eq_mod _ 4, Nat.shiftLeft_eq]
  omega

theorem toNat_or₁ (a b : UInt8) : ((a &&& 0x03) <<< 4 ||| b >>> 4).toNat = a.toNat % 4 * 16 + b.toNat / 16 := by
  have hb := b.toNat_lt
  have hlow : (b >>> 4).toNat = b.toNat / 16 := by
    rw [UInt8.toNat_shiftRight]
    exact Nat.shiftRight_eq_div_pow _ _
  rw [UInt8.toNat_or, toNat_mid₁, hlow, show a.toNat % 4 * 16 = (a.toNat % 4) <<< 4 by rw [Nat.shiftLeft_eq],
    Nat.shiftLeft_add_eq_or_of_lt (by omega)]

theorem toNat_or₂ (a b : UInt8) : ((a &&& 0x0F) <<< 2 ||| b >>> 6).toNat = a.toNat % 16 * 4 + b.toNat / 64 := by
  have hb := b.toNat_lt
  have hlow : (b >>> 6).toNat = b.toNat / 64 := by
    rw [UInt8.toNat_shiftRight]
    exact Nat.shiftRight_eq_div_pow _ _
  rw [UInt8.toNat_or, toNat_mid₂, hlow, show a.toNat % 16 * 4 = (a.toNat % 16) <<< 2 by rw [Nat.shiftLeft_eq],
    Nat.shiftLeft_add_eq_or_of_lt (by omega)]

theorem encodeFrom_eq : ∀ (src : List UInt8) (pos : Nat) (out : List UInt8),
    encodeFrom src pos out = putAll .write out pos (Base64.encode alphabet src ++ [0])
  | in₀ :: in₁ :: in₂ :: src, pos, out => by
    simp only [encodeFrom, toNat_high, toNat_low, toNat_or₁, toNat_or₂, encodeFrom_eq src]
    rfl
  | [in₀, in₁], pos, out => by
    simp only [encodeFrom, toNat_high, toNat_or₁, toNat_mid₂]
    simp only [Base64.encode, List.cons_append, List.nil_append, putAll_cons, putAll_nil, bind_ok]
    rfl
  | [in₀], pos, out => by
    simp only [encodeFrom, toNat_high, toNat_mid₁]
    simp only [Base64.encode, List.cons_append, List.nil_append, putAll_cons, putAll_nil, bind_ok]
    rfl
  | [], pos, out => by
    rw [encodeFrom, Base64.encode, List.nil_append, putAll_cons]
    exact (bind_ok _).symm

/-! ## Decoding -/

variable {before : Nat → Option UInt8} {data : CString}

theorem loadChar_ok {i : Nat} {c : UInt8} (h : data.bytes[i]? = some c) : loadChar before data i = .ok c := by
  obtain ⟨hi, rfl⟩ := List.getElem?_eq_some_iff.mp h
  exact dif_pos hi

theorem sextet_ok {i : Nat} {c : UInt8} (h : data.bytes[i]? = some c) :
    sextet before data i = .ok (UInt32.ofNat (alphabet.val c)) := by
  rw [sextet, loadChar_ok h, ok_bind]
  refine congrArg Except.ok ?_
  simp only [alphabet]
  split
  · rfl
  · rw [← UInt32.toNat_inj, UInt8.toNat_toUInt32, UInt32.toNat_ofNat', Nat.mod_eq_of_lt]
    exact (UInt8.toNat_lt _).trans (by decide)

theorem toNat_triple (c₀ c₁ c₂ c₃ : UInt8) :
    ((UInt32.ofNat (alphabet.val c₀) <<< 18) + (UInt32.ofNat (alphabet.val c₁) <<< 12) +
      (UInt32.ofNat (alphabet.val c₂) <<< 6) + UInt32.ofNat (alphabet.val c₃)).toNat =
      Base64.triple alphabet c₀ c₁ c₂ c₃ := by
  have h₀ := alphabet_val_lt c₀
  have h₁ := alphabet_val_lt c₁
  have h₂ := alphabet_val_lt c₂
  have h₃ := alphabet_val_lt c₃
  simp only [UInt32.toNat_add, UInt32.toNat_shiftLeft, UInt32.toNat_ofNat', Nat.shiftLeft_eq, Base64.triple,
    show (18 : UInt32).toNat % 32 = 18 from rfl, show (12 : UInt32).toNat % 32 = 12 from rfl,
    show (6 : UInt32).toNat % 32 = 6 from rfl]
  omega

theorem toUInt8_shiftRight (w : UInt32) {k : UInt32} {i : Nat} (hk : k.toNat % 32 = i) :
    (w >>> k &&& 0xFF).toUInt8 = UInt8.ofNat (w.toNat / 2 ^ i) := by
  rw [← UInt8.toNat_inj, UInt32.toNat_toUInt8, UInt32.toNat_and, UInt32.toNat_shiftRight, hk,
    Nat.shiftRight_eq_div_pow, show (0xFF : UInt32).toNat = 2 ^ 8 - 1 from rfl, Nat.and_two_pow_sub_one_eq_mod,
    UInt8.toNat_ofNat']
  exact Nat.mod_mod _ _

theorem group_eq {w : UInt32} {c₀ c₁ c₂ c₃ : UInt8} (hw : w.toNat = Base64.triple alphabet c₀ c₁ c₂ c₃) :
    [(w >>> 16 &&& 0xFF).toUInt8, (w >>> 8 &&& 0xFF).toUInt8, (w &&& 0xFF).toUInt8] =
      Base64.group alphabet c₀ c₁ c₂ c₃ := by
  have hlow : (w &&& 0xFF).toUInt8 = UInt8.ofNat w.toNat := by
    have := toUInt8_shiftRight w (show (0 : UInt32).toNat % 32 = 0 from rfl)
    rwa [UInt32.shiftRight_zero, Nat.pow_zero, Nat.div_one] at this
  rw [toUInt8_shiftRight w (show (16 : UInt32).toNat % 32 = 16 from rfl),
    toUInt8_shiftRight w (show (8 : UInt32).toNat % 32 = 8 from rfl), hlow, hw, Base64.group]

theorem storeUpTo_eq (outLen : Nat) : ∀ (bs : List UInt8) (j : Nat) (dst : List UInt8),
    storeUpTo outLen bs j dst = putAll .write dst j (bs.take (outLen - j)) >>= fun dst =>
      .ok (j + min bs.length (outLen - j), dst)
  | [], j, dst => by simp [storeUpTo, putAll_nil]
  | b :: bs, j, dst => by
    rw [storeUpTo]
    by_cases hj : j < outLen
    · rw [if_pos (by omega), show outLen - j = outLen - (j + 1) + 1 by omega, List.take_succ_cons, putAll_cons]
      cases put Fault.write dst j b with
      | error e => rfl
      | ok dst =>
        rw [ok_bind, ok_bind, storeUpTo_eq outLen bs (j + 1) dst, List.length_cons]
        cases putAll Fault.write dst (j + 1) (bs.take (outLen - (j + 1))) with
        | error e => rfl
        | ok dst =>
          rw [ok_bind, ok_bind]
          congr 2
          omega
    · rw [if_neg (by omega), storeUpTo_eq outLen bs j dst, show outLen - j = 0 by omega]
      simp

theorem decodeLoop_eq (outLen : Nat) : ∀ {n i j : Nat} {s : List UInt8} (dst : List UInt8),
    data.bytes.drop i = s → s.length = 4 * n → decodeLoop before data outLen n i j dst =
      putAll .write dst j ((Base64.groups alphabet s).take (outLen - j))
  | 0, i, j, s, dst, _, hn => by
    obtain rfl := List.length_eq_zero_iff.mp hn
    simp [decodeLoop, Base64.groups, putAll_nil]
  | n + 1, i, j, s, dst, hs, hn => by
    obtain ⟨c₀, c₁, c₂, c₃, rest, rfl⟩ := Base64.exists_group (s := s) (by omega)
    have hget : ∀ k, data.bytes[i + k]? = (c₀ :: c₁ :: c₂ :: c₃ :: rest)[k]? := fun k => by
      rw [← hs, List.getElem?_drop]
    have hrest : data.bytes.drop (i + 4) = rest := by
      rw [← List.drop_drop, hs]
      rfl
    have hlen : rest.length = 4 * n := by
      simp only [List.length_cons] at hn
      omega
    have hfirst : sextet before data i = _ := sextet_ok (hget 0)
    rw [decodeLoop, hfirst, sextet_ok (hget 1), sextet_ok (hget 2), sextet_ok (hget 3)]
    simp only [ok_bind]
    rw [group_eq (toNat_triple c₀ c₁ c₂ c₃), storeUpTo_eq, Base64.groups, List.take_append, putAll_append]
    have hgroup : (Base64.group alphabet c₀ c₁ c₂ c₃).length = 3 := rfl
    cases putAll Fault.write dst j ((Base64.group alphabet c₀ c₁ c₂ c₃).take (outLen - j)) with
    | error e => rfl
    | ok dst =>
      simp only [ok_bind, decodeLoop_eq outLen dst hrest hlen, List.length_take, hgroup]
      rw [Nat.min_comm, show outLen - (j + min (outLen - j) 3) = outLen - j - 3 by omega]

theorem strBase64Decode_of_not_dvd (h : ¬ 4 ∣ data.strlen) (dst : List UInt8) :
    strBase64Decode before data dst = .ok (0, dst) :=
  if_pos fun hz => h (Nat.dvd_of_mod_eq_zero hz)

theorem strBase64Decode_of_dvd (h : 4 ∣ data.strlen) (hne : data.bytes ≠ []) (dst : List UInt8) :
    strBase64Decode before data dst = putAll .write dst 0 (Base64.decode alphabet data.bytes) >>= fun dst =>
      .ok (((Base64.decode alphabet data.bytes).length : Int), dst) := by
  have hpos := List.length_pos_iff.mpr hne
  have hfour : 4 ≤ data.strlen := Nat.le_of_dvd hpos h
  have hlast : ∀ k, 0 < k → k ≤ data.strlen → ∃ c, data.bytes[data.strlen - k]? = some c ∧
      loadChar before data ((data.strlen : Int) - k) = .ok c := by
    intro k hk hle
    have hlt : data.strlen - k < data.bytes.length := Nat.sub_lt hpos hk
    refine ⟨data.bytes[data.strlen - k], List.getElem?_eq_getElem hlt, ?_⟩
    rw [show (data.strlen : Int) - k = ((data.strlen - k : Nat) : Int) by omega]
    exact loadChar_ok (List.getElem?_eq_getElem hlt)
  obtain ⟨c₁, hget₁, hlast₁⟩ := hlast 1 (by decide) (by omega)
  obtain ⟨c₂, hget₂, hlast₂⟩ := hlast 2 (by decide) (by omega)
  have hload₁ : loadChar before data ((data.strlen : Int) - 1) = .ok c₁ := hlast₁
  have hload₂ : loadChar before data ((data.strlen : Int) - 2) = .ok c₂ := hlast₂
  have hcast : ((data.strlen : Int) / 4 * 3) = ((data.strlen / 4 * 3 : Nat) : Int) := by omega
  have hout : (if c₂ = equalSign then (if c₁ = equalSign then (data.strlen : Int) / 4 * 3 - 1
      else (data.strlen : Int) / 4 * 3) - 1
      else if c₁ = equalSign then (data.strlen : Int) / 4 * 3 - 1 else (data.strlen : Int) / 4 * 3) =
      ((Base64.decode alphabet data.bytes).length : Int) := by
    rw [Base64.length_decode, Base64.padding]
    change _ = ((data.strlen / 4 * 3 - ((if data.bytes[data.strlen - 1]? = some equalSign then 1 else 0) +
      if data.bytes[data.strlen - 2]? = some equalSign then 1 else 0) : Nat) : Int)
    rw [hget₁, hget₂, hcast]
    simp only [Option.some.injEq]
    split <;> split <;> omega
  have hloop : decodeLoop before data ((Base64.decode alphabet data.bytes).length : Int) (data.strlen / 4) 0 0 dst =
      putAll .write dst 0 (Base64.decode alphabet data.bytes) := by
    rw [decodeLoop_eq _ dst (s := data.bytes) rfl (Nat.mul_div_cancel' h).symm, Nat.sub_zero, Base64.length_decode]
    rfl
  rw [strBase64Decode]
  simp only [ne_eq, Nat.mod_eq_zero_of_dvd h, not_true_eq_false, if_false, hload₁, hload₂, ok_bind]
  rw [hout, hloop]
  rfl

theorem strBase64Decode_ok (before : Nat → Option UInt8) (h : 4 ∣ data.strlen) (hne : data.bytes ≠ [])
    {dst : List UInt8}
    (hle : (Base64.decode alphabet data.bytes).length ≤ dst.length) : strBase64Decode before data dst =
      .ok (((Base64.decode alphabet data.bytes).length : Int),
        Base64.decode alphabet data.bytes ++ dst.drop (Base64.decode alphabet data.bytes).length) := by
  rw [strBase64Decode_of_dvd h hne, putAll_start _ hle]
  rfl

theorem strBase64Decode_error (before : Nat → Option UInt8) (h : 4 ∣ data.strlen) (hne : data.bytes ≠ [])
    {dst : List UInt8}
    (hlt : dst.length < (Base64.decode alphabet data.bytes).length) :
    ∃ i, strBase64Decode before data dst = .error (.write i) := by
  obtain ⟨i, hput⟩ := putAll_start_error Fault.write hlt
  exact ⟨i, by rw [strBase64Decode_of_dvd h hne, hput]; rfl⟩

theorem strBase64Decode_stored (h : 4 ∣ data.strlen) (hne : data.bytes ≠ []) {dst dst' : List UInt8} {outLen : Int}
    (hrun : strBase64Decode before data dst = .ok (outLen, dst')) :
    outLen = ((Base64.decode alphabet data.bytes).length : Int) ∧
      dst'.take (Base64.decode alphabet data.bytes).length = Base64.decode alphabet data.bytes := by
  by_cases hle : (Base64.decode alphabet data.bytes).length ≤ dst.length
  · rw [strBase64Decode_ok before h hne hle, Except.ok.injEq, Prod.mk.injEq] at hrun
    obtain ⟨rfl, rfl⟩ := hrun
    exact ⟨rfl, List.take_left⟩
  · obtain ⟨i, hfault⟩ := strBase64Decode_error before h hne (Nat.lt_of_not_le hle)
    rw [hfault] at hrun
    cases hrun

theorem decode_length_pos (h : 4 ∣ data.strlen) (hne : data.bytes ≠ []) :
    0 < (Base64.decode alphabet data.bytes).length := by
  have hfour : 4 ≤ data.strlen := Nat.le_of_dvd (List.length_pos_iff.mpr hne) h
  have hpad : Base64.padding alphabet data.bytes ≤ 2 := by
    rw [Base64.padding]
    split <;> split <;> decide
  rw [Base64.length_decode]
  change 0 < data.strlen / 4 * 3 - _
  omega

/-! ## The round trip -/

def text (x : List UInt8) : CString where
  bytes := Base64.encode alphabet x
  nul_free h := by
    rcases (Base64.canonical_encode alphabet x).mem alphabet h with h | ⟨k, hk, h⟩
    · cases h
    · exact base64Table_ne_zero k hk h.symm

theorem ofBlock_append (s : CString) (rest : List UInt8) : CString.ofBlock (s.bytes ++ 0 :: rest) = s := by
  have htake : (s.bytes ++ 0 :: rest).takeWhile (· ≠ 0) = s.bytes := by
    have hall : ∀ c ∈ s.bytes, decide (c ≠ 0) = true := fun c hc =>
      decide_eq_true (ne_of_mem_of_not_mem hc s.nul_free)
    rw [List.takeWhile_append_of_pos hall]
    simp
  cases s
  exact CString.mk.injEq .. ▸ htake

theorem strBase64EncodeLen_ok (x : List UInt8) {out : List UInt8} (h : (text x).strlen < out.length) :
    ∃ out', strBase64EncodeLen x out = .ok out' ∧ CString.ofBlock out' = text x := by
  have hfit : (Base64.encode alphabet x ++ [0]).length ≤ out.length := by
    rw [List.length_append]
    exact h
  refine ⟨_, (encodeFrom_eq x 0 out).trans (putAll_start _ hfit), ?_⟩
  rw [List.append_assoc]
  exact ofBlock_append (text x) _

theorem strlen_text_lt (x : List UInt8) : (text x).strlen < x.length * 4 / 3 + 4 := by
  have := Base64.length_encode alphabet x
  change (Base64.encode alphabet x).length < _
  omega

theorem strBase64Decode_text (before : Nat → Option UInt8) {x : List UInt8} (hx : x ≠ []) {dst : List UInt8}
    (hle : x.length ≤ dst.length) :
    strBase64Decode before (text x) dst = .ok ((x.length : Int), x ++ dst.drop x.length) := by
  have hlen : (text x).strlen = (x.length + 2) / 3 * 4 := Base64.length_encode alphabet x
  have hpos := List.length_pos_iff.mpr hx
  have hne : (text x).bytes ≠ [] := fun h => by
    have hz := congrArg List.length h
    change (text x).strlen = 0 at hz
    omega
  have hdecode : Base64.decode alphabet (text x).bytes = x := Base64.decode_encode alphabet x
  rw [strBase64Decode_ok before (hlen ▸ Nat.dvd_mul_left ..) hne (hdecode.symm ▸ hle), hdecode]

/-- **The base 64 round trip.** The text of a block fits into what `write_cfg`
allocates for it, and decoding it stores the block again, and nothing else. -/
theorem base64_round_trip (x out : List UInt8) (hx : x ≠ []) (hout : out.length = x.length * 4 / 3 + 4) :
    ∃ out', strBase64EncodeLen x out = .ok out' ∧ ∀ before dst, x.length ≤ dst.length →
      strBase64Decode before (CString.ofBlock out') dst = .ok ((x.length : Int), x ++ dst.drop x.length) := by
  obtain ⟨out', hencode, htext⟩ := strBase64EncodeLen_ok x (hout ▸ strlen_text_lt x)
  exact ⟨out', hencode, fun before dst hle => htext ▸ strBase64Decode_text before hx hle⟩

theorem base64_round_trip_one : ∃ out', strBase64EncodeLen [0x4D] [0, 0, 0, 0, 0] = .ok out' ∧
    ∀ before dst, 1 ≤ dst.length →
      strBase64Decode before (CString.ofBlock out') dst = .ok (1, [0x4D] ++ dst.drop 1) :=
  base64_round_trip [0x4D] [0, 0, 0, 0, 0] (by decide) (by decide)

/-! ## What the decoder accepts -/

def Encodes (x : List UInt8) (data : CString) : Prop :=
  ∃ out out', strBase64EncodeLen x out = .ok out' ∧ CString.ofBlock out' = data

/-- The decoder returns 0, its error, or the string is the encoding of the bytes
it has stored. Of the empty string it stores none and returns 0, -1 or -2, as the
bytes in front of the string are. -/
def AcceptsEncodings (data : CString) : Prop :=
  ∀ before dst outLen dst', strBase64Decode before data dst = .ok (outLen, dst') →
    outLen = 0 ∨ Encodes (dst'.take outLen.toNat) data

theorem encodes_iff {x : List UInt8} : Encodes x data ↔ Base64.encode alphabet x = data.bytes := by
  constructor
  · rintro ⟨out, out', hencode, rfl⟩
    have hput := (encodeFrom_eq x 0 out).symm.trans hencode
    by_cases hle : (Base64.encode alphabet x ++ [0]).length ≤ out.length
    · rw [putAll_start _ hle, Except.ok.injEq] at hput
      rw [← hput, List.append_assoc]
      exact congrArg CString.bytes (ofBlock_append (text x) _).symm
    · obtain ⟨i, hfault⟩ := putAll_start_error Fault.write (Nat.lt_of_not_le hle)
      rw [hfault] at hput
      cases hput
  · intro h
    have hroom : (text x).strlen < (List.replicate ((text x).strlen + 1) (0 : UInt8)).length := by
      rw [List.length_replicate]
      exact Nat.lt_succ_self _
    obtain ⟨out', hencode, htext⟩ := strBase64EncodeLen_ok x hroom
    refine ⟨_, out', hencode, htext.trans ?_⟩
    cases data
    exact CString.mk.injEq .. ▸ h

theorem acceptsEncodings_nil (h : data.bytes = []) : AcceptsEncodings data := by
  intro before dst outLen dst' hrun
  refine .inr (encodes_iff.mpr ?_)
  have hlen : data.strlen = 0 := by rw [CString.strlen, h]; rfl
  have hneg : outLen ≤ 0 := by
    rw [strBase64Decode, hlen] at hrun
    simp only [Nat.zero_mod, ne_eq, not_true_eq_false, if_false, bind_eq_ok, pure_eq_ok, Except.ok.injEq,
      Prod.mk.injEq] at hrun
    obtain ⟨c₁, -, c₂, -, d, -, hout, -⟩ := hrun
    rw [← hout]
    split <;> split <;> decide
  rw [Int.toNat_of_nonpos hneg, List.take_zero, h]
  rfl

theorem encode_decode_of_accepts (hdvd : 4 ∣ data.strlen) (hne : data.bytes ≠ []) (h : AcceptsEncodings data) :
    Base64.encode alphabet (Base64.decode alphabet data.bytes) = data.bytes := by
  obtain ⟨dst, hdst⟩ : ∃ dst : List UInt8, dst.length = (Base64.decode alphabet data.bytes).length :=
    ⟨_, List.length_replicate (a := 0)⟩
  have hrun := strBase64Decode_ok (fun _ => none) hdvd hne (Nat.le_of_eq hdst.symm)
  have hpos := decode_length_pos hdvd hne
  have hencodes := (h _ _ _ _ hrun).resolve_left (by omega)
  rw [Int.toNat_natCast, List.take_left] at hencodes
  exact encodes_iff.mp hencodes

/-- **What the decoder accepts** is an encoding if and only if the length of the
text is not a multiple of four, and then it is rejected, or the text is
canonical. -/
theorem acceptsEncodings_iff (data : CString) :
    AcceptsEncodings data ↔ ¬ 4 ∣ data.strlen ∨ Base64.Canonical alphabet data.bytes := by
  by_cases hdvd : 4 ∣ data.strlen
  · by_cases hne : data.bytes = []
    · exact ⟨fun _ => .inr (hne ▸ .nil), fun _ => acceptsEncodings_nil hne⟩
    · rw [← Base64.encode_decode_iff, or_iff_right (not_not.mpr hdvd)]
      constructor
      · exact encode_decode_of_accepts hdvd hne
      · intro h before dst outLen dst' hrun
        obtain ⟨rfl, hstored⟩ := strBase64Decode_stored hdvd hne hrun
        rw [Int.toNat_natCast, hstored]
        exact .inr (encodes_iff.mpr h)
  · refine ⟨fun _ => .inl hdvd, fun _ before dst outLen dst' hrun => .inl ?_⟩
    rw [strBase64Decode_of_not_dvd hdvd, Except.ok.injEq, Prod.mk.injEq] at hrun
    exact hrun.1.symm

def junk : CString := ⟨[0x21, 0x21, 0x21, 0x21], by decide⟩

theorem decode_accepts_junk : ¬ ∀ data : CString, AcceptsEncodings data := by
  intro h
  exact absurd (encode_decode_of_accepts (by decide) (by decide) (h junk)) (by decide +kernel)

end RocCar.Wifi

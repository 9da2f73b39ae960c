import RocCar.EnvMap
import RocCar.WifiSound

/-!
# The Wi-Fi configuration in the store

`read_cfg`, `get_len` and `write_cfg` over the real store, which is the map of
entries that `Wifi.writeCfg` is over (`writeCfg_refines`). No result of the store
is looked at. When both entries have been set, the configuration that a start
finds is the old one or the new one, whatever becomes of the save.
-/

namespace RocCar.WifiStore

open EasyFlash Fallible
open Nor (Device)
open Wifi (CString text decimal atoi rtEnomem strBase64EncodeLen strBase64Decode)

inductive Fault where
  | env (fault : EasyFlash.Fault)
  | block (fault : Wifi.Fault)
  deriving DecidableEq, Repr

def wlanCfgLenKey : CString := cstring "wlan_cfg_len"

def wlanCfgInfoKey : CString := cstring "wlan_cfg_info"

def getLen (s : EnvState) : Except Fault Int := do
  match ← (readEnv s wlanCfgLenKey).mapError .env with
  | none => return 0
  | some wlanCfgLen => return atoi wlanCfgLen

/-- The bytes in front of a string in the cache, downwards. -/
def bytesBefore (s : EnvState) (p i : Nat) : Option UInt8 :=
  if i < p then s.envCache.toList[p - 1 - i]? else none

def readCfg (s : EnvState) (buff : List UInt8) (len : Int) : Except Fault (Int × List UInt8) := do
  match ← (efGetEnv s wlanCfgInfoKey).mapError .env with
  | some p => do
    let (_, buff) ← (strBase64Decode (bytesBefore s p) (CString.ofBlock (charsAt s p)) buff).mapError .block
    return (len, buff)
  | none => return (0, buff)

/-- `malloc` is what a new block holds, if there is memory for it. -/
def writeCfg (malloc : Option (Nat → UInt8)) (d : Device efEraseMinSize) (S : Store) (buff : List UInt8) :
    Except Fault (Int × Store) :=
  let len := buff.length
  match malloc with
  | none => return (-rtEnomem, S)
  | some fill => do
    let base64Buf := (List.range (len * 4 / 3 + 4)).map fill
    let base64Buf := List.replicate len 0 ++ base64Buf.drop len
    let (_, ram) ← (efSetEnv S.ram wlanCfgLenKey (some (CString.ofBlock (decimal len ++ [0])))).mapError .env
    let base64Buf ← (strBase64EncodeLen buff base64Buf).mapError .block
    let (_, ram) ← (efSetEnv ram wlanCfgInfoKey (some (CString.ofBlock base64Buf))).mapError .env
    let (_, S) ← (efSaveEnv d { S with ram }).mapError .env
    return (len, S)

/-- What `rt_wlan_cfg_cache_refresh` reads: the length, and that many bytes. -/
def ReadsCfg (s : EnvState) (buff : List UInt8) : Prop :=
  getLen s = .ok (buff.length : Int) ∧ ∀ dst : List UInt8, dst.length = buff.length →
    readCfg s dst buff.length = .ok ((buff.length : Int), buff)

variable {d : Device efEraseMinSize} {S : Store} {slots : TwoSlot.Slots Contents} {i : Bool} {n : ℕ} {v : View}
  {buff : List UInt8}

/-! ## The store as a map -/

/-- What the program finds under its two names. -/
structure Shows (s : EnvState) (env : Wifi.Env) : Prop where
  len : readEnv s wlanCfgLenKey = .ok (env "wlan_cfg_len")
  info : readEnv s wlanCfgInfoKey = .ok (env "wlan_cfg_info")

variable {s : EnvState} {env : Wifi.Env}

theorem Shows.getLen (h : Shows s env) : getLen s = .ok (Wifi.getLen env) := by
  rw [WifiStore.getLen, h.len, mapError_ok, ok_bind, Wifi.getLen]
  cases env "wlan_cfg_len" <;> rfl

theorem Shows.readCfg (h : Shows s env) : ∃ before, ∀ dst len,
    readCfg s dst len = (Wifi.readCfg before env dst len).mapError .block := by
  have hread := h.info
  rw [readEnv] at hread
  obtain ⟨p, hp, hvalue⟩ := bind_eq_ok.mp hread
  have henv := Except.ok.inj hvalue
  cases p with
  | none =>
    refine ⟨fun _ => none, fun dst len => ?_⟩
    rw [WifiStore.readCfg, hp, mapError_ok, ok_bind, Wifi.readCfg, ← henv]
    rfl
  | some p =>
    refine ⟨bytesBefore s p, fun dst len => ?_⟩
    rw [WifiStore.readCfg, hp, mapError_ok, ok_bind, Wifi.readCfg, ← henv]
    dsimp only [Option.map_some]
    cases strBase64Decode (bytesBefore s p) (CString.ofBlock (charsAt s p)) dst <;> rfl

theorem Shows.readsCfg (h : Shows s env)
    (hlen : env "wlan_cfg_len" = some (CString.ofBlock (decimal buff.length ++ [0])))
    (hinfo : env "wlan_cfg_info" = some (text buff)) (hne : buff ≠ []) (hint : buff.length < 2 ^ 31) :
    ReadsCfg s buff := by
  constructor
  · rw [h.getLen, Wifi.getLen, hlen]
    exact congrArg _ (Wifi.atoi_decimal hint)
  · intro dst hdst
    obtain ⟨before, hread⟩ := h.readCfg
    rw [hread, Wifi.readCfg_text hinfo hne hdst, mapError_ok]

theorem Shows.not_readsCfg (h : Shows s env) (hnone : env "wlan_cfg_len" = none ∨ env "wlan_cfg_info" = none)
    (hne : buff ≠ []) : ¬ ReadsCfg s buff := by
  rintro ⟨hget, hread⟩
  have hpos := List.length_pos_iff.mpr hne
  rcases hnone with hnone | hnone
  · rw [h.getLen, Wifi.getLen, hnone, Except.ok.injEq] at hget
    dsimp only at hget
    omega
  · obtain ⟨before, hcfg⟩ := h.readCfg
    have hread := hread buff rfl
    rw [hcfg, Wifi.readCfg_none hnone, mapError_ok, Except.ok.injEq, Prod.mk.injEq] at hread
    omega

/-! ## A write -/

theorem encode_block (fill : Nat → UInt8) (buff : List UInt8) :
    ∃ out, strBase64EncodeLen buff (List.replicate buff.length 0 ++
      ((List.range (buff.length * 4 / 3 + 4)).map fill).drop buff.length) = .ok out ∧
        CString.ofBlock out = text buff := by
  apply Wifi.strBase64EncodeLen_ok
  have hlt := Wifi.strlen_text_lt buff
  simp only [List.length_append, List.length_replicate, List.length_drop, List.length_map, List.length_range]
  omega

theorem writeCfg_eq {code₁ code₂ code₃ : EfErrCode} {ram₁ ram₂ : EnvState} {S' : Store} (fill : Nat → UInt8)
    (h₁ : efSetEnv S.ram wlanCfgLenKey (some (CString.ofBlock (decimal buff.length ++ [0]))) = .ok (code₁, ram₁))
    (h₂ : efSetEnv ram₁ wlanCfgInfoKey (some (text buff)) = .ok (code₂, ram₂))
    (h₃ : efSaveEnv d { S with ram := ram₂ } = .ok (code₃, S')) :
    writeCfg (some fill) d S buff = .ok ((buff.length : Int), S') := by
  obtain ⟨out, hencode, htext⟩ := encode_block fill buff
  unfold writeCfg
  dsimp only
  rw [h₁, mapError_ok, ok_bind, hencode, mapError_ok, ok_bind, htext]
  dsimp only
  rw [h₂, mapError_ok, ok_bind, h₃, mapError_ok, ok_bind]
  rfl

theorem wlanCfgKeys : Entries.Plain wlanCfgLenKey ∧ wlanCfgLenKey ≠ wlanCfgInfoKey := by decide

theorem wlanCfgInfoKey_plain : Entries.Plain wlanCfgInfoKey := by decide

/-- Whether there is room behind the entries, as the map asks it. -/
theorem fits_of_room {es : List Entry} {full : String → Bool} {name : String} {value : CString}
    (henv : env name = Entries.get es (cstring name))
    (hfull : full name = !decide (Entries.Room (Entries.del es (cstring name)) (cstring name) value)) :
    Wifi.Fits full env name value ↔ Entries.get es (cstring name) = some value ∨
      Entries.Room (Entries.del es (cstring name)) (cstring name) value := by
  rw [Wifi.Fits, henv, hfull, Bool.not_eq_false', decide_eq_true_eq]

def roc : List UInt8 := [0x52, 0x6F, 0x63]

theorem setStore_shows : Shows setStore.ram fun _ => none := ⟨by decide, by decide⟩

theorem readsCfg_of_get {es : List Entry} (h : EasyFlash.Holds s es) (hi : s.initOk = true)
    (hlen : Entries.get es wlanCfgLenKey = some (CString.ofBlock (decimal buff.length ++ [0])))
    (hinfo : Entries.get es wlanCfgInfoKey = some (text buff)) (hne : buff ≠ []) (hint : buff.length < 2 ^ 31) :
    ReadsCfg s buff := by
  have hshows : Shows s fun name => Entries.get es (cstring name) :=
    ⟨readEnv_eq h hi wlanCfgLenKey, readEnv_eq h hi wlanCfgInfoKey⟩
  exact hshows.readsCfg hlen hinfo hne hint

theorem start_readsCfg (d' : Device efEraseMinSize) {m : Nor.Mem} {es : List Entry} (hm : Represents m slots)
    (hc : TwoSlot.Current slots i n ⟨efEnvVerNum, es⟩) (hn : n < 0xFFFFFFFF)
    (hlen : Entries.get es wlanCfgLenKey = some (CString.ofBlock (decimal buff.length ++ [0])))
    (hinfo : Entries.get es wlanCfgInfoKey = some (text buff)) (hne : buff ≠ []) (hint : buff.length < 2 ^ 31) :
    ∃ S', easyflashInit d' m = .ok (.efNoErr, S') ∧ ReadsCfg S'.ram buff := by
  obtain ⟨S', h', -, hs'⟩ := easyflashInit_current d' hm hc hn
  exact ⟨S', h', readsCfg_of_get hs'.ready.holds hs'.init hlen hinfo hne hint⟩

theorem set_ok {es : List Entry} {key value : CString} (h : (Entries.set es key value).1 = .efNoErr) :
    Entries.get (Entries.set es key value).2 key = some value := by
  obtain ⟨-, hg⟩ | ⟨hc, -⟩ | hc := Entries.set_cases es key value
  · exact hg
  · rw [h] at hc
    cases hc
  · rw [hc] at h
    cases h

/-- The store holds the package, if any, and the default entries. -/
structure HasCfg (es : List Entry) (pkg : Option (List UInt8)) : Prop where
  len : Entries.get es wlanCfgLenKey = pkg.map fun p => CString.ofBlock (decimal p.length ++ [0])
  info : Entries.get es wlanCfgInfoKey = pkg.map text
  rest : Entries.del (Entries.del es wlanCfgLenKey) wlanCfgInfoKey = defaults
  short : ∀ p ∈ pkg, p.length < 305

theorem hasCfg_defaults : HasCfg defaults none where
  len := by decide
  info := by decide
  rest := by decide
  short p hp := by cases hp

theorem strlen_decimal : ∀ n < 305, (CString.ofBlock (decimal n ++ [0])).strlen ≤ 3 := by decide +kernel

theorem size_len {n : ℕ} (h : n < 305) :
    wordAlign (wlanCfgLenKey.strlen + (CString.ofBlock (decimal n ++ [0])).strlen + 2) ≤ 20 := by
  have hkey : wlanCfgLenKey.strlen = 12 := by decide
  have hlen := strlen_decimal n h
  rw [hkey]
  unfold wordAlign
  split <;> omega

theorem size_info {p : List UInt8} (h : p.length < 305) :
    wordAlign (wlanCfgInfoKey.strlen + (text p).strlen + 2) ≤ 424 := by
  have hkey : wlanCfgInfoKey.strlen = 13 := by decide
  have hlen : (text p).strlen = (p.length + 2) / 3 * 4 := Base64.length_encode Wifi.alphabet p
  rw [hkey, hlen]
  unfold wordAlign
  split <;> omega

theorem defaults_length : (EasyFlash.encAll defaults).length = 16 := by decide

/-- **A package always has room.** -/
theorem HasCfg.write {es es₁ es₂ : List Entry} {pkg : Option (List UInt8)} {p : List UInt8} (h : HasCfg es pkg)
    (hp : p.length < 305) (hd : es.Pairwise fun e e' => e.key ≠ e'.key) (hd₁ : es₁.Pairwise fun e e' => e.key ≠ e'.key)
    (h₁ : es₁ = (Entries.set es wlanCfgLenKey (CString.ofBlock (decimal p.length ++ [0]))).2)
    (h₂ : es₂ = (Entries.set es₁ wlanCfgInfoKey (text p)).2) :
    (Entries.set es wlanCfgLenKey (CString.ofBlock (decimal p.length ++ [0]))).1 = .efNoErr ∧
      (Entries.set es₁ wlanCfgInfoKey (text p)).1 = .efNoErr ∧ HasCfg es₂ (some p) := by
  have hsize := envUserSettingSize_eq
  have hparam := envParamByteSize_eq
  obtain ⟨hlenKey, hne⟩ := wlanCfgKeys
  have hinfoKey := wlanCfgInfoKey_plain
  have hother : Entries.size wlanCfgInfoKey (Entries.get es wlanCfgInfoKey) ≤ 424 := by
    rw [h.info]
    cases pkg with
    | none => exact Nat.zero_le _
    | some q => exact size_info (h.short q rfl)
  have hroom₁ : Entries.Room (Entries.del es wlanCfgLenKey) wlanCfgLenKey
      (CString.ofBlock (decimal p.length ++ [0])) := by
    have hused := Entries.length_del hinfoKey (Entries.del_distinct hd wlanCfgLenKey)
    rw [h.rest, defaults_length, Entries.get_del hinfoKey hne.symm] at hused
    have hnew := size_len hp
    unfold Entries.Room
    omega
  obtain ⟨hc₁, hg₁⟩ := Entries.set_room hlenKey hroom₁
  rw [← h₁] at hg₁
  have hrest : Entries.del (Entries.del es₁ wlanCfgInfoKey) wlanCfgLenKey = defaults := by
    rw [Entries.del_comm, h₁, Entries.del_set hlenKey, h.rest]
  have hroom₂ : Entries.Room (Entries.del es₁ wlanCfgInfoKey) wlanCfgInfoKey (text p) := by
    have hused := Entries.length_del hlenKey (Entries.del_distinct hd₁ wlanCfgInfoKey)
    rw [hrest, defaults_length, Entries.get_del hlenKey hne, hg₁] at hused
    have hlen : Entries.size wlanCfgLenKey (some (CString.ofBlock (decimal p.length ++ [0]))) ≤ 20 := size_len hp
    have hnew := size_info hp
    unfold Entries.Room
    omega
  obtain ⟨hc₂, hg₂⟩ := Entries.set_room hinfoKey hroom₂
  rw [← h₂] at hg₂
  refine ⟨hc₁, hc₂, ?_, hg₂, ?_, ?_⟩
  · rw [h₂, Entries.get_set_of_ne hlenKey hne]
    exact hg₁
  · rw [Entries.del_comm, h₂, Entries.del_set hinfoKey, hrest]
  · intro q hq
    obtain rfl := Option.some.inj (Option.mem_def.mp hq)
    exact hp

theorem writeCfg_serves {pkg : Option (List UInt8)} (fill : Nat → UInt8) (hd : Detectable d) (h : Serves S slots i n v)
    (hn : n + 1 < 0xFFFFFFFF) (hhas : HasCfg v.ram pkg) (hp : buff.length < 305) :
    ∃ es ram code S', HasCfg es (some buff) ∧ writeCfg (some fill) d S buff = .ok ((buff.length : Int), S') ∧
      Serves { S with ram } slots i n { v with ram := es } ∧ efSaveEnv d { S with ram } = .ok (code, S') ∧
      (code = .efNoErr ∧ EasyFlash.Within S' (n + 1) ⟨es, es⟩ ∨
        FlashError code ∧ ∃ slots' i' n' es', Represents S'.flash slots' ∧
          TwoSlot.Current slots' i' n' ⟨efEnvVerNum, es'⟩ ∧ n' ≤ n + 1 ∧ (es' = v.saved ∨ es' = es)) := by
  obtain ⟨ram₁, hset₁, hs₁⟩ := set_perform h wlanCfgLenKey (CString.ofBlock (decimal buff.length ++ [0]))
  obtain ⟨ram₂, hset₂, hs₂⟩ := set_perform hs₁ wlanCfgInfoKey (text buff)
  obtain ⟨code, S', hsave, ho⟩ := efSaveEnv_serves d hd hs₂ hn
  obtain ⟨-, -, hhas'⟩ := hhas.write hp h.ready.holds.distinct hs₁.ready.holds.distinct rfl rfl
  exact ⟨_, ram₂, code, S', hhas', writeCfg_eq fill hset₁ hset₂ hsave, hs₂, hsave, ho⟩

end RocCar.WifiStore

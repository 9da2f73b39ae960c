import RocCar.WlanCfgSound

/-!
# Runs of the list, with losses of power

The list that is in use and the one that is in the flash, in every order of
calls and with any allocations. A loss of power in a call is followed by a start,
which finds the list as it was saved before the call or by it.
-/

namespace RocCar.WlanCfg

open EasyFlash Fallible Runs TwoSlot WifiStore
open Nor (Device Mem)
open Wifi (CString decimal text)

inductive Op where
  | save (cfgInfo : CfgInfo)
  | deleteIndex (avail : Bool) (index : Int)
  | deleteAll

def Op.perform (heap : Heap) (d : Device efEraseMinSize) (s : Wlan) : Op → Except Fault Wlan
  | save cfgInfo => do
    let (_, s) ← rtWlanCfgSave heap d cfgInfo s
    return s
  | deleteIndex avail index => .ok (rtWlanCfgDeleteIndex avail index s).2
  | deleteAll => .ok (rtWlanCfgDeleteAll s)

/-- What the allocations of a start give. -/
structure Memory where
  head : Option (Nat → UInt8)
  realloc : Nat → Bool

def Memory.Full (mem : Memory) : Prop := mem.head ≠ none ∧ ∀ i, mem.realloc i = true

/-- A call, and the memory at the start that follows, if the power is lost. -/
structure Event where
  op : Op
  heap : Heap
  device : Device efEraseMinSize
  cut : Option Memory

def turn (s : Wlan) (e : Event) : Except Fault Wlan := do
  let s ← e.op.perform e.heap e.device s
  match e.cut with
  | none => return s
  | some mem => do
    let (_, s) ← wlanAutoconnectInit e.device mem.head mem.realloc s.store.flash
    return s

def turns : Wlan → List Event → Except Fault Wlan
  | s, [] => .ok s
  | s, e :: es => do turns (← turn s e) es

/-! ## What a caller may rely on -/

structure Lists where
  saved : List CfgInfo
  cache : List CfgInfo

def Lists.perform (heap : Heap) (v : Lists) : Op → Lists
  | .save cfgInfo =>
    if cfgInfo.ssidLen = 0 ∨ v.cache.head?.map credentials = some (credentials cfgInfo) ∨
      Lacks heap cfgInfo v.cache then v
    else
      let cache := Recent.use network rtWlanCfgInfoMax cfgInfo v.cache
      ⟨if heap.package && heap.text.isSome then cache else v.saved, cache⟩
  | .deleteIndex avail index =>
    -- no block of size 0 is given, so that the last record stays
    if 0 ≤ index ∧ index < v.cache.length ∧ 1 < v.cache.length ∧ avail = true then
      { v with cache := v.cache.eraseIdx index.toNat }
    else v
  | .deleteAll => { v with cache := [] }

inductive Lists.Step (v : Lists) (e : Event) : Lists → Prop
  | done : e.cut = none → Step v e (v.perform e.heap e.op)
  | cut {mem : Memory} {cfgs cache : List CfgInfo} : e.cut = some mem →
      cfgs = v.saved ∨ cfgs = (v.perform e.heap e.op).saved → cache <+: cfgs → (mem.Full → cache = cfgs) →
      Step v e ⟨cfgs, cache⟩

/-! ## Lists that a package can hold -/

theorem Sound.sublist {cfgs cfgs' : List CfgInfo} (h : Sound cfgs) (hs : cfgs'.Sublist cfgs) : Sound cfgs' :=
  ⟨fun c hc => h.valid c (hs.subset hc), h.distinct.sublist (hs.map network), hs.length_le.trans h.length_le⟩

theorem sound_nil : Sound [] := ⟨fun _ hc => absurd hc List.not_mem_nil, List.nodup_nil, by decide⟩

theorem Sound.use {cache : List CfgInfo} {cfgInfo : CfgInfo} (h : Sound cache) (hc : Valid cfgInfo) :
    Sound (Recent.use network rtWlanCfgInfoMax cfgInfo cache) where
  valid c hmem := by
    obtain rfl | hmem := List.mem_cons.mp (List.mem_of_mem_take hmem)
    · exact hc
    · exact h.valid c (List.mem_of_mem_filter hmem)
  distinct := h.distinct.use rtWlanCfgInfoMax cfgInfo
  length_le := Recent.length_use_le ..

def pkgOf : List CfgInfo → Option (List UInt8)
  | [] => none
  | c :: cfgs => some (infoPkg (c :: cfgs))

theorem pkgOf_of_ne {cfgs : List CfgInfo} (h : cfgs ≠ []) : pkgOf cfgs = some (infoPkg cfgs) := by
  cases cfgs with
  | nil => exact absurd rfl h
  | cons c cfgs => rfl

theorem infoPkg_ne (cfgs : List CfgInfo) : infoPkg cfgs ≠ [] := by
  intro h
  have hlen := length_infoPkg cfgs
  rw [h, List.length_nil] at hlen
  exact absurd hlen (by unfold cfgSaveInfoHeadSize; omega)

theorem Sound.length_infoPkg_lt {cfgs : List CfgInfo} (h : Sound cfgs) : (infoPkg cfgs).length < 305 := by
  have hle := h.length_le
  have hmax : rtWlanCfgInfoMax = 3 := rfl
  have hsize : rtWlanCfgInfoSize = 96 := rfl
  have hhead : cfgSaveInfoHeadSize = 16 := rfl
  rw [length_infoPkg, hsize]
  omega

/-! ## A start -/

/-- The flash holds the list, after at most `b` saves. -/
def InFlash (m : Mem) (b : ℕ) (cfgs : List CfgInfo) : Prop :=
  ∃ slots i n es, Represents m slots ∧ Current slots i n ⟨efEnvVerNum, es⟩ ∧ n ≤ b ∧ HasCfg es (pkgOf cfgs)

structure Keeps (s : Wlan) (b : ℕ) (v : Lists) : Prop where
  store : ∃ es, EasyFlash.Within s.store b ⟨es, es⟩ ∧ HasCfg es (pkgOf v.saved)
  cache : s.cache = v.cache
  savedSound : Sound v.saved
  cacheSound : Sound v.cache

variable {s : Wlan} {b : ℕ} {v : Lists} {d : Device efEraseMinSize}

theorem Keeps.inFlash (h : Keeps s b v) : InFlash s.store.flash b v.saved := by
  obtain ⟨es, ⟨slots, i, n, hs, hn⟩, hhas⟩ := h.store
  exact ⟨slots, i, n, es, hs.flash, hs.current, hn, hhas⟩

theorem Keeps.mono (h : Keeps s b v) {b' : ℕ} (hb : b ≤ b') : Keeps s b' v := by
  obtain ⟨es, hw, hhas⟩ := h.store
  exact ⟨⟨es, hw.mono hb, hhas⟩, h.cache, h.savedSound, h.cacheSound⟩

theorem InFlash.mono {m : Mem} {cfgs : List CfgInfo} (h : InFlash m b cfgs) {b' : ℕ} (hb : b ≤ b') :
    InFlash m b' cfgs := by
  obtain ⟨slots, i, n, es, hm, hc, hn, hhas⟩ := h
  exact ⟨slots, i, n, es, hm, hc, hn.trans hb, hhas⟩

theorem refresh_nothing {len : Int} {head : Option (Nat → UInt8)} {realloc : Nat → Bool} {store : Store}
    (hlen : getLen store.ram = .ok len) (h : len ≤ 0 ∨ head = none) :
    rtWlanCfgCacheRefresh head realloc ⟨store, []⟩ = .ok (.rtError, ⟨store, []⟩) := by
  have hroom : ¬ ([] : List CfgInfo).length ≥ rtWlanCfgInfoMax := by decide
  unfold rtWlanCfgCacheRefresh
  dsimp only
  rw [if_neg hroom, hlen, mapError_ok, ok_bind]
  by_cases hle : len ≤ 0
  · rw [if_pos hle]
    rfl
  · obtain hle' | rfl := h
    · exact absurd hle' hle
    · rw [if_neg hle]
      rfl

/-- **A start finds the list of the flash**, as far as there is memory for it. -/
theorem wlanAutoconnectInit_inFlash {m : Mem} {cfgs : List CfgInfo} (h : InFlash m b cfgs) (hs : Sound cfgs)
    (hb : b < 0xFFFFFFFF) (d : Device efEraseMinSize) (mem : Memory) :
    ∃ err s cache, wlanAutoconnectInit d mem.head mem.realloc m = .ok (err, s) ∧ Keeps s b ⟨cfgs, cache⟩ ∧
      cache <+: cfgs ∧ (mem.Full → cache = cfgs) := by
  obtain ⟨slots, i, n, es, hm, hc, hn, hhas⟩ := h
  obtain ⟨S, hS, -, hserves⟩ := easyflashInit_current d hm hc (by omega)
  have hkeeps : ∀ {cache : List CfgInfo}, cache <+: cfgs → Keeps ⟨S, cache⟩ b ⟨cfgs, cache⟩ := fun hp =>
    ⟨⟨es, hserves.within hn, hhas⟩, rfl, hs, hs.sublist hp.sublist⟩
  have hinit : ∀ {err : Err} {cache : List CfgInfo},
      rtWlanCfgCacheRefresh mem.head mem.realloc ⟨S, []⟩ = .ok (err, ⟨S, cache⟩) →
      wlanAutoconnectInit d mem.head mem.realloc m = .ok (err, ⟨S, cache⟩) := by
    intro err cache hr
    unfold wlanAutoconnectInit
    rw [hS, mapError_ok, ok_bind]
    exact hr
  cases cfgs with
  | nil =>
    have hlen : getLen S.ram = .ok 0 := by
      rw [getLen, readEnv_eq hserves.ready.holds hserves.init, hhas.len, mapError_ok, ok_bind]
      rfl
    exact ⟨_, _, [], hinit (refresh_nothing hlen (.inl (Int.le_refl 0))), hkeeps List.nil_prefix, List.nil_prefix,
      fun _ => rfl⟩
  | cons c cfgs =>
    have hshort := hs.length_infoPkg_lt
    have hreads := readsCfg_of_get hserves.ready.holds hserves.init hhas.len hhas.info (infoPkg_ne _) (by omega)
    by_cases hhead : mem.head = none
    · exact ⟨.rtError, _, [], hinit (refresh_nothing hreads.1 (.inr hhead)), hkeeps List.nil_prefix, List.nil_prefix,
        fun hfull => absurd hhead hfull.1⟩
    · obtain ⟨fill, hfill⟩ := Option.ne_none_iff_exists'.mp hhead
      obtain ⟨err, cache, hr, hp, hall⟩ := @refresh_infoPkg ⟨S, []⟩ _ hs rfl hreads fill mem.realloc
      exact ⟨err, _, cache, hinit (hfill ▸ hr), hkeeps hp, hp, fun hfull => hall hfull.2⟩

/-! ## A call -/

theorem efSaveEnv_works {S S' : Store} {slots : Slots Contents} {i : Bool} {n : ℕ} {w : View} {code : EfErrCode}
    (hw : d.Works) (h : Serves S slots i n w) (hS : efSaveEnv d S = .ok (code, S')) : code = .efNoErr := by
  cases hch : S.ram.envCacheChanged with
  | false =>
    rw [efSaveEnv, hch, Bool.not_false, if_pos rfl] at hS
    exact (Prod.mk.inj (Except.ok.inj hS)).1.symm
  | true =>
    have heq := efSaveEnv_eq d h.ready.holds h.ready.next hch (m := S.flash)
    dsimp only at heq
    rw [hw.erase, if_neg (by decide), hw.write, if_pos rfl] at heq
    exact (Prod.mk.inj (Except.ok.inj (heq.symm.trans hS))).1.symm

/-- **A save of the list**: the flash holds the old list or the new one, and the
new one when nothing fails. -/
theorem rtWlanCfgCacheSave_keeps (heap : Heap) (hd : Detectable d) (h : Keeps s b v) (hb : b + 1 < 0xFFFFFFFF)
    {cache : List CfgInfo} (hs : Sound cache) (hne : cache ≠ []) :
    ∃ err s', rtWlanCfgCacheSave heap d { s with cache } = .ok (err, s') ∧
      (InFlash s'.store.flash (b + 1) v.saved ∨
        InFlash s'.store.flash (b + 1) (if heap.package && heap.text.isSome then cache else v.saved)) ∧
      (d.Works → Keeps s' (b + 1) ⟨if heap.package && heap.text.isSome then cache else v.saved, cache⟩) := by
  have hkept : Keeps { s with cache } (b + 1) ⟨v.saved, cache⟩ := by
    obtain ⟨es, hw, hhas⟩ := h.store
    exact ⟨⟨es, hw.mono (Nat.le_succ b), hhas⟩, rfl, h.savedSound, hs⟩
  cases hpackage : heap.package with
  | false =>
    refine ⟨.rtEnomem, _, ?_, .inl hkept.inFlash, fun _ => hkept⟩
    rw [rtWlanCfgCacheSave, hpackage, Bool.not_false, if_pos rfl]
    rfl
  | true =>
    cases htext : heap.text with
    | none =>
      refine ⟨.rtError, _, ?_, .inl hkept.inFlash, fun _ => hkept⟩
      have hret : (-Wifi.rtEnomem : Int) ≠ (cfgSaveInfoHeadSize + rtWlanCfgInfoSize * cache.length : Nat) := by
        unfold Wifi.rtEnomem
        omega
      rw [rtWlanCfgCacheSave, hpackage, Bool.not_true, if_neg Bool.false_ne_true, htext, writeCfg]
      exact congrArg (fun err => Except.ok (err, { s with cache })) (if_pos hret)
    | some fill =>
      obtain ⟨es, ⟨slots, i, n, hserves, hn⟩, hhas⟩ := h.store
      obtain ⟨es', ram, code, S', hhas', hwrite, hsave, hS', ho⟩ :=
        writeCfg_serves fill hd hserves (by omega) hhas hs.length_infoPkg_lt
      rw [← pkgOf_of_ne hne] at hhas'
      refine ⟨.rtEok, { s with store := S', cache }, ?_, ?_, fun hworks => ?_⟩
      · rw [rtWlanCfgCacheSave, hpackage, Bool.not_true, if_neg Bool.false_ne_true, htext]
        dsimp only
        rw [hwrite, mapError_ok, ok_bind]
        dsimp only
        rw [if_neg (by rw [length_infoPkg]; exact fun hne => hne rfl)]
        rfl
      · rw [Option.isSome_some, Bool.and_self, if_pos rfl]
        obtain ⟨-, slots', i', n', hs', hn'⟩ | ⟨-, slots', i', n', es₁, hm, hc, hn', rfl | rfl⟩ := ho
        · exact .inr ⟨slots', i', n', es', hs'.flash, hs'.current, by omega, hhas'⟩
        · exact .inl ⟨slots', i', n', _, hm, hc, by omega, hhas⟩
        · exact .inr ⟨slots', i', n', _, hm, hc, by omega, hhas'⟩
      · rw [Option.isSome_some, Bool.and_self, if_pos rfl]
        obtain ⟨-, hw⟩ | ⟨hcode, -⟩ := ho
        · exact ⟨⟨es', hw.mono (by omega), hhas'⟩, rfl, hs, hs⟩
        · rw [efSaveEnv_works hworks hsave hS'] at hcode
          exact absurd hcode (by decide)

theorem rtWlanCfgDeleteIndex_eq (avail : Bool) (index : Int) (s : Wlan) :
    (rtWlanCfgDeleteIndex avail index s).2 =
      if 0 ≤ index ∧ index < s.cache.length ∧ 1 < s.cache.length ∧ avail = true then
        { s with cache := s.cache.eraseIdx index.toNat }
      else s := by
  have hsize : rtWlanCfgInfoSize = 96 := rfl
  unfold rtWlanCfgDeleteIndex rtMalloc
  rw [List.eraseIdx_eq_take_drop_succ]
  by_cases h₁ : index < 0
  · rw [if_pos h₁, if_neg (by omega)]
  by_cases h₂ : index ≥ s.cache.length
  · rw [if_neg h₁, if_pos h₂, if_neg (by omega)]
  rw [if_neg h₁, if_neg h₂]
  by_cases h₃ : 1 < s.cache.length
  · have hblock : rtWlanCfgInfoSize * (s.cache.length - 1) ≠ 0 := by
      rw [hsize]
      omega
    rw [decide_eq_true hblock, Bool.true_and]
    cases avail with
    | false => rw [Bool.not_false, if_pos rfl, if_neg fun h => Bool.false_ne_true h.2.2.2]
    | true =>
      rw [Bool.not_true, if_neg Bool.false_ne_true]
      exact (if_pos ⟨by omega, by omega, h₃, rfl⟩).symm
  · have hblock : ¬ rtWlanCfgInfoSize * (s.cache.length - 1) ≠ 0 := by
      rw [hsize]
      omega
    rw [decide_eq_false hblock, Bool.false_and, Bool.not_false, if_pos rfl, if_neg fun h => h₃ h.2.2.1]

/-- **One call**: it does to the lists what it should, or the flash holds what it
held before. -/
theorem Op.perform_keeps (heap : Heap) (hd : Detectable d) (h : Keeps s b v) (hb : b + 1 < 0xFFFFFFFF) {op : Op}
    (hop : ∀ cfgInfo, op = .save cfgInfo → Valid cfgInfo) :
    ∃ s', op.perform heap d s = .ok s' ∧
      (InFlash s'.store.flash (b + 1) v.saved ∨ InFlash s'.store.flash (b + 1) (v.perform heap op).saved) ∧
      (d.Works → Keeps s' (b + 1) (v.perform heap op)) := by
  have hinFlash := h.inFlash.mono (Nat.le_succ b)
  -- a call that leaves the flash
  have still : ∀ {cache : List CfgInfo}, cache.Sublist v.cache → Keeps { s with cache } (b + 1) ⟨v.saved, cache⟩ := by
    intro cache hsub
    obtain ⟨es, hw, hhas⟩ := h.store
    exact ⟨⟨es, hw.mono (Nat.le_succ b), hhas⟩, rfl, h.savedSound, h.cacheSound.sublist hsub⟩
  cases op with
  | save cfgInfo =>
    have hc := hop cfgInfo rfl
    have hs : Sound s.cache := h.cache ▸ h.cacheSound
    have heq := rtWlanCfgSave_eq heap d hc hs
    by_cases hskip : cfgInfo.ssidLen = 0 ∨ v.cache.head?.map credentials = some (credentials cfgInfo) ∨
        Lacks heap cfgInfo v.cache
    · have hsame : ∃ err, rtWlanCfgSave heap d cfgInfo s = .ok (err, s) := by
        rw [← h.cache] at hskip
        rw [heq]
        by_cases h₁ : cfgInfo.ssidLen = 0
        · exact ⟨_, if_pos h₁⟩
        by_cases h₂ : s.cache.head?.map credentials = some (credentials cfgInfo)
        · rw [if_neg h₁, if_pos h₂]
          exact ⟨_, rfl⟩
        · rw [if_neg h₁, if_neg h₂, if_pos ((hskip.resolve_left h₁).resolve_left h₂)]
          exact ⟨_, rfl⟩
      obtain ⟨err, hsame⟩ := hsame
      refine ⟨s, ?_, .inl hinFlash, fun _ => ?_⟩
      · rw [Op.perform, hsame]
        rfl
      · rw [Lists.perform, if_pos hskip]
        exact h.mono (Nat.le_succ b)
    · obtain ⟨h₁, h₂₃⟩ := not_or.mp hskip
      obtain ⟨h₂, h₃⟩ := not_or.mp h₂₃
      have hne : Recent.use network rtWlanCfgInfoMax cfgInfo v.cache ≠ [] := List.cons_ne_nil _ _
      obtain ⟨err, s', hsave, hflash, hworks⟩ :=
        rtWlanCfgCacheSave_keeps heap hd h hb (h.cacheSound.use hc) hne
      rw [h.cache, if_neg h₁, if_neg h₂, if_neg h₃, hsave] at heq
      refine ⟨s', ?_, ?_, ?_⟩
      · rw [Op.perform, heq]
        rfl
      · rw [Lists.perform, if_neg hskip]
        exact hflash
      · rw [Lists.perform, if_neg hskip]
        exact hworks
  | deleteIndex avail index =>
    have heq := rtWlanCfgDeleteIndex_eq avail index s
    rw [h.cache] at heq
    rw [Op.perform, heq, Lists.perform]
    split
    · exact ⟨_, rfl, .inl hinFlash, fun _ => still (List.eraseIdx_sublist ..)⟩
    · exact ⟨s, rfl, .inl hinFlash, fun _ => h.mono (Nat.le_succ b)⟩
  | deleteAll => exact ⟨_, rfl, .inl hinFlash, fun _ => still (List.nil_sublist _)⟩

/-! ## Runs -/

/-- A failure of the flash is a loss of power, and is found at the start. -/
structure Event.Given (e : Event) : Prop where
  detectable : Detectable e.device
  works : e.cut = none → e.device.Works
  valid : ∀ cfgInfo, e.op = .save cfgInfo → Valid cfgInfo

theorem Lists.perform_sound (heap : Heap) {op : Op} (h₁ : Sound v.saved) (h₂ : Sound v.cache)
    (hop : ∀ cfgInfo, op = .save cfgInfo → Valid cfgInfo) : Sound (v.perform heap op).saved := by
  cases op with
  | save cfgInfo =>
    rw [Lists.perform]
    split
    · exact h₁
    · dsimp only
      split
      · exact h₂.use (hop cfgInfo rfl)
      · exact h₁
  | deleteIndex avail index =>
    rw [Lists.perform]
    split <;> exact h₁
  | deleteAll => exact h₁

theorem turn_step (h : Keeps s b v) (hb : b + 1 < 0xFFFFFFFF) {e : Event} (he : e.Given) :
    ∃ s' v', turn s e = .ok s' ∧ Lists.Step v e v' ∧ Keeps s' (b + 1) v' := by
  obtain ⟨s₁, hp, hflash, hworks⟩ := Op.perform_keeps e.heap he.detectable h hb he.valid
  cases hcut : e.cut with
  | none =>
    refine ⟨s₁, _, ?_, .done hcut, hworks (he.works hcut)⟩
    rw [turn, hp, ok_bind, hcut]
    rfl
  | some mem =>
    obtain ⟨cfgs, hcfgs, hsound, hin⟩ : ∃ cfgs, (cfgs = v.saved ∨ cfgs = (v.perform e.heap e.op).saved) ∧
        Sound cfgs ∧ InFlash s₁.store.flash (b + 1) cfgs := by
      obtain hin | hin := hflash
      · exact ⟨_, .inl rfl, h.savedSound, hin⟩
      · exact ⟨_, .inr rfl, Lists.perform_sound e.heap h.savedSound h.cacheSound he.valid, hin⟩
    obtain ⟨err, s', cache, hinit, hkeeps, hprefix, hfull⟩ := wlanAutoconnectInit_inFlash hin hsound hb e.device mem
    refine ⟨s', _, ?_, .cut hcut hcfgs hprefix hfull, hkeeps⟩
    rw [turn, hp, ok_bind, hcut]
    dsimp only
    rw [hinit]
    rfl

theorem turns_run : ∀ {es : List Event} {s : Wlan} {b : ℕ} {v : Lists}, Keeps s b v → b + es.length < 0xFFFFFFFF →
    (∀ e ∈ es, e.Given) → ∃ s' v', turns s es = .ok s' ∧ Run Lists.Step v es v' ∧ Keeps s' (b + es.length) v'
  | [], s, b, v, h, _, _ => ⟨s, v, rfl, .nil v, h⟩
  | e :: es, s, b, v, h, hb, hes => by
    rw [List.length_cons] at hb
    obtain ⟨s₁, v₁, h₁, hstep, hk₁⟩ := turn_step h (by omega) (hes e (List.mem_cons_self ..))
    obtain ⟨s₂, v₂, h₂, hrun, hk₂⟩ := turns_run hk₁ (by omega) fun e' he' => hes e' (List.mem_cons_of_mem _ he')
    refine ⟨s₂, v₂, by rw [turns, h₁, ok_bind]; exact h₂, hrun.cons hstep, hk₂.mono ?_⟩
    rw [List.length_cons]
    omega

theorem keeps_first {S : Store} {d : Device efEraseMinSize} {m : Mem} (hd : Detectable d) (hm : Fresh m)
    (h : easyflashInit d m = .ok (.efNoErr, S)) : Keeps ⟨S, []⟩ 2 ⟨[], []⟩ :=
  ⟨⟨defaults, within_first hd hm h, hasCfg_defaults⟩, rfl, sound_nil, sound_nil⟩

def sample (n k : UInt8) : CfgInfo :=
  ⟨((((Vector.replicate rtWlanCfgInfoSize 0).set 16 1).set 17 n).set 60 1).set 61 k⟩

theorem sample_valid (n k : UInt8) : Valid (sample n k) ∧ (sample n k).ssidLen = 1 := by
  have hssid : (sample n k).ssidLen = 1 := rfl
  have hkey : (sample n k).keyLen = 1 := rfl
  exact ⟨⟨by omega, by omega⟩, hssid⟩

def sampleHeap : Heap := ⟨some (sample 0 0), true, some fun _ => 0⟩

def sampleMemory : Memory := ⟨some fun _ => 0, fun _ => true⟩

def sampleCut : Event := ⟨.save (sample 1 1), sampleHeap, device true false, some sampleMemory⟩

def sampleDelete : Event := ⟨.deleteAll, sampleHeap, device true true, none⟩

structure Heap.Full (heap : Heap) : Prop where
  realloc : heap.realloc ≠ none
  package : heap.package = true
  text : heap.text ≠ none

/-- A save with enough memory does to the credentials what the general list does. -/
theorem perform_save {heap : Heap} {cfgInfo : CfgInfo} (hheap : heap.Full) (hne : cfgInfo.ssidLen ≠ 0)
    (hs : Sound v.cache) (heq : v.saved = v.cache) :
    (v.perform heap (.save cfgInfo)).saved = (v.perform heap (.save cfgInfo)).cache ∧
      (v.perform heap (.save cfgInfo)).cache.map credentials =
        Recent.use Prod.fst rtWlanCfgInfoMax (credentials cfgInfo) (v.cache.map credentials) := by
  have hmap : (Recent.use network rtWlanCfgInfoMax cfgInfo v.cache).map credentials =
      Recent.use Prod.fst rtWlanCfgInfoMax (credentials cfgInfo) (v.cache.map credentials) :=
    @Recent.map_use _ _ _ network _ Prod.fst credentials (fun _ => rfl) _ _ _
  by_cases hhead : v.cache.head?.map credentials = some (credentials cfgInfo)
  · rw [Lists.perform, if_pos (.inr (.inl hhead))]
    refine ⟨heq, ?_⟩
    obtain ⟨c, hc, hcred⟩ := Option.map_eq_some_iff.mp hhead
    obtain ⟨cache, hcache⟩ := List.head?_eq_some_iff.mp hc
    have hd : Recent.Distinct Prod.fst (v.cache.map credentials) := by
      have hnet : (v.cache.map credentials).map Prod.fst = v.cache.map network := List.map_map ..
      unfold Recent.Distinct
      rw [hnet]
      exact hs.distinct
    have hlen := hs.length_le
    rw [← List.length_map (f := credentials)] at hlen
    rw [hcache, List.map_cons, hcred] at hd hlen ⊢
    exact (Recent.use_head hd hlen).symm
  · have hlacks : ¬ Lacks heap cfgInfo v.cache := by
      unfold Lacks
      rw [Option.isNone_eq_false_iff.mpr (Option.ne_none_iff_isSome.mp hheap.realloc), Bool.and_false]
      exact Bool.false_ne_true
    have htext : heap.text.isSome = true := Option.ne_none_iff_isSome.mp hheap.text
    rw [Lists.perform, if_neg (not_or.mpr ⟨hne, not_or.mpr ⟨hhead, hlacks⟩⟩)]
    dsimp only
    rw [hheap.package, htext, Bool.and_self, if_pos rfl]
    exact ⟨rfl, hmap⟩

/-- A save that nothing disturbs. -/
structure Saving where
  cfgInfo : CfgInfo
  heap : Heap
  device : Device efEraseMinSize

def Saving.event (p : Saving) : Event := ⟨.save p.cfgInfo, p.heap, p.device, none⟩

structure Saving.Given (p : Saving) : Prop where
  valid : Valid p.cfgInfo
  named : p.cfgInfo.ssidLen ≠ 0
  heap : p.heap.Full
  works : p.device.Works

theorem detectable_of_works (h : d.Works) : Detectable d where
  erase_fail _ _ _ _ _ hfail := absurd ((h.erase ..).symm.trans hfail) Bool.noConfusion
  write_fail _ _ _ _ _ _ hfail := absurd ((h.write ..).symm.trans hfail) Bool.noConfusion

theorem saves_run : ∀ {ps : List Saving} {s : Wlan} {b : ℕ} {v : Lists}, Keeps s b v → v.saved = v.cache →
    b + ps.length < 0xFFFFFFFF → (∀ p ∈ ps, p.Given) →
    ∃ s' v', turns s (ps.map Saving.event) = .ok s' ∧ Keeps s' (b + ps.length) v' ∧ v'.saved = v'.cache ∧
      v'.cache.map credentials = (ps.map fun p => credentials p.cfgInfo).foldl
        (fun l a => Recent.use Prod.fst rtWlanCfgInfoMax a l) (v.cache.map credentials)
  | [], s, b, v, h, heq, _, _ => ⟨s, v, rfl, h, heq, rfl⟩
  | p :: ps, s, b, v, h, heq, hb, hps => by
    rw [List.length_cons] at hb
    have hp := hps p (List.mem_cons_self ..)
    have hvalid : ∀ cfgInfo, Op.save p.cfgInfo = .save cfgInfo → Valid cfgInfo := fun _ hc => Op.save.inj hc ▸ hp.valid
    obtain ⟨s₁, h₁, -, hworks⟩ := Op.perform_keeps p.heap (detectable_of_works hp.works) h (by omega) hvalid
    obtain ⟨heq₁, hcache⟩ := perform_save hp.heap hp.named h.cacheSound heq
    obtain ⟨s₂, v₂, h₂, hk₂, heq₂, hfold⟩ :=
      saves_run (hworks hp.works) heq₁ (by omega) fun p' hp' => hps p' (List.mem_cons_of_mem _ hp')
    refine ⟨s₂, v₂, ?_, hk₂.mono ?_, heq₂, ?_⟩
    · rw [List.map_cons, turns, turn, Saving.event]
      dsimp only
      rw [h₁, ok_bind]
      exact h₂
    · rw [List.length_cons]
      omega
    · rw [hfold, hcache]
      rfl

/-- **The list is the history**: after any saves, and after a start, it holds the
latest credentials of the three networks that were saved last. -/
theorem saves_recent {S : Store} {d : Device efEraseMinSize} {m : Mem} (hd : Detectable d) (hm : Fresh m)
    (h : easyflashInit d m = .ok (.efNoErr, S)) (ps : List Saving) (hps : ∀ p ∈ ps, p.Given)
    (hlen : ps.length < 0xFFFFFFFD) :
    ∃ s, turns ⟨S, []⟩ (ps.map Saving.event) = .ok s ∧
      s.cache.map credentials =
        (Recent.latest Prod.fst (ps.map fun p => credentials p.cfgInfo).reverse).take rtWlanCfgInfoMax ∧
      ∀ d' (mem : Memory), mem.Full →
        ∃ err s', wlanAutoconnectInit d' mem.head mem.realloc s.store.flash = .ok (err, s') ∧ s'.cache = s.cache := by
  obtain ⟨s, v, hs, hkeeps, heq, hfold⟩ := saves_run (keeps_first hd hm h) rfl (by omega) hps
  refine ⟨s, hs, ?_, fun d' mem hmem => ?_⟩
  · rw [hkeeps.cache, hfold]
    exact Recent.foldl_use ..
  · obtain ⟨err, s', cache, hinit, hk, -, hfull⟩ :=
      wlanAutoconnectInit_inFlash hkeeps.inFlash hkeeps.savedSound (by omega) d' mem
    refine ⟨err, s', hinit, ?_⟩
    rw [hk.cache, hfull hmem, heq, hkeeps.cache]

def saving (n k : UInt8) : Saving := ⟨sample n k, sampleHeap, device true true⟩

theorem saving_given (n k : UInt8) : (saving n k).Given :=
  ⟨(sample_valid n k).1, by rw [show (saving n k).cfgInfo.ssidLen = 1 from rfl]; decide,
    ⟨Option.some_ne_none _, rfl, Option.some_ne_none _⟩, Nor.stopping_works _ (by decide)⟩

/-- Four networks, and the key of the second one changes. -/
theorem saves_recent_five :
    ∃ s, turns ⟨firstStore, []⟩
        ([saving 1 1, saving 2 1, saving 3 1, saving 4 1, saving 2 2].map Saving.event) = .ok s ∧
      s.cache.map credentials =
        (Recent.latest Prod.fst ([saving 1 1, saving 2 1, saving 3 1, saving 4 1, saving 2 2].map fun p =>
          credentials p.cfgInfo).reverse).take rtWlanCfgInfoMax ∧
      ∀ d' (mem : Memory), mem.Full →
        ∃ err s', wlanAutoconnectInit d' mem.head mem.realloc s.store.flash = .ok (err, s') ∧ s'.cache = s.cache :=
  saves_recent (device_detectable true true) blank_fresh firstStore_eq
    [saving 1 1, saving 2 1, saving 3 1, saving 4 1, saving 2 2]
    (by
      intro p hp
      simp only [List.mem_cons, List.not_mem_nil, or_false] at hp
      rcases hp with rfl | rfl | rfl | rfl | rfl <;> exact saving_given _ _)
    (by decide)

end RocCar.WlanCfg

import RocCar.EnvOutcome

/-!
# A start of the program

A start loads the current area. When there is none it makes one: it saves the
default entries twice, to one area and then to the other. When the area is of
another version of the program, the default entries that it lacks are added.
-/

namespace RocCar.EasyFlash

open Cells Fallible TwoSlot
open Nor (Mem Device)
open Wifi (CString)

namespace Entries

def createAll (es : List Entry) (envs : List EfEnv) : List Entry :=
  envs.foldl (fun es env => (create es env.key env.value).2) es

def createMissing (es : List Entry) (envs : List EfEnv) : List Entry :=
  envs.foldl (fun es env => if get es env.key = none then (create es env.key env.value).2 else es) es

end Entries

variable {s : EnvState} {es : List Entry} {slots : Slots Contents} {i : Bool} {n : ℕ} {c : Contents}

theorem createAll_effect : ∀ (envs : List EfEnv) {s : EnvState} {es : List Entry}, Holds s es →
    ∃ s', createAll s envs = .ok s' ∧ Effect s es (.efNoErr, Entries.createAll es envs) s'
  | [], s, _, h => ⟨s, rfl, .same h _⟩
  | env :: envs, s, es, h => by
    obtain ⟨s₁, h₁, he₁⟩ := createEnv_effect h env.key env.value
    obtain ⟨s₂, h₂, he₂⟩ := createAll_effect envs he₁.holds
    exact ⟨s₂, by rw [createAll, h₁, ok_bind]; exact h₂, he₁.trans he₂⟩

theorem createMissing_effect : ∀ (envs : List EfEnv) {s : EnvState} {es : List Entry}, Holds s es →
    ∃ s', createMissing s envs = .ok s' ∧ Effect s es (.efNoErr, Entries.createMissing es envs) s'
  | [], s, _, h => ⟨s, rfl, .same h _⟩
  | env :: envs, s, es, h => by
    unfold createMissing Entries.createMissing
    rw [List.foldl_cons]
    obtain ⟨hf, hg⟩ | ⟨pre, e, post, -, -, -, hg, hf⟩ := findEnv_spec h env.key
    · obtain ⟨s₁, h₁, he₁⟩ := createEnv_effect h env.key env.value
      obtain ⟨s₂, h₂, he₂⟩ := createMissing_effect envs he₁.holds
      rw [hf, ok_bind, Option.isNone_none, if_pos rfl, h₁, ok_bind, if_pos hg]
      exact ⟨s₂, h₂, he₁.trans he₂⟩
    · obtain ⟨s₂, h₂, he₂⟩ := createMissing_effect envs h
      rw [hf, ok_bind, Option.isNone_some, if_neg Bool.false_ne_true, if_neg (by rw [hg]; exact Option.some_ne_none _)]
      exact ⟨s₂, h₂, he₂⟩

theorem Ready.effect (h : Ready s i n c) {s' : EnvState} {r : EfErrCode × List Entry} (he : Effect s c.entries r s') :
    Ready s' i n ⟨c.ver, r.2⟩ :=
  ⟨he.statics.cur.trans h.cur, he.statics.next.trans h.next, he.holds, he.statics.count.trans h.count,
    he.statics.ver.trans h.ver⟩

theorem Effect.changed_of_ne {s' : EnvState} {r : EfErrCode × List Entry} (h : Effect s es r s') (hne : r.2 ≠ es) :
    s'.envCacheChanged = true := by
  obtain ⟨-, he⟩ | hc := h.changed
  · exact absurd he hne
  · exact hc

/-! ## Default entries -/

/-- The cache without entries, as `ef_env_set_default` begins. -/
def cleared (s : EnvState) : EnvState :=
  setParam (setParam (setEnvEndAddr s (getEnvDataAddr s)) envParamIndexSavedCount 0) envParamIndexVerNum efEnvVerNum

theorem cleared_ready (hc : s.curLoadAreaAddr = areaAddr i) (hn : s.nextSaveAreaAddr = areaAddr !i) :
    Ready (cleared s) i 0 ⟨efEnvVerNum, []⟩ := by
  have hle := areaAddr_le i
  have hsize := envAreaSize_eq
  have hparam := envParamByteSize_eq
  have hdata : getEnvDataAddr s = s.curLoadAreaAddr + envParamByteSize := rfl
  refine ⟨hc, hn, ⟨?_, ?_, List.nil_prefix, by decide, List.Pairwise.nil⟩, ?_, word_setParam (by decide)⟩
  · exact (Nat.le_of_eq hc).trans (by omega)
  · have hend : getEnvEndAddr (cleared s) = getEnvDataAddr s % 2 ^ 32 := by
      rw [getEnvEndAddr, cleared, word_setParam_ne (by decide) (by decide), word_setParam_ne (by decide) (by decide),
        setEnvEndAddr, word_setParam (by decide)]
    rw [hend, hdata, Nat.mod_eq_of_lt (by rw [hc]; omega)]
    rfl
  · rw [cleared, word_setParam_ne (by decide) (by decide), word_setParam (by decide), Nat.zero_mod]

inductive DefaultOutcome (s : EnvState) (slots : Slots Contents) (i : Bool) (c : Contents) : EfErrCode → Store → Prop
  | done {s' : EnvState} {m' : Mem} : Ready s' i 2 c → s'.defaultEnvSet = s.defaultEnvSet → s'.initOk = s.initOk →
      s'.envCacheChanged = false →
      Represents m' (Function.update (Function.update slots (!i) (some (1, c))) i (some (2, c))) →
      DefaultOutcome s slots i c .efNoErr ⟨s', m'⟩
  | first {code : EfErrCode} {s' : EnvState} {m' : Mem} (slot : Option (ℕ × Contents)) :
      code = .efEraseErr ∨ code = .efWriteErr → slot = none ∨ slot = slots (!i) ∨ slot = some (1, c) →
      Represents m' (Function.update slots (!i) slot) → DefaultOutcome s slots i c code ⟨s', m'⟩
  | second {code : EfErrCode} {s' : EnvState} {m' : Mem} (slot : Option (ℕ × Contents)) :
      code = .efEraseErr ∨ code = .efWriteErr → slot = none ∨ slot = slots i ∨ slot = some (2, c) →
      Represents m' (Function.update (Function.update slots (!i) (some (1, c))) i slot) →
      DefaultOutcome s slots i c code ⟨s', m'⟩

variable (d : Device efEraseMinSize) {m : Mem}

theorem efEnvSetDefault_outcome (hd : Detectable d) (hc : s.curLoadAreaAddr = areaAddr i)
    (hn : s.nextSaveAreaAddr = areaAddr !i) (hm : Represents m slots) (he : Entries.createAll [] s.defaultEnvSet ≠ []) :
    ∃ code S, efEnvSetDefault d ⟨s, m⟩ = .ok (code, S) ∧
      DefaultOutcome s slots i ⟨efEnvVerNum, Entries.createAll [] s.defaultEnvSet⟩ code S := by
  have hne : (!s.defaultEnvSet.isEmpty) = true := by
    cases hs : s.defaultEnvSet with
    | nil => exact absurd (by rw [hs]; rfl) he
    | cons env envs => rfl
  have hready := cleared_ready hc hn
  obtain ⟨s₁, h₁, heff⟩ := createAll_effect s.defaultEnvSet hready.holds
  have hready₁ := hready.effect heff
  obtain ⟨code₂, S₂, h₂, ho₂⟩ := efSaveEnv_outcome d hd hready₁ hm (heff.changed_of_ne he) (by decide)
  unfold efEnvSetDefault
  rw [hne, efAssert, if_pos rfl, ok_bind]
  dsimp only
  rw [← cleared, show (cleared s).defaultEnvSet = s.defaultEnvSet from rfl, h₁, ok_bind, h₂, ok_bind]
  cases ho₂ with
  | failed slot hcode hslot hm₂ _ =>
    rename_i s₂ m₂ _
    refine ⟨code₂, ⟨s₂, m₂⟩, ?_, .first slot hcode hslot hm₂⟩
    rcases hcode with rfl | rfl <;> rfl
  | done hready₂ hdef hinit hch hm₂ =>
    rename_i s₂ m₂
    obtain ⟨code₃, S₃, h₃, ho₃⟩ := efSaveEnv_outcome d hd (hready₂.setChanged true) hm₂ rfl (by decide)
    refine ⟨code₃, S₃, h₃, ?_⟩
    have hdef₁ : s₁.defaultEnvSet = s.defaultEnvSet := heff.statics.defaults
    have hinit₁ : s₁.initOk = s.initOk := heff.statics.init
    have hother : Function.update slots (!i) (some (1, ⟨efEnvVerNum, Entries.createAll [] s.defaultEnvSet⟩)) i =
        slots i := update_other ..
    cases ho₃ with
    | failed slot hcode hslot hm₃ _ =>
      rw [Bool.not_not] at hslot hm₃
      rw [hother] at hslot
      exact .second slot hcode hslot hm₃
    | done hready₃ hdef₃ hinit₃ hch₃ hm₃ =>
      rw [Bool.not_not] at hready₃ hm₃
      exact .done hready₃ (hdef₃.trans (hdef.trans hdef₁)) (hinit₃.trans (hinit.trans hinit₁)) hch₃ hm₃

/-! ## Start -/

theorem memWord_lt (m : Mem) (a : Nat) : memWord m a < 2 ^ 32 := by
  have hlt := Bytes.value_lt (Nor.read m a 4)
  rwa [Nor.length_read] at hlt

theorem storeAt_verNum (hc : s.curLoadAreaAddr = areaAddr i) (hs : Saved m (areaAddr i) n c.ver c.entries) :
    storeAt s (4 * envParamIndexVerNum) (efPortRead d m (getEnvSystemAddr s + envParamIndexVerNum * 4) 4) =
      .ok (setParam s envParamIndexVerNum c.ver) := by
  have hle := areaAddr_le i
  have hsize := envAreaSize_eq
  have hindex : envParamIndexVerNum * 4 = 8 := rfl
  have hlen := Nor.length_read m (areaAddr i + envParamIndexVerNum * 4) 4
  rw [getEnvSystemAddr, hc, efPortRead_eq d m (by omega), storeAt_ok s (by rw [hlen]; decide), setParam, setWord,
    ← hs.ver_eq, memWord, Bytes.digits_value _ (Nat.le_of_eq hlen), hlen, Nat.sub_self, List.replicate_zero,
    List.append_nil]

theorem Ready.setVerNum (h : Ready s i n c) (hv : c.ver < 2 ^ 32) :
    Ready (setParam s envParamIndexVerNum c.ver) i n c :=
  ⟨h.cur, h.next, h.holds.setParam _ (by decide) (by decide), (word_setParam_ne (by decide) (by decide)).trans h.count,
    (word_setParam (by decide)).trans (Nat.mod_eq_of_lt hv)⟩

theorem envAutoUpdate_same (h : Ready s i n c) (hs : Saved m (areaAddr i) n c.ver c.entries)
    (hv : c.ver = efEnvVerNum) (hch : s.envCacheChanged = false) :
    envAutoUpdate d ⟨s, m⟩ = .ok (.efNoErr, ⟨setParam s envParamIndexVerNum c.ver, m⟩) := by
  have hlt : c.ver < 2 ^ 32 := hs.ver_eq ▸ memWord_lt ..
  unfold envAutoUpdate
  rw [storeAt_verNum d h.cur hs, ok_bind, if_neg (not_not.mpr ((h.setVerNum hlt).ver.trans hv)), efSaveEnv,
    show (setParam s envParamIndexVerNum c.ver).envCacheChanged = false from hch, Bool.not_false, if_pos rfl]
  rfl

/-- The area of another version: the default entries that it lacks are added. -/
theorem envAutoUpdate_upgrade (h : Ready s i n c) (hs : Saved m (areaAddr i) n c.ver c.entries)
    (hv : c.ver ≠ efEnvVerNum) :
    ∃ s', envAutoUpdate d ⟨s, m⟩ = efSaveEnv d ⟨s', m⟩ ∧
      Ready s' i n ⟨efEnvVerNum, Entries.createMissing c.entries s.defaultEnvSet⟩ ∧ s'.envCacheChanged = true := by
  have hlt : c.ver < 2 ^ 32 := hs.ver_eq ▸ memWord_lt ..
  have hready := h.setVerNum hlt
  have hready' : Ready (setParam { setParam s envParamIndexVerNum c.ver with envCacheChanged := true }
      envParamIndexVerNum efEnvVerNum) i n ⟨efEnvVerNum, c.entries⟩ :=
    ⟨h.cur, h.next, (hready.setChanged true).holds.setParam _ (by decide) (by decide),
      (word_setParam_ne (by decide) (by decide)).trans hready.count, word_setParam (by decide)⟩
  obtain ⟨s', h', heff⟩ := createMissing_effect s.defaultEnvSet hready'.holds
  refine ⟨s', ?_, hready'.effect heff, ?_⟩
  · unfold envAutoUpdate
    rw [storeAt_verNum d h.cur hs, ok_bind, if_pos (by rw [hready.ver]; exact hv)]
    dsimp only
    rw [show (setParam { setParam s envParamIndexVerNum c.ver with envCacheChanged := true } envParamIndexVerNum
      efEnvVerNum).defaultEnvSet = s.defaultEnvSet from rfl, h', ok_bind]
  · obtain ⟨rfl, -⟩ | hch := heff.changed
    · rfl
    · exact hch

/-- What a caller of the store knows: the entries in use, and those that the
next start would load. -/
structure View where
  saved : List Entry
  ram : List Entry

structure Serves (S : Store) (slots : Slots Contents) (i : Bool) (n : ℕ) (v : View) : Prop where
  flash : Represents S.flash slots
  current : Current slots i n ⟨efEnvVerNum, v.saved⟩
  ready : Ready S.ram i n ⟨efEnvVerNum, v.ram⟩
  defaults : S.ram.defaultEnvSet = defaultEnvSet
  init : S.ram.initOk = true
  clean : S.ram.envCacheChanged = false → v.ram = v.saved

def boot : EnvState := { defaultEnvSet }

theorem easyflashInit_ok {S S' : Store} {code : EfErrCode} (h : efLoadEnv d ⟨boot, m⟩ = .ok (.efNoErr, S))
    (hu : envAutoUpdate d S = .ok (code, S')) :
    easyflashInit d m = .ok (.efNoErr, { S' with ram := { S'.ram with initOk := true } }) := by
  unfold easyflashInit efEnvInit
  rw [efAssert, if_pos (by decide), ok_bind]
  dsimp only
  rw [← boot, h, ok_bind]
  dsimp only
  rw [hu, ok_bind]
  rfl

theorem easyflashInit_fail {S : Store} {code : EfErrCode} (h : efLoadEnv d ⟨boot, m⟩ = .ok (code, S))
    (hcode : code = .efEraseErr ∨ code = .efWriteErr) : easyflashInit d m = .ok (code, S) := by
  unfold easyflashInit efEnvInit
  rw [efAssert, if_pos (by decide), ok_bind]
  dsimp only
  rw [← boot, h, ok_bind]
  rcases hcode with rfl | rfl <;> rfl

theorem Ready.setInit (h : Ready s i n c) : Ready { s with initOk := true } i n c :=
  ⟨h.cur, h.next, h.holds.congr rfl rfl, h.count, h.ver⟩

theorem easyflashInit_current (hm : Represents m slots) (hc : Current slots i n ⟨efEnvVerNum, es⟩)
    (hn : n < 0xFFFFFFFF) :
    ∃ S, easyflashInit d m = .ok (.efNoErr, S) ∧ S.flash = m ∧ Serves S slots i n ⟨es, es⟩ := by
  have hs := hm i
  rw [hc.here] at hs
  obtain ⟨s', h, hf, hready⟩ := efLoadEnv_current d boot hm hc hn
  have hu := envAutoUpdate_same d hready hs rfl hf.changed
  exact ⟨_, easyflashInit_ok d h hu, rfl, hm, hc, (hready.setVerNum (show 0 < 2 ^ 32 by decide)).setInit,
    hf.defaults, rfl, fun _ => rfl⟩

theorem efLoadEnv_blank (s : EnvState) (hm : Represents m fun _ => none) :
    ∃ s', efLoadEnv d ⟨s, m⟩ = efEnvSetDefault d ⟨s', m⟩ ∧ s'.curLoadAreaAddr = areaAddr true ∧
      s'.nextSaveAreaAddr = areaAddr false ∧ SameFlags s s' := by
  obtain ⟨s₀, h₀, hf₀, -⟩ := (hm false).loadArea d s
  obtain ⟨s₁, h₁, hf₁, -⟩ := (hm true).loadArea d s₀
  refine ⟨{ s₁ with curLoadAreaAddr := areaAddr true, nextSaveAreaAddr := areaAddr false }, ?_, rfl, rfl,
    ⟨hf₁.defaults.trans hf₀.defaults, hf₁.init.trans hf₀.init, hf₁.changed.trans hf₀.changed⟩⟩
  unfold efLoadEnv
  rw [show area0StartAddress = areaAddr false from rfl, show area1StartAddress = areaAddr true from rfl]
  dsimp only
  rw [h₀, ok_bind]
  dsimp only
  rw [h₁, ok_bind]
  rfl

def defaults : List Entry := Entries.createAll [] defaultEnvSet

theorem defaults_ne : defaults ≠ [] := by
  intro h
  have hlen : defaults.length = 1 := by decide
  rw [h] at hlen
  exact absurd hlen (by decide)

/-- The flash before the first start has come to its end: there is no area, or
the current one holds the default entries. -/
def Fresh (m : Mem) : Prop :=
  Represents m (fun _ => none) ∨
    ∃ slots i n, Represents m slots ∧ Current slots i n ⟨efEnvVerNum, defaults⟩ ∧ n ≤ 2

/-- **The first start**: it saves the default entries to both areas, or fails
and leaves a flash where it can be done again. -/
theorem easyflashInit_fresh (hd : Detectable d) (hm : Fresh m) :
    ∃ code S, easyflashInit d m = .ok (code, S) ∧
      (code = .efNoErr ∧ (∃ slots i n, Serves S slots i n ⟨defaults, defaults⟩ ∧ n ≤ 2) ∨
        (code = .efEraseErr ∨ code = .efWriteErr) ∧ Fresh S.flash) := by
  obtain hm | ⟨slots, i, n, hm, hc, hn⟩ := hm
  · obtain ⟨s', h, hcur, hnext, hf⟩ := efLoadEnv_blank d boot hm
    have hdef : s'.defaultEnvSet = defaultEnvSet := hf.defaults
    obtain ⟨code, S, hS, ho⟩ := efEnvSetDefault_outcome d hd hcur hnext hm (by rw [hdef]; exact defaults_ne)
    rw [hdef, ← defaults] at ho
    cases ho with
    | done hready hdef' hinit hch hm' =>
      rename_i s₁ m₁
      have hs := hm' true
      rw [Function.update_self] at hs
      have hu := envAutoUpdate_same d hready hs rfl hch
      refine ⟨_, _, easyflashInit_ok d (h.trans hS) hu, .inl ⟨rfl, _, true, 2, ⟨hm', ?_, ?_, hdef'.trans hdef, rfl,
        fun _ => rfl⟩, Nat.le_refl 2⟩⟩
      · exact current_of_lt (Function.update_self ..) fun k c hk => by
          rw [show (!true) = false from rfl, Function.update_of_ne Bool.false_ne_true, Function.update_self,
            Option.some.injEq, Prod.mk.injEq] at hk
          omega
      · exact (hready.setVerNum (by decide)).setInit
    | first slot hcode hslot hm' =>
      refine ⟨_, _, easyflashInit_fail d (h.trans hS) hcode, .inr ⟨hcode, ?_⟩⟩
      rcases hslot with rfl | rfl | rfl
      · exact .inl (by rwa [Function.update_eq_self_iff.mpr rfl] at hm')
      · exact .inl (by rwa [Function.update_eq_self_iff.mpr rfl] at hm')
      · exact .inr ⟨_, false, 1, hm', only_current _ _ _, by decide⟩
    | second slot hcode hslot hm' =>
      refine ⟨_, _, easyflashInit_fail d (h.trans hS) hcode, .inr ⟨hcode, ?_⟩⟩
      have honly := only_current false 1 (⟨efEnvVerNum, defaults⟩ : Contents)
      have hslot' : slot = none ∨
          slot = Function.update (fun _ => none) false (some (1, ⟨efEnvVerNum, defaults⟩)) true ∨
          slot = some (2, ⟨efEnvVerNum, defaults⟩) := hslot
      obtain hc | hc := honly.attempt hslot'
      · exact .inr ⟨_, false, 1, hm', hc, by decide⟩
      · exact .inr ⟨_, true, 2, hm', hc, by decide⟩
  · obtain ⟨S, h, -, hS⟩ := easyflashInit_current d hm hc (by omega)
    exact ⟨_, _, h, .inl ⟨rfl, slots, i, n, hS, hn⟩⟩

end RocCar.EasyFlash

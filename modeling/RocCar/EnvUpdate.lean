import RocCar.EnvMap

/-!
# A new version of the program

A start that finds an area of another version adds the default entries that it
lacks, and saves. When the power is lost meanwhile, the next start does it again.
-/

namespace RocCar.EasyFlash

open Cells Fallible TwoSlot
open Nor (Mem Device)
open Wifi (CString equalSign)

namespace Entries

theorem get_createMissing {key v : CString} : ∀ (envs : List EfEnv) {es : List Entry}, get es key = some v →
    get (createMissing es envs) key = some v
  | [], _, h => h
  | env :: envs, es, h => by
    rw [createMissing, List.foldl_cons]
    refine get_createMissing envs ?_
    split
    · exact get_create_of_some h
    · exact h

theorem get_createMissing_default (es : List Entry) :
    get (createMissing es defaultEnvSet) (cstring "boot_times") =
      (get es (cstring "boot_times")).or
        (if Room es (cstring "boot_times") (cstring "0") then some (cstring "0") else none) := by
  have hp : Plain (cstring "boot_times") := by decide
  have hone : createMissing es defaultEnvSet =
    if get es (cstring "boot_times") = none then (create es (cstring "boot_times") (cstring "0")).2 else es := rfl
  rw [hone]
  split
  · rename_i hnew
    rw [get_create_new hp hnew, hnew, Option.none_or]
  · rename_i hsome
    obtain ⟨v, hv⟩ := Option.ne_none_iff_exists'.mp hsome
    rw [hv, Option.some_or]

end Entries

/-- The flash on which an update to this version of the program is to be done,
or has been done: `es` are the entries before it. -/
def Updating (es : List Entry) (b : ℕ) (m : Mem) : Prop :=
  ∃ slots i n c, Represents m slots ∧ Current slots i n c ∧ n ≤ b ∧
    (c.ver ≠ efEnvVerNum ∧ c.entries = es ∨ c = ⟨efEnvVerNum, Entries.createMissing es defaultEnvSet⟩)

theorem easyflashInit_updating {d : Device efEraseMinSize} (hd : Detectable d) {es : List Entry} {b : ℕ} {m : Mem}
    (hb : b + 1 < 0xFFFFFFFF) (h : Updating es b m) :
    ∃ S, easyflashInit d m = .ok (.efNoErr, S) ∧ Updating es (b + 1) S.flash ∧
      ∀ key, readEnv S.ram key = .ok (Entries.get (Entries.createMissing es defaultEnvSet) key) := by
  obtain ⟨slots, i, n, c, hm, hc, hn, ⟨hver, rfl⟩ | rfl⟩ := h
  · have hs := hm i
    rw [hc.here] at hs
    obtain ⟨s, hload, hf, hready⟩ := efLoadEnv_current d boot hm hc (by omega)
    obtain ⟨s', hu, hready', hch⟩ := envAutoUpdate_upgrade d hready hs hver
    rw [hf.defaults, show boot.defaultEnvSet = defaultEnvSet from rfl] at hready'
    obtain ⟨code, S, hsave, ho⟩ := efSaveEnv_outcome d hd hready' hm hch (by omega)
    have hinit := easyflashInit_ok d hload (hu.trans hsave)
    cases ho with
    | done hready'' _ _ _ hm' =>
      refine ⟨_, hinit, ⟨_, _, n + 1, _, hm', hc.commit (Nat.lt_succ_self n) _, by omega, .inr rfl⟩, ?_⟩
      exact readEnv_eq hready''.setInit.holds rfl
    | failed slot hcode hslot hm' hholds =>
      refine ⟨_, hinit, ?_, readEnv_eq (hholds.congr rfl rfl) rfl⟩
      obtain hc' | hc' := hc.attempt hslot
      · exact ⟨_, _, n, _, hm', hc', by omega, .inl ⟨hver, rfl⟩⟩
      · exact ⟨_, _, n + 1, _, hm', hc', by omega, .inr rfl⟩
  · obtain ⟨S, hS, hflash, hs⟩ := easyflashInit_current d hm hc (by omega)
    exact ⟨S, hS, hflash ▸ ⟨slots, i, n, _, hm, hc, by omega, .inr rfl⟩, hs.readEnv⟩

theorem starts_updating : ∀ {ds : List (Device efEraseMinSize)} {es : List Entry} {b : ℕ} {m : Mem},
    (∀ d ∈ ds, Detectable d) → b + ds.length < 0xFFFFFFFF → Updating es b m →
    ∃ m', starts ds m = .ok m' ∧ Updating es (b + ds.length) m'
  | [], es, b, m, _, _, h => ⟨m, rfl, h⟩
  | d :: ds, es, b, m, hd, hb, h => by
    rw [List.length_cons] at hb
    obtain ⟨S, hS, hu, -⟩ := easyflashInit_updating (hd d (List.mem_cons_self ..)) (by omega) h
    obtain ⟨m', hm', hu'⟩ := starts_updating (fun d' hd' => hd d' (List.mem_cons_of_mem _ hd')) (by omega) hu
    refine ⟨m', by rw [starts, hS, ok_bind]; exact hm', ?_⟩
    rw [List.length_cons, Nat.add_comm ds.length, ← Nat.add_assoc]
    exact hu'

def ssid : Entry := ⟨cstring "ssid", cstring "roc", by decide, by decide⟩

def outdated : Mem := Bytes.overwrite blank 4096 (areaImage 4096 5 7 [ssid])

theorem outdated_represents :
    Represents outdated (Function.update (fun _ => none) true (some (5, ⟨7, [ssid]⟩))) := by
  intro j
  cases j with
  | false =>
    have h : Rejected outdated (areaAddr false) := by decide
    exact h
  | true =>
    have h : Saved outdated (areaAddr true) 5 7 [ssid] := ⟨by decide, by decide, by decide,
      by decide +kernel, by decide, by decide, List.pairwise_singleton ..⟩
    exact h

end RocCar.EasyFlash

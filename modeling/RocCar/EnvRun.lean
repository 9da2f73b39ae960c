import RocCar.EnvStart
import RocCar.Lib.Runs

/-!
# Runs of the store, with losses of power

A store is a list of entries that is saved and a list that is in use. This is
what the program keeps, in every order of operations, when an operation that the
flash fails is followed by a start of the program: a loss of power is such a
failure. A torn area must be one that the check rejects.
-/

namespace RocCar.EasyFlash

open Cells Fallible TwoSlot Runs
open Nor (Mem Device)
open Wifi (CString)

inductive Call where
  | set (key value : CString)
  | del (key : CString)
  | save
  | setAndSave (key value : CString)
  | delAndSave (key : CString)
  | setDefault
  | start

def FlashError (code : EfErrCode) : Prop := code = .efEraseErr ∨ code = .efWriteErr

instance (code : EfErrCode) : Decidable (FlashError code) := inferInstanceAs (Decidable (_ ∨ _))

section
variable (d : Device efEraseMinSize)

def Call.perform (S : Store) : Call → Except Fault (EfErrCode × Store)
  | set key value => do
    let (code, ram) ← efSetEnv S.ram key (some value)
    return (code, { S with ram })
  | del key => do
    let (code, ram) ← efDelEnv S.ram key
    return (code, { S with ram })
  | save => efSaveEnv d S
  | setAndSave key value => efSetAndSaveEnv d S key (some value)
  | delAndSave key => efDelAndSaveEnv d S key
  | setDefault => efEnvSetDefault d S
  | start => easyflashInit d S.flash

/-- A call, and the start that follows when the flash fails. -/
def trip (S : Store) (call : Call) : Except Fault (EfErrCode × Store) := do
  let (code, S) ← call.perform d S
  if FlashError code then
    let (_, S) ← easyflashInit d S.flash
    return (code, S)
  else return (code, S)

end

def trips : Store → List (Device efEraseMinSize × Call) → Except Fault (List (Call × EfErrCode) × Store)
  | S, [] => .ok ([], S)
  | S, (d, call) :: rest => do
    let (code, S) ← trip d S call
    let (labels, S) ← trips S rest
    return ((call, code) :: labels, S)

/-! ## What a caller may rely on -/

/-- The calls on a view. A call that the flash fails leaves what was saved, or
what was to be saved. -/
inductive View.Step : View → Call × EfErrCode → View → Prop
  | set (v : View) (key value : CString) :
      Step v (.set key value, (Entries.set v.ram key value).1) { v with ram := (Entries.set v.ram key value).2 }
  | del (v : View) (key : CString) :
      Step v (.del key, (Entries.delete v.ram key).1) { v with ram := (Entries.delete v.ram key).2 }
  | save (v : View) : Step v (.save, .efNoErr) ⟨v.ram, v.ram⟩
  | saveCut (v : View) {code : EfErrCode} {es : List Entry} : FlashError code → es = v.saved ∨ es = v.ram →
      Step v (.save, code) ⟨es, es⟩
  | setAndSave {v w u : View} {key value : CString} {code : EfErrCode} : Step v (.set key value, .efNoErr) w →
      Step w (.save, code) u → Step v (.setAndSave key value, code) u
  | setFailed {v w : View} {key value : CString} {code : EfErrCode} : code ≠ .efNoErr →
      Step v (.set key value, code) w → Step v (.setAndSave key value, code) w
  | delAndSave {v w u : View} {key : CString} {code : EfErrCode} : Step v (.del key, .efNoErr) w →
      Step w (.save, code) u → Step v (.delAndSave key, code) u
  | delFailed {v w : View} {key : CString} {code : EfErrCode} : code ≠ .efNoErr →
      Step v (.del key, code) w → Step v (.delAndSave key, code) w
  | setDefault (v : View) : Step v (.setDefault, .efNoErr) ⟨defaults, defaults⟩
  | setDefaultCut (v : View) {code : EfErrCode} {es : List Entry} : FlashError code → es = v.saved ∨ es = defaults →
      Step v (.setDefault, code) ⟨es, es⟩
  | start (v : View) : Step v (.start, .efNoErr) ⟨v.saved, v.saved⟩

/-! ## One call -/

variable (d : Device efEraseMinSize) {S : Store} {slots : Slots Contents} {i : Bool} {n b : ℕ} {v : View}

/-- The store serves `v`, after at most `b` saves. -/
def Within (S : Store) (b : ℕ) (v : View) : Prop := ∃ slots i n, Serves S slots i n v ∧ n ≤ b

theorem Serves.within (h : Serves S slots i n v) (hn : n ≤ b) : Within S b v := ⟨slots, i, n, h, hn⟩

theorem Within.mono (h : Within S n v) (hn : n ≤ b) : Within S b v := by
  obtain ⟨slots, i, k, hs, hk⟩ := h
  exact ⟨slots, i, k, hs, hk.trans hn⟩

theorem Entries.set_code (es : List Entry) (key value : CString) : ¬ FlashError (Entries.set es key value).1 := by
  unfold Entries.set Entries.create
  repeat' split
  all_goals
    dsimp only
    decide

theorem Entries.delete_code (es : List Entry) (key : CString) : ¬ FlashError (Entries.delete es key).1 := by
  unfold Entries.delete
  split
  all_goals
    dsimp only
    decide

theorem Serves.effect (h : Serves S slots i n v) {ram : EnvState} {r : EfErrCode × List Entry}
    (he : Effect S.ram v.ram r ram) : Serves { S with ram } slots i n { v with ram := r.2 } where
  flash := h.flash
  current := h.current
  ready := h.ready.effect he
  defaults := he.statics.defaults.trans h.defaults
  init := he.statics.init.trans h.init
  clean hch := by
    obtain ⟨rfl, heq⟩ | hc := he.changed
    · exact heq.trans (h.clean hch)
    · exact absurd (hch.symm.trans hc) Bool.false_ne_true

theorem trip_ok {call : Call} {code : EfErrCode} {S' : Store} (h : call.perform d S = .ok (code, S'))
    (hcode : ¬ FlashError code) : trip d S call = .ok (code, S') := by
  unfold trip
  rw [h, ok_bind]
  dsimp only
  rw [if_neg hcode]
  rfl

theorem trip_cut {call : Call} {code : EfErrCode} {S' : Store} {es : List Entry}
    (h : call.perform d S = .ok (code, S')) (hcode : FlashError code) (hm : Represents S'.flash slots)
    (hc : Current slots i n ⟨efEnvVerNum, es⟩) (hn : n < 0xFFFFFFFF) :
    ∃ S'', trip d S call = .ok (code, S'') ∧ Serves S'' slots i n ⟨es, es⟩ := by
  obtain ⟨S'', hS, -, hserves⟩ := easyflashInit_current d hm hc hn
  refine ⟨S'', ?_, hserves⟩
  unfold trip
  rw [h, ok_bind]
  dsimp only
  rw [if_pos hcode, hS, ok_bind]
  rfl

theorem efSaveEnv_serves (hd : Detectable d) (h : Serves S slots i n v) (hn : n + 1 < 0xFFFFFFFF) :
    ∃ code S', efSaveEnv d S = .ok (code, S') ∧
      (code = .efNoErr ∧ Within S' (n + 1) ⟨v.ram, v.ram⟩ ∨
        FlashError code ∧ ∃ slots' i' n' es, Represents S'.flash slots' ∧ Current slots' i' n' ⟨efEnvVerNum, es⟩ ∧
          n' ≤ n + 1 ∧ (es = v.saved ∨ es = v.ram)) := by
  cases hch : S.ram.envCacheChanged with
  | false =>
    refine ⟨.efNoErr, S, ?_, .inl ⟨rfl, slots, i, n, ?_, Nat.le_succ n⟩⟩
    · rw [efSaveEnv, hch, Bool.not_false, if_pos rfl]
      rfl
    · exact ⟨h.flash, h.clean hch ▸ h.current, h.ready, h.defaults, h.init, fun _ => rfl⟩
  | true =>
    obtain ⟨code, S', hS, ho⟩ := efSaveEnv_outcome d hd h.ready h.flash hch (by omega)
    refine ⟨code, S', hS, ?_⟩
    cases ho with
    | done hready hdef hinit hch' hm =>
      have hs : Serves ⟨_, _⟩ _ (!i) (n + 1) ⟨v.ram, v.ram⟩ := ⟨hm, h.current.commit (Nat.lt_succ_self n) _, hready,
        hdef.trans h.defaults, hinit.trans h.init, fun _ => rfl⟩
      exact .inl ⟨rfl, hs.within (Nat.le_refl _)⟩
    | failed slot hcode hslot hm _ =>
      obtain hc | hc := h.current.attempt hslot
      · exact .inr ⟨hcode, _, _, n, _, hm, hc, Nat.le_succ n, .inl rfl⟩
      · exact .inr ⟨hcode, _, _, n + 1, _, hm, hc, Nat.le_refl _, .inr rfl⟩

theorem save_step (hd : Detectable d) (h : Serves S slots i n v) (hn : n + 1 < 0xFFFFFFFF) {S₀ : Store} {call : Call}
    (hp : call.perform d S₀ = efSaveEnv d S) :
    ∃ code S' v', trip d S₀ call = .ok (code, S') ∧ View.Step v (.save, code) v' ∧ Within S' (n + 1) v' := by
  obtain ⟨code, S', hS, ⟨rfl, hw⟩ | ⟨hcode, slots', i', n', es, hm, hc, hn', hes⟩⟩ := efSaveEnv_serves d hd h hn
  · exact ⟨_, S', _, trip_ok d (hp.trans hS) (by decide), .save v, hw⟩
  · obtain ⟨S'', ht, hs⟩ := trip_cut d (hp.trans hS) hcode hm hc (by omega)
    exact ⟨code, S'', _, ht, .saveCut v hcode hes, hs.within hn'⟩

theorem setDefault_step (hd : Detectable d) (h : Serves S slots i n v) (hn : n ≤ b) (hb : 2 ≤ b)
    (hlt : b < 0xFFFFFFFF) :
    ∃ code S' v', trip d S .setDefault = .ok (code, S') ∧ View.Step v (.setDefault, code) v' ∧ Within S' b v' := by
  obtain ⟨code, S', hS, ho⟩ := efEnvSetDefault_outcome d hd h.ready.cur h.ready.next h.flash
    (by rw [h.defaults]; exact defaults_ne)
  rw [h.defaults, ← defaults] at ho
  have hp : Call.setDefault.perform d S = .ok (code, S') := hS
  have cut : ∀ {slots' : Slots Contents} {j : Bool} {k : ℕ} {es : List Entry}, FlashError code →
      Represents S'.flash slots' → Current slots' j k ⟨efEnvVerNum, es⟩ → k ≤ b → es = v.saved ∨ es = defaults →
      ∃ code S' v', trip d S .setDefault = .ok (code, S') ∧ View.Step v (.setDefault, code) v' ∧ Within S' b v' := by
    intro slots' j k es hcode hm hc hk hes
    obtain ⟨S'', ht, hserves⟩ := trip_cut d hp hcode hm hc (by omega)
    exact ⟨code, S'', _, ht, .setDefaultCut v hcode hes, hserves.within hk⟩
  -- the two saves of the default entries, whatever the second one leaves
  have hfirst : ∀ slot, Function.update (Function.update slots (!i) (some (1, ⟨efEnvVerNum, defaults⟩))) i slot (!i) =
      some (1, ⟨efEnvVerNum, defaults⟩) := by
    intro slot
    rw [Function.update_of_ne (Bool.not_ne_self i), Function.update_self]
  have hlast : ∀ slot, ∀ k (c : Contents), Function.update
      (Function.update slots (!i) (some (1, ⟨efEnvVerNum, defaults⟩))) i slot (!i) = some (k, c) → k < 2 := by
    intro slot k c hk
    rw [hfirst slot, Option.some.injEq, Prod.mk.injEq] at hk
    omega
  cases ho with
  | done hready hdef hinit hch hm =>
    have hc : Current _ i 2 (⟨efEnvVerNum, defaults⟩ : Contents) := current_of_lt (Function.update_self ..) (hlast _)
    have hs : Serves ⟨_, _⟩ _ i 2 ⟨defaults, defaults⟩ :=
      ⟨hm, hc, hready, hdef.trans h.defaults, hinit.trans h.init, fun _ => rfl⟩
    exact ⟨_, _, _, trip_ok d hp (by decide), .setDefault v, hs.within hb⟩
  | first slot hcode hslot hm =>
    obtain hc | hc := h.current.attempt hslot
    · exact cut hcode hm hc hn (.inl rfl)
    · exact cut hcode hm hc (by omega) (.inr rfl)
  | second slot hcode hslot hm =>
    rcases hslot with rfl | rfl | rfl
    · have hc : Current _ (!i) 1 (⟨efEnvVerNum, defaults⟩ : Contents) := current_of_lt (hfirst none) fun k c hk => by
        rw [Bool.not_not, Function.update_self] at hk
        cases hk
      exact cut hcode hm hc (by omega) (.inr rfl)
    · rw [Function.update_eq_self_iff.mpr (update_other slots i _).symm] at hm
      obtain hc | hc := h.current.attempt (.inr (.inr rfl))
      · exact cut hcode hm hc hn (.inl rfl)
      · exact cut hcode hm hc (by omega) (.inr rfl)
    · exact cut hcode hm (current_of_lt (Function.update_self ..) (hlast _)) hb (.inr rfl)

theorem set_perform (h : Serves S slots i n v) (key value : CString) :
    ∃ ram, efSetEnv S.ram key (some value) = .ok ((Entries.set v.ram key value).1, ram) ∧
      Serves { S with ram } slots i n { v with ram := (Entries.set v.ram key value).2 } := by
  obtain ⟨ram, hs, he⟩ := efSetEnv_effect h.ready.holds h.init key value
  exact ⟨ram, hs, h.effect he⟩

theorem del_perform (h : Serves S slots i n v) (key : CString) :
    ∃ ram, efDelEnv S.ram key = .ok ((Entries.delete v.ram key).1, ram) ∧
      Serves { S with ram } slots i n { v with ram := (Entries.delete v.ram key).2 } := by
  obtain ⟨ram, hs, he⟩ := efDelEnv_effect h.ready.holds h.init key
  exact ⟨ram, hs, h.effect he⟩

/-- **One call, with the start that follows it when the flash fails.** -/
theorem trip_step (hd : Detectable d) (h : Within S b v) (hb : 2 ≤ b) (hlt : b + 1 < 0xFFFFFFFF) (call : Call) :
    ∃ code S' v', trip d S call = .ok (code, S') ∧ View.Step v (call, code) v' ∧ Within S' (b + 1) v' := by
  obtain ⟨slots, i, n, h, hn⟩ := h
  cases call with
  | set key value =>
    obtain ⟨ram, hset, hs⟩ := set_perform h key value
    have hp : (Call.set key value).perform d S = .ok ((Entries.set v.ram key value).1, { S with ram }) := by
      rw [Call.perform, hset]
      rfl
    exact ⟨_, _, _, trip_ok d hp (Entries.set_code _ _ _), .set v key value, hs.within (by omega)⟩
  | del key =>
    obtain ⟨ram, hdel, hs⟩ := del_perform h key
    have hp : (Call.del key).perform d S = .ok ((Entries.delete v.ram key).1, { S with ram }) := by
      rw [Call.perform, hdel]
      rfl
    exact ⟨_, _, _, trip_ok d hp (Entries.delete_code _ _), .del v key, hs.within (by omega)⟩
  | save =>
    have hp : Call.save.perform d S = efSaveEnv d S := rfl
    obtain ⟨code, S', v', ht, hstep, hw⟩ := save_step d hd h (by omega) hp
    exact ⟨code, S', v', ht, hstep, hw.mono (by omega)⟩
  | setAndSave key value =>
    obtain ⟨ram, hset, hs⟩ := set_perform h key value
    by_cases hcode : (Entries.set v.ram key value).1 = .efNoErr
    · have hp : (Call.setAndSave key value).perform d S = efSaveEnv d { S with ram } := by
        rw [Call.perform, efSetAndSaveEnv, hset, hcode, ok_bind]
      obtain ⟨code, S', v', ht, hstep, hw⟩ := save_step d hd hs (by omega) hp
      exact ⟨code, S', v', ht, .setAndSave (hcode ▸ .set v key value) hstep, hw.mono (by omega)⟩
    · have hp : (Call.setAndSave key value).perform d S = .ok ((Entries.set v.ram key value).1, { S with ram }) := by
        rw [Call.perform, efSetAndSaveEnv, hset, ok_bind]
        generalize (Entries.set v.ram key value).1 = code at hcode
        cases code <;> first | rfl | exact absurd rfl hcode
      exact ⟨_, _, _, trip_ok d hp (Entries.set_code _ _ _), .setFailed hcode (.set v key value), hs.within (by omega)⟩
  | delAndSave key =>
    obtain ⟨ram, hdel, hs⟩ := del_perform h key
    by_cases hcode : (Entries.delete v.ram key).1 = .efNoErr
    · have hp : (Call.delAndSave key).perform d S = efSaveEnv d { S with ram } := by
        rw [Call.perform, efDelAndSaveEnv, hdel, hcode, ok_bind]
      obtain ⟨code, S', v', ht, hstep, hw⟩ := save_step d hd hs (by omega) hp
      exact ⟨code, S', v', ht, .delAndSave (hcode ▸ .del v key) hstep, hw.mono (by omega)⟩
    · have hp : (Call.delAndSave key).perform d S = .ok ((Entries.delete v.ram key).1, { S with ram }) := by
        rw [Call.perform, efDelAndSaveEnv, hdel, ok_bind]
        generalize (Entries.delete v.ram key).1 = code at hcode
        cases code <;> first | rfl | exact absurd rfl hcode
      exact ⟨_, _, _, trip_ok d hp (Entries.delete_code _ _), .delFailed hcode (.del v key), hs.within (by omega)⟩
  | setDefault =>
    obtain ⟨code, S', v', ht, hstep, hw⟩ := setDefault_step d hd h hn hb (by omega)
    exact ⟨code, S', v', ht, hstep, hw.mono (by omega)⟩
  | start =>
    obtain ⟨S', hS, -, hs⟩ := easyflashInit_current d h.flash h.current (by omega)
    exact ⟨_, S', _, trip_ok d hS (by decide), .start v, hs.within (by omega)⟩

/-! ## Runs -/

theorem trips_run : ∀ {calls : List (Device efEraseMinSize × Call)} {S : Store} {b : ℕ} {v : View}, Within S b v →
    2 ≤ b → b + calls.length < 0xFFFFFFFF → (∀ p ∈ calls, Detectable p.1) →
    ∃ labels S' v', trips S calls = .ok (labels, S') ∧ labels.map Prod.fst = calls.map Prod.snd ∧
      Run View.Step v labels v' ∧ Within S' (b + calls.length) v'
  | [], S, b, v, h, _, _, _ => ⟨[], S, v, rfl, rfl, .nil v, h⟩
  | (d, call) :: rest, S, b, v, h, hb, hlt, hd => by
    rw [List.length_cons] at hlt
    obtain ⟨code, S₁, v₁, h₁, hstep, hw₁⟩ := trip_step d (hd _ (List.mem_cons_self ..)) h hb (by omega) call
    obtain ⟨labels, S₂, v₂, h₂, hlabels, hrun, hw₂⟩ :=
      trips_run hw₁ (by omega) (by omega) fun p hp => hd p (List.mem_cons_of_mem _ hp)
    refine ⟨(call, code) :: labels, S₂, v₂, ?_, ?_, hrun.cons hstep, hw₂.mono ?_⟩
    · rw [trips, h₁, ok_bind]
      dsimp only
      rw [h₂, ok_bind]
      rfl
    · rw [List.map_cons, List.map_cons, hlabels]
    · rw [List.length_cons]
      omega

theorem Serves.readEnv (h : Serves S slots i n v) (key : CString) :
    readEnv S.ram key = .ok (Entries.get v.ram key) :=
  readEnv_eq h.ready.holds h.init key

theorem within_first {S : Store} {d : Device efEraseMinSize} {m : Mem} (hd : Detectable d) (hm : Fresh m)
    (h : easyflashInit d m = .ok (.efNoErr, S)) : Within S 2 ⟨defaults, defaults⟩ := by
  obtain ⟨code, S₀, h₀, ⟨-, hw⟩ | ⟨hcode, -⟩⟩ := easyflashInit_fresh d hd hm
  · obtain rfl : S₀ = S := (Prod.mk.inj (Except.ok.inj (h₀.symm.trans h))).2
    exact hw
  · obtain rfl : code = .efNoErr := (Prod.mk.inj (Except.ok.inj (h₀.symm.trans h))).1
    rcases hcode with hcode | hcode <;> cases hcode

theorem memWord_erased {m : Mem} {a : Nat} (h : ∀ j, a ≤ j → j < a + 4 → m j = 0xFF) : memWord m a = 0xFFFFFFFF := by
  have hread : Nor.read m a 4 = [0xFF, 0xFF, 0xFF, 0xFF] := Nor.read_congr h
  have hvalue : Bytes.value [0xFF, 0xFF, 0xFF, 0xFF] = 0xFFFFFFFF := by decide
  rw [memWord, hread, hvalue]

def device (erases writes : Bool) : Device efEraseMinSize := Nor.stopping efEraseMinSize (by decide) erases writes

theorem device_detectable (erases writes : Bool) : Detectable (device erases writes) where
  erase_fail m i n h₁ _ _ := by
    have hsize := envParamByteSize_eq
    refine .inl (.inl (memWord_erased fun j h₂ h₃ => if_pos ⟨?_, ?_⟩))
    · exact Nat.le_trans (Nat.div_mul_le_self ..) h₂
    · exact Nat.lt_of_lt_of_le (by omega) (Nor.le_blockEnd (by decide) (areaAddr i + n))
  write_fail m i bs h₁ _ he h := by
    subst h
    have hsize := envParamByteSize_eq
    exact .inl (.inl (memWord_erased fun j h₂ h₃ => he j h₂ (by omega)))

def blank : Mem := fun _ => 0xFF

theorem blank_fresh : Fresh blank := .inl fun _ => .inl (memWord_erased fun _ _ _ => rfl)

def storeOf : Except Fault (EfErrCode × Store) → Store
  | .ok (_, S) => S
  | .error _ => ⟨{}, blank⟩

theorem eq_storeOf {code : EfErrCode} : ∀ {r : Except Fault (EfErrCode × Store)}, r.map Prod.fst = .ok code →
    r = .ok (code, storeOf r)
  | .ok (_, S), h => by
    cases h
    rfl

def areaImage (a n ver : Nat) (es : List Entry) : List UInt8 :=
  let head := Bytes.digits 4 (a + envParamByteSize + (encAll es).length) ++ Bytes.digits 4 n
  head ++ Bytes.digits 4 ver ++ Bytes.digits 4 (efCalcCrc32 0 (head ++ encAll es)).toNat ++ encAll es

def firstStore : Store := storeOf (easyflashInit (device true true) blank)

theorem firstStore_eq : easyflashInit (device true true) blank = .ok (.efNoErr, firstStore) := by
  have hcode : (easyflashInit (device true true) blank).map Prod.fst = .ok .efNoErr := by decide
  rw [firstStore]
  exact eq_storeOf hcode

def Call.Keeps : Call → Prop
  | set _ _ | del _ | start => True
  | save | setAndSave _ _ | delAndSave _ | setDefault => False

theorem View.Step.saved_eq {call : Call} {code : EfErrCode} {v w : View} (h : View.Step v (call, code) w)
    (hk : call.Keeps) : w.saved = v.saved := by
  cases h with
  | set => rfl
  | del => rfl
  | start => rfl
  | save => exact hk.elim
  | saveCut => exact hk.elim
  | setAndSave => exact hk.elim
  | setFailed => exact hk.elim
  | delAndSave => exact hk.elim
  | delFailed => exact hk.elim
  | setDefault => exact hk.elim
  | setDefaultCut => exact hk.elim

theorem saved_eq_of_run {labels : List (Call × EfErrCode)} {v w : View} (h : Run View.Step v labels w)
    (hk : ∀ l ∈ labels, l.1.Keeps) : w.saved = v.saved := by
  induction h with
  | nil => rfl
  | snoc _ hst ih =>
    rename_i labels l _
    have hl := hst.saved_eq (hk l (List.mem_append_right _ (List.mem_singleton_self l)))
    exact hl.trans (ih fun l' hl' => hk l' (List.mem_append_left _ hl'))

theorem View.Step.save_ok {v w : View} (h : View.Step v (.save, .efNoErr) w) : w = ⟨v.ram, v.ram⟩ := by
  cases h with
  | save => rfl
  | saveCut _ hcode _ => rcases hcode with hcode | hcode <;> cases hcode

/-- The stores that the program reaches, by calls that the flash may fail. -/
inductive Reachable : ℕ → Store → Prop
  | first {d : Device efEraseMinSize} {m : Mem} {S : Store} : Detectable d → Fresh m →
      easyflashInit d m = .ok (.efNoErr, S) → Reachable 0 S
  | call {k : ℕ} {d : Device efEraseMinSize} {S S' : Store} {call : Call} {code : EfErrCode} : Reachable k S →
      Detectable d → trip d S call = .ok (code, S') → Reachable (k + 1) S'

theorem Reachable.within {k : ℕ} {S : Store} (h : Reachable k S) (hk : k < 0xFFFFFFFD) : ∃ v, Within S (k + 2) v := by
  induction h with
  | first hd hm h => exact ⟨_, within_first hd hm h⟩
  | call _ hd ht ih =>
    obtain ⟨v, hw⟩ := ih (by omega)
    obtain ⟨code, S', v', ht', -, hw'⟩ := trip_step _ hd hw (by omega) (by omega) _
    obtain rfl := (Prod.mk.inj (Except.ok.inj (ht'.symm.trans ht))).2
    exact ⟨v', hw'⟩

def setStore : Store :=
  storeOf (trip (device true true) firstStore (.set (cstring "ssid") (cstring "roc")))

def savedStore : Store := storeOf (trip (device true true) setStore .save)

theorem setStore_eq : trip (device true true) firstStore (.set (cstring "ssid") (cstring "roc")) =
    .ok (.efNoErr, setStore) := by
  have hcode : (trip (device true true) firstStore (.set (cstring "ssid") (cstring "roc"))).map Prod.fst =
    .ok .efNoErr := by decide
  rw [setStore]
  exact eq_storeOf hcode

theorem savedStore_eq : trip (device true true) setStore .save = .ok (.efNoErr, savedStore) := by
  have hcode : (trip (device true true) setStore .save).map Prod.fst = .ok .efNoErr := by decide
  rw [savedStore]
  exact eq_storeOf hcode

theorem setStore_reachable : Reachable 1 setStore :=
  .call (.first (device_detectable true true) blank_fresh firstStore_eq) (device_detectable true true) setStore_eq

def starts : List (Device efEraseMinSize) → Mem → Except Fault Mem
  | [], m => .ok m
  | d :: ds, m => do
    let (_, S) ← easyflashInit d m
    starts ds S.flash

theorem Serves.fresh (h : Serves S slots i n ⟨EasyFlash.defaults, EasyFlash.defaults⟩) (hn : n ≤ 2) : Fresh S.flash :=
  .inr ⟨slots, i, n, h.flash, h.current, hn⟩

theorem starts_fresh : ∀ {ds : List (Device efEraseMinSize)} {m : Mem}, (∀ d ∈ ds, Detectable d) → Fresh m →
    ∃ m', starts ds m = .ok m' ∧ Fresh m'
  | [], m, _, hm => ⟨m, rfl, hm⟩
  | d :: ds, m, hd, hm => by
    obtain ⟨code, S, h, ho⟩ := easyflashInit_fresh d (hd d (List.mem_cons_self ..)) hm
    have hfresh : Fresh S.flash := by
      obtain ⟨-, slots, i, n, hs, hn⟩ | ⟨-, hf⟩ := ho
      · exact hs.fresh hn
      · exact hf
    obtain ⟨m', hm', hf⟩ := starts_fresh (fun d' hd' => hd d' (List.mem_cons_of_mem _ hd')) hfresh
    exact ⟨m', by rw [starts, h, ok_bind]; exact hm', hf⟩

end RocCar.EasyFlash

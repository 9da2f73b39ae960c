import RocCar.EnvRun

/-!
# The store as a map

A key without an equal sign has at most one value. A set or a delete changes the
value of its own key only, and says what that value has become.
-/

namespace RocCar.EasyFlash

open Cells Fallible
open Nor (Device)
open Wifi (CString equalSign)

namespace Entries

variable {es : List Entry} {key key' value : CString}

theorem get_plain (hp : Plain key) (es : List Entry) :
    get es key = (es.find? fun e => e.key = key).map Entry.value := by
  have hsame : (fun e : Entry => e.matches key.bytes) = fun e => decide (e.key = key) := by
    funext e
    rw [Bool.eq_iff_iff, e.matches_iff_key hp.2, decide_eq_true_eq]
  rw [get, hsame]

theorem get_del (hp : Plain key') (hne : key' ≠ key) : get (del es key) key' = get es key' := by
  have hsame : (fun e : Entry => decide (decide (e.key ≠ key) = true ∧ decide (e.key = key') = true)) =
      fun e => decide (e.key = key') := by
    funext e
    rw [decide_eq_decide, decide_eq_true_eq, decide_eq_true_eq]
    exact ⟨fun h => h.2, fun h => ⟨h ▸ hne, h⟩⟩
  rw [get_plain hp, get_plain hp, del, List.find?_filter, hsame]

theorem get_del_self (hp : Plain key) (es : List Entry) : get (del es key) key = none := by
  rw [get_plain hp, Option.map_eq_none_iff, List.find?_eq_none]
  intro e he
  have hne := (List.mem_filter.mp he).2
  simpa using hne

theorem get_append (es : List Entry) (e : Entry) (key : CString) :
    get (es ++ [e]) key = (get es key).or (if e.matches key.bytes then some e.value else none) := by
  rw [get, get, List.find?_append, Option.map_or, List.find?_singleton]
  split <;> rfl

theorem get_append_of_ne {e : Entry} (hp : Plain key) (hne : key ≠ e.key) : get (es ++ [e]) key = get es key := by
  rw [get_append, if_neg fun hm => hne ((e.matches_iff_key hp.2).mp hm).symm, Option.or_none]

theorem get_create_of_ne (hp : Plain key') (hne : key' ≠ key) : get (create es key value).2 key' = get es key' := by
  unfold create
  split
  · split
    · rfl
    · split
      · exact get_append_of_ne hp hne
      · rfl
  · rfl

theorem get_create_of_some {v : CString} (h : get es key' = some v) : get (create es key value).2 key' = some v := by
  unfold create
  split
  · split
    · exact h
    · split
      · rw [get_append, h, Option.some_or]
      · exact h
  · exact h

theorem create_new (hp : Plain key) (hnew : get es key = none) (value : CString) :
    create es key value =
      if Room es key value then (.efNoErr, es ++ [⟨key, value, hp.1, hp.2⟩]) else (.efEnvFull, es) := by
  have hne : ¬ ∃ e ∈ es, e.key = key := by
    rintro ⟨e, he, hk⟩
    have hm := (e.matches_iff_key hp.2).mpr hk
    exact Bool.false_ne_true ((get_eq_none_iff.mp hnew e he).symm.trans hm)
  unfold create
  rw [dif_pos hp, if_neg hne]

theorem get_create_new (hp : Plain key) (hnew : get es key = none) (value : CString) :
    get (create es key value).2 key = if Room es key value then some value else none := by
  rw [create_new hp hnew]
  split
  · rw [get_append, hnew, if_pos ((Entry.matches_iff_key hp.2 _).mpr rfl), Option.none_or]
  · exact hnew

theorem set_cases (es : List Entry) (key value : CString) :
    (set es key value).1 = .efNoErr ∧ get (set es key value).2 key = some value ∨
      (set es key value).1 = .efEnvFull ∧ get (set es key value).2 key = none ∨
      set es key value = (.efEnvNameErr, es) := by
  unfold set
  split
  · rename_i hv
    exact .inl ⟨rfl, hv⟩
  · split
    · rename_i hp
      have hg := get_create_new hp (get_del_self hp es) value
      by_cases hr : Room (del es key) key value
      · rw [if_pos hr] at hg
        exact .inl ⟨by rw [create_new hp (get_del_self hp es), if_pos hr], hg⟩
      · rw [if_neg hr] at hg
        exact .inr (.inl ⟨by rw [create_new hp (get_del_self hp es), if_neg hr], hg⟩)
    · exact .inr (.inr rfl)

theorem get_set (hp : Plain key) (es : List Entry) (value : CString) : get (set es key value).2 key =
    if get es key = some value ∨ Room (del es key) key value then some value else none := by
  unfold set
  by_cases hv : get es key = some value
  · rw [if_pos hv, if_pos (.inl hv)]
    exact hv
  · rw [if_neg hv, if_pos hp, get_create_new hp (get_del_self hp es)]
    exact if_congr (or_iff_right hv).symm rfl rfl

theorem get_set_of_ne (hp : Plain key') (hne : key' ≠ key) : get (set es key value).2 key' = get es key' := by
  unfold set
  split
  · rfl
  · split
    · rw [get_create_of_ne hp hne, get_del hp hne]
    · rfl

theorem get_delete_of_ne (hp : Plain key') (hne : key' ≠ key) : get (delete es key).2 key' = get es key' := by
  unfold delete
  split
  · exact get_del hp hne
  · rfl

theorem delete_cases (es : List Entry) (key : CString) :
    (delete es key).1 = .efNoErr ∧ get (delete es key).2 key = none ∨ delete es key = (.efEnvNameErr, es) := by
  unfold delete
  split
  · rename_i h
    exact .inl ⟨rfl, get_del_self h.1 es⟩
  · exact .inr rfl

/-! ### Room -/

theorem del_del (es : List Entry) (key : CString) : del (del es key) key = del es key := by
  rw [del, del, List.filter_filter]
  exact List.filter_congr fun e _ => Bool.and_self _

theorem del_comm (es : List Entry) (key key' : CString) : del (del es key) key' = del (del es key') key := by
  rw [del, del, del, del, List.filter_filter, List.filter_filter]
  exact List.filter_congr fun e _ => Bool.and_comm ..

theorem del_append_self (es : List Entry) (e : Entry) : del (es ++ [e]) e.key = del es e.key := by
  rw [del, List.filter_append, List.filter_cons_of_neg (by simp), List.filter_nil, List.append_nil, del]

theorem del_set (hp : Plain key) (es : List Entry) (value : CString) : del (set es key value).2 key = del es key := by
  unfold set
  split
  · rfl
  · rw [create_new hp (get_del_self hp es)]
    split
    · exact (del_append_self (del es key) ⟨key, value, hp.1, hp.2⟩).trans (del_del es key)
    · exact del_del es key

def size (key : CString) (value : Option CString) : ℕ :=
  (value.map fun value => wordAlign (key.strlen + value.strlen + 2)).getD 0

/-- The bytes that the entry of a key takes. -/
theorem length_del (hp : Plain key) (hd : es.Pairwise fun e e' => e.key ≠ e'.key) :
    (encAll es).length = (encAll (del es key)).length + size key (get es key) := by
  by_cases hex : ∃ e ∈ es, e.key = key
  · obtain ⟨e, he, rfl⟩ := hex
    obtain ⟨pre, post, rfl⟩ := List.append_of_mem he
    have hpre : ∀ e' ∈ pre, e'.matches e.key.bytes = false := by
      intro e' he'
      have hne := (List.pairwise_append.mp hd).2.2 e' he' e (List.mem_cons_self ..)
      exact Bool.eq_false_iff.mpr fun hm => hne ((e'.matches_iff_key hp.2).mp hm)
    rw [get_eq_some hpre ((e.matches_iff_key hp.2).mpr rfl), del_eq hd rfl, size, Option.map_some, Option.getD_some,
      encAll_append, encAll_append, encAll_cons, List.length_append, List.length_append, List.length_append,
      e.length_enc, e.length_line,
      show e.key.strlen + e.value.strlen + 2 = e.key.strlen + e.value.strlen + 1 + 1 from rfl]
    omega
  · have hall : ∀ e ∈ es, e.key ≠ key := fun e he hk => hex ⟨e, he, hk⟩
    have hdel : del es key = es := List.filter_eq_self.mpr fun e he => decide_eq_true (hall e he)
    have hget : get es key = none := get_eq_none_iff.mpr fun e he =>
      Bool.eq_false_iff.mpr fun hm => hall e he ((e.matches_iff_key hp.2).mp hm)
    rw [hdel, hget]
    rfl

theorem del_distinct (hd : es.Pairwise fun e e' => e.key ≠ e'.key) (key : CString) :
    (del es key).Pairwise fun e e' => e.key ≠ e'.key :=
  hd.sublist List.filter_sublist

theorem set_code_iff (hp : Plain key) (es : List Entry) (value : CString) :
    (set es key value).1 = .efNoErr ↔ get es key = some value ∨ Room (del es key) key value := by
  unfold set
  by_cases hv : get es key = some value
  · rw [if_pos hv]
    exact iff_of_true rfl (.inl hv)
  · rw [if_neg hv, if_pos hp, create_new hp (get_del_self hp es), or_iff_right hv]
    split
    · rename_i hr
      exact iff_of_true rfl hr
    · rename_i hr
      exact iff_of_false (fun hc => by cases hc) hr

theorem set_room (hp : Plain key) (hr : Room (del es key) key value) :
    (set es key value).1 = .efNoErr ∧ get (set es key value).2 key = some value :=
  ⟨(set_code_iff hp es value).mpr (.inr hr), by rw [get_set hp, if_pos (.inr hr)]⟩

end Entries

/-- A save, whatever the device does, leaves the entries in use as they are. -/
theorem efSaveEnv_reads (d : Device efEraseMinSize) {S : Store} {slots : TwoSlot.Slots Contents} {i : Bool} {n : ℕ}
    {v : View} (h : Serves S slots i n v) : ∃ code S', efSaveEnv d S = .ok (code, S') ∧
      ∀ key, readEnv S'.ram key = .ok (Entries.get v.ram key) := by
  cases hch : S.ram.envCacheChanged with
  | false =>
    refine ⟨.efNoErr, S, ?_, h.readEnv⟩
    rw [efSaveEnv, hch, Bool.not_false, if_pos rfl]
    rfl
  | true =>
    have hholds := sealed_holds h.ready.holds h.ready.next_le
    have hsave := efSaveEnv_eq d (m := S.flash) h.ready.holds h.ready.next hch
    dsimp only at hsave
    split at hsave
    · exact ⟨_, _, hsave, readEnv_eq hholds h.init⟩
    · exact ⟨_, _, hsave, readEnv_eq (hholds.congr rfl rfl) h.init⟩

end RocCar.EasyFlash

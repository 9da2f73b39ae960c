import Mathlib.Data.List.GetD
import RocCar.Lib.Recent
import RocCar.WlanCfg

/-!
# The list and the package

A save moves a configuration to the front of the list, in place of an older one
of the same network. A package is accepted and holds the list it was made from.
-/

namespace RocCar.WlanCfg

open Bytes EasyFlash Fallible WifiStore
open Nor (Device)

/-! ## Networks -/

/-- A length that the functions above this layer let through. -/
structure Valid (c : CfgInfo) : Prop where
  ssidLen_le : c.ssidLen ≤ 32
  keyLen_le : c.keyLen ≤ 32

def network (c : CfgInfo) : List UInt8 × List UInt8 := (c.ssidVal.take c.ssidLen, c.bssid.take rtWlanBssidMaxLength)

def key (c : CfgInfo) : List UInt8 := c.keyVal.take c.keyLen

def credentials (c : CfgInfo) : (List UInt8 × List UInt8) × List UInt8 := (network c, key c)

theorem memcmpEq_eq : ∀ {cs ct : List UInt8} {n : Nat}, n ≤ cs.length → n ≤ ct.length →
    memcmpEq cs ct n = .ok (decide (cs.take n = ct.take n))
  | _, _, 0, _, _ => by simp [memcmpEq]
  | b :: cs, b' :: ct, n + 1, h, h' => by
    rw [memcmpEq, List.take_succ_cons, List.take_succ_cons]
    split
    · rename_i hb
      rw [memcmpEq_eq (Nat.le_of_succ_le_succ h) (Nat.le_of_succ_le_succ h'), hb]
      simp
    · rename_i hb
      simp [hb]

theorem length_ssidVal (c : CfgInfo) : c.ssidVal.length = 79 := by
  rw [CfgInfo.ssidVal, List.length_drop, Vector.length_toList]
  rfl

theorem length_bssid (c : CfgInfo) : c.bssid.length = 46 := by
  rw [CfgInfo.bssid, List.length_drop, Vector.length_toList]
  rfl

theorem length_keyVal (c : CfgInfo) : c.keyVal.length = 35 := by
  rw [CfgInfo.keyVal, List.length_drop, Vector.length_toList]
  rfl

theorem sameNetwork_eq {c c' : CfgInfo} (h : Valid c) (h' : Valid c') :
    sameNetwork c c' = .ok (decide (network c = network c')) := by
  have hle := h.ssidLen_le
  have hle' := h'.ssidLen_le
  have hs := length_ssidVal c
  have hs' := length_ssidVal c'
  have hb := length_bssid c
  have hb' := length_bssid c'
  have hmax : rtWlanBssidMaxLength = 6 := rfl
  unfold sameNetwork network
  split
  · rename_i hlen
    rw [memcmpEq_eq (by omega) (by omega), ok_bind, ← hlen]
    by_cases hval : c.ssidVal.take c.ssidLen = c'.ssidVal.take c.ssidLen
    · rw [if_pos (decide_eq_true hval), memcmpEq_eq (by omega) (by omega), hval]
      simp
    · rw [if_neg (by simpa using hval), decide_eq_false fun he => hval (Prod.mk.inj he).1]
      rfl
  · rename_i hlen
    rw [decide_eq_false]
    intro he
    have := congrArg List.length (Prod.mk.inj he).1
    rw [List.length_take, List.length_take] at this
    omega

theorem findCfg_eq {cfgInfo : CfgInfo} (h : Valid cfgInfo) : ∀ {cache : List CfgInfo}, (∀ c ∈ cache, Valid c) →
    findCfg cfgInfo cache = .ok (cache.findIdx? fun c => network c = network cfgInfo)
  | [], _ => rfl
  | c :: cache, hv => by
    obtain ⟨hc, hv⟩ := List.forall_mem_cons.mp hv
    rw [findCfg, sameNetwork_eq hc h, ok_bind, List.findIdx?_cons, findCfg_eq h hv]
    split <;> rfl

theorem keyIs_eq {cfgInfo c : CfgInfo} (h : Valid cfgInfo) (hc : Valid c) (cache : List CfgInfo) :
    keyIs cfgInfo (c :: cache) = .ok (decide (key c = key cfgInfo)) := by
  have hle := h.keyLen_le
  have hle' := hc.keyLen_le
  have hk := length_keyVal c
  have hk' := length_keyVal cfgInfo
  unfold keyIs key
  dsimp only
  split
  · rename_i hlen
    rw [memcmpEq_eq (by omega) (by omega), hlen]
  · rename_i hlen
    rw [decide_eq_false]
    intro he
    have := congrArg List.length he
    rw [List.length_take, List.length_take] at this
    omega

/-! ## The list -/

theorem moveUp_eq : ∀ {i : Nat} {c : CfgInfo} {cache : List CfgInfo}, i < (c :: cache).length →
    moveUp i (c :: cache) = .ok (c :: ((c :: cache).take i ++ (c :: cache).drop (i + 1)))
  | 0, c, cache, _ => rfl
  | i + 1, c, cache, h => by
    have hi : i < (c :: cache).length := Nat.lt_of_succ_lt h
    have hic : i < cache.length := Nat.lt_of_succ_lt_succ h
    have htail : (cache.set i (c :: cache)[i]).drop i = (c :: cache)[i] :: cache.drop (i + 1) := by
      rw [List.drop_eq_getElem_cons (by rw [List.length_set]; exact hic), List.getElem_set_self,
        List.drop_set_of_lt (Nat.lt_succ_self i)]
    have htake : (c :: cache.set i (c :: cache)[i]).take i = (c :: cache).take i := by
      rw [← List.set_cons_succ, List.take_set_of_le (Nat.le_succ i)]
    rw [moveUp, List.getElem?_eq_getElem hi]
    dsimp only
    rw [put, if_pos h, ok_bind, List.set_cons_succ, moveUp_eq (by rw [List.length_cons, List.length_set]; exact hi),
      htake, List.drop_succ_cons, htail, List.take_succ_eq_append_getElem hi, List.append_assoc,
      List.singleton_append, List.drop_succ_cons]

theorem moveUp_put {i : Nat} {cache : List CfgInfo} (h : i < cache.length) (cfgInfo : CfgInfo) :
    (moveUp i cache >>= fun cache => put Fault.write cache 0 cfgInfo) =
      .ok (cfgInfo :: (cache.take i ++ cache.drop (i + 1))) := by
  cases cache with
  | nil => exact absurd h (Nat.not_lt_zero i)
  | cons c cache =>
    rw [moveUp_eq h, ok_bind]
    rfl

theorem early_eq {cfgInfo : CfgInfo} (hc : Valid cfgInfo) : ∀ {cache : List CfgInfo}, (∀ c ∈ cache, Valid c) →
    (if (cache.findIdx? fun c => network c = network cfgInfo) = some 0 then keyIs cfgInfo cache else .ok false) =
      .ok (decide (cache.head?.map credentials = some (credentials cfgInfo)))
  | [], _ => rfl
  | c :: cache, hv => by
    have hcred : (c :: cache).head?.map credentials = some (credentials cfgInfo) ↔
        network c = network cfgInfo ∧ key c = key cfgInfo := by
      rw [List.head?_cons, Option.map_some, Option.some.injEq, credentials, credentials, Prod.mk.injEq]
    rw [List.findIdx?_cons, keyIs_eq hc (hv c (List.mem_cons_self ..))]
    by_cases hn : network c = network cfgInfo
    · rw [if_pos (decide_eq_true hn), if_pos rfl]
      exact congrArg _ (decide_eq_decide.mpr (hcred.trans (and_iff_right hn)).symm)
    · have hdec : ¬ decide (network c = network cfgInfo) = true := fun h => hn (of_decide_eq_true h)
      rw [if_neg hdec, if_neg (by simp), decide_eq_false fun he => hn (hcred.mp he).1]

theorem moved_eq {cfgInfo : CfgInfo} {cache : List CfgInfo} (hd : Recent.Distinct network cache)
    (hlen : cache.length ≤ rtWlanCfgInfoMax) {idx : Option Nat}
    (hidx : (cache.findIdx? fun c => network c = network cfgInfo) = idx) {fresh : Option CfgInfo}
    (hfresh : (idx.isNone && decide (cache.length < rtWlanCfgInfoMax) && fresh.isNone) = false) :
    (moveUp (if idx.getD cache.length ≥ rtWlanCfgInfoMax then rtWlanCfgInfoMax - 1 else idx.getD cache.length)
        (if idx.isNone && decide (cache.length < rtWlanCfgInfoMax) then cache ++ fresh.toList else cache) >>=
      fun cache => put Fault.write cache 0 cfgInfo) = .ok (Recent.use network rtWlanCfgInfoMax cfgInfo cache) := by
  have hmax : rtWlanCfgInfoMax = 3 := rfl
  cases idx with
  | some i =>
    obtain ⟨hi, hnet, -⟩ := List.findIdx?_eq_some_iff_getElem.mp hidx
    have hsplit : cache = cache.take i ++ cache[i] :: cache.drop (i + 1) := by
      rw [← List.drop_eq_getElem_cons hi, List.take_append_drop]
    have hforget : Recent.forget network cfgInfo cache = cache.take i ++ cache.drop (i + 1) := by
      rw [hsplit] at hd
      have := Recent.forget_append_cons hd (of_decide_eq_true hnet)
      rwa [← hsplit] at this
    have hall : (cfgInfo :: (cache.take i ++ cache.drop (i + 1))).length ≤ rtWlanCfgInfoMax := by
      rw [List.length_cons, List.length_append, List.length_take, List.length_drop]
      omega
    rw [Option.getD_some, Option.isNone_some, Bool.false_and, if_neg Bool.false_ne_true, if_neg (by omega),
      moveUp_put hi, Recent.use, hforget, List.take_of_length_le hall]
  | none =>
    have hnone : ∀ c ∈ cache, network c ≠ network cfgInfo := by simpa using List.findIdx?_eq_none_iff.mp hidx
    rw [Option.getD_none, Option.isNone_none, Bool.true_and, Recent.use, Recent.forget_of_forall hnone]
    by_cases hfull : cache.length < rtWlanCfgInfoMax
    · rw [Option.isNone_none, Bool.true_and, decide_eq_true hfull, Bool.true_and] at hfresh
      obtain ⟨c, rfl⟩ := Option.isSome_iff_exists.mp (Option.isNone_eq_false_iff.mp hfresh)
      have hgrown : (cache ++ [c]).length = cache.length + 1 := by rw [List.length_append, List.length_singleton]
      have hall : (cfgInfo :: cache).length ≤ rtWlanCfgInfoMax := by rw [List.length_cons]; omega
      rw [if_pos (decide_eq_true hfull), if_neg (Nat.not_le.mpr hfull), Option.toList_some, moveUp_put (by omega),
        List.take_left, List.drop_eq_nil_of_le (Nat.le_of_eq hgrown), List.append_nil, List.take_of_length_le hall]
    · have hthree : cache.length = 2 + 1 := by omega
      have hdec : ¬ decide (cache.length < rtWlanCfgInfoMax) = true := fun h => hfull (of_decide_eq_true h)
      rw [if_neg hdec, if_pos (Nat.le_of_not_lt hfull), moveUp_put (by omega),
        List.drop_eq_nil_of_le (by omega), List.append_nil]
      rfl

/-- The list has to grow, and there is no memory for it. -/
def Lacks (heap : Heap) (cfgInfo : CfgInfo) (cache : List CfgInfo) : Prop :=
  ((cache.findIdx? fun c => network c = network cfgInfo).isNone && decide (cache.length < rtWlanCfgInfoMax) &&
    heap.realloc.isNone) = true

instance (heap : Heap) (cfgInfo : CfgInfo) (cache : List CfgInfo) : Decidable (Lacks heap cfgInfo cache) :=
  inferInstanceAs (Decidable (_ = true))

/-- The list that a package can hold. -/
structure Sound (cfgs : List CfgInfo) : Prop where
  valid : ∀ c ∈ cfgs, Valid c
  distinct : Recent.Distinct network cfgs
  length_le : cfgs.length ≤ rtWlanCfgInfoMax

/-- **A save moves to the front**, if the record in front is not already the same
network with the same key. -/
theorem rtWlanCfgSave_eq (heap : Heap) (d : Device efEraseMinSize) {cfgInfo : CfgInfo} {s : Wlan}
    (hc : Valid cfgInfo) (hs : Sound s.cache) :
    rtWlanCfgSave heap d cfgInfo s =
      if cfgInfo.ssidLen = 0 then .ok (.rtEinval, s)
      else if s.cache.head?.map credentials = some (credentials cfgInfo) then .ok (.rtEok, s)
      else if Lacks heap cfgInfo s.cache then .ok (.rtEnomem, s)
      else rtWlanCfgCacheSave heap d
        { s with cache := Recent.use network rtWlanCfgInfoMax cfgInfo s.cache } := by
  unfold rtWlanCfgSave
  by_cases hne : cfgInfo.ssidLen = 0
  · rw [if_pos hne, if_pos hne]
    rfl
  rw [if_neg hne, if_neg hne, findCfg_eq hc hs.valid, ok_bind, early_eq hc hs.valid, ok_bind]
  by_cases he : s.cache.head?.map credentials = some (credentials cfgInfo)
  · rw [if_pos (decide_eq_true he), if_pos he]
    rfl
  rw [if_neg (fun hd => he (of_decide_eq_true hd)), if_neg he]
  by_cases hl : Lacks heap cfgInfo s.cache
  · rw [if_pos hl]
    exact if_pos hl
  · rw [if_neg hl]
    refine (if_neg hl).trans ?_
    rw [← bind_assoc, moved_eq hs.distinct hs.length_le rfl (Bool.eq_false_of_not_eq_true hl)]
    rfl

/-! ## The package -/

theorem length_bytes (c : CfgInfo) : c.bytes.toList.length = rtWlanCfgInfoSize := Vector.length_toList

theorem length_records : ∀ cache : List CfgInfo, (records cache).length = rtWlanCfgInfoSize * cache.length
  | [] => rfl
  | c :: cache => by
    have ih := length_records cache
    unfold records at ih ⊢
    rw [List.flatMap_cons, List.length_append, ih, length_bytes, List.length_cons, Nat.mul_succ, Nat.add_comm]

theorem recordAt_zero (c : CfgInfo) (rest : List UInt8) : recordAt (c.bytes.toList ++ rest) 0 = c := by
  have hbytes : (recordAt (c.bytes.toList ++ rest) 0).bytes = c.bytes := by
    apply Vector.ext
    intro j hj
    have hlt : j < c.bytes.toList.length := by rw [length_bytes]; exact hj
    rw [recordAt, Vector.getElem_ofFn, Nat.mul_zero, Nat.zero_add, List.getD_append _ _ _ _ hlt,
      List.getD_eq_getElem _ _ hlt, Vector.getElem_toList]
  exact congrArg CfgInfo.mk hbytes

theorem recordAt_succ (c : CfgInfo) (rest : List UInt8) (i : Nat) :
    recordAt (c.bytes.toList ++ rest) (i + 1) = recordAt rest i := by
  unfold recordAt
  refine congrArg CfgInfo.mk (congrArg Vector.ofFn (funext fun j => ?_))
  have hle : rtWlanCfgInfoSize ≤ rtWlanCfgInfoSize * (i + 1) + j := by
    rw [Nat.mul_succ]
    omega
  have hsub : rtWlanCfgInfoSize * (i + 1) + j - rtWlanCfgInfoSize = rtWlanCfgInfoSize * i + j := by
    rw [Nat.mul_succ]
    omega
  rw [List.getD_append_right _ _ _ _ (by rw [length_bytes]; exact hle), length_bytes, hsub]

theorem map_recordAt : ∀ cache : List CfgInfo, (List.range cache.length).map (recordAt (records cache)) = cache
  | [] => rfl
  | c :: cache => by
    have hrecords : records (c :: cache) = c.bytes.toList ++ records cache := List.flatMap_cons ..
    rw [List.length_cons, List.range_succ_eq_map, List.map_cons, List.map_map, hrecords, recordAt_zero]
    refine congrArg (c :: ·) ((List.map_congr_left fun i _ => ?_).trans (map_recordAt cache))
    exact recordAt_succ c (records cache) i

theorem length_infoPkg (cache : List CfgInfo) :
    (infoPkg cache).length = cfgSaveInfoHeadSize + rtWlanCfgInfoSize * cache.length := by
  rw [infoPkg, List.length_append, List.length_append, List.length_append, List.length_append, length_digits,
    length_digits, length_digits, length_digits, length_records]

theorem drop_infoPkg (cache : List CfgInfo) : (infoPkg cache).drop cfgSaveInfoHeadSize = records cache := by
  rw [infoPkg, List.drop_left' (by simp only [List.length_append, length_digits])]

theorem headWord_append {pre : List UInt8} {k w : Nat} (h : pre.length = 4 * k) (hw : w < 2 ^ 32)
    (post : List UInt8) : headWord (pre ++ (digits 4 w ++ post)) k = w := by
  rw [headWord, List.drop_left' h, List.take_left' (length_digits 4 w), value_digits]
  exact Nat.mod_eq_of_lt hw

theorem headWord_infoPkg {cache : List CfgInfo} (h : cache.length ≤ rtWlanCfgInfoMax) :
    headWord (infoPkg cache) 0 = rtWlanCfgMagic ∧
      headWord (infoPkg cache) 1 = cfgSaveInfoHeadSize + rtWlanCfgInfoSize * cache.length ∧
      headWord (infoPkg cache) 2 = cache.length ∧
      headWord (infoPkg cache) 3 = (rtWlanCalCrc (records cache)).toNat := by
  have hmax : rtWlanCfgInfoMax = 3 := rfl
  have hhead : cfgSaveInfoHeadSize = 16 := rfl
  have hsize : rtWlanCfgInfoSize = 96 := rfl
  have hcrc := (rtWlanCalCrc (records cache)).toNat_lt
  have hlen : cfgSaveInfoHeadSize + rtWlanCfgInfoSize * cache.length < 2 ^ 32 := by
    rw [hsize]
    omega
  have hmagic : ∀ post, headWord (digits 4 rtWlanCfgMagic ++ post) 0 = rtWlanCfgMagic := by
    intro post
    rw [← List.nil_append (digits 4 rtWlanCfgMagic ++ post), headWord_append rfl (by decide)]
  unfold infoPkg
  refine ⟨?_, ?_, ?_, ?_⟩
  · rw [List.append_assoc, List.append_assoc, List.append_assoc, hmagic]
  · rw [List.append_assoc, List.append_assoc, List.append_assoc, headWord_append (k := 1) (length_digits ..) hlen]
  · rw [List.append_assoc, List.append_assoc, headWord_append (by
      rw [List.length_append, length_digits, length_digits]) (by omega)]
  · rw [List.append_assoc, headWord_append (by
      rw [List.length_append, List.length_append, length_digits, length_digits, length_digits]) (by omega)]

theorem addRecords_eq (realloc : Nat → Bool) : ∀ {cfgs : List CfgInfo} {i : Nat} {cache : List CfgInfo},
    Sound (cache ++ cfgs) → ∃ err kept, addRecords realloc cfgs i cache = .ok (err, cache ++ kept) ∧ kept <+: cfgs ∧
      ((∀ j, realloc j = true) → kept = cfgs)
  | [], _, cache, _ => ⟨.rtEok, [], by rw [List.append_nil]; rfl, List.prefix_rfl, fun _ => rfl⟩
  | c :: cfgs, i, cache, h => by
    have hsplit : cache ++ c :: cfgs = cache ++ [c] ++ cfgs := by rw [List.append_assoc, List.singleton_append]
    have hnew : (cache.findIdx? fun c' => network c' = network c) = none := by
      have hd := h.distinct
      refine List.findIdx?_eq_none_iff.mpr fun c' hc' => decide_eq_false fun hn => ?_
      unfold Recent.Distinct at hd
      rw [List.map_append, List.map_cons] at hd
      exact (List.nodup_append.mp hd).2.2 _ (List.mem_map_of_mem hc') _ (List.mem_cons_self ..) hn
    have hroom : ¬ cache.length ≥ rtWlanCfgInfoMax := by
      have hlen := h.length_le
      rw [List.length_append, List.length_cons] at hlen
      omega
    have hc : Valid c := h.valid c (List.mem_append_right _ (List.mem_cons_self ..))
    rw [addRecords, findCfg_eq hc fun c' hc' => h.valid c' (List.mem_append_left _ hc'), hnew, ok_bind,
      Option.isSome_none, if_neg hroom, if_neg Bool.false_ne_true]
    cases hr : realloc i with
    | false =>
      rw [if_neg Bool.false_ne_true]
      refine ⟨.rtError, [], by rw [List.append_nil]; rfl, List.nil_prefix, fun hall => ?_⟩
      exact absurd ((hall i).symm.trans hr) Bool.noConfusion
    | true =>
      rw [hsplit] at h
      obtain ⟨err, kept, heq, hprefix, hall⟩ := @addRecords_eq realloc cfgs (i + 1) _ h
      rw [if_pos rfl, heq, List.append_assoc, List.singleton_append]
      exact ⟨err, c :: kept, rfl, List.cons_prefix_cons.mpr ⟨rfl, hprefix⟩, fun hr => congrArg (c :: ·) (hall hr)⟩

/-- **What was packed is read back**, as far as there is memory for it. -/
theorem refresh_infoPkg {s : Wlan} {cfgs : List CfgInfo} (h : Sound cfgs) (hs : s.cache = [])
    (hr : ReadsCfg s.store.ram (infoPkg cfgs)) (fill : Nat → UInt8) (realloc : Nat → Bool) :
    ∃ err cache, rtWlanCfgCacheRefresh (some fill) realloc s = .ok (err, { s with cache }) ∧ cache <+: cfgs ∧
      ((∀ j, realloc j = true) → cache = cfgs) := by
  have hmax : rtWlanCfgInfoMax = 3 := rfl
  have hhead : cfgSaveInfoHeadSize = 16 := rfl
  have hlen := length_infoPkg cfgs
  obtain ⟨hmagic, htotal, hnum, hcrc⟩ := headWord_infoPkg h.length_le
  obtain ⟨hgetLen, hread⟩ := hr
  have hdata : ((infoPkg cfgs).length - cfgSaveInfoHeadSize) / rtWlanCfgInfoSize = cfgs.length := by
    rw [hlen, Nat.add_sub_cancel_left, Nat.mul_div_cancel_left _ (by decide)]
  have hwords : ¬ (rtWlanCfgMagic ≠ rtWlanCfgMagic ∨ cfgSaveInfoHeadSize + rtWlanCfgInfoSize * cfgs.length ≠
      (infoPkg cfgs).length ∨ cfgs.length ≠ cfgs.length ∨
      (rtWlanCalCrc (records cfgs)).toNat ≠ (rtWlanCalCrc (records cfgs)).toNat) := by
    rw [hlen]
    simp
  obtain ⟨err, cache, hadd, hprefix, hall⟩ := @addRecords_eq realloc cfgs 0 [] h
  refine ⟨err, cache, ?_, hprefix, hall⟩
  unfold rtWlanCfgCacheRefresh
  rw [hs, if_neg (by rw [List.length_nil]; omega), hgetLen, mapError_ok, ok_bind, if_neg (by omega)]
  dsimp only
  rw [Int.toNat_natCast, hread _ (by rw [List.length_map, List.length_range]), mapError_ok, ok_bind]
  dsimp only
  rw [if_neg (fun hne => hne rfl), if_neg (by omega), drop_infoPkg, hdata, hmagic, htotal, hnum, hcrc, if_neg hwords,
    map_recordAt, hadd]
  rfl

end RocCar.WlanCfg

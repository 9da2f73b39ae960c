import Mathlib.Data.List.Basic
import RocCar.Lib.Fallible

/-!
# Strings in memory

The memory from a pointer on is a list. The string there ends before the first
zero; a search that meets neither what it looks for nor a zero leaves the list
and fails.
-/

namespace Strings

universe u
variable {ε : Type u} (fault : ε)

def strlen : List UInt8 → Except ε Nat
  | [] => .error fault
  | b :: bs => if b = 0 then .ok 0 else strlen bs >>= fun n => .ok (n + 1)

/-- `!strncmp(s, key, strlen(key))` -/
def startsWith : List UInt8 → List UInt8 → Except ε Bool
  | _, [] => .ok true
  | [], _ :: _ => .error fault
  | b :: bs, k :: ks => if b = k then startsWith bs ks else .ok false

/-- The distance of the first `c`. -/
def strchr (c : UInt8) : List UInt8 → Except ε (Option Nat)
  | [] => .error fault
  | b :: bs =>
    if b = c then .ok (some 0)
    else if b = 0 then .ok none
    else strchr c bs >>= fun n => .ok (n.map (· + 1))

/-- `!strcmp(s, t)` -/
def streq : List UInt8 → List UInt8 → Except ε Bool
  | [], _ => .error fault
  | b :: _, [] => .ok (b == 0)
  | b :: bs, k :: ks => if b = k then streq bs ks else .ok false

def loadAt (bs : List UInt8) (i : Nat) : Except ε UInt8 :=
  match bs[i]? with
  | some b => .ok b
  | none => .error fault

theorem loadAt_of_getElem? {bs : List UInt8} {i : Nat} {b : UInt8} (h : bs[i]? = some b) :
    loadAt fault bs i = .ok b := by
  rw [loadAt, h]

theorem strlen_eq : ∀ {s : List UInt8} (rest : List UInt8), 0 ∉ s → strlen fault (s ++ 0 :: rest) = .ok s.length
  | [], _, _ => rfl
  | b :: s, rest, h => by
    rw [List.mem_cons, not_or] at h
    rw [List.cons_append, strlen, if_neg (Ne.symm h.1), strlen_eq rest h.2]
    rfl

/-- A key without a zero is compared no further than to the end of the string. -/
theorem startsWith_eq : ∀ {s key : List UInt8} (rest : List UInt8), 0 ∉ key →
    startsWith fault (s ++ 0 :: rest) key = .ok (key.isPrefixOf s)
  | _, [], _, _ => by simp [startsWith, List.isPrefixOf]
  | [], k :: ks, rest, h => by
    rw [List.mem_cons, not_or] at h
    rw [List.nil_append, startsWith, if_neg h.1]
    rfl
  | b :: s, k :: ks, rest, h => by
    rw [List.mem_cons, not_or] at h
    rw [List.cons_append, startsWith, List.isPrefixOf]
    by_cases hbk : b = k
    · rw [if_pos hbk, startsWith_eq rest h.2, hbk, beq_self_eq_true, Bool.true_and]
    · rw [if_neg hbk, beq_eq_false_iff_ne.mpr (Ne.symm hbk), Bool.false_and]

theorem strchr_eq {c : UInt8} : ∀ {before : List UInt8} (rest : List UInt8), c ∉ before → 0 ∉ before →
    strchr fault c (before ++ c :: rest) = .ok (some before.length)
  | [], rest, _, _ => by rw [List.nil_append, strchr, if_pos rfl]; rfl
  | b :: before, rest, hc, h => by
    rw [List.mem_cons, not_or] at h hc
    rw [List.cons_append, strchr, if_neg (Ne.symm hc.1), if_neg (Ne.symm h.1), strchr_eq rest hc.2 h.2]
    rfl

theorem streq_eq : ∀ {s t : List UInt8} (rest : List UInt8), 0 ∉ s → 0 ∉ t →
    streq fault (s ++ 0 :: rest) t = .ok (decide (s = t))
  | [], [], _, _, _ => by simp [streq]
  | [], k :: ks, rest, _, ht => by
    rw [List.mem_cons, not_or] at ht
    rw [List.nil_append, streq, if_neg ht.1]
    simp
  | b :: s, [], rest, hs, _ => by
    rw [List.mem_cons, not_or] at hs
    rw [List.cons_append, streq, beq_eq_false_iff_ne.mpr (Ne.symm hs.1)]
    simp
  | b :: s, k :: ks, rest, hs, ht => by
    rw [List.mem_cons, not_or] at hs ht
    rw [List.cons_append, streq]
    by_cases hbk : b = k
    · rw [if_pos hbk, streq_eq rest hs.2 ht.2]
      simp [hbk]
    · rw [if_neg hbk]
      simp [hbk]

end Strings

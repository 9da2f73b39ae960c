import Mathlib.Data.List.Induction
import Mathlib.Data.List.Nodup

/-!
# The most recent items

A bounded list of items, the one that was used last in front. An item that is
used moves to the front, in place of the one with the same key. The list is a
function of the history: the latest item of every key, as far as there is room.
-/

namespace Recent

variable {α κ : Type*} [DecidableEq κ] (key : α → κ)

def forget (a : α) (l : List α) : List α := l.filter fun b => key b ≠ key a

def use (cap : ℕ) (a : α) (l : List α) : List α := (a :: forget key a l).take cap

/-- The latest item of every key in a history, the last one in front. -/
def latest : List α → List α
  | [] => []
  | a :: h => a :: forget key a (latest h)

def Distinct (l : List α) : Prop := (l.map key).Nodup

variable {key} {a : α} {l : List α}

theorem distinct_cons_forget (h : Distinct key l) (a : α) : Distinct key (a :: forget key a l) := by
  refine List.nodup_cons.mpr ⟨?_, h.sublist (List.filter_sublist.map key)⟩
  intro hmem
  obtain ⟨b, hb, hkey⟩ := List.mem_map.mp hmem
  have hne := (List.mem_filter.mp hb).2
  simp [hkey] at hne

theorem Distinct.use (h : Distinct key l) (cap : ℕ) (a : α) : Distinct key (use key cap a l) :=
  (distinct_cons_forget h a).sublist ((List.take_sublist ..).map key)

theorem length_use_le (cap : ℕ) (a : α) (l : List α) : (use key cap a l).length ≤ cap := List.length_take_le ..

theorem latest_distinct : ∀ h : List α, Distinct key (latest key h)
  | [] => List.nodup_nil
  | a :: h => distinct_cons_forget (latest_distinct h) a

theorem forget_of_forall (h : ∀ b ∈ l, key b ≠ key a) : forget key a l = l :=
  List.filter_eq_self.mpr fun b hb => decide_eq_true (h b hb)

theorem forget_append_cons {pre post : List α} {b : α} (h : Distinct key (pre ++ b :: post)) (hk : key b = key a) :
    forget key a (pre ++ b :: post) = pre ++ post := by
  unfold Distinct at h
  rw [List.map_append, List.map_cons] at h
  obtain ⟨-, hpost, hdisj⟩ := List.nodup_append.mp h
  have h₁ : forget key a pre = pre := forget_of_forall fun c hc hck =>
    hdisj _ (List.mem_map_of_mem hc) _ (List.mem_cons_self ..) (hck.trans hk.symm)
  have h₂ : forget key a post = post := forget_of_forall fun c hc hck =>
    (List.nodup_cons.mp hpost).1 (hk ▸ hck ▸ List.mem_map_of_mem hc)
  unfold forget at h₁ h₂ ⊢
  rw [List.filter_append, List.filter_cons_of_neg (by simp [hk]), h₁, h₂]

theorem use_head {cap : ℕ} (h : Distinct key (a :: l)) (hcap : (a :: l).length ≤ cap) :
    use key cap a (a :: l) = a :: l := by
  have hforget : forget key a (a :: l) = l := @forget_append_cons _ _ _ key a [] l a h rfl
  rw [use, hforget, List.take_of_length_le hcap]

theorem map_use {β : Type*} {key' : β → κ} (f : α → β) (hf : ∀ a, key' (f a) = key a) (cap : ℕ) (a : α) (l : List α) :
    (use key cap a l).map f = use key' cap (f a) (l.map f) := by
  unfold use forget
  rw [List.map_take, List.map_cons, List.filter_map]
  refine congrArg (fun t => List.take cap (f a :: t.map f)) (List.filter_congr fun b _ => ?_)
  rw [Function.comp_apply, hf, hf]

/-- An item takes at most one place, so that the places in front are filled. -/
theorem take_forget (a : α) : ∀ {l : List α} {n : ℕ}, Distinct key l →
    (forget key a (l.take (n + 1))).take n = (forget key a l).take n
  | [], n, _ => by rw [List.take_nil]
  | b :: l, n, h => by
    obtain ⟨hb, hl⟩ := List.nodup_cons.mp h
    rw [List.take_succ_cons]
    by_cases hk : key b = key a
    · have hne : ∀ c ∈ l, key c ≠ key a := fun c hc hck => hb (List.mem_map.mpr ⟨c, hc, hck.trans hk.symm⟩)
      have hdrop : ∀ t : List α, forget key a (b :: t) = forget key a t :=
        fun t => List.filter_cons_of_neg (by simp [hk])
      rw [hdrop, hdrop, forget_of_forall hne, forget_of_forall fun c hc => hne c (List.mem_of_mem_take hc),
        List.take_take, Nat.min_self]
    · have hkeep : ∀ t : List α, forget key a (b :: t) = b :: forget key a t :=
        fun t => List.filter_cons_of_pos (by simp [hk])
      rw [hkeep, hkeep]
      cases n with
      | zero => rfl
      | succ n => rw [List.take_succ_cons, List.take_succ_cons, take_forget a hl]

/-- **The list is a function of the history.** -/
theorem foldl_use (cap : ℕ) (as : List α) :
    as.foldl (fun l a => use key cap a l) [] = (latest key as.reverse).take cap := by
  induction as using List.reverseRecOn with
  | nil => exact List.take_nil.symm
  | append_singleton as a ih =>
    rw [List.foldl_append, List.foldl_cons, List.foldl_nil, ih, List.reverse_append, List.reverse_singleton,
      List.singleton_append, use, latest]
    cases cap with
    | zero => rfl
    | succ n => rw [List.take_succ_cons, List.take_succ_cons, take_forget a (latest_distinct _)]

end Recent

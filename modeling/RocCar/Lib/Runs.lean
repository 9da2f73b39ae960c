import Mathlib.Data.List.Basic

/-!
# Runs of a transition system

A run is a list of labelled steps. An invariant is what holds at the start and
is kept by every step (`Run.invariant`); a guard restricts the steps a run may
take (`Guarded`). `Along` says that a predicate holds at every step of a run of
a total step function.
-/

namespace Runs

variable {σ α : Type*}

inductive Run (step : σ → α → σ → Prop) : σ → List α → σ → Prop
  | nil (s : σ) : Run step s [] s
  | snoc {s t u : σ} {as : List α} {a : α} : Run step s as t → step t a u → Run step s (as ++ [a]) u

theorem Run.invariant {step : σ → α → σ → Prop} {I : σ → Prop} {s t : σ} {as : List α}
    (hs : ∀ s a t, I s → step s a t → I t) (h₀ : I s) (h : Run step s as t) : I t := by
  induction h with
  | nil => exact h₀
  | snoc _ hst ih => exact hs _ _ _ ih hst

/-- Only the steps that meet `G` in the state they start from. -/
def Guarded (step : σ → α → σ → Prop) (G : σ → α → Prop) (s : σ) (a : α) (t : σ) : Prop :=
  step s a t ∧ G s a

/-! ## Step functions -/

def Steps (f : σ → α → Option σ) (s : σ) (a : α) (t : σ) : Prop := f s a = some t

def exec (f : σ → α → Option σ) : σ → List α → Option σ
  | s, [] => some s
  | s, a :: as => (f s a).bind fun t => exec f t as

theorem Run.cons {step : σ → α → σ → Prop} {s t u : σ} {a : α} {as : List α} (h : step s a t)
    (hr : Run step t as u) : Run step s (a :: as) u := by
  induction hr with
  | nil => exact .snoc (.nil s) h
  | snoc _ hst ih => exact .snoc ih hst

theorem run_of_exec {f : σ → α → Option σ} : ∀ {as : List α} {s t : σ}, exec f s as = some t →
    Run (Steps f) s as t
  | [], s, t, h => by
    simp only [exec, Option.some.injEq] at h; subst h; exact .nil s
  | a :: as, s, t, h => by
    simp only [exec, Option.bind_eq_some_iff] at h
    obtain ⟨u, hu, ht⟩ := h
    exact Run.cons hu (run_of_exec ht)

theorem Run.mono {step step' : σ → α → σ → Prop} (h : ∀ s a t, step s a t → step' s a t) {s t : σ} {as : List α}
    (hr : Run step s as t) : Run step' s as t := by
  induction hr with
  | nil => exact .nil _
  | snoc _ hst ih => exact .snoc ih (h _ _ _ hst)

theorem Run.append {step : σ → α → σ → Prop} {s t u : σ} {as bs : List α} (h : Run step s as t)
    (hr : Run step t bs u) : Run step s (as ++ bs) u := by
  induction hr with
  | nil => rw [List.append_nil]; exact h
  | snoc _ hst ih => rw [← List.append_assoc]; exact .snoc ih hst

theorem Run.eq_of_nil {step : σ → α → σ → Prop} {s t : σ} {as : List α} (h : Run step s as t) (has : as = []) :
    t = s := by
  cases h with
  | nil => rfl
  | snoc => exact absurd has (List.append_ne_nil_of_right_ne_nil _ (List.cons_ne_nil _ _))

theorem Run.uncons {step : σ → α → σ → Prop} {s u : σ} {bs : List α} (h : Run step s bs u) :
    ∀ {a : α} {as : List α}, bs = a :: as → ∃ t, step s a t ∧ Run step t as u := by
  induction h with
  | nil => exact fun hbs => absurd hbs.symm (List.cons_ne_nil _ _)
  | @snoc t u bs b hr hst ih =>
    intro a as hbs
    cases bs with
    | nil =>
      obtain ⟨rfl, rfl⟩ := List.cons.inj hbs
      obtain rfl := hr.eq_of_nil rfl
      exact ⟨_, hst, .nil _⟩
    | cons c cs =>
      obtain ⟨rfl, rfl⟩ := List.cons.inj hbs
      obtain ⟨v, hv, hr'⟩ := ih rfl
      exact ⟨v, hv, hr'.snoc hst⟩

def restrict (f : σ → α → Option σ) (G : σ → α → Prop) [∀ s a, Decidable (G s a)] (s : σ) (a : α) : Option σ :=
  if G s a then f s a else none

theorem run_of_exec_restrict {f : σ → α → Option σ} {G : σ → α → Prop} [∀ s a, Decidable (G s a)] {as : List α}
    {s t : σ} (h : exec (restrict f G) s as = some t) : Run (Guarded (Steps f) G) s as t := by
  refine (run_of_exec h).mono fun s a t hst => ?_
  rw [Steps, restrict] at hst
  split at hst
  · rename_i hg
    exact ⟨hst, hg⟩
  · cases hst

/-! ## Predicates along a run -/

/-- `P` holds of every step of the run of `f` on `as` from `s`. -/
def Along (f : σ → α → σ) (P : σ → α → Prop) : σ → List α → Prop
  | _, [] => True
  | s, a :: as => P s a ∧ Along f P (f s a) as

theorem along_congr {f : σ → α → σ} {P Q : σ → α → Prop} (h : ∀ s a, P s a ↔ Q s a) :
    ∀ (as : List α) (s : σ), Along f P s as ↔ Along f Q s as
  | [], _ => Iff.rfl
  | a :: as, s => by
    simp only [Along, h s a, along_congr h as (f s a)]

theorem forall_prefix_iff {f : σ → α → σ} {P : σ → Prop} : ∀ {as : List α} {s : σ}, P s →
    ((∀ done, done <+: as → P (done.foldl f s)) ↔ Along f (fun s a => P (f s a)) s as)
  | [], s, hs => by
    simp only [List.prefix_nil, forall_eq, List.foldl_nil, hs, Along]
  | a :: as, s, hs => by
    constructor
    · intro h
      have ha : P (f s a) := h [a] (List.prefix_append [a] as)
      exact ⟨ha, (forall_prefix_iff ha).mp fun done hd => h (a :: done) (List.cons_prefix_cons.mpr ⟨rfl, hd⟩)⟩
    · rintro ⟨ha, h⟩ done hd
      cases done with
      | nil => exact hs
      | cons b done =>
        obtain ⟨rfl, hrest⟩ := List.cons_prefix_cons.mp hd
        exact (forall_prefix_iff ha).mpr h done hrest

/-- Steps that meet `G` keep `I`, and from a state of `I` these are the steps behind which `P` holds. -/
theorem along_iff_of_step {f : σ → α → σ} {I P : σ → Prop} {G : σ → α → Prop}
    (hP : ∀ s a, I s → (P (f s a) ↔ G s a)) (hI : ∀ s a, I s → G s a → I (f s a)) :
    ∀ (as : List α) (s : σ), I s → (Along f (fun s a => P (f s a)) s as ↔ Along f G s as)
  | [], _, _ => Iff.rfl
  | a :: as, s, hs => by
    simp only [Along, hP s a hs]
    exact and_congr_right fun hg => along_iff_of_step hP hI as (f s a) (hI s a hs hg)

theorem along_step_iff {f : σ → α → σ} {P : σ → Prop} {G : σ → α → Prop}
    (h : ∀ s a, P s → (P (f s a) ↔ G s a)) (as : List α) (s : σ) (hs : P s) :
    Along f (fun s a => P (f s a)) s as ↔ Along f G s as :=
  along_iff_of_step h (fun s a hs => (h s a hs).mpr) as s hs

theorem along_const {f : σ → α → σ} {Q : α → Prop} : ∀ (as : List α) (s : σ),
    Along f (fun _ a => Q a) s as ↔ ∀ a ∈ as, Q a
  | [], _ => by simp [Along]
  | a :: as, s => by simp only [Along, along_const as (f s a), List.forall_mem_cons]

end Runs

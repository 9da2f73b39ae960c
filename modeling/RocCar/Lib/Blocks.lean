/-!
# Programs over memory that nothing has initialised

A program reads and writes typed locations and makes calls that can be seen from
outside. A location that has not been written holds what the block's contents
happen to be; a read of it is recorded. A run depends on the contents of these
locations only (`run_congr`). `Outcome` says what a run adds to the record and
which locations it may write, with a rule for each instruction. `Writes` bounds
the locations a program writes on every memory (`run_frame`), and `within` is a
program over some of the locations of a larger memory (`run_within`).
-/

namespace Blocks

variable {Loc Loc' : Type} {Val : Loc → Type} {Val' : Loc' → Type} {Event α β : Type}

inductive Prog (Val : Loc → Type) (Event : Type) (α : Type) where
  | ret (a : α)
  | read (l : Loc) (next : Val l → Prog Val Event α)
  | write (l : Loc) (v : Val l) (next : Prog Val Event α)
  | emit (e : Event) (next : Prog Val Event α)

namespace Prog

def bind : Prog Val Event α → (α → Prog Val Event β) → Prog Val Event β
  | ret a, f => f a
  | read l next, f => read l fun v => (next v).bind f
  | write l v next, f => write l v (next.bind f)
  | emit e next, f => emit e (next.bind f)

instance : Monad (Prog Val Event) where
  pure := ret
  bind := bind

/-- Every location the program can write is in `W`. -/
def Writes (W : Loc → Prop) : Prog Val Event α → Prop
  | ret _ => True
  | read _ next => ∀ v, (next v).Writes W
  | write l _ next => W l ∧ next.Writes W
  | emit _ next => next.Writes W

section
variable {W : Loc → Prop} {p q : Prog Val Event α} {f : α → Prog Val Event β}

theorem Writes.ite {c : Prop} [Decidable c] (hp : p.Writes W) (hq : q.Writes W) : (if c then p else q).Writes W := by
  split
  · exact hp
  · exact hq

theorem Writes.bind (hp : p.Writes W) (hf : ∀ a, (f a).Writes W) : (p >>= f).Writes W := by
  induction p with
  | ret a => exact hf a
  | read _ _ ih => exact fun v => ih v (hp v)
  | write _ _ _ ih => exact ⟨hp.1, ih hp.2⟩
  | emit _ _ ih => exact ih hp

end

def within (f : Loc → Loc') : Prog (fun l => Val' (f l)) Event α → Prog Val' Event α
  | ret a => ret a
  | read l next => read (f l) fun v => (next v).within f
  | write l v next => write (f l) v (next.within f)
  | emit e next => emit e (next.within f)

theorem Writes.within {f : Loc → Loc'} {W : Loc' → Prop} {p : Prog (fun l => Val' (f l)) Event α}
    (hp : p.Writes fun l => W (f l)) : (p.within f).Writes W := by
  induction p with
  | ret _ => trivial
  | read _ _ ih => exact fun v => ih v (hp v)
  | write _ _ _ ih => exact ⟨hp.1, ih hp.2⟩
  | emit _ _ ih => exact ih hp

end Prog

/-- What has been written, the locations read before that, and the calls made. -/
structure State (Val : Loc → Type) (Event : Type) where
  mem : ∀ l, Option (Val l) := fun _ => none
  early : List Loc := []
  events : List Event := []

variable [DecidableEq Loc] [DecidableEq Loc']

def State.set (s : State Val Event) (l : Loc) (v : Val l) : State Val Event :=
  { s with mem := fun l' => if h : l = l' then some (h ▸ v) else s.mem l' }

@[simp] theorem State.set_self (s : State Val Event) (l : Loc) (v : Val l) : (s.set l v).mem l = some v :=
  dif_pos rfl

theorem State.set_ne (s : State Val Event) {l l' : Loc} (v : Val l) (h : l ≠ l') : (s.set l v).mem l' = s.mem l' :=
  dif_neg h

def run (contents : ∀ l, Val l) : Prog Val Event α → State Val Event → α × State Val Event
  | .ret a, s => (a, s)
  | .read l next, s =>
    match s.mem l with
    | some v => run contents (next v) s
    | none => run contents (next (contents l)) { s with early := s.early ++ [l] }
  | .write l v next, s => run contents next (s.set l v)
  | .emit e next, s => run contents next { s with events := s.events ++ [e] }

theorem run_read (contents : ∀ l, Val l) {s : State Val Event} {l : Loc} {v : Val l} {next : Val l → Prog Val Event α}
    (hm : s.mem l = some v) : run contents (.read l next) s = run contents (next v) s := by
  simp only [run, hm]

theorem run_bind (contents : ∀ l, Val l) (f : α → Prog Val Event β) : ∀ (p : Prog Val Event α) (s : State Val Event),
    run contents (p >>= f) s = run contents (f (run contents p s).1) (run contents p s).2
  | .ret _, _ => rfl
  | .read l next, s => by
    show run contents (.read l fun v => next v >>= f) s = _
    simp only [run]
    cases s.mem l with
    | some v => exact run_bind contents f (next v) s
    | none => exact run_bind contents f (next (contents l)) _
  | .write l v next, s => run_bind contents f next (s.set l v)
  | .emit _ next, _ => run_bind contents f next _

theorem early_subset (contents : ∀ l, Val l) : ∀ (p : Prog Val Event α) (s : State Val Event),
    s.early ⊆ (run contents p s).2.early
  | .ret _, _ => List.Subset.refl _
  | .read l next, s => by
    simp only [run]
    cases s.mem l with
    | some v => exact early_subset contents (next v) s
    | none =>
      have := early_subset contents (next (contents l)) { s with early := s.early ++ [l] }
      exact fun _ hx => this (List.mem_append_left _ hx)
  | .write l v next, s => early_subset contents next (s.set l v)
  | .emit e next, s => early_subset contents next { s with events := s.events ++ [e] }

/-- **Contents matter where they are read.** Runs on contents that agree on the
locations read before they were written are the same. -/
theorem run_congr {contents contents' : ∀ l, Val l} : ∀ (p : Prog Val Event α) (s : State Val Event),
    (∀ l ∈ (run contents p s).2.early, contents l = contents' l) → run contents' p s = run contents p s
  | .ret _, _, _ => rfl
  | .read l next, s, h => by
    simp only [run] at h ⊢
    cases hm : s.mem l with
    | some v =>
      simp only [hm] at h ⊢
      exact run_congr (next v) s h
    | none =>
      simp only [hm] at h ⊢
      have hl : contents l = contents' l := by
        apply h l
        apply early_subset contents (next (contents l))
        simp
      rw [← hl]
      exact run_congr (next (contents l)) _ h
  | .write l v next, s, h => run_congr next (s.set l v) h
  | .emit _ next, _, h => run_congr next _ h

theorem run_frame (contents : ∀ l, Val l) {W : Loc → Prop} {l : Loc} (hl : ¬ W l) :
    ∀ (p : Prog Val Event α) (s : State Val Event), p.Writes W → (run contents p s).2.mem l = s.mem l
  | .ret _, _, _ => rfl
  | .read k next, s, hp => by
    simp only [run]
    cases s.mem k with
    | some v => exact run_frame contents hl (next v) s (hp v)
    | none => exact run_frame contents hl (next (contents k)) _ (hp (contents k))
  | .write k v next, s, hp => by
    have hne : k ≠ l := fun he => hl (he ▸ hp.1)
    exact (run_frame contents hl next (s.set k v) hp.2).trans (s.set_ne v hne)
  | .emit _ next, _, hp => run_frame contents hl next _ hp

theorem run_within {f : Loc → Loc'} (hf : Function.Injective f) (contents : ∀ l, Val' l) :
    ∀ (p : Prog (fun l => Val' (f l)) Event α) (s : State Val' Event) (t : State (fun l => Val' (f l)) Event),
      (∀ l, s.mem (f l) = t.mem l) →
      (run contents (p.within f) s).1 = (run (fun l => contents (f l)) p t).1 ∧
        ∀ l, (run contents (p.within f) s).2.mem (f l) = (run (fun l => contents (f l)) p t).2.mem l
  | .ret _, _, _, h => ⟨rfl, h⟩
  | .read k next, s, t, h => by
    simp only [Prog.within, run, h k]
    cases t.mem k with
    | some v => exact run_within hf contents (next v) s t h
    | none => exact run_within hf contents (next (contents (f k))) _ _ h
  | .write k v next, s, t, h => by
    refine run_within hf contents next (s.set (f k) v) (t.set k v) fun l => ?_
    by_cases hk : k = l
    · subst hk
      rw [State.set_self, State.set_self]
    · rw [State.set_ne _ _ (hf.ne hk), State.set_ne _ _ hk, h l]
  | .emit _ next, _, _, h => run_within hf contents next _ _ h

/-! ## What a run does -/

structure Outcome (contents : ∀ l, Val l) (p : Prog Val Event α) (s : State Val Event) (early : List Loc)
    (events : List Event) (W : Loc → Prop) : Prop where
  early_eq : (run contents p s).2.early = s.early ++ early
  events_eq : (run contents p s).2.events = s.events ++ events
  frame : ∀ l, ¬ W l → (run contents p s).2.mem l = s.mem l

section
variable {contents : ∀ l, Val l} {s : State Val Event} {l : Loc} {early early' : List Loc}
  {events events' : List Event} {W : Loc → Prop}

theorem Outcome.ret {a : α} : Outcome contents (.ret a) s [] [] W where
  early_eq := by simp [run]
  events_eq := by simp [run]
  frame _ _ := rfl

theorem Outcome.mono {p : Prog Val Event α} {W' : Loc → Prop} (hW : ∀ l, W l → W' l)
    (h : Outcome contents p s early events W) : Outcome contents p s early events W' where
  early_eq := h.early_eq
  events_eq := h.events_eq
  frame l hl := h.frame l fun hw => hl (hW l hw)

theorem Outcome.read {v : Val l} {next : Val l → Prog Val Event α} (hm : s.mem l = some v)
    (h : Outcome contents (next v) s early events W) : Outcome contents (.read l next) s early events W := by
  have hr : run contents (.read l next) s = run contents (next v) s := run_read contents hm
  constructor
  · rw [hr]; exact h.early_eq
  · rw [hr]; exact h.events_eq
  · rw [hr]; exact h.frame

theorem Outcome.read_unwritten {next : Val l → Prog Val Event α} (hm : s.mem l = none)
    (h : Outcome contents (next (contents l)) { s with early := s.early ++ [l] } early events W) :
    Outcome contents (.read l next) s (l :: early) events W := by
  have hr : run contents (.read l next) s =
      run contents (next (contents l)) { s with early := s.early ++ [l] } := by simp [run, hm]
  constructor
  · rw [hr, h.early_eq]; simp
  · rw [hr]; exact h.events_eq
  · rw [hr]; exact h.frame

theorem Outcome.write {v : Val l} {next : Prog Val Event α} (hW : W l)
    (h : Outcome contents next (s.set l v) early events W) : Outcome contents (.write l v next) s early events W where
  early_eq := h.early_eq
  events_eq := h.events_eq
  frame l' hl' := by
    have hne : l ≠ l' := fun he => hl' (he ▸ hW)
    exact (h.frame l' hl').trans (s.set_ne v hne)

theorem Outcome.emit {e : Event} {next : Prog Val Event α}
    (h : Outcome contents next { s with events := s.events ++ [e] } early events W) :
    Outcome contents (.emit e next) s early (e :: events) W where
  early_eq := h.early_eq
  events_eq := by simpa [run] using h.events_eq
  frame := h.frame

theorem Outcome.bind {p : Prog Val Event α} {f : α → Prog Val Event β} (h : Outcome contents p s early events W)
    (hf : Outcome contents (f (run contents p s).1) (run contents p s).2 early' events' W) :
    Outcome contents (p >>= f) s (early ++ early') (events ++ events') W where
  early_eq := by rw [run_bind, hf.early_eq, h.early_eq, List.append_assoc]
  events_eq := by rw [run_bind, hf.events_eq, h.events_eq, List.append_assoc]
  frame l hl := by rw [run_bind, hf.frame l hl, h.frame l hl]

theorem Outcome.seq {p : Prog Val Event α} {q : Prog Val Event β} (h : Outcome contents p s early events W)
    (hq : Outcome contents q (run contents p s).2 early' events' W) :
    Outcome contents (p >>= fun _ => q) s (early ++ early') (events ++ events') W :=
  h.bind hq

theorem Outcome.of_run {p : Prog Val Event α} (h : (run contents p {}).2.early = early) :
    Outcome contents p {} early (run contents p {}).2.events fun _ => True where
  early_eq := by rw [h, List.nil_append]
  events_eq := by rw [List.nil_append]
  frame _ hl := absurd trivial hl

theorem Outcome.run_early {p : Prog Val Event α} (h : Outcome contents p {} early events W) :
    (run contents p {}).2.early = early := by
  rw [h.early_eq, List.nil_append]

theorem Outcome.run_events {p : Prog Val Event α} (h : Outcome contents p {} early events W) :
    (run contents p {}).2.events = events := by
  rw [h.events_eq, List.nil_append]

end

end Blocks

import Mathlib.Algebra.Ring.Nat
import Mathlib.Data.List.Basic

/-!
# Base 64

Three bytes are four symbols of an alphabet; a last group of one or two bytes is
filled up with a padding symbol. `decode` trusts its input: it reads a symbol
outside the alphabet as some value, and takes from the last two symbols how many
bytes there are. What `encode` yields is `Canonical`.
-/

namespace Base64

structure Alphabet (γ : Type*) where
  sym : Nat → γ
  val : γ → Nat
  pad : γ
  val_sym : ∀ k < 64, val (sym k) = k
  val_pad : val pad = 0
  sym_ne_pad : ∀ k < 64, sym k ≠ pad

variable {γ : Type*} (A : Alphabet γ)

def encode : List UInt8 → List γ
  | a :: b :: c :: rest =>
    A.sym (a.toNat / 4) :: A.sym (a.toNat % 4 * 16 + b.toNat / 16) :: A.sym (b.toNat % 16 * 4 + c.toNat / 64) ::
      A.sym (c.toNat % 64) :: encode rest
  | [a, b] =>
    [A.sym (a.toNat / 4), A.sym (a.toNat % 4 * 16 + b.toNat / 16), A.sym (b.toNat % 16 * 4), A.pad]
  | [a] => [A.sym (a.toNat / 4), A.sym (a.toNat % 4 * 16), A.pad, A.pad]
  | [] => []

/-- The word of a group, in 24 bits. -/
def triple (c₀ c₁ c₂ c₃ : γ) : Nat := A.val c₀ * 2 ^ 18 + A.val c₁ * 2 ^ 12 + A.val c₂ * 2 ^ 6 + A.val c₃

def group (c₀ c₁ c₂ c₃ : γ) : List UInt8 :=
  [UInt8.ofNat (triple A c₀ c₁ c₂ c₃ / 2 ^ 16), UInt8.ofNat (triple A c₀ c₁ c₂ c₃ / 2 ^ 8),
    UInt8.ofNat (triple A c₀ c₁ c₂ c₃)]

/-- Three bytes for each group of four symbols. -/
def groups : List γ → List UInt8
  | c₀ :: c₁ :: c₂ :: c₃ :: rest => group A c₀ c₁ c₂ c₃ ++ groups rest
  | _ => []

/-- The number of padding symbols among the last two. -/
def padding [DecidableEq γ] (s : List γ) : Nat :=
  (if s[s.length - 1]? = some A.pad then 1 else 0) + if s[s.length - 2]? = some A.pad then 1 else 0

def decode [DecidableEq γ] (s : List γ) : List UInt8 := (groups A s).take (s.length / 4 * 3 - padding A s)

/-! ## Lengths -/

theorem length_encode : ∀ x : List UInt8, (encode A x).length = (x.length + 2) / 3 * 4
  | a :: b :: c :: rest => by
    simp only [encode, List.length_cons, length_encode rest]
    omega
  | [_, _] => by simp [encode]
  | [_] => by simp [encode]
  | [] => by simp [encode]

theorem length_groups : ∀ s : List γ, (groups A s).length = s.length / 4 * 3
  | _ :: _ :: _ :: _ :: rest => by
    simp only [groups, group, List.length_append, List.length_cons, List.length_nil, length_groups rest]
    omega
  | [_, _, _] => by simp [groups]
  | [_, _] => by simp [groups]
  | [_] => by simp [groups]
  | [] => by simp [groups]

theorem exists_group : ∀ {s : List γ}, 4 ≤ s.length → ∃ c₀ c₁ c₂ c₃ rest, s = c₀ :: c₁ :: c₂ :: c₃ :: rest
  | c₀ :: c₁ :: c₂ :: c₃ :: rest, _ => ⟨c₀, c₁, c₂, c₃, rest, rfl⟩

/-! ## Decoding an encoding -/

/-- The bytes that fill up the last group. -/
def fill (n : Nat) : Nat := (3 - n % 3) % 3

theorem groups_cons {c₀ c₁ c₂ c₃ : γ} {a b c : UInt8} (h₀ : A.val c₀ = a.toNat / 4)
    (h₁ : A.val c₁ = a.toNat % 4 * 16 + b.toNat / 16) (h₂ : A.val c₂ = b.toNat % 16 * 4 + c.toNat / 64)
    (h₃ : A.val c₃ = c.toNat % 64) (s : List γ) :
    groups A (c₀ :: c₁ :: c₂ :: c₃ :: s) = a :: b :: c :: groups A s := by
  have ha := a.toNat_lt
  have hb := b.toNat_lt
  have hc := c.toNat_lt
  have hword : triple A c₀ c₁ c₂ c₃ = a.toNat * 2 ^ 16 + b.toNat * 2 ^ 8 + c.toNat := by
    rw [triple, h₀, h₁, h₂, h₃]
    omega
  simp only [groups, group, hword, List.cons_append, List.nil_append, List.cons.injEq, and_true, ← UInt8.toNat_inj,
    UInt8.toNat_ofNat']
  omega

theorem groups_encode : ∀ x : List UInt8, groups A (encode A x) = x ++ List.replicate (fill x.length) 0
  | a :: b :: c :: rest => by
    have ha := a.toNat_lt
    have hb := b.toNat_lt
    have hc := c.toNat_lt
    rw [encode, groups_cons A (A.val_sym _ (by omega)) (A.val_sym _ (by omega)) (A.val_sym _ (by omega))
      (A.val_sym _ (by omega)), groups_encode rest]
    simp [fill, Nat.add_mod_right, List.length_cons, Nat.add_assoc]
  | [a, b] => by
    have ha := a.toNat_lt
    have hb := b.toNat_lt
    have h₂ : A.val (A.sym (b.toNat % 16 * 4)) = b.toNat % 16 * 4 + (0 : UInt8).toNat / 64 := by
      rw [A.val_sym _ (by omega), UInt8.toNat_zero, Nat.zero_div, Nat.add_zero]
    have h₃ : A.val A.pad = (0 : UInt8).toNat % 64 := by rw [A.val_pad, UInt8.toNat_zero]
    rw [encode, groups_cons A (A.val_sym _ (by omega)) (A.val_sym _ (by omega)) h₂ h₃]
    rfl
  | [a] => by
    have ha := a.toNat_lt
    have h₁ : A.val (A.sym (a.toNat % 4 * 16)) = a.toNat % 4 * 16 + (0 : UInt8).toNat / 16 := by
      rw [A.val_sym _ (by omega), UInt8.toNat_zero, Nat.zero_div, Nat.add_zero]
    have h₂ : A.val A.pad = (0 : UInt8).toNat % 16 * 4 + (0 : UInt8).toNat / 64 := by rw [A.val_pad, UInt8.toNat_zero]
    have h₃ : A.val A.pad = (0 : UInt8).toNat % 64 := by rw [A.val_pad, UInt8.toNat_zero]
    rw [encode, groups_cons A (A.val_sym _ (by omega)) h₁ h₂ h₃]
    rfl
  | [] => rfl

variable [DecidableEq γ]

theorem padding_append (g : List γ) {s : List γ} (h : 2 ≤ s.length) : padding A (g ++ s) = padding A s := by
  have h₁ : (g ++ s)[(g ++ s).length - 1]? = s[s.length - 1]? := by
    rw [List.length_append, List.getElem?_append_right (by omega)]
    congr 1; omega
  have h₂ : (g ++ s)[(g ++ s).length - 2]? = s[s.length - 2]? := by
    rw [List.length_append, List.getElem?_append_right (by omega)]
    congr 1; omega
  rw [padding, padding, h₁, h₂]

theorem padding_encode : ∀ x : List UInt8, padding A (encode A x) = fill x.length
  | a :: b :: c :: rest => by
    have hfill : fill (a :: b :: c :: rest).length = fill rest.length := by
      simp [fill, Nat.add_mod_right, List.length_cons, Nat.add_assoc]
    rw [hfill, ← padding_encode rest]
    cases rest with
    | nil =>
      have hb := b.toNat_lt
      have hc := c.toNat_lt
      have h₂ := A.sym_ne_pad (b.toNat % 16 * 4 + c.toNat / 64) (by omega)
      have h₃ := A.sym_ne_pad (c.toNat % 64) (by omega)
      simp [encode, padding, h₂, h₃]
    | cons d rest =>
      have hlen := length_encode A (d :: rest)
      rw [List.length_cons] at hlen
      exact padding_append A [_, _, _, _] (by omega)
  | [a, b] => by
    have hb := b.toNat_lt
    have h₂ := A.sym_ne_pad (b.toNat % 16 * 4) (by omega)
    simp [encode, padding, fill, h₂]
  | [a] => by simp [encode, padding, fill]
  | [] => by simp [encode, padding, fill]

theorem length_decode (s : List γ) : (decode A s).length = s.length / 4 * 3 - padding A s := by
  rw [decode, List.length_take, length_groups]
  omega

/-- **Decoding an encoding.** -/
theorem decode_encode (x : List UInt8) : decode A (encode A x) = x := by
  have hlen : (encode A x).length / 4 * 3 - padding A (encode A x) = x.length := by
    rw [length_encode, padding_encode, fill]
    omega
  rw [decode, hlen, groups_encode, List.take_left]

/-! ## Canonical texts -/

/-- Groups of symbols of the alphabet, the last of which may end in padding; the
bits that its bytes do not use are zero. -/
inductive Canonical : List γ → Prop
  | nil : Canonical []
  | group {k₀ k₁ k₂ k₃ : Nat} {s : List γ} : k₀ < 64 → k₁ < 64 → k₂ < 64 → k₃ < 64 → Canonical s →
      Canonical (A.sym k₀ :: A.sym k₁ :: A.sym k₂ :: A.sym k₃ :: s)
  | two {k₀ k₁ k₂ : Nat} : k₀ < 64 → k₁ < 64 → k₂ < 64 → 4 ∣ k₂ → Canonical [A.sym k₀, A.sym k₁, A.sym k₂, A.pad]
  | one {k₀ k₁ : Nat} : k₀ < 64 → k₁ < 64 → 16 ∣ k₁ → Canonical [A.sym k₀, A.sym k₁, A.pad, A.pad]

omit [DecidableEq γ] in
theorem canonical_encode : ∀ x : List UInt8, Canonical A (encode A x)
  | a :: b :: c :: rest => by
    have ha := a.toNat_lt
    have hb := b.toNat_lt
    have hc := c.toNat_lt
    exact .group (by omega) (by omega) (by omega) (by omega) (canonical_encode rest)
  | [a, b] => by
    have ha := a.toNat_lt
    have hb := b.toNat_lt
    exact .two (by omega) (by omega) (by omega) (Nat.dvd_mul_left ..)
  | [a] => by
    have ha := a.toNat_lt
    exact .one (by omega) (by omega) (Nat.dvd_mul_left ..)
  | [] => .nil

omit [DecidableEq γ] in
theorem Canonical.exists_encode {s : List γ} (h : Canonical A s) : ∃ x, encode A x = s := by
  induction h with
  | nil => exact ⟨[], rfl⟩
  | @group k₀ k₁ k₂ k₃ s h₀ h₁ h₂ h₃ _ ih =>
    obtain ⟨x, rfl⟩ := ih
    have hgroup : encode A (UInt8.ofNat (k₀ * 4 + k₁ / 16) :: UInt8.ofNat (k₁ % 16 * 16 + k₂ / 4) ::
        UInt8.ofNat (k₂ % 4 * 64 + k₃) :: x) = A.sym k₀ :: A.sym k₁ :: A.sym k₂ :: A.sym k₃ :: encode A x := by
      simp only [encode, UInt8.toNat_ofNat']
      rw [show (k₀ * 4 + k₁ / 16) % 2 ^ 8 / 4 = k₀ by omega,
        show (k₀ * 4 + k₁ / 16) % 2 ^ 8 % 4 * 16 + (k₁ % 16 * 16 + k₂ / 4) % 2 ^ 8 / 16 = k₁ by omega,
        show (k₁ % 16 * 16 + k₂ / 4) % 2 ^ 8 % 16 * 4 + (k₂ % 4 * 64 + k₃) % 2 ^ 8 / 64 = k₂ by omega,
        show (k₂ % 4 * 64 + k₃) % 2 ^ 8 % 64 = k₃ by omega]
    exact ⟨_, hgroup⟩
  | @two k₀ k₁ k₂ h₀ h₁ h₂ hbits =>
    have hgroup : encode A [UInt8.ofNat (k₀ * 4 + k₁ / 16), UInt8.ofNat (k₁ % 16 * 16 + k₂ / 4)] =
        [A.sym k₀, A.sym k₁, A.sym k₂, A.pad] := by
      simp only [encode, UInt8.toNat_ofNat']
      rw [show (k₀ * 4 + k₁ / 16) % 2 ^ 8 / 4 = k₀ by omega,
        show (k₀ * 4 + k₁ / 16) % 2 ^ 8 % 4 * 16 + (k₁ % 16 * 16 + k₂ / 4) % 2 ^ 8 / 16 = k₁ by omega,
        show (k₁ % 16 * 16 + k₂ / 4) % 2 ^ 8 % 16 * 4 = k₂ by omega]
    exact ⟨_, hgroup⟩
  | @one k₀ k₁ h₀ h₁ hbits =>
    have hgroup : encode A [UInt8.ofNat (k₀ * 4 + k₁ / 16)] = [A.sym k₀, A.sym k₁, A.pad, A.pad] := by
      simp only [encode, UInt8.toNat_ofNat']
      rw [show (k₀ * 4 + k₁ / 16) % 2 ^ 8 / 4 = k₀ by omega,
        show (k₀ * 4 + k₁ / 16) % 2 ^ 8 % 4 * 16 = k₁ by omega]
    exact ⟨_, hgroup⟩

omit [DecidableEq γ] in
theorem Canonical.mem {s : List γ} (h : Canonical A s) {c : γ} (hc : c ∈ s) : c = A.pad ∨ ∃ k < 64, c = A.sym k := by
  induction h with
  | nil => cases hc
  | group h₀ h₁ h₂ h₃ _ ih =>
    simp only [List.mem_cons] at hc
    rcases hc with rfl | rfl | rfl | rfl | hc
    · exact .inr ⟨_, h₀, rfl⟩
    · exact .inr ⟨_, h₁, rfl⟩
    · exact .inr ⟨_, h₂, rfl⟩
    · exact .inr ⟨_, h₃, rfl⟩
    · exact ih hc
  | two h₀ h₁ h₂ _ =>
    simp only [List.mem_cons, List.not_mem_nil, or_false] at hc
    rcases hc with rfl | rfl | rfl | rfl
    · exact .inr ⟨_, h₀, rfl⟩
    · exact .inr ⟨_, h₁, rfl⟩
    · exact .inr ⟨_, h₂, rfl⟩
    · exact .inl rfl
  | one h₀ h₁ _ =>
    simp only [List.mem_cons, List.not_mem_nil, or_false] at hc
    rcases hc with rfl | rfl | rfl | rfl
    · exact .inr ⟨_, h₀, rfl⟩
    · exact .inr ⟨_, h₁, rfl⟩
    · exact .inl rfl
    · exact .inl rfl

/-- **Encoding what was decoded.** -/
theorem encode_decode_iff (s : List γ) : encode A (decode A s) = s ↔ Canonical A s := by
  constructor
  · intro h
    rw [← h]
    exact canonical_encode A _
  · intro h
    obtain ⟨x, rfl⟩ := h.exists_encode
    rw [decode_encode]

end Base64

import RocCar.FramerSound

/-!
# Runs of the framing loop

A call of `protocol_recev_data` is a run of rounds that go on, ended by an
empty ring, by a round that returns, or by a fault. Every state in such a run is
outside a candidate or is the state of an open candidate, and the bytes taken
tell which (`run_spot`). The loop over the ring does what the loop over its
readable bytes does (`recevLoop_of_bytes`).
-/

namespace RocCar

open Fallible Runs TcpDat

def Continues (out : Outside) (x : Locals × StProtocolParser) (dat : UInt8) (y : Locals × StProtocolParser) : Prop :=
  recevByte out x.1 x.2 dat = .ok (.continue y.1 y.2)

variable {out : Outside}

theorem recevChecks_continue {l l' : Locals} {s s' : StProtocolParser}
    (h : recevChecks out l s = .ok (.continue l' s')) : s' = s := by
  have last : ∀ l : Locals, (if l.mRecvDataIndex.toNat ≥ bufferSize - 1 then do
      logBuffer out s.buffer
      pure (Round.return false s)
      else pure (Round.continue l s) : Except Fault Round) = .ok (.continue l' s') → s' = s := by
    intro l hl
    split at hl
    · rw [logBuffer_ok] at hl; cases hl
    · simp only [pure_eq_ok, Except.ok.injEq, Round.continue.injEq] at hl
      exact hl.2.symm
  rw [recevChecks] at h
  split at h
  · obtain ⟨l₁, -, h⟩ := bind_eq_ok.mp h
    exact last _ h
  · exact last _ h

theorem continues_frame {x y : Locals × StProtocolParser} {dat : UInt8} (h : Continues out x dat y) :
    y.2 = { x.2 with buffer := y.2.buffer } := by
  obtain ⟨l, s⟩ := x
  obtain ⟨l', s'⟩ := y
  simp only [Continues, recevByte] at h
  split at h
  · rw [bind_eq_ok] at h
    obtain ⟨b, -, h⟩ := h
    simp only [pure_eq_ok, Except.ok.injEq, Round.continue.injEq] at h
    rw [← h.2]
  · split at h
    · rw [bind_eq_ok] at h
      obtain ⟨b, -, h⟩ := h
      split at h
      · cases h
      · split at h
        · split at h
          · cases h
          · rw [recevChecks_continue h]
        · rw [recevChecks_continue h]
    · simp only [pure_eq_ok, Except.ok.injEq, Round.continue.injEq] at h
      rw [← h.2]

/-! ## A round of the loop -/

structure Inside (s₀ : StProtocolParser) (t : List UInt8) (l : Locals) (s : StProtocolParser) : Prop where
  «open» : Open t
  locals : l = frameLocals t
  state : s = frameState s₀ t

def AtByte (l : Locals) (s : StProtocolParser) : Prop := l.avilable = false ∨ ∃ s₀ t, Inside s₀ t l s

theorem Inside.index {s₀ s : StProtocolParser} {t : List UInt8} {l : Locals} (h : Inside s₀ t l s) :
    l.avilable = true ∧ l.preRecvLen = t.headD 0 ∧ l.mRecvDataIndex.toNat = t.length := by
  have := h.open.length_le
  rw [h.locals]
  exact ⟨rfl, rfl, ofNat_length (by omega)⟩

theorem Inside.step {s₀ s s' : StProtocolParser} {t : List UInt8} {l l' : Locals} {dat : UInt8}
    (h : Inside s₀ t l s) (hr : recevByte out l s dat = .ok (.continue l' s')) :
    l'.avilable = false ∨ Inside s₀ (t ++ [dat]) l' s' := by
  obtain ⟨ho, rfl, rfl⟩ := h
  rcases recevByte_ok ho hr with ⟨-, -, he⟩ | he | ⟨l₁, hl₁, he⟩ | ⟨ho', he⟩
  · cases he
  · cases he
  · rw [Round.continue.injEq] at he
    exact .inl (he.1 ▸ hl₁)
  · rw [Round.continue.injEq] at he
    exact .inr ⟨ho', he.1, he.2⟩

theorem idle_step {s s' : StProtocolParser} {l l' : Locals} {dat : UInt8} (hl : l.avilable = false)
    (hr : recevByte out l s dat = .ok (.continue l' s')) :
    l'.avilable = false ∨ dat = protocolStartCode ∧ Inside s [] l' s' := by
  by_cases hd : dat = protocolStartCode
  · subst hd
    rw [recevByte_start out l s hl, Except.ok.injEq, Round.continue.injEq] at hr
    exact .inr ⟨rfl, trivial, hr.1.symm, hr.2.symm⟩
  · rw [recevByte_skip out l s dat hl hd, Except.ok.injEq, Round.continue.injEq] at hr
    exact .inl (hr.1 ▸ hl)

theorem idle_continues (out : Outside) (s : StProtocolParser) {l : Locals} (dat : UInt8) (hl : l.avilable = false) :
    ∃ l' s', recevByte out l s dat = .ok (.continue l' s') := by
  by_cases hd : dat = protocolStartCode
  · exact ⟨_, _, by rw [hd]; exact recevByte_start out l s hl⟩
  · exact ⟨_, _, recevByte_skip out l s dat hl hd⟩

theorem AtByte.step {s s' : StProtocolParser} {l l' : Locals} {dat : UInt8} (h : AtByte l s)
    (hr : recevByte out l s dat = .ok (.continue l' s')) :
    AtByte l' s' ∧ s'.mRecvFlag = s.mRecvFlag ∧ s'.recv = s.recv := by
  have hframe := continues_frame (x := (l, s)) (y := (l', s')) hr
  dsimp only at hframe
  refine ⟨?_, by rw [hframe], by rw [hframe]⟩
  rcases h with hl | ⟨s₀, t, hin⟩
  · rcases idle_step hl hr with h' | ⟨-, h'⟩
    · exact .inl h'
    · exact .inr ⟨_, _, h'⟩
  · rcases hin.step hr with h' | h'
    · exact .inl h'
    · exact .inr ⟨_, _, h'⟩

theorem Inside.return {s₀ s s' : StProtocolParser} {t : List UInt8} {l : Locals} {dat : UInt8} {b : Bool}
    (h : Inside s₀ t l s) (hr : recevByte out l s dat = .ok (.return b s')) :
    (dat = protocolEndCode ∧ (t.headD 0).toNat = t.length ∧ s' = acceptState s₀ t) ∨
      s' = frameState s₀ (t ++ [dat]) := by
  obtain ⟨ho, rfl, rfl⟩ := h
  rcases recevByte_ok ho hr with ⟨hd, hlen, he⟩ | he | ⟨l₁, -, he⟩ | ⟨-, he⟩
  · rw [Round.return.injEq] at he
    exact .inl ⟨hd, hlen, he.2⟩
  · rw [Round.return.injEq] at he
    exact .inr he.2
  · cases he
  · cases he

theorem idle_not_return {s s' : StProtocolParser} {l : Locals} {dat : UInt8} {b : Bool} (hl : l.avilable = false) :
    recevByte out l s dat ≠ .ok (.return b s') := by
  obtain ⟨l', s₁, hc⟩ := idle_continues out s dat hl
  rw [hc]
  exact fun he => by cases he

theorem AtByte.return {s s' : StProtocolParser} {l : Locals} {dat : UInt8} {b : Bool} (h : AtByte l s)
    (hr : recevByte out l s dat = .ok (.return b s')) :
    s'.recv = s.recv ∧ (s'.mRecvFlag = s.mRecvFlag ∨
      ∃ s₀ t, Inside s₀ t l s ∧ dat = protocolEndCode ∧ (t.headD 0).toNat = t.length ∧ s' = acceptState s₀ t) := by
  rcases h with hl | ⟨s₀, t, hin⟩
  · exact absurd hr (idle_not_return hl)
  · rcases hin.return hr with ⟨hd, hlen, rfl⟩ | rfl
    · exact ⟨by rw [hin.state]; simp, .inr ⟨s₀, t, hin, hd, hlen, rfl⟩⟩
    · exact ⟨by rw [hin.state]; simp, .inl (by rw [hin.state]; simp)⟩

theorem AtByte.error {s : StProtocolParser} {l : Locals} {dat : UInt8} {e : Fault} (h : AtByte l s)
    (hr : recevByte out l s dat = .error e) :
    e = .read bufferSize ∧ ∃ s₀ t, Inside s₀ t l s ∧ t.length = 126 ∧ (t.headD 0).toNat = 126 ∧
      dat = protocolStartCode := by
  rcases h with hl | ⟨s₀, t, hin⟩
  · obtain ⟨l', s₁, hc⟩ := idle_continues out s dat hl
    rw [hc] at hr; cases hr
  · obtain ⟨ho, rfl, rfl⟩ := hin
    obtain ⟨he, h₁, h₂, h₃⟩ := recevByte_error ho hr
    exact ⟨he, s₀, t, ⟨ho, rfl, rfl⟩, h₁, h₂, h₃⟩

/-! ## Where the loop is -/

/-- After the bytes `bs`, taken since `x`, the loop is outside a candidate, or
inside one that started behind a part of `bs`. -/
def Spot (out : Outside) (x : Locals × StProtocolParser) (bs : List UInt8) (y : Locals × StProtocolParser) : Prop :=
  y.1.avilable = false ∨
    ∃ pre t z, bs = pre ++ protocolStartCode :: t ∧ Run (Continues out) x pre z ∧ z.1.avilable = false ∧
      Inside z.2 t y.1 y.2

theorem run_spot {x y : Locals × StProtocolParser} {bs : List UInt8} (hx : x.1.avilable = false)
    (h : Run (Continues out) x bs y) : Spot out x bs y := by
  induction h with
  | nil => exact .inl hx
  | @snoc y z bs dat hrun hstep ih =>
    rcases ih with hidle | ⟨pre, t, w, rfl, hw, hwi, hin⟩
    · rcases idle_step hidle hstep with hidle' | ⟨rfl, hin⟩
      · exact .inl hidle'
      · exact .inr ⟨bs, [], y, rfl, hrun, hidle, hin⟩
    · rcases hin.step hstep with hidle' | hin'
      · exact .inl hidle'
      · exact .inr ⟨pre, t ++ [dat], w, by simp, hw, hwi, hin'⟩

theorem run_frame {x y : Locals × StProtocolParser} {bs : List UInt8} (h : Run (Continues out) x bs y) :
    y.2 = { x.2 with buffer := y.2.buffer } :=
  h.invariant (I := fun z => z.2 = { x.2 with buffer := z.2.buffer })
    (fun z _ w hz hw => by rw [continues_frame hw, hz]) rfl

theorem run_mRecvFlag {x y : Locals × StProtocolParser} {bs : List UInt8} (h : Run (Continues out) x bs y) :
    y.2.mRecvFlag = x.2.mRecvFlag := by
  rw [run_frame h]

theorem run_recv {x y : Locals × StProtocolParser} {bs : List UInt8} (h : Run (Continues out) x bs y) :
    y.2.recv = x.2.recv := by
  rw [run_frame h]

/-! ## The loop over a list of bytes -/

theorem recevBytes_of_run {x y : Locals × StProtocolParser} {bs : List UInt8} (h : Run (Continues out) x bs y) :
    ∀ rest, recevBytes out x.1 x.2 (bs ++ rest) = recevBytes out y.1 y.2 rest := by
  induction h with
  | nil => intro rest; rfl
  | @snoc y z bs dat _ hstep ih =>
    intro rest
    rw [List.append_assoc, ih, List.singleton_append, recevBytes, hstep]
    rfl

theorem recevBytes_ok {b : Bool} {s' : StProtocolParser} {rest : List UInt8} :
    ∀ {bs : List UInt8} {l : Locals} {s : StProtocolParser}, recevBytes out l s bs = .ok (b, s', rest) →
      (rest = [] ∧ ∃ y, Run (Continues out) (l, s) bs y ∧ b = y.1.avilable ∧ s' = y.2) ∨
      ∃ pre dat y, bs = pre ++ dat :: rest ∧ Run (Continues out) (l, s) pre y ∧
        recevByte out y.1 y.2 dat = .ok (.return b s')
  | [], l, s, h => by
    simp only [recevBytes, Except.ok.injEq, Prod.mk.injEq] at h
    exact .inl ⟨h.2.2.symm, (l, s), .nil _, h.1.symm, h.2.1.symm⟩
  | dat :: bs, l, s, h => by
    rw [recevBytes, bind_eq_ok] at h
    obtain ⟨r, hr, h⟩ := h
    cases r with
    | «continue» l₁ s₁ =>
      have hstep : Continues out (l, s) dat (l₁, s₁) := hr
      rcases recevBytes_ok h with ⟨he, y, hrun, hb, hs⟩ | ⟨pre, d, y, rfl, hrun, hret⟩
      · exact .inl ⟨he, y, Run.cons hstep hrun, hb, hs⟩
      · exact .inr ⟨dat :: pre, d, y, rfl, Run.cons hstep hrun, hret⟩
    | «return» b₁ s₁ =>
      simp only [pure_eq_ok, Except.ok.injEq, Prod.mk.injEq] at h
      obtain ⟨rfl, rfl, rfl⟩ := h
      exact .inr ⟨[], dat, (l, s), rfl, .nil _, hr⟩

/-- **A call that sets the receive flag** has taken its last bytes as a
candidate whose length byte counts them. -/
theorem recevBytes_accept {b : Bool} {l : Locals} {s s' : StProtocolParser} {bs rest : List UInt8}
    (hl : l.avilable = false) (hs : s.mRecvFlag = false) (h : recevBytes out l s bs = .ok (b, s', rest))
    (hf : s'.mRecvFlag = true) :
    ∃ pre t z, bs = pre ++ protocolStartCode :: t ++ protocolEndCode :: rest ∧ Run (Continues out) (l, s) pre z ∧
      z.1.avilable = false ∧ Open t ∧ (t.headD 0).toNat = t.length ∧ s' = acceptState z.2 t := by
  -- rounds that go on and rounds that give up leave the flag alone
  have flag : ∀ {bs y}, Run (Continues out) (l, s) bs y → y.2.mRecvFlag = false := fun hrun =>
    (run_mRecvFlag hrun).trans hs
  rcases recevBytes_ok h with ⟨-, y, hrun, -, rfl⟩ | ⟨pre, dat, y, rfl, hrun, hret⟩
  · rw [flag hrun] at hf; cases hf
  · rcases run_spot hl hrun with hidle | ⟨pre, t, z, rfl, hz, hzi, hin⟩
    · exact absurd hret (idle_not_return hidle)
    · rcases hin.return hret with ⟨rfl, hlen, rfl⟩ | rfl
      · exact ⟨pre, t, z, by simp, hz, hzi, hin.open, hlen, rfl⟩
      · rw [frameState_mRecvFlag, flag hz] at hf
        cases hf

/-! ## The loop over the ring -/

theorem recevLoop_of_bytes : ∀ (n : Nat) (l : Locals) (s : StProtocolParser) (q : TcpDat), q.content.length ≤ n →
    match recevBytes out l s q.content with
    | .error e => recevLoop out n l s q = .error e
    | .ok (b, s', rest) => ∃ q', recevLoop out n l s q = .ok (b, s', q') ∧ q'.content = rest
  | 0, l, s, q, hn => by
    have hnil : q.content = [] := List.length_eq_zero_iff.mp (Nat.le_zero.mp hn)
    rw [hnil]
    exact ⟨q, rfl, hnil⟩
  | n + 1, l, s, q, hn => by
    cases hg : q.getchar with
    | none =>
      have hnil := getchar_eq_none.mp hg
      rw [hnil, recevLoop, hg]
      exact ⟨q, rfl, hnil⟩
    | some p =>
      obtain ⟨dat, q₁⟩ := p
      have hc := getchar_eq_some hg
      rw [hc, List.length_cons] at hn
      rw [hc, recevLoop, hg, recevBytes]
      dsimp only
      cases recevByte out l s dat with
      | error e => rfl
      | ok r =>
        cases r with
        | «continue» l₁ s₁ => exact recevLoop_of_bytes n l₁ s₁ q₁ (by omega)
        | «return» b₁ s₁ => exact ⟨q₁, rfl, rfl⟩

theorem protocolRecevData_of_bytes (out : Outside) (s : StProtocolParser) (q : TcpDat) :
    match recevBytes out {} s q.content with
    | .error e => protocolRecevData out s q = .error e
    | .ok (b, s', rest) => ∃ q', protocolRecevData out s q = .ok (b, s', q') ∧ q'.content = rest :=
  recevLoop_of_bytes _ {} s q (Nat.le_of_eq q.length_content)

end RocCar

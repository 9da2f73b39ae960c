import RocCar.Frame
import RocCar.SysSound

/-!
# Faults

A run reads outside `pareser_package.buffer` through some candidates only
(`reads_inside`), dereferences `recv` while it is `NULL` only before the first
`protocol_parser_reinit` (`recv_set`), and stores inside (`writes_inside`).
-/

namespace RocCar

open Fallible Runs

/-! ## Rounds -/

def Sys.round (s : Sys) (a : Action) : Option (Locals × UInt8) :=
  match a, s.pc with
  | .getchar, .getchar l dat => some (l, (nextByte s.tcpDat dat).1)
  | _, _ => none

def Closes (l : Locals) (dat : UInt8) : Prop :=
  l.avilable = true ∧ dat = protocolEndCode ∧ l.preRecvLen = l.mRecvDataIndex

instance (l : Locals) (dat : UInt8) : Decidable (Closes l dat) := inferInstanceAs (Decidable (_ ∧ _ ∧ _))

variable {out : Outside} {trig : Trig}

theorem round_getchar {s : Sys} {l : Locals} {dat dat' : UInt8} {q : TcpDat} (hpc : s.pc = .getchar l dat)
    (hn : nextByte s.tcpDat dat = (dat', q)) : s.round .getchar = some (l, dat') := by
  simp only [Sys.round, hpc, hn]

theorem Inside.closes {s₀ s : StProtocolParser} {t : List UInt8} {l : Locals} {dat : UInt8} (h : Inside s₀ t l s)
    (hd : dat = protocolEndCode) (hlen : (t.headD 0).toNat = t.length) : Closes l dat := by
  obtain ⟨h₁, h₂, h₃⟩ := h.index
  exact ⟨h₁, hd, UInt8.toNat_inj.mp (by rw [h₂, h₃, hlen])⟩

/-! ## An invariant against faults -/

structure SafeInv (P : StProtocolParser → Prop) (bad : Fault → Prop) (s : Sys) : Prop where
  placed : Placed s
  package : s.pc = .parse → s.parser.mRecvFlag = true → P s.parser
  not_bad : ∀ e, s.fault = some e → ¬ bad e

theorem safeInv_start (P : StProtocolParser → Prop) (bad : Fault → Prop) (pool : Vector UInt8 256) :
    SafeInv P bad (start pool) :=
  ⟨placed_start pool, nofun, nofun⟩

theorem safeInv_step {P : StProtocolParser → Prop} {bad : Fault → Prop} {s s' : Sys} {a : Action}
    (h : SafeInv P bad s) (hs : step out trig s a = some s')
    (hround : ∀ l dat, s.round a = some (l, dat) → ∀ s₀ t, Inside s₀ t l s.parser →
      (∀ e, recevByte out l s.parser dat = .error e → ¬ bad e) ∧
        (dat = protocolEndCode → (t.headD 0).toNat = t.length → P (acceptState s₀ t)))
    (hparse : ∀ p e, P p → protocolParser out p = .error e → ¬ bad e) : SafeInv P bad s' := by
  obtain ⟨hfault, he⟩ := effect_of_step hs
  have hplaced := placed_step h.placed he
  cases he with
  | accept => exact ⟨hplaced, h.package, h.not_bad⟩
  | recv chunk _ => exact ⟨hplaced, h.package, h.not_bad⟩
  | enter dat _ => exact ⟨hplaced, nofun, h.not_bad⟩
  | empty hpc _ =>
    have hf := (placed_test h.placed hpc).1
    exact ⟨hplaced, fun _ ht => absurd (hf.symm.trans ht) Bool.false_ne_true, h.not_bad⟩
  | found _ _ => exact ⟨hplaced, nofun, h.not_bad⟩
  | fault hpc hn hr =>
    obtain ⟨-, s₀, t, hin, -⟩ := (placed_getchar h.placed hpc).2.error hr
    refine ⟨hplaced, h.package, fun e he => ?_⟩
    cases he
    exact (hround _ _ (round_getchar hpc hn) s₀ t hin).1 _ hr
  | next _ _ _ => exact ⟨hplaced, nofun, h.not_bad⟩
  | done hpc hn hr =>
    obtain ⟨hf, hat⟩ := placed_getchar h.placed hpc
    refine ⟨hplaced, fun _ ht => ?_, h.not_bad⟩
    obtain ⟨-, hflag | ⟨s₀, t, hin, hd, hlen, rfl⟩⟩ := hat.return hr
    · rw [hflag, hf] at ht; cases ht
    · exact (hround _ _ (round_getchar hpc hn) s₀ t hin).2 hd hlen
  | parseFault hpc hp =>
    have hp := parsePhase_error hp
    refine ⟨hplaced, h.package, fun e he => ?_⟩
    cases he
    exact hparse _ _ (h.package hpc (protocolParser_error hp).1) hp
  | parsed _ _ => exact ⟨hplaced, nofun, h.not_bad⟩

/-! ## Reads -/

def noOutside : Outside := fun _ => none

def RoundReadsInside (r : Locals × UInt8) : Prop :=
  (Closes r.1 r.2 → r.1.preRecvLen = 0 ∨ 6 ≤ r.1.preRecvLen.toNat) ∧
    ¬ (r.1.avilable = true ∧ r.2 = protocolStartCode ∧ r.1.preRecvLen = 126 ∧ r.1.mRecvDataIndex = 126)

instance : DecidablePred RoundReadsInside := fun _ => inferInstanceAs (Decidable ((_ → _) ∧ ¬ _))

def ReadsInside (s : Sys) (a : Action) : Prop := ∀ r ∈ s.round a, RoundReadsInside r

instance (s : Sys) (a : Action) : Decidable (ReadsInside s a) := inferInstanceAs (Decidable (∀ r ∈ s.round a, _))

def ReadInv : Sys → Prop := SafeInv (fun p => payloadLen p.buffer ≤ 121) (fun e => ∃ i, e = .read i)

theorem readInv_step {s s' : Sys} {a : Action} (h : ReadInv s) (hg : ReadsInside s a)
    (hs : step out trig s a = some s') : ReadInv s' := by
  refine safeInv_step h hs ?_ ?_
  · intro l dat hround s₀ t hin
    obtain ⟨hshort, hlong⟩ := hg _ hround
    obtain ⟨h₁, h₂, h₃⟩ := hin.index
    dsimp only at hshort hlong
    rw [h₂] at hshort
    refine ⟨fun e he => ?_, fun hd hlen => ?_⟩
    · obtain ⟨ho, rfl, hstate⟩ := hin
      rw [hstate] at he
      obtain ⟨-, hlen, hhead, hd⟩ := recevByte_error ho he
      refine absurd ⟨h₁, hd, ?_, ?_⟩ hlong
      · exact UInt8.toNat_inj.mp (by rw [h₂, hhead]; rfl)
      · exact UInt8.toNat_inj.mp (by rw [h₃, hlen]; rfl)
    · refine Nat.le_succ_of_le ((payloadLen_acceptState s₀ hlen hin.open.length_le).mpr ?_)
      rcases hshort (hin.closes hd hlen) with h0 | h6
      · rw [h0] at hlen
        exact .inl (List.length_eq_zero_iff.mp hlen.symm)
      · exact .inr (by omega)
  · rintro p e hp he ⟨i, rfl⟩
    obtain ⟨-, ⟨-, hnull⟩ | ⟨-, hlong, -⟩⟩ := protocolParser_error he
    · cases hnull
    · omega

/-- **Read safety.** In every run whose rounds neither close a candidate of
length 1 to 5 nor make one of length 126 over-long with a start code, no read
leaves the buffer. -/
theorem reads_inside (trig : Trig) (pool : Vector UInt8 256) (as : List Action) (s : Sys)
    (h : Run (Guarded (Steps (step noOutside trig)) ReadsInside) (start pool) as s) (i : Nat) :
    s.fault ≠ some (.read i) :=
  fun hf => (h.invariant (I := ReadInv) (fun _ _ _ hi hs => readInv_step hi hs.2 hs.1)
    (safeInv_start _ _ pool)).not_bad _ hf ⟨i, rfl⟩

def speedRun : List Action :=
  emptyAfter 0 ++ [.accept, .recv (speedFrame 50).chunk] ++ returnsAfter 9

theorem reads_inside_speed : ∃ s, Run (Guarded (Steps (step noOutside default)) ReadsInside)
    (start (Vector.replicate 256 0)) speedRun s ∧ s.fault ≠ some (.read 128) := by
  obtain ⟨s, hs⟩ := Option.isSome_iff_exists.mp (show (exec (restrict (step noOutside default) ReadsInside)
    (start (Vector.replicate 256 0)) speedRun).isSome by decide +kernel)
  exact ⟨s, run_of_exec_restrict hs, reads_inside _ _ _ _ (run_of_exec_restrict hs) 128⟩

/-- `AA 01 55` is taken for a frame, and its checksum read behind the buffer. -/
theorem reads_outside : ¬ ∀ (trig : Trig) (pool : Vector UInt8 256) (as : List Action) (s : Sys),
    Run (Steps (step noOutside trig)) (start pool) as s → ∀ i, s.fault ≠ some (.read i) := by
  intro h
  have hrun : (exec (step noOutside default) (start (Vector.replicate 256 0))
      (emptyAfter 0 ++ [.accept, .recv ⟨[0xAA, 1, 0x55], by simp, by simp⟩] ++ returnsAfter 3)).map Sys.fault =
      some (some (.read 256)) := by decide +kernel
  obtain ⟨s, hs, hf⟩ := Option.map_eq_some_iff.mp hrun
  exact h _ _ _ s (run_of_exec hs) 256 hf

/-! ## The pointer to the package -/

def ClosesWithRecv (s : Sys) (a : Action) : Prop := ∀ r ∈ s.round a, Closes r.1 r.2 → s.parser.recv ≠ none

def ClosesNothing (s : Sys) (a : Action) : Prop := ∀ r ∈ s.round a, ¬ Closes r.1 r.2

instance (s : Sys) (a : Action) : Decidable (ClosesNothing s a) := inferInstanceAs (Decidable (∀ r ∈ s.round a, ¬ _))

def RecvInv : Sys → Prop := SafeInv (fun p => p.recv ≠ none) (fun e => e = .nullPointer)

theorem recvInv_step {s s' : Sys} {a : Action} (h : RecvInv s) (hg : ClosesWithRecv s a)
    (hs : step out trig s a = some s') : RecvInv s' := by
  refine safeInv_step h hs ?_ ?_
  · intro l dat hround s₀ t hin
    refine ⟨fun e he hnull => ?_, fun hd hlen => ?_⟩
    · obtain ⟨ho, rfl, hstate⟩ := hin
      rw [hstate] at he
      obtain ⟨hread, -⟩ := recevByte_error ho he
      rw [hread] at hnull; cases hnull
    · have := hg _ hround (hin.closes hd hlen)
      rw [hin.state, frameState_recv] at this
      rwa [acceptState_recv]
  · rintro p e hp he rfl
    obtain ⟨-, ⟨hnull, -⟩ | ⟨-, -, i, hread, -⟩⟩ := protocolParser_error he
    · exact hp hnull
    · cases hread

theorem recvInv_run {s : Sys} {as : List Action} {pool : Vector UInt8 256}
    (h : Run (Guarded (Steps (step out trig)) ClosesWithRecv) (start pool) as s) : RecvInv s :=
  h.invariant (I := RecvInv) (fun _ _ _ hi hs => recvInv_step hi hs.2 hs.1) (safeInv_start _ _ pool)

structure RecvSet (s : Sys) : Prop where
  inv : RecvInv s
  recv : s.fault = none → s.parser.recv ≠ none

theorem recvSet_of_parse {s s' : Sys} (h : RecvInv s) (hs : step out trig s .parse = some s') : RecvSet s' := by
  refine ⟨recvInv_step h (fun r hr => ?_) hs, ?_⟩
  · cases hr
  · obtain ⟨-, he⟩ := effect_of_step hs
    cases he with
    | parseFault => exact fun hf => absurd hf (Option.some_ne_none _)
    | parsed _ hp =>
      obtain ⟨s₁, rfl⟩ := parsePhase_ok hp
      exact fun _ => Option.some_ne_none _

theorem recvSet_step {s s' : Sys} {a : Action} (h : RecvSet s) (hs : step out trig s a = some s') : RecvSet s' := by
  obtain ⟨hfault, he⟩ := effect_of_step hs
  have hrecv := h.recv hfault
  refine ⟨recvInv_step h.inv (fun _ _ _ => hrecv) hs, ?_⟩
  cases he with
  | accept => exact h.recv
  | recv chunk _ => exact h.recv
  | enter dat _ => exact h.recv
  | empty _ _ => exact h.recv
  | found _ _ => exact h.recv
  | fault _ _ _ => exact fun hf => absurd hf (Option.some_ne_none _)
  | next hpc _ hr =>
    obtain ⟨-, hat⟩ := placed_getchar h.inv.placed hpc
    exact fun _ hn => hrecv ((hat.step hr).2.2.symm.trans hn)
  | done hpc _ hr =>
    obtain ⟨-, hat⟩ := placed_getchar h.inv.placed hpc
    exact fun _ hn => hrecv ((hat.return hr).1.symm.trans hn)
  | parseFault _ _ => exact fun hf => absurd hf (Option.some_ne_none _)
  | parsed _ hp =>
    obtain ⟨s₁, rfl⟩ := parsePhase_ok hp
    exact fun _ => Option.some_ne_none _

/-- **Startup order.** When no candidate is closed in front of the first call of
`protocol_parser_reinit`, `recv` is never dereferenced while it is `NULL`,
whatever comes behind it. -/
theorem recv_set (out : Outside) (trig : Trig) (pool : Vector UInt8 256) {as bs : List Action} {s₁ s : Sys}
    (h₁ : Run (Guarded (Steps (step out trig)) ClosesNothing) (start pool) as s₁)
    (h : Run (Steps (step out trig)) s₁ bs s) (hbs : bs = [] ∨ bs.head? = some .parse) :
    s.fault ≠ some .nullPointer := by
  have hinv : RecvInv s₁ := recvInv_run (h₁.mono fun _ _ _ hs => ⟨hs.1, fun r hr hc => absurd hc (hs.2 r hr)⟩)
  obtain rfl | hbs := hbs
  · obtain rfl := h.eq_of_nil rfl
    exact fun hf => hinv.not_bad _ hf rfl
  · obtain ⟨bs, rfl⟩ := List.head?_eq_some_iff.mp hbs
    obtain ⟨s₂, hs₂, hrun⟩ := h.uncons rfl
    have hset := hrun.invariant (I := RecvSet) (fun _ _ _ hi hs => recvSet_step hi hs) (recvSet_of_parse hinv hs₂)
    exact fun hf => hset.inv.not_bad _ hf rfl

theorem recv_set_speed : ∃ s₁ s,
    Run (Guarded (Steps (step noOutside default)) ClosesNothing) (start (Vector.replicate 256 0)) [.enter 0, .test] s₁ ∧
      Run (Steps (step noOutside default)) s₁
        (.parse :: [.accept, .recv (speedFrame 50).chunk] ++ returnsAfter 9) s ∧ s.fault ≠ some .nullPointer := by
  obtain ⟨s₁, hs₁⟩ := Option.isSome_iff_exists.mp (show (exec (restrict (step noOutside default) ClosesNothing)
    (start (Vector.replicate 256 0)) [.enter 0, .test]).isSome by decide +kernel)
  have hrest : ((exec (restrict (step noOutside default) ClosesNothing) (start (Vector.replicate 256 0))
      [.enter 0, .test]).bind fun s₁ => exec (step noOutside default) s₁
        (.parse :: [.accept, .recv (speedFrame 50).chunk] ++ returnsAfter 9)).isSome := by decide +kernel
  rw [hs₁, Option.bind_some] at hrest
  obtain ⟨s, hs⟩ := Option.isSome_iff_exists.mp hrest
  exact ⟨s₁, s, run_of_exec_restrict hs₁, run_of_exec hs,
    recv_set _ _ _ (run_of_exec_restrict hs₁) (run_of_exec hs) (.inr rfl)⟩

theorem recv_null : ¬ ∀ (out : Outside) (trig : Trig) (pool : Vector UInt8 256) (as : List Action) (s : Sys),
    Run (Steps (step out trig)) (start pool) as s → s.fault ≠ some .nullPointer := by
  intro h
  have hrun : (exec (step noOutside default) (start (Vector.replicate 256 0))
      ([.accept, .recv (speedFrame 50).chunk] ++ returnsAfter 9)).map Sys.fault =
      some (some .nullPointer) := by decide +kernel
  obtain ⟨s, hs, hf⟩ := Option.map_eq_some_iff.mp hrun
  exact h _ _ _ _ s (run_of_exec hs) hf

/-! ## Writes -/

theorem Inside.write_index {s₀ s : StProtocolParser} {t : List UInt8} {l : Locals} (h : Inside s₀ t l s) :
    l.p = some (t.length + 1) ∧ t.length + 1 < bufferSize := by
  have hle := h.open.length_le
  have hb := bufferSize_eq
  rw [h.locals]
  exact ⟨rfl, by omega⟩

theorem Inside.return_true {s₀ s s' : StProtocolParser} {t : List UInt8} {l : Locals} {dat : UInt8}
    (h : Inside s₀ t l s) (hr : recevByte out l s dat = .ok (.return true s')) :
    s'.mPackageLength.toNat = l.preRecvLen.toNat + 2 := by
  obtain ⟨-, hpre, -⟩ := h.index
  obtain ⟨ho, rfl, rfl⟩ := h
  have hle := ho.length_le
  rcases recevByte_ok ho hr with ⟨-, hlen, he⟩ | he | ⟨l₁, -, he⟩ | ⟨-, he⟩
  · have hpackage : s'.mPackageLength = t.headD 0 + 2 := by
      rw [Round.return.injEq] at he
      rw [he.2]
      unfold acceptState
      rfl
    rw [hpackage, hpre, UInt8.toNat_add, hlen, show (2 : UInt8).toNat = 2 from rfl]
    omega
  · cases he
  · cases he
  · cases he

/-- **Write safety**, after any bytes a call has taken, from any state of the
parser: `p` points into the buffer when the next round stores through it, and the
length of a package does not wrap. -/
theorem writes_inside (out : Outside) (s : StProtocolParser) (bs : List UInt8) (l : Locals) (s₁ : StProtocolParser)
    (h : Run (Continues out) ({}, s) bs (l, s₁)) (dat : UInt8) :
    (l.avilable = true → ∃ i, l.p = some i ∧ i < bufferSize) ∧
    (∀ e, recevByte out l s₁ dat = .error e → e = .read bufferSize) ∧
    ∀ s₂, recevByte out l s₁ dat = .ok (.return true s₂) → s₂.mPackageLength.toNat = l.preRecvLen.toNat + 2 := by
  rcases run_spot rfl h with hidle | ⟨pre, t, z, rfl, -, -, hin⟩
  · refine ⟨fun ha => ?_, fun e he => (AtByte.error (.inl hidle) he).1, fun s₂ hr => ?_⟩
    · exact absurd (hidle.symm.trans ha) Bool.false_ne_true
    · exact absurd hr (idle_not_return hidle)
  · refine ⟨fun _ => ⟨_, hin.write_index⟩, fun e he => ?_, fun s₂ hr => hin.return_true hr⟩
    exact (AtByte.error (.inr ⟨z.2, t, hin⟩) he).1

def longest : List UInt8 := 126 :: List.replicate 125 0

theorem run_longest : Run (Continues noOutside) ({}, {}) (protocolStartCode :: longest)
    (frameLocals longest, frameState {} longest) :=
  have hstart : Continues noOutside ({}, {}) protocolStartCode (frameLocals [], frameState {} []) :=
    recevByte_start noOutside {} {} rfl
  have hopen : Open longest := ⟨by decide, by simp, fun _ => by simp⟩
  Run.cons hstart (run_candidate {} (t := []) hopen fun _ => by decide +kernel)

theorem writes_inside_longest :
    ((frameLocals longest).avilable = true → ∃ i, (frameLocals longest).p = some i ∧ i < bufferSize) ∧
    (∀ e, recevByte noOutside (frameLocals longest) (frameState {} longest) protocolEndCode = .error e →
      e = .read bufferSize) ∧
    ∀ s₂, recevByte noOutside (frameLocals longest) (frameState {} longest) protocolEndCode = .ok (.return true s₂) →
      s₂.mPackageLength.toNat = (frameLocals longest).preRecvLen.toNat + 2 :=
  writes_inside noOutside {} _ _ _ run_longest protocolEndCode

/-! ## All faults -/

def Fault.Possible (e : Fault) : Prop := e = .nullPointer ∨ ∃ i, e = .read i ∧ bufferSize ≤ i ∧ i ≤ 261

def FaultInv : Sys → Prop := SafeInv (fun _ => True) fun e => ¬ e.Possible

theorem faultInv_step {s s' : Sys} {a : Action} (h : FaultInv s) (hs : step out trig s a = some s') : FaultInv s' := by
  refine safeInv_step h hs (fun l dat _ s₀ t hin => ⟨fun e he => ?_, fun _ _ => trivial⟩) fun p e _ he => ?_
  · exact not_not.mpr (.inr ⟨bufferSize, (AtByte.error (.inr ⟨s₀, t, hin⟩) he).1, Nat.le_refl _, by decide⟩)
  · obtain ⟨-, ⟨-, hnull⟩ | ⟨-, -, hread⟩⟩ := protocolParser_error he
    · exact not_not.mpr (.inl hnull)
    · exact not_not.mpr (.inr hread)

def shortChunk : Chunk := ⟨[0xAA, 1, 0x55], by decide, by decide⟩

end RocCar

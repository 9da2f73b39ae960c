import RocCar.FramerRun
import RocCar.ParserSound

/-!
# Steps of the two threads

`Effect` says what a step can do, `effect_of_step` that it does nothing else.
The invariant `Placed` says where the framer is in every reachable state: at a
byte, outside a candidate or inside one, or behind an accepted candidate.
-/

namespace RocCar

open Fallible Runs TcpDat

variable {out : Outside} {trig : Trig}

/-! ## What a step does -/

def Sys.bytes (s : Sys) : List UInt8 := s.received.map Prod.snd

theorem bytes_receive (s : Sys) (chunk : Chunk) : (s.receive chunk).bytes = s.bytes ++ chunk.bytes := by
  simp [Sys.bytes, Sys.receive, Function.comp_def]

@[simp] theorem receive_pc (s : Sys) (chunk : Chunk) : (s.receive chunk).pc = s.pc := rfl

@[simp] theorem receive_parserState (s : Sys) (chunk : Chunk) : (s.receive chunk).parser = s.parser := rfl

@[simp] theorem receive_tcpDat (s : Sys) (chunk : Chunk) : (s.receive chunk).tcpDat = s.tcpDat.putForce chunk := rfl

inductive Effect (out : Outside) (trig : Trig) (s : Sys) : Action → Sys → Prop
  | accept : Effect out trig s .accept { s with conn := s.conn + 1 }
  | recv (chunk : Chunk) : s.conn ≠ 0 → Effect out trig s (.recv chunk) (s.receive chunk)
  | enter (dat : UInt8) : s.pc = .top → Effect out trig s (.enter dat) { s with pc := .test {} dat }
  | empty {l : Locals} {dat : UInt8} : s.pc = .test l dat → s.tcpDat.content = [] →
      Effect out trig s .test { s with pc := .parse }
  | found {l : Locals} {dat : UInt8} : s.pc = .test l dat → s.tcpDat.content ≠ [] →
      Effect out trig s .test { s with pc := .getchar l dat }
  | fault {l : Locals} {dat dat' : UInt8} {q : TcpDat} {e : Fault} : s.pc = .getchar l dat →
      nextByte s.tcpDat dat = (dat', q) → recevByte out l s.parser dat' = .error e →
      Effect out trig s .getchar { s with tcpDat := q, fault := some e }
  | next {l l' : Locals} {dat dat' : UInt8} {q : TcpDat} {p : StProtocolParser} : s.pc = .getchar l dat →
      nextByte s.tcpDat dat = (dat', q) → recevByte out l s.parser dat' = .ok (.continue l' p) →
      Effect out trig s .getchar { s with tcpDat := q, parser := p, pc := .test l' dat' }
  | done {l : Locals} {dat dat' : UInt8} {q : TcpDat} {b : Bool} {p : StProtocolParser} : s.pc = .getchar l dat →
      nextByte s.tcpDat dat = (dat', q) → recevByte out l s.parser dat' = .ok (.return b p) →
      Effect out trig s .getchar { s with tcpDat := q, parser := p, pc := .parse }
  | parseFault {e : Fault} : s.pc = .parse → parsePhase out trig s.parser s.robot = .error e →
      Effect out trig s .parse { s with fault := some e }
  | parsed {packet : Option Packet} {p : StProtocolParser} {r : StRocRobot} : s.pc = .parse →
      parsePhase out trig s.parser s.robot = .ok (packet, p, r) →
      Effect out trig s .parse
        { s with parser := p, robot := r, pc := .top, accepted := s.accepted ++ packet.toList }

theorem dataLen_ne_zero_iff (q : TcpDat) : rtRingbufferDataLen q.rb ≠ 0 ↔ q.content ≠ [] := by
  rw [← q.length_content, ne_eq, List.length_eq_zero_iff]

theorem effect_of_step {s s' : Sys} {a : Action} (h : step out trig s a = some s') :
    s.fault = none ∧ Effect out trig s a s' := by
  unfold step at h
  split at h
  · cases h
  rename_i hf
  refine ⟨by simpa using hf, ?_⟩
  cases a with
  | accept => cases h; exact .accept
  | recv chunk =>
    dsimp only at h
    split at h
    · cases h
    · rename_i hc
      cases h; exact .recv chunk hc
  | enter dat =>
    cases hpc : s.pc with
    | top => rw [hpc] at h; cases h; exact .enter dat hpc
    | _ => rw [hpc] at h; cases h
  | test =>
    cases hpc : s.pc with
    | test l dat =>
      rw [hpc] at h
      dsimp only at h
      split at h
      · rename_i hl
        cases h; exact .found hpc ((dataLen_ne_zero_iff _).mp hl)
      · rename_i hl
        rw [dataLen_ne_zero_iff, not_not] at hl
        cases h; exact .empty hpc hl
    | _ => rw [hpc] at h; cases h
  | getchar =>
    cases hpc : s.pc with
    | getchar l dat =>
      rw [hpc] at h
      dsimp only at h
      split at h
      · rename_i hr
        cases h; rw [← hpc]; exact .fault hpc rfl hr
      · rename_i hr
        cases h; exact .next hpc rfl hr
      · rename_i hr
        cases h; exact .done hpc rfl hr
    | _ => rw [hpc] at h; cases h
  | parse =>
    cases hpc : s.pc with
    | parse =>
      rw [hpc] at h
      dsimp only at h
      split at h
      · rename_i hr
        cases h; rw [← hpc]; exact .parseFault hpc hr
      · rename_i hr
        cases h; exact .parsed hpc hr
    | _ => rw [hpc] at h; cases h

theorem step_of_effect {s s' : Sys} {a : Action} (hf : s.fault = none) (h : Effect out trig s a s') :
    step out trig s a = some s' := by
  have hf' : s.fault.isSome = false := by rw [hf]; rfl
  cases h with
  | accept => simp [step, hf']
  | recv chunk hc => simp [step, hf', hc]
  | enter dat hpc => simp [step, hf', hpc]
  | empty hpc hq =>
    have hq : rtRingbufferDataLen s.tcpDat.rb = 0 := not_not.mp fun h => (dataLen_ne_zero_iff _).mp h hq
    simp [step, hf', hpc, hq]
  | found hpc hq =>
    have hq := (dataLen_ne_zero_iff _).mpr hq
    simp [step, hf', hpc, hq]
  | fault hpc hn hr => simp [step, hf', hpc, hn, hr]
  | next hpc hn hr => simp [step, hf', hpc, hn, hr]
  | done hpc hn hr => simp [step, hf', hpc, hn, hr]
  | parseFault hpc hp => simp [step, hf', hpc, hp]
  | parsed hpc hp => simp [step, hf', hpc, hp]

/-! ## An iteration as a run -/

theorem recevLoop_run (trig : Trig) : ∀ (n : Nat) {s : Sys} {l : Locals} {dat : UInt8} {b : Bool}
    {p : StProtocolParser} {q : TcpDat},
    s.fault = none → s.pc = .test l dat → s.tcpDat.content.length ≤ n →
    recevLoop out n l s.parser s.tcpDat = .ok (b, p, q) →
    ∃ as, Run (Steps (step out trig)) s as { s with parser := p, tcpDat := q, pc := .parse }
  | n, s, l, dat, b, p, q, hf, hpc, hn, h => by
    cases hg : s.tcpDat.getchar with
    | none =>
      have hempty := getchar_eq_none.mp hg
      have hstop : recevLoop out n l s.parser s.tcpDat = .ok (l.avilable, s.parser, s.tcpDat) := by
        cases n with
        | zero => rfl
        | succ n => simp only [recevLoop, hg]
      rw [hstop, Except.ok.injEq, Prod.mk.injEq, Prod.mk.injEq] at h
      obtain ⟨-, rfl, rfl⟩ := h
      exact ⟨_, Run.cons (step_of_effect hf (.empty hpc hempty)) (.nil _)⟩
    | some c =>
      obtain ⟨dat', q'⟩ := c
      have hc := getchar_eq_some hg
      rw [hc, List.length_cons] at hn
      obtain ⟨n, rfl⟩ : ∃ m, n = m + 1 := ⟨n - 1, by omega⟩
      have hnext : nextByte s.tcpDat dat = (dat', q') := by rw [nextByte, hg]; rfl
      have hfound : step out trig s .test = some _ := step_of_effect hf (.found hpc (by rw [hc]; simp))
      simp only [recevLoop, hg] at h
      obtain ⟨r, hr, h⟩ := bind_eq_ok.mp h
      cases r with
      | «continue» l' p' =>
        obtain ⟨as, hrun⟩ := recevLoop_run trig n (s := { s with tcpDat := q', parser := p', pc := .test l' dat' })
          hf rfl (by dsimp only; omega) h
        exact ⟨_, Run.cons hfound (Run.cons (step_of_effect hf (.next rfl hnext hr)) hrun)⟩
      | «return» b' p' =>
        simp only [pure_eq_ok, Except.ok.injEq, Prod.mk.injEq] at h
        obtain ⟨-, rfl, rfl⟩ := h
        exact ⟨_, Run.cons hfound (Run.cons (step_of_effect hf (.done rfl hnext hr)) (.nil _))⟩

/-- **An iteration that nothing interrupts** is a run of its steps. -/
theorem wifiControl_run {s : Sys} {p : Option Packet} {c : Car} (hf : s.fault = none) (hpc : s.pc = .top)
    (h : wifiControl out trig s.toCar = .ok (p, c)) :
    ∃ as, Run (Steps (step out trig)) s as { s with toCar := c, accepted := s.accepted ++ p.toList } := by
  obtain ⟨⟨b, p₁, q⟩, hloop, h⟩ := bind_eq_ok.mp h
  obtain ⟨⟨packet, p₂, r⟩, hparse, h⟩ := bind_eq_ok.mp h
  simp only [pure_eq_ok, Except.ok.injEq, Prod.mk.injEq] at h
  obtain ⟨rfl, rfl⟩ := h
  obtain ⟨as, hrun⟩ := recevLoop_run trig _ (s := { s with pc := .test {} 0 }) hf rfl
    (Nat.le_of_eq s.tcpDat.length_content) hloop
  have hlast := step_of_effect (s := { s with parser := p₁, tcpDat := q, pc := .parse }) hf (.parsed rfl hparse)
  have hend := Run.cons (step_of_effect hf (.enter 0 hpc)) (.snoc hrun hlast)
  rw [← hpc] at hend
  exact ⟨_, hend⟩

def speedSys : Sys :=
  { start (Vector.replicate 256 0) with
    tcpDat := (tcpDatCreate (Vector.replicate 256 0)).putForce
      ⟨[0xAA, 7, 0, 1, 6, 0x32, 0, 0x40, 0x55], by decide, by decide⟩
    parser := protocolParserReinit {} }

/-- A speed frame in the ring. -/
theorem wifiControl_run_speed : ∃ p c as, wifiControl (fun _ => none) default speedSys.toCar = .ok (p, c) ∧
    p.isSome = true ∧ Run (Steps (step (fun _ => none) default)) speedSys as
      { speedSys with toCar := c, accepted := speedSys.accepted ++ p.toList } := by
  have hsome : (wifiControl (fun _ => none) default speedSys.toCar).toOption.any (fun r => r.1.isSome) = true := by
    decide +kernel
  cases h : wifiControl (fun _ => none) default speedSys.toCar with
  | error e =>
    rw [h] at hsome
    cases hsome
  | ok r =>
    rw [h] at hsome
    obtain ⟨as, hrun⟩ := wifiControl_run rfl rfl h
    exact ⟨_, _, as, rfl, hsome, hrun⟩

def takes (n : Nat) : List Action := (List.replicate n [.test, .getchar]).flatten

def returnsAfter (n : Nat) : List Action := .enter 0 :: (takes n ++ [.parse])

def emptyAfter (n : Nat) : List Action := .enter 0 :: (takes n ++ [.test, .parse])

/-! ## Where the framer is -/

theorem nextByte_of_content {q q' : TcpDat} {dat dat' : UInt8} (h : nextByte q dat = (dat', q'))
    (hq : q.content ≠ []) : q.content = dat' :: q'.content := by
  cases hg : q.getchar with
  | none => exact absurd (getchar_eq_none.mp hg) hq
  | some p =>
    rw [nextByte, hg, Option.getD_some] at h
    subst h
    exact getchar_eq_some hg

def Placed (s : Sys) : Prop :=
  match s.pc with
  | .top => s.parser.mRecvFlag = false
  | .test l _ | .getchar l _ => s.parser.mRecvFlag = false ∧ AtByte l s.parser
  | .parse => s.parser.mRecvFlag = true →
      ∃ s₀ t, Open t ∧ (t.headD 0).toNat = t.length ∧ s.parser = acceptState s₀ t

theorem placed_test {s : Sys} {l : Locals} {dat : UInt8} (h : Placed s) (hpc : s.pc = .test l dat) :
    s.parser.mRecvFlag = false ∧ AtByte l s.parser := by
  rw [Placed, hpc] at h; exact h

theorem placed_getchar {s : Sys} {l : Locals} {dat : UInt8} (h : Placed s) (hpc : s.pc = .getchar l dat) :
    s.parser.mRecvFlag = false ∧ AtByte l s.parser := by
  rw [Placed, hpc] at h; exact h

theorem placed_step {s s' : Sys} {a : Action} (h : Placed s) (he : Effect out trig s a s') : Placed s' := by
  cases he with
  | accept => exact h
  | recv chunk _ => exact h
  | enter dat hpc =>
    rw [Placed, hpc] at h
    exact ⟨h, .inl rfl⟩
  | empty hpc _ =>
    rw [Placed, hpc] at h
    exact fun hf => by rw [h.1] at hf; cases hf
  | found hpc _ =>
    rw [Placed, hpc] at h
    exact h
  | fault hpc _ _ =>
    rw [Placed, hpc] at h
    simp only [Placed, hpc]
    exact h
  | next hpc _ hr =>
    obtain ⟨hf, hat⟩ := placed_getchar h hpc
    obtain ⟨hat', hflag, -⟩ := hat.step hr
    exact ⟨hflag.trans hf, hat'⟩
  | done hpc _ hr =>
    obtain ⟨hf, hat⟩ := placed_getchar h hpc
    obtain ⟨-, hflag | ⟨s₀, t, hin, -, hlen, hacc⟩⟩ := hat.return hr
    · exact fun hf' => by rw [hflag, hf] at hf'; cases hf'
    · exact fun _ => ⟨s₀, t, hin.open, hlen, hacc⟩
  | parseFault hpc _ =>
    rw [Placed, hpc] at h
    simp only [Placed, hpc]
    exact h
  | parsed hpc hp =>
    obtain ⟨s₁, rfl⟩ := parsePhase_ok hp
    rfl

theorem placed_start (pool : Vector UInt8 256) : Placed (start pool) := rfl

theorem placed_run {s s' : Sys} {as : List Action} (h : Placed s) (hrun : Run (Steps (step out trig)) s as s') :
    Placed s' :=
  hrun.invariant (fun _ _ _ hp hs => placed_step hp (effect_of_step hs).2) h

end RocCar

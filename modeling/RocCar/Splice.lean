import RocCar.Safety

/-!
# Where the bytes of a package come from

The queue is never reset and forgets its oldest bytes on overflow. The bytes of a
package are consecutive in what has been received when nothing has been discarded
since its start code was looked for (`package_consecutive`).
-/

namespace RocCar

open Fallible Runs TcpDat

variable {out : Outside} {trig : Trig}

/-! ## Streams -/

def Sys.stream (s : Sys) (c : Nat) : List UInt8 := (s.received.filter (·.1 = c)).map Prod.snd

def Sys.package (s : Sys) : List UInt8 := s.parser.buffer.toList.take s.parser.mPackageLength.toNat

def FromOneConnection (s : Sys) : Prop := s.parser.mRecvFlag = true → ∃ c, s.package <:+: s.stream c

theorem package_acceptState (s₀ : StProtocolParser) {t : List UInt8} (ho : Open t)
    (hlen : (t.headD 0).toNat = t.length) :
    (acceptState s₀ t).buffer.toList.take (acceptState s₀ t).mPackageLength.toNat =
      protocolStartCode :: (t ++ [protocolEndCode]) := by
  have hb := bufferSize_eq
  have hle := ho.length_le
  have hl : (acceptState s₀ t).mPackageLength.toNat = (protocolStartCode :: (t ++ [protocolEndCode])).length := by
    have : (acceptState s₀ t).mPackageLength = t.headD 0 + 2 := by unfold acceptState; rfl
    rw [this, UInt8.toNat_add, hlen, show (2 : UInt8).toNat = 2 from rfl]
    simp only [List.length_cons, List.length_append, List.length_nil]
    omega
  rw [hl, acceptState_buffer, overlay_toList _ (by simp; omega), List.take_left]

/-! ## The queue holds the end of what was received -/

theorem nextByte_suffix {q q' : TcpDat} {dat dat' : UInt8} (h : nextByte q dat = (dat', q')) :
    q'.content <:+ q.content := by
  cases hg : q.getchar with
  | none =>
    rw [nextByte, hg, Option.getD_none, Prod.mk.injEq] at h
    exact h.2 ▸ List.suffix_refl _
  | some p =>
    rw [nextByte, hg, Option.getD_some] at h
    subst h
    rw [getchar_eq_some hg]
    exact List.suffix_cons _ _

structure ReceivedInv (s : Sys) : Prop where
  content : s.tcpDat.content <:+ s.bytes
  sorted : (s.received.map Prod.fst).Pairwise (· ≤ ·)
  le_conn : ∀ p ∈ s.received, p.1 ≤ s.conn

theorem receivedInv_step {s s' : Sys} {a : Action} (h : ReceivedInv s) (hs : step out trig s a = some s') :
    ReceivedInv s' := by
  obtain ⟨-, he⟩ := effect_of_step hs
  cases he with
  | accept => exact ⟨h.content, h.sorted, fun p hp => Nat.le_succ_of_le (h.le_conn p hp)⟩
  | recv chunk _ =>
    refine ⟨?_, ?_, fun p hp => ?_⟩
    · rw [bytes_receive]
      obtain ⟨pre, hpre⟩ := h.content
      refine (content_putForce_suffix s.tcpDat chunk).trans ⟨pre, ?_⟩
      rw [← List.append_assoc, hpre]
    · simp only [Sys.receive, List.map_append, List.pairwise_append]
      refine ⟨h.sorted, ?_, fun a ha b hb => ?_⟩
      · simp [List.pairwise_iff_getElem]
      · obtain ⟨p, hp, rfl⟩ := List.mem_map.mp ha
        simp only [List.map_map, List.mem_map, Function.comp_apply] at hb
        obtain ⟨x, -, rfl⟩ := hb
        exact h.le_conn p hp
    · rcases List.mem_append.mp hp with hp | hp
      · exact h.le_conn p hp
      · obtain ⟨x, -, rfl⟩ := List.mem_map.mp hp
        exact Nat.le_refl _
  | enter _ _ => exact ⟨h.content, h.sorted, h.le_conn⟩
  | empty _ _ => exact ⟨h.content, h.sorted, h.le_conn⟩
  | found _ _ => exact ⟨h.content, h.sorted, h.le_conn⟩
  | fault _ hn _ => exact ⟨(nextByte_suffix hn).trans h.content, h.sorted, h.le_conn⟩
  | next _ hn _ => exact ⟨(nextByte_suffix hn).trans h.content, h.sorted, h.le_conn⟩
  | done _ hn _ => exact ⟨(nextByte_suffix hn).trans h.content, h.sorted, h.le_conn⟩
  | parseFault _ _ => exact ⟨h.content, h.sorted, h.le_conn⟩
  | parsed _ _ => exact ⟨h.content, h.sorted, h.le_conn⟩

theorem receivedInv_start (pool : Vector UInt8 256) : ReceivedInv (start pool) :=
  ⟨by rw [show (start pool).tcpDat.content = [] from content_create pool]; exact List.nil_suffix, List.Pairwise.nil,
    fun _ hp => absurd hp (by simp [start])⟩

theorem receivedInv_run {s s' : Sys} {as : List Action} (h : ReceivedInv s)
    (hrun : Run (Steps (step out trig)) s as s') : ReceivedInv s' :=
  hrun.invariant (fun _ _ _ hi hs => receivedInv_step hi hs) h

theorem stream_of_ends {s : Sys} {piece : List (Nat × UInt8)} {c : Nat} (h : ReceivedInv s)
    (hp : piece <:+: s.received) (hhead : piece.head?.map Prod.fst = some c)
    (hlast : piece.getLast?.map Prod.fst = some c) : piece.map Prod.snd <:+: s.stream c := by
  have hsorted : (piece.map Prod.fst).Pairwise (· ≤ ·) := h.sorted.sublist (hp.sublist.map _)
  have hall : ∀ x ∈ piece, x.1 = c := by
    intro x hx
    obtain ⟨i, hi, rfl⟩ := List.mem_iff_getElem.mp hx
    rw [List.head?_eq_getElem?, Option.map_eq_some_iff] at hhead
    rw [List.getLast?_eq_getElem?, Option.map_eq_some_iff] at hlast
    obtain ⟨a, ha, hac⟩ := hhead
    obtain ⟨b, hb, hbc⟩ := hlast
    obtain ⟨h0, rfl⟩ := List.getElem?_eq_some_iff.mp ha
    obtain ⟨hl, rfl⟩ := List.getElem?_eq_some_iff.mp hb
    have le : ∀ i j (hi : i < piece.length) (hj : j < piece.length), i ≤ j → piece[i].1 ≤ piece[j].1 := by
      intro i j hi hj hij
      rcases Nat.lt_or_eq_of_le hij with hlt | rfl
      · have := List.pairwise_iff_getElem.mp hsorted i j (by simpa using hi) (by simpa using hj) hlt
        simpa using this
      · exact Nat.le_refl _
    have h₁ := le 0 i h0 hi (Nat.zero_le _)
    have h₂ := le i (piece.length - 1) hi hl (by omega)
    omega
  have hfilter : piece.filter (·.1 = c) = piece := List.filter_eq_self.mpr fun x hx => by simpa using hall x hx
  have := (hp.filter (·.1 = c)).map Prod.snd
  rwa [hfilter] at this

/-! ## From the start code to the end code -/

def KeepsBytes (s : Sys) : Action → Prop
  | .recv chunk => s.tcpDat.Fits chunk
  | _ => True

instance (s : Sys) : ∀ a, Decidable (KeepsBytes s a)
  | .recv _ => inferInstanceAs (Decidable (TcpDat.Fits _ _))
  | .accept | .enter _ | .test | .getchar | .parse => isTrue trivial

def BeforeCandidate (s : Sys) : Prop :=
  match s.pc with
  | .top => True
  | .test l _ => l.avilable = false
  | _ => False

def Ends (taken : List UInt8) (l : Locals) (s : StProtocolParser) : Prop :=
  l.avilable = false ∨ ∃ before s₀ t, taken = before ++ protocolStartCode :: t ∧ Inside s₀ t l s

/-- The bytes received are those taken and those in the ring; the ones taken
last are the candidate. -/
def Linked (s : Sys) : Prop :=
  ∃ taken, s.bytes = taken ++ s.tcpDat.content ∧
    match s.pc with
    | .top => True
    | .test l _ => Ends taken l s.parser
    | .getchar l _ => s.fault = none → s.tcpDat.content ≠ [] ∧ Ends taken l s.parser
    | .parse => s.parser.mRecvFlag = true → ∃ before s₀ t,
        taken = before ++ protocolStartCode :: (t ++ [protocolEndCode]) ∧ s.parser = acceptState s₀ t ∧ Open t ∧
          (t.headD 0).toNat = t.length

theorem linked_of_before {s : Sys} (h : ReceivedInv s) (hb : BeforeCandidate s) : Linked s := by
  obtain ⟨taken, htaken⟩ := h.content
  refine ⟨taken, htaken.symm, ?_⟩
  unfold BeforeCandidate at hb
  cases hpc : s.pc with
  | top => trivial
  | test l dat =>
    rw [hpc] at hb
    exact .inl hb
  | getchar l dat => rw [hpc] at hb; exact hb.elim
  | parse => rw [hpc] at hb; exact hb.elim

theorem linked_step {s s' : Sys} {a : Action} (hplaced : Placed s) (h : Linked s) (hg : KeepsBytes s a)
    (hs : step out trig s a = some s') : Linked s' := by
  obtain ⟨hfault, he⟩ := effect_of_step hs
  obtain ⟨taken, hbytes, h⟩ := h
  have taken_byte : ∀ {q : TcpDat} {dat : UInt8}, s.tcpDat.content = dat :: q.content →
      s.bytes = (taken ++ [dat]) ++ q.content := fun hc => by
    rw [hbytes, hc, List.append_assoc]; rfl
  cases he with
  | accept => exact ⟨taken, hbytes, h⟩
  | recv chunk _ =>
    have hc := content_putForce_fits hg
    refine ⟨taken, by rw [bytes_receive, receive_tcpDat, hc, hbytes, List.append_assoc], ?_⟩
    rw [receive_pc, receive_parserState, receive_tcpDat, hc]
    split at h
    · trivial
    · exact h
    · exact fun hf => ⟨fun hnil => (h hf).1 (List.append_eq_nil_iff.mp hnil).1, (h hf).2⟩
    · exact h
  | enter dat hpc => exact ⟨taken, hbytes, .inl rfl⟩
  | empty hpc _ =>
    have hf := (placed_test hplaced hpc).1
    exact ⟨taken, hbytes, fun ht => absurd (hf.symm.trans ht) Bool.false_ne_true⟩
  | found hpc hne =>
    rw [hpc] at h
    exact ⟨taken, hbytes, fun _ => ⟨hne, h⟩⟩
  | fault hpc hn _ =>
    rw [hpc] at h
    refine ⟨_, taken_byte (nextByte_of_content hn (h hfault).1), ?_⟩
    simp only [hpc]
    exact fun hf => by cases hf
  | next hpc hn hr =>
    rw [hpc] at h
    obtain ⟨hne, h⟩ := h hfault
    refine ⟨_, taken_byte (nextByte_of_content hn hne), ?_⟩
    rcases h with hl | ⟨before, s₀, t, rfl, hin⟩
    · rcases idle_step hl hr with hl' | ⟨rfl, hin⟩
      · exact .inl hl'
      · exact .inr ⟨taken, _, [], rfl, hin⟩
    · rcases hin.step hr with hl' | hin'
      · exact .inl hl'
      · exact .inr ⟨before, s₀, _, by simp, hin'⟩
  | done hpc hn hr =>
    have hflag := (placed_getchar hplaced hpc).1
    rw [hpc] at h
    obtain ⟨hne, h⟩ := h hfault
    refine ⟨_, taken_byte (nextByte_of_content hn hne), fun hf => ?_⟩
    rcases h with hl | ⟨before, s₀, t, rfl, hin⟩
    · exact absurd hr (idle_not_return hl)
    · rcases hin.return hr with ⟨rfl, hlen, rfl⟩ | rfl
      · exact ⟨before, s₀, t, by simp, rfl, hin.open, hlen⟩
      · have hs₀ : s₀.mRecvFlag = false := by
          rw [hin.state, frameState_mRecvFlag] at hflag
          exact hflag
        rw [frameState_mRecvFlag, hs₀] at hf
        cases hf
  | parseFault hpc _ =>
    rw [hpc] at h
    refine ⟨taken, hbytes, ?_⟩
    simp only [hpc]
    exact h
  | parsed hpc _ => exact ⟨taken, hbytes, trivial⟩

theorem package_of_linked {s : Sys} (hplaced : Placed s) (h : Linked s) (hf : s.parser.mRecvFlag = true) :
    ∃ before after, s.bytes = before ++ s.package ++ after := by
  obtain ⟨taken, hbytes, h⟩ := h
  cases hpc : s.pc with
  | top =>
    rw [Placed, hpc] at hplaced
    rw [hplaced] at hf; cases hf
  | test l dat =>
    rw [(placed_test hplaced hpc).1] at hf; cases hf
  | getchar l dat =>
    rw [(placed_getchar hplaced hpc).1] at hf; cases hf
  | parse =>
    rw [hpc] at h
    obtain ⟨before, s₀, t, rfl, hacc, ho, hlen⟩ := h hf
    refine ⟨before, s.tcpDat.content, ?_⟩
    rw [hbytes, Sys.package, hacc, package_acceptState s₀ ho hlen]

/-- **Packages.** When nothing has been discarded since the loop test before the
start code, the package is a piece of what has been received; when its first and
its last byte are of one connection, of the stream of that connection. -/
theorem package_consecutive (out : Outside) (trig : Trig) (pool : Vector UInt8 256) (as₁ as₂ : List Action)
    (s₁ s₂ : Sys) (h₁ : Run (Steps (step out trig)) (start pool) as₁ s₁) (hb : BeforeCandidate s₁)
    (h₂ : Run (Guarded (Steps (step out trig)) KeepsBytes) s₁ as₂ s₂) (hf : s₂.parser.mRecvFlag = true) :
    ∃ piece, piece <:+: s₂.received ∧ piece.map Prod.snd = s₂.package ∧
      ∀ c, piece.head?.map Prod.fst = some c → piece.getLast?.map Prod.fst = some c →
        s₂.package <:+: s₂.stream c := by
  have hplaced₁ := placed_run (placed_start pool) h₁
  have hreceived₁ := receivedInv_run (receivedInv_start pool) h₁
  obtain ⟨hplaced, hlinked⟩ := h₂.invariant (I := fun s => Placed s ∧ Linked s)
    (fun _ _ _ hi hs => ⟨placed_step hi.1 (effect_of_step hs.1).2, linked_step hi.1 hi.2 hs.2 hs.1⟩)
    ⟨hplaced₁, linked_of_before hreceived₁ hb⟩
  have hreceived := receivedInv_run hreceived₁ (h₂.mono fun _ _ _ hs => hs.1)
  obtain ⟨before, after, hbytes⟩ := package_of_linked hplaced hlinked hf
  -- the bytes are the second components of what was received
  obtain ⟨front, back, hreceived_eq, hfront, hback⟩ := List.map_eq_append_iff.mp hbytes
  obtain ⟨pre, piece, rfl, hpre, hpiece⟩ := List.map_eq_append_iff.mp hfront
  have hinfix : piece <:+: s₂.received := ⟨pre, back, hreceived_eq.symm⟩
  refine ⟨piece, hinfix, hpiece, fun c hhead hlast => ?_⟩
  rw [← hpiece]
  exact stream_of_ends hreceived hinfix hhead hlast

/-! ## Concrete runs -/

theorem exists_of_exec_any {f : Sys → Action → Option Sys} {s : Sys} {as : List Action} {P : Sys → Prop}
    [DecidablePred P] (h : (exec f s as).any (fun t => decide (P t)) = true) : ∃ t, exec f s as = some t ∧ P t := by
  rw [Option.any_eq_true] at h
  obtain ⟨t, ht, hp⟩ := h
  exact ⟨t, ht, of_decide_eq_true hp⟩

def takeSpeedRun : List Action :=
  .accept :: .recv (speedFrame 50).chunk :: .enter 0 :: takes 9

theorem package_consecutive_speed : ∃ s : Sys, s.parser.mRecvFlag = true ∧ ∃ piece, piece <:+: s.received ∧
    piece.map Prod.snd = s.package ∧ ∀ c, piece.head?.map Prod.fst = some c →
      piece.getLast?.map Prod.fst = some c → s.package <:+: s.stream c := by
  have hany : (exec (restrict (step noOutside default) KeepsBytes) (start (Vector.replicate 256 0)) takeSpeedRun).any
      (fun s => decide (s.parser.mRecvFlag = true)) = true := by decide +kernel
  obtain ⟨s, hs, hf⟩ := exists_of_exec_any (P := fun s => s.parser.mRecvFlag = true) hany
  have hrun := run_of_exec_restrict hs
  exact ⟨s, hf, package_consecutive _ _ (Vector.replicate 256 0) [] _ _ s (.nil _) trivial hrun hf⟩

def Spliced (s : Sys) : Prop := s.parser.mRecvFlag = true ∧ ∀ c, c ≤ s.conn → ¬ s.package <:+: s.stream c

instance : DecidablePred Spliced := fun _ => inferInstanceAs (Decidable (_ ∧ _))

theorem not_fromOneConnection {s : Sys} (h : ReceivedInv s) (hp : s.package ≠ []) (hs : Spliced s) :
    ¬ FromOneConnection s := by
  intro hone
  obtain ⟨c, hc⟩ := hone hs.1
  by_cases hle : c ≤ s.conn
  · exact hs.2 c hle hc
  · have hnil : s.stream c = [] := by
      rw [Sys.stream, List.map_eq_nil_iff, List.filter_eq_nil_iff]
      intro p hpm
      have := h.le_conn p hpm
      simp only [decide_eq_true_eq]
      omega
    rw [hnil, List.infix_nil] at hc
    exact hp hc

def reconnectRun : List Action :=
  .accept :: .recv ⟨[0xAA, 7, 0, 1], by simp, by simp⟩ :: .accept :: .recv ⟨[6, 50, 0, 64, 0x55], by simp, by simp⟩ ::
    .enter 0 :: takes 9

def overflowRun : List Action :=
  .accept :: .recv ⟨[0xAA, 7], by simp, by simp⟩ :: .enter 0 :: takes 2 ++
    .recv ⟨List.replicate 128 0, by simp, by simp⟩ ::
      .recv ⟨List.replicate 6 0 ++ 0x55 :: List.replicate 121 0, by simp, by simp⟩ ::
      .recv ⟨List.replicate 128 0, by simp, by simp⟩ :: takes 7

theorem package_spliced :
    (¬ ∀ (trig : Trig) (pool : Vector UInt8 256) (as : List Action) (s : Sys),
      Run (Guarded (Steps (step noOutside trig)) KeepsBytes) (start pool) as s → FromOneConnection s) ∧
    (¬ ∀ (trig : Trig) (pool : Vector UInt8 256) (as : List Action) (s : Sys),
      Run (Steps (step noOutside trig)) (start pool) as s → s.conn = 1 → FromOneConnection s) := by
  constructor
  · intro h
    have hany : (exec (restrict (step noOutside default) KeepsBytes) (start (Vector.replicate 256 0))
        reconnectRun).any (fun s => decide (Spliced s ∧ s.package ≠ [])) = true := by decide +kernel
    obtain ⟨s, hs, hspliced, hne⟩ := exists_of_exec_any (P := fun s => Spliced s ∧ s.package ≠ []) hany
    have hrun := run_of_exec_restrict hs
    have hreceived := receivedInv_run (receivedInv_start _) (hrun.mono fun _ _ _ hs => hs.1)
    exact not_fromOneConnection hreceived hne hspliced (h _ _ _ s hrun)
  · intro h
    have hany : (exec (step noOutside default) (start (Vector.replicate 256 0)) overflowRun).any
        (fun s => decide (Spliced s ∧ s.package ≠ [] ∧ s.conn = 1)) = true := by decide +kernel
    obtain ⟨s, hs, hspliced, hne, hconn⟩ :=
      exists_of_exec_any (P := fun s => Spliced s ∧ s.package ≠ [] ∧ s.conn = 1) hany
    have hrun := run_of_exec hs
    exact not_fromOneConnection (receivedInv_run (receivedInv_start _) hrun) hne hspliced (h _ _ _ s hrun hconn)

end RocCar

import RocCar.FrameSound
import RocCar.Safety

/-!
# A stream of frames

The frames of a stream are received in chunks that may end anywhere, while
`wifi_control` iterates. As long as no iteration finds the ring empty inside a
frame, the frames accepted are those accepted when each is put and polled on its
own (`stream_delivers`). The framer keeps nothing from one call to the next, so
a frame that the ring ran empty in is lost (`stream_cut`).
-/

namespace RocCar

open Fallible Runs TcpDat

variable {out : Outside} {trig : Trig}

def encAll (frames : List Frame) : List UInt8 := frames.flatMap Frame.enc

/-! ## Each frame on its own -/

def pollEach (out : Outside) (trig : Trig) : List Frame → Car → Except Fault (List (Option Packet) × Car)
  | [], c => .ok ([], c)
  | f :: frames, c => do
    let (p, c) ← wifiControl out trig { c with tcpDat := c.tcpDat.putForce f.chunk }
    let (ps, c) ← pollEach out trig frames c
    return (p :: ps, c)

def pollEachAccepted (out : Outside) (trig : Trig) (frames : List Frame) (c : Car) : List Packet :=
  match pollEach out trig frames c with
  | .ok (ps, _) => ps.filterMap id
  | .error _ => []

theorem pollEach_ok (out : Outside) (trig : Trig) : ∀ {frames : List Frame} {c : Car},
    (∀ f ∈ frames, f.Readable) → c.tcpDat.content = [] → c.parser.recv ≠ none →
      ∃ c', pollEach out trig frames c = .ok (frames.map fun f => some f.packet, c')
  | [], c, _, _, _ => ⟨c, rfl⟩
  | f :: frames, c, hread, hc, hr => by
    obtain ⟨recv, hrecv⟩ := Option.ne_none_iff_exists'.mp hr
    have hfits : c.tcpDat.Fits f.chunk := by
      have := f.chunk.length_le
      rw [fits_iff, hc, List.length_nil]; omega
    have hcontent : (c.tcpDat.putForce f.chunk).content = (Item.mk [] f (by simp)).bytes ++ [] := by
      rw [content_putForce_fits hfits, hc, List.append_nil]; rfl
    obtain ⟨c', s, hw, hrest, hs⟩ := wifiControl_frame out trig
      (c := { c with tcpDat := c.tcpDat.putForce f.chunk }) hrecv hcontent (hread f (List.mem_cons_self ..))
    obtain ⟨c'', hp⟩ := pollEach_ok out trig (c := c')
      (fun g hg => hread g (List.mem_cons_of_mem _ hg)) hrest (by rw [hs]; exact Option.some_ne_none _)
    refine ⟨c'', ?_⟩
    rw [pollEach, hw, ok_bind]
    dsimp only
    rw [hp, ok_bind]
    rfl

theorem pollEachAccepted_eq {frames : List Frame} {c : Car} (hread : ∀ f ∈ frames, f.Readable)
    (hc : c.tcpDat.content = []) (hr : c.parser.recv ≠ none) :
    pollEachAccepted out trig frames c = frames.map Frame.packet := by
  obtain ⟨c', hp⟩ := pollEach_ok out trig hread hc hr
  rw [pollEachAccepted, hp]
  simp [List.filterMap_map]

/-! ## Guards -/

structure Ready (s : Sys) : Prop where
  pc : s.pc = .top
  fault : s.fault = none
  content : s.tcpDat.content = []
  flag : s.parser.mRecvFlag = false
  recv : s.parser.recv ≠ none
  received : s.received = []
  accepted : s.accepted = []

def Feeds (frames : List Frame) (s : Sys) : Action → Prop
  | .recv chunk => s.tcpDat.Fits chunk ∧ s.bytes ++ chunk.bytes <+: encAll frames
  | _ => True

def WholeFrames (frames : List Frame) (s : Sys) : Action → Prop
  | .test => s.tcpDat.content = [] → ∃ k, k ≤ frames.length ∧ s.bytes = encAll (frames.take k)
  | _ => True

instance (frames : List Frame) (s : Sys) : ∀ a, Decidable (Feeds frames s a)
  | .recv _ => inferInstanceAs (Decidable (_ ∧ _))
  | .accept | .enter _ | .test | .getchar | .parse => isTrue trivial

instance (frames : List Frame) (s : Sys) : ∀ a, Decidable (WholeFrames frames s a)
  | .test => inferInstanceAs (Decidable (_ → _))
  | .accept | .recv _ | .enter _ | .getchar | .parse => isTrue trivial

/-! ## The frames done and the frame under way -/

/-- At a byte, the frames `done` have been taken and at most a part of the next
one. -/
def Taking (done todo : List Frame) (l : Locals) (s : Sys) : Prop :=
  (l.avilable = false ∧ s.bytes = encAll done ++ s.tcpDat.content) ∨
    ∃ f rest s₀ t u, todo = f :: rest ∧ f.body = t ++ u ∧ Inside s₀ t l s.parser ∧
      s.bytes = encAll done ++ (protocolStartCode :: t ++ s.tcpDat.content)

def Phase (done todo : List Frame) (s : Sys) : Prop :=
  match s.pc with
  | .top => s.parser.mRecvFlag = false ∧ s.bytes = encAll done ++ s.tcpDat.content
  | .test l _ => s.parser.mRecvFlag = false ∧ Taking done todo l s
  | .getchar l _ => s.parser.mRecvFlag = false ∧ Taking done todo l s ∧ s.tcpDat.content ≠ []
  | .parse => s.parser.mRecvFlag = false ∧ s.bytes = encAll done ++ s.tcpDat.content ∨
      ∃ f rest s₀, todo = f :: rest ∧ s.parser = acceptState s₀ f.body ∧
        s.bytes = encAll done ++ (f.enc ++ s.tcpDat.content)

structure Progress (frames : List Frame) (s : Sys) : Prop where
  fault : s.fault = none
  recv : s.parser.recv ≠ none
  bytes : s.bytes <+: encAll frames
  phase : ∃ done todo, frames = done ++ todo ∧ s.accepted = done.map Frame.packet ∧ Phase done todo s

theorem encAll_append (fs gs : List Frame) : encAll (fs ++ gs) = encAll fs ++ encAll gs := List.flatMap_append

theorem encAll_cons (f : Frame) (fs : List Frame) : encAll (f :: fs) = f.enc ++ encAll fs := List.flatMap_cons

theorem todo_bytes {frames done todo : List Frame} {c b : List UInt8} (hf : frames = done ++ todo)
    (hp : encAll done ++ (b ++ c) <+: encAll frames) : b ++ c <+: encAll todo := by
  rw [hf, encAll_append] at hp
  exact (List.prefix_append_right_inj _).mp hp

theorem todo_cons {todo : List Frame} {dat : UInt8} {c : List UInt8} (h : dat :: c <+: encAll todo) :
    ∃ f rest, todo = f :: rest ∧ dat = protocolStartCode := by
  cases todo with
  | nil => exact absurd (List.prefix_nil.mp h) (List.cons_ne_nil _ _)
  | cons f rest =>
    rw [encAll_cons, Frame.enc, List.cons_append, List.cons_prefix_cons] at h
    exact ⟨f, rest, rfl, h.1⟩

inductive Next (out : Outside) (done todo : List Frame) (l : Locals) (s : Sys) (dat : UInt8) (c : List UInt8) : Prop
  | byte {f : Frame} {rest : List Frame} {s₀ : StProtocolParser} {t u : List UInt8} : todo = f :: rest →
      f.body = t ++ u → recevByte out l s.parser dat = .ok (.continue (frameLocals t) (frameState s₀ t)) → Open t →
      s.bytes = encAll done ++ (protocolStartCode :: t ++ c) → Next out done todo l s dat c
  | frame {f : Frame} {rest : List Frame} {s₀ : StProtocolParser} : todo = f :: rest →
      recevByte out l s.parser dat = .ok (.return true (acceptState s₀ f.body)) →
      s.bytes = encAll done ++ (f.enc ++ c) → Next out done todo l s dat c

theorem taking_next (out : Outside) {frames done todo : List Frame} {l : Locals} {s : Sys} {dat : UInt8}
    {c : List UInt8} (hread : ∀ f ∈ frames, f.Readable) (hf : frames = done ++ todo) (hb : s.bytes <+: encAll frames)
    (hc : s.tcpDat.content = dat :: c) (h : Taking done todo l s) : Next out done todo l s dat c := by
  rcases h with ⟨hl, hbytes⟩ | ⟨f, rest, s₀, t, u, rfl, hbody, hin, hbytes⟩
  · rw [hbytes, hc] at hb
    obtain ⟨f, rest, rfl, rfl⟩ := todo_cons (todo_bytes (b := []) hf hb)
    refine .byte (t := []) (u := f.body) rfl rfl (recevByte_start out l s.parser hl) trivial ?_
    rw [hbytes, hc]; rfl
  · obtain ⟨ho, rfl, hstate⟩ := hin
    have hreadf : f.Readable := hread f (by rw [hf]; simp)
    -- the next byte is the next one of the frame
    have hp : dat :: c <+: u ++ (protocolEndCode :: encAll rest) := by
      rw [hbytes, hc] at hb
      have := todo_bytes hf hb
      rw [encAll_cons, Frame.enc, hbody, List.cons_append, List.cons_append, List.cons_prefix_cons] at this
      simpa [List.append_assoc] using this.2
    cases u with
    | nil =>
      rw [List.nil_append, List.cons_prefix_cons] at hp
      obtain ⟨rfl, -⟩ := hp
      rw [List.append_nil] at hbody
      have hend := recevByte_end out s₀ (t := t) ho.length_le
        (by rw [← hbody, f.length_body]; exact f.len_toNat)
      rw [← hbody] at hend
      refine .frame rfl (by rw [hstate, ← hbody]; exact hend) ?_
      rw [hbytes, hc, Frame.enc, hbody]; simp
    | cons b u =>
      rw [List.cons_append, List.cons_prefix_cons] at hp
      obtain ⟨rfl, -⟩ := hp
      have ho' : Open (t ++ [dat]) := by
        have := f.open_body
        rw [hbody, List.append_cons] at this
        exact this.left
      have hmore := recevByte_more out s₀ ho' fun ht hd => by
        rw [ht, List.nil_append, hd] at hbody
        exact f.len_eq_endCode_iff.mp (List.head_eq_of_cons_eq hbody) hreadf
      refine .byte (t := t ++ [dat]) (u := u) rfl (by rw [hbody]; simp) (by rw [hstate]; exact hmore) ho' ?_
      rw [hbytes, hc]; simp

/-! ## Runs -/

theorem taking_receive {done todo : List Frame} {l : Locals} {s : Sys} {chunk : Chunk} (hfits : s.tcpDat.Fits chunk)
    (h : Taking done todo l s) : Taking done todo l (s.receive chunk) := by
  rcases h with ⟨hl, hb⟩ | ⟨f, rest, s₀, t, u, htodo, hbody, hin, hb⟩
  · exact .inl ⟨hl, by rw [bytes_receive, receive_tcpDat, content_putForce_fits hfits, hb, List.append_assoc]⟩
  · refine .inr ⟨f, rest, s₀, t, u, htodo, hbody, hin, ?_⟩
    rw [bytes_receive, receive_tcpDat, content_putForce_fits hfits, hb]
    simp only [List.append_assoc]

theorem phase_receive {done todo : List Frame} {s : Sys} {chunk : Chunk} (hfits : s.tcpDat.Fits chunk)
    (h : Phase done todo s) : Phase done todo (s.receive chunk) := by
  have hc := content_putForce_fits hfits
  have hb := bytes_receive s chunk
  unfold Phase at h ⊢
  rw [receive_pc, receive_parserState, receive_tcpDat, hc, hb]
  split at h
  · exact ⟨h.1, by rw [h.2, List.append_assoc]⟩
  · exact ⟨h.1, taking_receive hfits h.2⟩
  · exact ⟨h.1, taking_receive hfits h.2.1, fun hnil => h.2.2 (List.append_eq_nil_iff.mp hnil).1⟩
  · rcases h with ⟨hf, h⟩ | ⟨f, rest, s₀, htodo, hacc, h⟩
    · exact .inl ⟨hf, by rw [h, List.append_assoc]⟩
    · exact .inr ⟨f, rest, s₀, htodo, hacc, by rw [h]; simp only [List.append_assoc]⟩

theorem Taking.atByte {done todo : List Frame} {l : Locals} {s : Sys} (h : Taking done todo l s) :
    AtByte l s.parser := by
  rcases h with ⟨hl, -⟩ | ⟨_, _, s₀, t, _, -, -, hin, -⟩
  · exact .inl hl
  · exact .inr ⟨s₀, t, hin⟩

theorem encAll_mono {fs gs : List Frame} (h : fs <+: gs) : encAll fs <+: encAll gs := by
  obtain ⟨rest, rfl⟩ := h
  rw [encAll_append]
  exact List.prefix_append _ _

theorem inside_not_whole {frames done rest : List Frame} {f : Frame} {t u : List UInt8} {k : Nat}
    (hf : frames = done ++ f :: rest) (hbody : f.body = t ++ u) :
    encAll done ++ (protocolStartCode :: t) ≠ encAll (frames.take k) := by
  intro h
  have h := congrArg List.length h
  have hlen := congrArg List.length hbody
  rw [List.length_append, f.length_body] at hlen
  rw [List.length_append, List.length_cons] at h
  by_cases hk : k ≤ done.length
  · have hle := (encAll_mono (List.take_prefix_take_left (l := frames) hk)).length_le
    rw [show frames.take done.length = done by rw [hf]; simp] at hle
    omega
  · have hle := (encAll_mono (List.take_prefix_take_left (l := frames) (Nat.lt_of_not_le hk))).length_le
    rw [show frames.take (done.length + 1) = done ++ [f] by
      rw [hf, List.take_length_add_append]; rfl, encAll_append, encAll_cons, List.length_append, List.length_append,
      f.length_enc] at hle
    omega

theorem progress_step {frames : List Frame} {s s' : Sys} {a : Action} (hread : ∀ f ∈ frames, f.Readable)
    (h : Progress frames s) (hfeed : Feeds frames s a) (hwhole : WholeFrames frames s a)
    (hs : step out trig s a = some s') : Progress frames s' := by
  obtain ⟨-, he⟩ := effect_of_step hs
  obtain ⟨done, todo, hf, hacc, hphase⟩ := h.phase
  cases he with
  | accept => exact ⟨h.fault, h.recv, h.bytes, done, todo, hf, hacc, hphase⟩
  | recv chunk _ =>
    obtain ⟨hfits, hpre⟩ := hfeed
    exact ⟨h.fault, h.recv, by rw [bytes_receive]; exact hpre, done, todo, hf, hacc, phase_receive hfits hphase⟩
  | enter dat hpc =>
    rw [Phase, hpc] at hphase
    exact ⟨h.fault, h.recv, h.bytes, done, todo, hf, hacc, hphase.1, .inl ⟨rfl, hphase.2⟩⟩
  | empty hpc hempty =>
    rw [Phase, hpc] at hphase
    obtain ⟨hflag, ⟨-, hb⟩ | ⟨f, rest, s₀, t, u, rfl, hbody, -, hb⟩⟩ := hphase
    · exact ⟨h.fault, h.recv, h.bytes, done, todo, hf, hacc, .inl ⟨hflag, hb⟩⟩
    · obtain ⟨k, -, hk⟩ := hwhole hempty
      rw [hb, hempty, List.append_nil] at hk
      exact absurd hk (inside_not_whole hf hbody)
  | found hpc hne =>
    rw [Phase, hpc] at hphase
    exact ⟨h.fault, h.recv, h.bytes, done, todo, hf, hacc, hphase.1, hphase.2, hne⟩
  | fault hpc hn hr =>
    rw [Phase, hpc] at hphase
    obtain ⟨-, htaking, hne⟩ := hphase
    cases taking_next out hread hf h.bytes (nextByte_of_content hn hne) htaking with
    | byte _ _ hr' _ _ => rw [hr'] at hr; cases hr
    | frame _ hr' _ => rw [hr'] at hr; cases hr
  | next hpc hn hr =>
    rw [Phase, hpc] at hphase
    obtain ⟨hflag, htaking, hne⟩ := hphase
    cases taking_next out hread hf h.bytes (nextByte_of_content hn hne) htaking with
    | byte htodo hbody hr' ho hb =>
      rw [hr', Except.ok.injEq, Round.continue.injEq] at hr
      obtain ⟨rfl, rfl⟩ := hr
      obtain ⟨-, hflag', hrecv⟩ := htaking.atByte.step hr'
      exact ⟨h.fault, fun hn => h.recv (hrecv.symm.trans hn), h.bytes, done, todo, hf, hacc, hflag'.trans hflag,
        .inr ⟨_, _, _, _, _, htodo, hbody, ⟨ho, rfl, rfl⟩, hb⟩⟩
    | frame _ hr' _ => rw [hr'] at hr; cases hr
  | done hpc hn hr =>
    rw [Phase, hpc] at hphase
    obtain ⟨hflag, htaking, hne⟩ := hphase
    cases taking_next out hread hf h.bytes (nextByte_of_content hn hne) htaking with
    | byte _ _ hr' _ _ => rw [hr'] at hr; cases hr
    | frame htodo hr' hb =>
      rw [hr', Except.ok.injEq, Round.return.injEq] at hr
      obtain ⟨-, rfl⟩ := hr
      obtain ⟨hrecv, -⟩ := htaking.atByte.return hr'
      exact ⟨h.fault, fun hn => h.recv (hrecv.symm.trans hn), h.bytes, done, todo, hf, hacc,
        .inr ⟨_, _, _, htodo, rfl, hb⟩⟩
  | parseFault hpc hp =>
    rw [Phase, hpc] at hphase
    obtain ⟨hflag, ⟨hnull, -⟩ | ⟨-, hlong, -⟩⟩ := protocolParser_error (parsePhase_error hp)
    · exact absurd hnull h.recv
    · rcases hphase with ⟨hf', -⟩ | ⟨f, rest, s₀, -, hacc', -⟩
      · rw [hf'] at hflag; cases hflag
      · rw [hacc', (acceptState_holds s₀ f).body.payloadLen] at hlong
        have := f.length_data
        omega
  | parsed hpc hp =>
    rw [Phase, hpc] at hphase
    obtain ⟨s₁, rfl⟩ := parsePhase_ok hp
    rcases hphase with ⟨hflag, hb⟩ | ⟨f, rest, s₀, rfl, hacc', hb⟩
    · rw [parsePhase_false _ _ (protocolParser_idle hflag), Except.ok.injEq, Prod.mk.injEq] at hp
      refine ⟨h.fault, Option.some_ne_none _, h.bytes, done, todo, hf, ?_, rfl, hb⟩
      rw [← hp.1]; simpa using hacc
    · obtain ⟨recv, hrecv⟩ := Option.ne_none_iff_exists'.mp h.recv
      rw [hacc'] at hp hrecv
      obtain ⟨hparser, hpacket⟩ := (acceptState_holds s₀ f).body.accepted out (acceptState_mRecvFlag _ _) hrecv
      obtain ⟨r', -, hok⟩ := parsePhase_true trig s.robot hparser
      rw [hok, hpacket, Except.ok.injEq, Prod.mk.injEq] at hp
      refine ⟨h.fault, Option.some_ne_none _, h.bytes, done ++ [f], rest, by rw [hf]; simp, ?_, rfl, ?_⟩
      · rw [← hp.1]; simp [hacc]
      · have hb' : s.bytes = encAll (done ++ [f]) ++ s.tcpDat.content := by
          rw [hb, encAll_append, encAll_cons]; simp [encAll]
        exact hb'

theorem progress_ready {frames : List Frame} {s : Sys} (h : Ready s) : Progress frames s := by
  have hb : s.bytes = [] := by rw [Sys.bytes, h.received]; rfl
  refine ⟨h.fault, h.recv, by rw [hb]; exact List.nil_prefix, [], frames, rfl, h.accepted, ?_⟩
  rw [Phase, h.pc]
  exact ⟨h.flag, by rw [hb, h.content]; rfl⟩

/-- The frames accepted are the first of those accepted one by one, without a
fault, and all of them once the whole stream has been received and taken. -/
def Delivers (frames : List Frame) (expected : List Packet) (s : Sys) : Prop :=
  s.fault = none ∧ s.accepted <+: expected ∧
    (s.pc = .top → s.tcpDat.content = [] → s.bytes = encAll frames → s.accepted = expected)

theorem encAll_append_inj {done todo : List Frame} (h : encAll (done ++ todo) = encAll done) : todo = [] := by
  cases todo with
  | nil => rfl
  | cons f rest =>
    have := congrArg List.length h
    rw [encAll_append, encAll_cons, List.length_append, List.length_append, f.length_enc] at this
    omega

/-- **A stream of frames.** In every run that receives a stream of frames
without overflow and never finds the ring empty inside a frame, the frames
accepted are those accepted when each frame is put and polled on its own. -/
theorem stream_delivers (out : Outside) (trig : Trig) (frames : List Frame)
    (hread : ∀ f ∈ frames, f.data.length ≠ 79) (s₀ : Sys) (hready : Ready s₀) (as : List Action) (s : Sys)
    (hrun : Run (Guarded (Steps (step out trig)) fun s a => Feeds frames s a ∧ WholeFrames frames s a) s₀ as s) :
    Delivers frames (pollEachAccepted out trig frames s₀.toCar) s := by
  obtain ⟨hfault, -, -, done, todo, hf, hacc, hphase⟩ := hrun.invariant (I := Progress frames)
    (fun _ _ _ hp hs => progress_step hread hp hs.2.1 hs.2.2 hs.1) (progress_ready hready)
  rw [pollEachAccepted_eq hread hready.content hready.recv]
  refine ⟨hfault, ?_, fun hpc hc hb => ?_⟩
  · rw [hacc, hf, List.map_append]
    exact List.prefix_append _ _
  · rw [Phase, hpc] at hphase
    rw [hphase.2, hc, List.append_nil, hf] at hb
    rw [hacc, hf, encAll_append_inj hb.symm, List.append_nil]

/-! ## A frame in two chunks -/

def readySys : Sys where
  tcpDat := tcpDatCreate (Vector.replicate 256 0)
  parser := protocolParserReinit {}
  robot := rocRobotInit

theorem ready_readySys : Ready readySys :=
  ⟨rfl, rfl, content_create _, rfl, Option.some_ne_none _, rfl, rfl⟩

def headChunk : Chunk := ⟨(speedFrame 50).enc.take 3, by decide, by decide⟩

def tailChunk : Chunk := ⟨(speedFrame 50).enc.drop 3, by decide, by decide⟩

theorem stream_delivers_speed : ∃ s, Run (Guarded (Steps (step noOutside default))
      fun s a => Feeds [speedFrame 50] s a ∧ WholeFrames [speedFrame 50] s a) readySys
      ([.accept] ++ emptyAfter 0 ++ [.recv headChunk, .recv tailChunk] ++ returnsAfter 9) s ∧
    Delivers [speedFrame 50] (pollEachAccepted noOutside default [speedFrame 50] readySys.toCar) s := by
  obtain ⟨s, hs⟩ := Option.isSome_iff_exists.mp (show (exec (restrict (step noOutside default)
    fun s a => Feeds [speedFrame 50] s a ∧ WholeFrames [speedFrame 50] s a) readySys
    ([.accept] ++ emptyAfter 0 ++ [.recv headChunk, .recv tailChunk] ++ returnsAfter 9)).isSome by decide +kernel)
  have hrun := run_of_exec_restrict hs
  exact ⟨s, hrun, stream_delivers _ _ _ (by simp [speedFrame]) _ ready_readySys _ _ hrun⟩

/-- The ring runs empty between the chunks: the frame is lost. -/
theorem stream_cut : ¬ ∀ (out : Outside) (trig : Trig) (frames : List Frame) (s₀ : Sys) (as : List Action) (s : Sys),
    Ready s₀ → Run (Guarded (Steps (step out trig)) (Feeds frames)) s₀ as s →
    Delivers frames (pollEachAccepted out trig frames s₀.toCar) s := by
  intro h
  have hlost : (exec (restrict (step noOutside default) (Feeds [speedFrame 50])) readySys
      ([.accept, .recv headChunk] ++ emptyAfter 3 ++ [.recv tailChunk] ++ emptyAfter 6)).map
        (fun s => (s.pc, s.tcpDat.content, s.bytes, s.accepted)) = some (.top, [], encAll [speedFrame 50], []) := by
    decide +kernel
  obtain ⟨s, hs, hend⟩ := Option.map_eq_some_iff.mp hlost
  simp only [Prod.mk.injEq] at hend
  obtain ⟨hpc, hc, hb, hacc⟩ := hend
  have hall := (h _ _ _ _ _ s ready_readySys (run_of_exec_restrict hs)).2.2 hpc hc hb
  rw [hacc, pollEachAccepted_eq (by simp [speedFrame, Frame.Readable]) ready_readySys.content
    ready_readySys.recv] at hall
  cases hall

end RocCar

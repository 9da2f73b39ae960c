import RocCar.Scan

/-!
# A frame behind a truncated frame

The candidate that a truncated frame opens takes the start code of the frame
behind it, and with it the frame is lost, but for lengths that are the end code
(`resync_iff`).
-/

namespace RocCar

open Fallible Runs TcpDat

variable {out : Outside} {trig : Trig}

/-! ## The first candidate -/

def Spans (t : List UInt8) (dat : UInt8) : Prop :=
  (t = [] ∧ (dat = protocolEndCode ∨ 126 < dat.toNat)) ∨ (t.head? = some 0 ∧ t.length = 126) ∨
    (0 < t.length ∧ (t.headD 0).toNat = t.length)

theorem GivenUp.spans {t : List UInt8} {dat : UInt8} (h : GivenUp out t dat) : Spans t dat :=
  .inr (.inr ⟨h.length_pos, h.len⟩)

theorem Returns.spans {t : List UInt8} {dat : UInt8} (h : Returns out t dat) : Spans t dat := by
  cases h with
  | closed hlen _ _ _ =>
    cases t with
    | nil => exact .inl ⟨rfl, .inl rfl⟩
    | cons len t => exact .inr (.inr ⟨Nat.succ_pos _, hlen⟩)
  | tooLong hlong => exact .inl ⟨rfl, .inr hlong⟩
  | full hz hfull => exact .inr (.inl ⟨hz, hfull⟩)
  | overLong hlen hpos _ _ _ _ _ => exact .inr (.inr ⟨hpos, hlen⟩)

def HeadSpans (bs : List UInt8) : Prop :=
  ∃ t dat rest, bs = protocolStartCode :: (t ++ dat :: rest) ∧ Spans t dat

theorem HeadSpans.append {bs : List UInt8} (h : HeadSpans bs) (cs : List UInt8) : HeadSpans (bs ++ cs) := by
  obtain ⟨t, dat, rest, rfl, hspan⟩ := h
  exact ⟨t, dat, rest ++ cs, by simp, hspan⟩

theorem HeadSpans.candidate {bs t : List UInt8} {dat : UInt8} (hspan : Spans t dat)
    (ih : bs.head? = some protocolStartCode → HeadSpans bs)
    (hhead : (bs ++ protocolStartCode :: (t ++ [dat])).head? = some protocolStartCode) :
    HeadSpans (bs ++ protocolStartCode :: (t ++ [dat])) := by
  cases bs with
  | nil => exact ⟨t, dat, [], rfl, hspan⟩
  | cons b bs => exact (ih hhead).append _

theorem Scanned.first {bs : List UInt8} {buf : Vector UInt8 bufferSize} (h : Scanned out bs buf)
    (hhead : bs.head? = some protocolStartCode) : HeadSpans bs := by
  induction h with
  | nil => cases hhead
  | @byte bs buf dat _ hd ih =>
    cases bs with
    | nil => exact absurd (Option.some.inj hhead) hd
    | cons b bs => exact (ih hhead).append _
  | candidate _ hup ih => exact .candidate hup.spans ih hhead
  | returned _ hret ih => exact .candidate hret.spans ih hhead

theorem Scanned.of_enc {bs : List UInt8} {buf : Vector UInt8 bufferSize} {g : Frame} (h : Scanned out bs buf)
    (hne : bs ≠ []) (hpre : bs <+: g.enc) : (g.data.length = 79 ∧ 2 ≤ bs.length) ∨ g.enc.length ≤ bs.length := by
  have hl := g.length_data
  have hhead : bs.head? = some protocolStartCode := by
    obtain ⟨b, bs, rfl⟩ := List.exists_cons_of_ne_nil hne
    rw [Frame.enc, List.cons_prefix_cons] at hpre
    exact congrArg some hpre.1
  obtain ⟨t, dat, rest, rfl, hspan⟩ := h.first hhead
  have hbody : g.body = g.len :: g.body.tail := rfl
  rw [Frame.enc, List.cons_prefix_cons, hbody] at hpre
  have hlen := g.len_toNat
  rcases hspan with ⟨rfl, hd⟩ | ⟨hz, -⟩ | ⟨hpos, hcount⟩
  · obtain rfl : dat = g.len := (List.cons_prefix_cons.mp hpre.2).1
    refine .inl ⟨?_, by simp⟩
    rcases hd with hd | hd
    · exact not_not.mp (g.len_eq_endCode_iff.mp hd)
    · omega
  · cases t with
    | nil => cases hz
    | cons len t =>
      obtain rfl : len = g.len := (List.cons_prefix_cons.mp hpre.2).1
      rw [Option.some.inj hz] at hlen
      simp at hlen
  · cases t with
    | nil => cases hpos
    | cons len t =>
      obtain rfl : len = g.len := (List.cons_prefix_cons.mp hpre.2).1
      rw [List.headD_cons, List.length_cons] at hcount
      right
      rw [g.length_enc]
      simp only [List.length_cons, List.length_append]
      omega

/-! ## Truncated frames -/

theorem Restores.length_data {f : Frame} {bs : List UInt8} (h : Restores out f bs) : f.data.length = 79 := by
  obtain ⟨a, buf, -, -, hbody⟩ := h
  have hlen := hbody.header.2.1
  rw [getElem_overlay] at hlen
  exact not_not.mp (f.len_eq_endCode_iff.mp hlen.symm)

theorem meets_truncated {g f : Frame} {u : List UInt8} (hpre : u <+: g.enc) (hproper : u ≠ g.enc)
    (hno : ¬ f.enc <+: u ++ f.enc) (h : Meets out f (u ++ f.enc)) : g.data.length = 79 ∧ 2 ≤ u.length := by
  obtain ⟨a, buf, hs, ha⟩ := h
  have hle : a.length ≤ u.length := by
    have := ha.length_le
    rw [List.length_append, List.length_append] at this
    omega
  have hau : a <+: u := List.prefix_of_prefix_length_le ((List.prefix_append a f.enc).trans ha)
    (List.prefix_append u f.enc) hle
  have hlt : u.length < g.enc.length := by
    rcases Nat.lt_or_eq_of_le hpre.length_le with hlt | heq
    · exact hlt
    · exact absurd (hpre.eq_of_length heq) hproper
  have hne : a ≠ [] := by
    rintro rfl
    exact hno ha
  rcases hs.of_enc hne (hau.trans hpre) with ⟨h79, htwo⟩ | hwhole
  · exact ⟨h79, htwo.trans hle⟩
  · omega

theorem found_truncated_iff {g f : Frame} {u : List UInt8} (hpre : u <+: g.enc) (hproper : u ≠ g.enc)
    (hno : ¬ f.enc <+: u ++ f.enc) :
    Found out f (u ++ f.enc) ↔
      (g.data.length = 79 ∧ 2 ≤ u.length ∧ f.data.length ≠ 79 ∧ Meets out f (u ++ f.enc)) ∨
        (f.data.length = 79 ∧ Restores out f (u ++ f.enc)) := by
  constructor
  · rintro (⟨hread, hmeets⟩ | hrestores)
    · obtain ⟨h79, htwo⟩ := meets_truncated hpre hproper hno hmeets
      exact .inl ⟨h79, htwo, hread, hmeets⟩
    · exact .inr ⟨hrestores.length_data, hrestores⟩
  · rintro (⟨-, -, hread, hmeets⟩ | ⟨-, hrestores⟩)
    · exact .inl ⟨hread, hmeets⟩
    · exact .inr hrestores

/-- **A frame behind a truncated frame** is delivered if and only if the
truncated frame has 79 payload bytes, at least its start code and its length
have been received and the framer then comes to the frame outside a candidate,
or the frame itself has 79 payload bytes and is restored from the buffer. -/
theorem resync_iff (out : Outside) (trig : Trig) (g f : Frame) (u : List UInt8) (hpre : u <+: g.enc)
    (hproper : u ≠ g.enc) (hno : ∀ h : Frame, ¬ h.enc <+: u ++ f.enc) (q : TcpDat) (hq : q.content = u ++ f.enc)
    (s : StProtocolParser) (r : StRocRobot) :
    Delivered out trig f ⟨q, protocolParserReinit s, r⟩ ↔
      (g.data.length = 79 ∧ 2 ≤ u.length ∧ f.data.length ≠ 79 ∧ Meets out f (u ++ f.enc)) ∨
        (f.data.length = 79 ∧ Restores out f (u ++ f.enc)) := by
  rw [delivered_iff_found, hq]
  exact found_truncated_iff hpre hproper (hno f)

theorem Frame.length_of_prefix {h : Frame} {len : UInt8} {bs : List UInt8}
    (hp : h.enc <+: protocolStartCode :: len :: bs) : h.enc.length = len.toNat + 2 := by
  rw [Frame.enc, Frame.body, List.cons_prefix_cons, List.cons_append, List.cons_prefix_cons] at hp
  rw [h.length_enc, ← hp.2.1, h.len_toNat]

def endCodeFrame : Frame := ⟨0, 1, eRobotControlSpeed, List.replicate 79 0, by simp⟩

theorem resync_iff_endCode : ∃ q : TcpDat, q.content = [0xAA, 0x55] ++ (speedFrame 50).enc ∧
    Delivered (fun _ => none) default (speedFrame 50) ⟨q, protocolParserReinit {}, rocRobotInit⟩ := by
  have hq := content_create_put (Vector.replicate 256 0) ⟨[0xAA, 0x55] ++ (speedFrame 50).enc, by decide, by decide⟩
  have hno : ∀ h : Frame, ¬ h.enc <+: [0xAA, 0x55] ++ (speedFrame 50).enc := by
    intro h hp
    have hle := hp.length_le
    rw [Frame.length_of_prefix hp] at hle
    exact absurd hle (by decide)
  have hmeets : Meets (fun _ => none) (speedFrame 50) ([0xAA, 0x55] ++ (speedFrame 50).enc) :=
    ⟨_, _, .returned .nil (.closed (t := []) rfl (by decide) (by decide)
      (legible_of_length rfl (by decide) (.inl rfl))), List.prefix_rfl⟩
  exact ⟨_, hq, (resync_iff (fun _ => none) default endCodeFrame (speedFrame 50) [0xAA, 0x55] (by decide) (by decide)
    hno _ hq {} rocRobotInit).mpr (.inl ⟨by simp [endCodeFrame], by decide, by decide, hmeets⟩)⟩

/-- A speed frame behind one without its end code. -/
theorem resync_lost : ¬ ∀ (out : Outside) (trig : Trig) (g f : Frame) (u : List UInt8), u ≠ [] → u <+: g.enc →
    u ≠ g.enc → (∀ h : Frame, ¬ h.enc <+: u ++ f.enc) → ∀ (q : TcpDat), q.content = u ++ f.enc →
    ∀ (s : StProtocolParser) (r : StRocRobot), Delivered out trig f ⟨q, protocolParserReinit s, r⟩ := by
  intro hall
  have hpre : (speedFrame 50).enc.take 8 <+: (speedFrame 50).enc := List.take_prefix _ _
  have hproper : (speedFrame 50).enc.take 8 ≠ (speedFrame 50).enc := by decide
  have hno : ∀ h : Frame, ¬ h.enc <+: (speedFrame 50).enc.take 8 ++ (speedFrame 60).enc := by
    intro h hp
    have hlen := Frame.length_of_prefix hp
    rw [List.prefix_iff_eq_take, hlen] at hp
    have hlast : h.enc.getLast? = some protocolEndCode := by
      rw [Frame.enc, ← List.cons_append, List.getLast?_concat]
    rw [hp] at hlast
    exact absurd hlast (by decide)
  have hq := content_create_put (Vector.replicate 256 0)
    ⟨(speedFrame 50).enc.take 8 ++ (speedFrame 60).enc, by decide, by decide⟩
  have hd := hall (fun _ => none) default _ (speedFrame 60) _ (by decide) hpre hproper hno _ hq {} rocRobotInit
  rw [delivered_iff_found, hq, found_truncated_iff hpre hproper (hno _)] at hd
  rcases hd with ⟨h79, -⟩ | ⟨h79, -⟩ <;> exact absurd h79 (by decide)

end RocCar

import RocCar.Lib.Runs
import RocCar.RingSound

/-!
# The receive queue

`tcp_dat`: a ring of `2*BUFFER_SIZE` bytes, filled by `tcprecvserv` with what
one `recv` call returned and emptied byte by byte by `protocol_recev_data`. It
carries the invariant of the ring, so that only its readable bytes matter.
-/

namespace RocCar

open Runs

structure Chunk where
  bytes : List UInt8
  length_pos : 0 < bytes.length
  length_le : bytes.length ≤ 128

structure TcpDat where
  rb : RtRingbuffer
  ok : rb.Ok
  size : rb.bufferSize = 256

def tcpDatCreate (pool : Vector UInt8 256) : TcpDat where
  rb := rtRingbufferInit pool.toList 256
  ok := ⟨Nat.succ_pos 255, by simp [rtRingbufferInit], Nat.succ_pos 255, Nat.succ_pos 255,
    fun _ => Nat.le_refl _, fun _ => Nat.le_refl _⟩
  size := rfl

namespace TcpDat

theorem chunk_le (q : TcpDat) (chunk : Chunk) : chunk.bytes.length ≤ q.rb.bufferSize := by
  have := chunk.length_le
  have := q.size
  omega

def putForce (q : TcpDat) (chunk : Chunk) : TcpDat where
  rb := (rtRingbufferPutForce q.rb chunk.bytes).1
  ok := putForce_ok q.ok (q.chunk_le chunk)
  size := (putForce_bufferSize q.ok (q.chunk_le chunk)).trans q.size

def getchar (q : TcpDat) : Option (UInt8 × TcpDat) :=
  (rtRingbufferGetchar q.rb).pmap
    (fun p h => (p.1, ⟨p.2, (getchar_spec q.ok h).1, (getchar_spec q.ok h).2.1.trans q.size⟩))
    (fun _ h => h)

def content (q : TcpDat) : List UInt8 := q.rb.content

def Fits (q : TcpDat) (chunk : Chunk) : Prop := chunk.bytes.length ≤ rtRingbufferSpaceLen q.rb

instance (q : TcpDat) (chunk : Chunk) : Decidable (q.Fits chunk) := inferInstanceAs (Decidable (_ ≤ _))

/-! ## What the two sides see -/

theorem content_create (pool : Vector UInt8 256) : (tcpDatCreate pool).content = [] :=
  (content_eq_nil_iff (tcpDatCreate pool).ok).mpr rfl

theorem length_content (q : TcpDat) : q.content.length = rtRingbufferDataLen q.rb := RocCar.length_content q.ok

theorem fits_iff (q : TcpDat) (chunk : Chunk) : q.Fits chunk ↔ q.content.length + chunk.bytes.length ≤ 256 := by
  have h := dataLen_le q.ok
  rw [Fits, rtRingbufferSpaceLen, length_content, q.size]
  rw [q.size] at h
  omega

theorem getchar_eq_none {q : TcpDat} : q.getchar = none ↔ q.content = [] := by
  rw [getchar, Option.pmap_eq_none_iff, getchar_eq_none_iff]
  exact (content_eq_nil_iff q.ok).symm

theorem getchar_eq_some {q q' : TcpDat} {ch : UInt8} (h : q.getchar = some (ch, q')) :
    q.content = ch :: q'.content := by
  rw [getchar, Option.pmap_eq_some_iff] at h
  obtain ⟨p, hp, -, hq⟩ := h
  rw [Prod.mk.injEq] at hq
  rw [hq.1, hq.2]
  exact (getchar_spec q.ok hp).2.2

theorem content_putForce (q : TcpDat) (chunk : Chunk) :
    (q.putForce chunk).content =
      if ¬ q.Fits chunk ∧ q.rb.readMirror = q.rb.writeMirror then []
      else (q.content ++ chunk.bytes).rtake 256 := by
  rw [content, putForce, putForce_content q.ok (q.chunk_le chunk), q.size]
  simp only [Fits, not_le]
  rfl

theorem content_putForce_fits {q : TcpDat} {chunk : Chunk} (h : q.Fits chunk) :
    (q.putForce chunk).content = q.content ++ chunk.bytes := by
  rw [content_putForce, if_neg (fun hc => hc.1 h), List.rtake, List.length_append]
  rw [fits_iff] at h
  rw [Nat.sub_eq_zero_of_le h, List.drop_zero]

theorem content_create_put (pool : Vector UInt8 256) (chunk : Chunk) :
    ((tcpDatCreate pool).putForce chunk).content = chunk.bytes := by
  have hfits : (tcpDatCreate pool).Fits chunk := by
    rw [fits_iff, content_create]
    exact Nat.le_trans (by simpa using chunk.length_le) (by decide)
  rw [content_putForce_fits hfits, content_create, List.nil_append]

theorem content_putForce_suffix (q : TcpDat) (chunk : Chunk) :
    (q.putForce chunk).content <:+ q.content ++ chunk.bytes := by
  rw [content_putForce]
  split
  · exact List.nil_suffix
  · exact List.drop_suffix _ _

/-! ## Losing the oldest bytes only -/

inductive Op where
  | putForce (chunk : Chunk)
  | getchar

def apply (q : TcpDat) : Op → TcpDat
  | .putForce chunk => q.putForce chunk
  | .getchar => (q.getchar.map Prod.snd).getD q

/-- A step of the queue discards nothing but the oldest bytes: `put_force`
leaves the last 256 of old and new, `getchar` takes the first one. -/
def LosesOldestOnly (q : TcpDat) : Op → Prop
  | .putForce chunk => (q.putForce chunk).content = (q.content ++ chunk.bytes).rtake 256
  | .getchar =>
    match q.getchar with
    | none => q.content = []
    | some (ch, q') => q.content = ch :: q'.content

def PutSafe (q : TcpDat) : Op → Prop
  | .putForce chunk => q.Fits chunk ∨ q.rb.readMirror ≠ q.rb.writeMirror
  | .getchar => True

theorem losesOldestOnly_iff (q : TcpDat) (op : Op) : LosesOldestOnly q op ↔ PutSafe q op := by
  cases op with
  | putForce chunk =>
    simp only [LosesOldestOnly, PutSafe, content_putForce]
    constructor
    · intro heq
      by_contra hc
      rw [not_or, not_not] at hc
      rw [if_pos hc] at heq
      -- the last 256 bytes of a list that ends in the chunk are not none
      have hlen := congrArg List.length heq
      simp only [List.length_nil, List.rtake, List.length_drop, List.length_append] at hlen
      have := chunk.length_pos
      omega
    · intro hsafe
      rw [if_neg (fun hc => by rcases hsafe with hf | hne; exacts [hc.1 hf, hne hc.2])]
  | getchar =>
    simp only [LosesOldestOnly, PutSafe, iff_true]
    cases hg : q.getchar with
    | none => exact getchar_eq_none.mp hg
    | some p =>
      obtain ⟨ch, q'⟩ := p
      exact getchar_eq_some hg

end TcpDat

open TcpDat in
/-- **The receive queue** loses only its oldest bytes if and only if no chunk
overflows it while both indices are in the same mirror. -/
theorem tcpDat_loses_oldest_only (pool : Vector UInt8 256) (ops : List Op) :
    Along TcpDat.apply LosesOldestOnly (tcpDatCreate pool) ops ↔
      Along TcpDat.apply PutSafe (tcpDatCreate pool) ops :=
  along_congr losesOldestOnly_iff ops _

open TcpDat in
/-- 255 bytes in, one out, three in: the ring ends up empty. -/
theorem tcpDat_emptied : ¬ ∀ (pool : Vector UInt8 256) (ops : List Op),
    Along TcpDat.apply LosesOldestOnly (tcpDatCreate pool) ops := by
  intro h
  have := h (Vector.replicate 256 0)
    [.putForce ⟨List.replicate 128 1, by simp, by simp⟩, .putForce ⟨List.replicate 127 2, by simp, by simp⟩,
      .getchar, .putForce ⟨[3, 4, 5], by simp, by simp⟩]
  simp only [Along, LosesOldestOnly] at this
  exact absurd this.2.2.2.1 (by decide +kernel)

end RocCar

import RocCar.Lib.Circular

/-!
# The byte ring

`rt_ringbuffer` as `ringbuffer.c` has it: two indices into one array of
`buffer_size` bytes, each with a mirror bit that flips when the index wraps.
Equal indices in the same mirror mean an empty buffer, in different mirrors a
full one.
-/

namespace RocCar

open Circular

structure RtRingbuffer where
  bufferPtr : List UInt8
  readMirror : Bool
  readIndex : Nat
  writeMirror : Bool
  writeIndex : Nat
  bufferSize : Nat
  deriving DecidableEq, Repr

inductive RtRingbufferState where
  | empty
  | full
  | halffull
  deriving DecidableEq, Repr

def rtRingbufferStatus (rb : RtRingbuffer) : RtRingbufferState :=
  if rb.readIndex = rb.writeIndex then
    if rb.readMirror = rb.writeMirror then .empty else .full
  else .halffull

def rtRingbufferDataLen (rb : RtRingbuffer) : Nat :=
  match rtRingbufferStatus rb with
  | .empty => 0
  | .full => rb.bufferSize
  | .halffull =>
    if rb.writeIndex > rb.readIndex then rb.writeIndex - rb.readIndex
    else rb.bufferSize - (rb.readIndex - rb.writeIndex)

def rtRingbufferSpaceLen (rb : RtRingbuffer) : Nat := rb.bufferSize - rtRingbufferDataLen rb

/-- The pool comes from `rt_malloc` and holds whatever it held before. -/
def rtRingbufferInit (pool : List UInt8) (size : Nat) : RtRingbuffer where
  bufferPtr := pool
  readMirror := false
  readIndex := 0
  writeMirror := false
  writeIndex := 0
  bufferSize := size / 4 * 4  -- RT_ALIGN_DOWN(size, RT_ALIGN_SIZE)

/-- Put a block of data into the ring; when it does not fit, old data is
discarded. Returns the number of bytes stored. -/
def rtRingbufferPutForce (rb : RtRingbuffer) (ptr : List UInt8) : RtRingbuffer × Nat :=
  let spaceLength := rtRingbufferSpaceLen rb
  let ptr := if ptr.length > rb.bufferSize then ptr.drop (ptr.length - rb.bufferSize) else ptr
  let length := ptr.length
  if rb.bufferSize - rb.writeIndex > length then
    let writeIndex := rb.writeIndex + length
    ({ rb with
        bufferPtr := overwrite rb.bufferPtr rb.writeIndex ptr
        writeIndex := writeIndex
        readIndex := if length > spaceLength then writeIndex else rb.readIndex }, length)
  else
    let writeIndex := length - (rb.bufferSize - rb.writeIndex)
    ({ rb with
        bufferPtr := overwrite (overwrite rb.bufferPtr rb.writeIndex (ptr.take (rb.bufferSize - rb.writeIndex))) 0
          (ptr.drop (rb.bufferSize - rb.writeIndex))
        -- we are going into the other side of the mirror
        writeMirror := !rb.writeMirror
        writeIndex := writeIndex
        readMirror := if length > spaceLength then !rb.readMirror else rb.readMirror
        readIndex := if length > spaceLength then writeIndex else rb.readIndex }, length)

/-- The oldest byte, or `none` (the C function returns 0) when the ring is
empty. -/
def rtRingbufferGetchar (rb : RtRingbuffer) : Option (UInt8 × RtRingbuffer) :=
  if rtRingbufferDataLen rb = 0 then none
  else
    let ch := rb.bufferPtr.getD rb.readIndex 0
    if rb.readIndex = rb.bufferSize - 1 then
      some (ch, { rb with readMirror := !rb.readMirror, readIndex := 0 })
    else
      some (ch, { rb with readIndex := rb.readIndex + 1 })

end RocCar

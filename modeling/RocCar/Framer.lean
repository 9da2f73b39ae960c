import RocCar.Protocol
import RocCar.TcpDat

/-!
# The framing loop

`protocol_recev_data`: one round of its loop on a byte (`recevByte`), the loop
over the ring, and the same loop over a list of bytes.
-/

namespace RocCar

/-- The loop's local variables. `p` is uninitialised until a start code has
been read. -/
structure Locals where
  avilable : Bool := false
  preRecvLen : UInt8 := 0
  mRecvDataIndex : UInt8 := 0
  p : Option Nat := none
  deriving DecidableEq, Repr

inductive Round where
  | continue (l : Locals) (s : StProtocolParser)
  | return (avilable : Bool) (s : StProtocolParser)
  deriving DecidableEq, Repr

def resync (out : Outside) (buf : Vector UInt8 bufferSize) : Nat → Locals → Except Fault Locals
  | 0, l => .ok l
  | i + 1, l => do
    let dat ← load out buf (i + 1)
    if dat = protocolStartCode then
      let preRecvLen ← load out buf (i + 2)
      resync out buf i
        { l with p := some (i + 1), preRecvLen, mRecvDataIndex := l.mRecvDataIndex - UInt8.ofNat (i + 1) }
    else resync out buf i l

def logBuffer (out : Outside) (buf : Vector UInt8 bufferSize) : Except Fault Unit := do
  let _ ← (List.range bufferSize).mapM (load out buf)
  return ()

/-- The two checks after a byte of a candidate has been stored: over-long, and
end of buffer. -/
def recevChecks (out : Outside) (l : Locals) (s : StProtocolParser) : Except Fault Round := do
  let l ←
    if l.mRecvDataIndex > l.preRecvLen ∧ l.preRecvLen ≠ 0 then do
      let l ← resync out s.buffer l.mRecvDataIndex.toNat l
      pure { l with avilable := false }
    else pure l
  if l.mRecvDataIndex.toNat ≥ bufferSize - 1 then
    logBuffer out s.buffer
    return .return false s
  else return .continue l s

def recevByte (out : Outside) (l : Locals) (s : StProtocolParser) (dat : UInt8) : Except Fault Round := do
  if l.avilable = false ∧ dat = protocolStartCode then
    let buffer ← store s.buffer (some 0) dat
    return .continue { avilable := true, preRecvLen := 0, mRecvDataIndex := 0, p := some 1 } { s with buffer }
  else if l.avilable then
    -- both branches store the byte at `p`
    let buffer ← store s.buffer l.p dat
    let s := { s with buffer }
    if dat = protocolEndCode ∧ l.preRecvLen = l.mRecvDataIndex then
      return .return true { s with mPackageLength := l.preRecvLen + 2, mRecvFlag := true }
    else
      let p := l.p.map (· + 1)
      let mRecvDataIndex := l.mRecvDataIndex + 1
      if mRecvDataIndex = 1 then
        if dat.toNat > bufferSize - 2 then return .return false s
        else recevChecks out { l with preRecvLen := dat, mRecvDataIndex, p } s
      else recevChecks out { l with mRecvDataIndex, p } s
  else return .continue l s

/-- The loop over `tcp_dat`. Each round takes one byte, so the number of bytes
in the ring bounds the rounds. -/
def recevLoop (out : Outside) : Nat → Locals → StProtocolParser → TcpDat →
    Except Fault (Bool × StProtocolParser × TcpDat)
  | 0, l, s, q => .ok (l.avilable, s, q)
  | n + 1, l, s, q =>
    match q.getchar with
    | none => .ok (l.avilable, s, q)
    | some (dat, q) => do
      match ← recevByte out l s dat with
      | .continue l s => recevLoop out n l s q
      | .return avilable s => return (avilable, s, q)

def protocolRecevData (out : Outside) (s : StProtocolParser) (q : TcpDat) :
    Except Fault (Bool × StProtocolParser × TcpDat) :=
  recevLoop out (rtRingbufferDataLen q.rb) {} s q

/-- The loop over a list of bytes; it returns the bytes it has not taken. -/
def recevBytes (out : Outside) : Locals → StProtocolParser → List UInt8 →
    Except Fault (Bool × StProtocolParser × List UInt8)
  | l, s, [] => .ok (l.avilable, s, [])
  | l, s, dat :: rest => do
    match ← recevByte out l s dat with
    | .continue l s => recevBytes out l s rest
    | .return avilable s => return (avilable, s, rest)

end RocCar

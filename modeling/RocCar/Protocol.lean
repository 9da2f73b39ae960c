import RocCar.Lib.Fallible

/-!
# The command protocol: parser state and parser

`protocol.h`, `protocol_parser.h` and `protocol_parser.c` without the framing
loop. A read of `buffer` at an index of `BUFFER_SIZE` or more leaves the array:
`Outside` says what the memory behind it yields there, a byte or a fault.
-/

namespace RocCar

def protocolStartCode : UInt8 := 0xAA
def protocolEndCode : UInt8 := 0x55

abbrev bufferSize : Nat := 128

/-! ## Function codes and buttons

`E_CONTOROL_FUNC` is cast from a byte of the packet, so a value of that type is
any byte; these are the codes the program acts on. -/

def eRobotControlDirection : UInt8 := 5
def eRobotControlSpeed : UInt8 := 6
def eButton : UInt8 := 13

def btPadRight : UInt16 := 0x0004
def btPadUp : UInt16 := 0x0008
def btPadLeft : UInt16 := 0x0010
def btPadDown : UInt16 := 0x0020
def btGreen : UInt16 := 0x1000
def btBlue : UInt16 := 0x4000

/-! ## Parser state -/

/-- `ST_PROTOCOL`; `data` points into the parser's buffer. -/
structure StProtocol where
  startCode : UInt8 := 0
  len : UInt8 := 0
  type : UInt8 := 0
  addr : UInt8 := 0
  function : UInt8 := 0
  data : Option Nat := none
  sum : UInt16 := 0
  deriving DecidableEq, Repr

/-- `ST_PROTOCOL_PARSER`, zero-initialised. `recv` is `NULL` or points to
`package`, which is kept in the pointer. -/
structure StProtocolParser where
  buffer : Vector UInt8 bufferSize := Vector.replicate bufferSize 0
  recv : Option StProtocol := none
  protocolDataLen : UInt8 := 0
  mRecvFlag : Bool := false
  mSendSuccess : Bool := false
  mHeader : Option Nat := none
  mPackageLength : UInt8 := 0
  mCheckSum : UInt16 := 0
  deriving DecidableEq, Repr

inductive Fault where
  | nullPointer
  | read (i : Nat)
  | write (i : Nat)
  deriving DecidableEq, Repr

/-- What a read at an index past `buffer` yields; `none` is a fault. -/
abbrev Outside := Nat → Option UInt8

def load (out : Outside) (buf : Vector UInt8 bufferSize) (i : Nat) : Except Fault UInt8 :=
  if h : i < bufferSize then .ok buf[i]
  else match out i with
    | some b => .ok b
    | none => .error (.read i)

/-- `*p = dat`, where `p` may still be uninitialised. -/
def store (buf : Vector UInt8 bufferSize) (p : Option Nat) (dat : UInt8) :
    Except Fault (Vector UInt8 bufferSize) :=
  match p with
  | none => .error .nullPointer
  | some i => if h : i < bufferSize then .ok (buf.set i dat) else .error (.write i)

def loadData (out : Outside) (buf : Vector UInt8 bufferSize) (data : Option Nat) (k : Nat) : Except Fault UInt8 :=
  match data with
  | none => .error .nullPointer
  | some d => load out buf (d + k)

def word (hi lo : UInt8) : UInt16 := hi.toUInt16 <<< 8 ||| lo.toUInt16

/-! ## Parser -/

def protocolCheckSum (out : Outside) (s : StProtocolParser) : Except Fault UInt16 :=
  match s.recv with
  | none => .ok 0
  | some recv =>
    (List.range s.protocolDataLen.toNat).foldlM
      (fun sum i => do return sum + (← loadData out s.buffer recv.data i).toUInt16)
      (recv.len.toUInt16 + recv.type.toUInt16 + recv.addr.toUInt16 + recv.function.toUInt16)

def protocolParser (out : Outside) (s : StProtocolParser) : Except Fault (Bool × StProtocolParser) :=
  if !s.mRecvFlag then .ok (false, s)
  else match s.recv with
    | none => .error .nullPointer
    | some recv => do
      let startCode ← load out s.buffer 0
      let len ← load out s.buffer 1
      let protocolDataLen := len - 6
      let type ← load out s.buffer 2
      let addr ← load out s.buffer 3
      let function ← load out s.buffer 4
      let hi ← load out s.buffer (5 + protocolDataLen.toNat)
      let lo ← load out s.buffer (5 + protocolDataLen.toNat + 1)
      let recv := { recv with startCode, len, type, addr, function, data := some 5, sum := word hi lo }
      let s := { s with mHeader := some 0, recv := some recv, protocolDataLen }
      let sum ← protocolCheckSum out s
      return (sum == recv.sum, s)

def protocolParserReinit (s : StProtocolParser) : StProtocolParser :=
  { buffer := Vector.replicate bufferSize 0
    recv := some (s.recv.getD {})
    protocolDataLen := 0
    mRecvFlag := false
    mSendSuccess := false
    mHeader := none
    mPackageLength := 0
    mCheckSum := 0 }

/-! ## Access to the parsed packet -/

def derefRecv (s : StProtocolParser) : Except Fault StProtocol :=
  match s.recv with
  | none => .error .nullPointer
  | some recv => .ok recv

def protocolGetFunction (s : StProtocolParser) : Except Fault UInt8 := do return (← derefRecv s).function

def protocolGetSpeed (out : Outside) (s : StProtocolParser) : Except Fault Int8 := do
  let recv ← derefRecv s
  if recv.function = eRobotControlSpeed then
    return (← loadData out s.buffer recv.data 0).toInt8
  else return 0

def loadWord (out : Outside) (s : StProtocolParser) (recv : StProtocol) : Except Fault UInt16 := do
  return word (← loadData out s.buffer recv.data 0) (← loadData out s.buffer recv.data 1)

def protocolGetDegree (out : Outside) (s : StProtocolParser) : Except Fault Int16 := do
  let recv ← derefRecv s
  if recv.function = eRobotControlDirection then return (← loadWord out s recv).toInt16
  else return 0

def protocolGetButtonValue (out : Outside) (s : StProtocolParser) : Except Fault UInt16 := do
  let recv ← derefRecv s
  if recv.function = eButton then loadWord out s recv
  else return 0xFFFF

end RocCar

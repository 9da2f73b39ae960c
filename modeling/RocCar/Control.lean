import RocCar.Framer
import RocCar.Robot

/-!
# `wifi_control` and `tcprecvserv`

One iteration of `wifi_control` as a function (`wifiControl`), and the two
threads as a transition system whose steps are the receives of `tcprecvserv`
and the ring accesses of an iteration (`Sys`, `step`).
-/

namespace RocCar

/-! ## Acting on a frame -/

def pressButton (value : UInt16) (r : StRocRobot) : StRocRobot :=
  if value = btPadUp then rocRobotGoForward r
  else if value = btPadDown then rocRobotGoBackward r
  else if value = btPadLeft then rocRobotTurnLeft r
  else if value = btPadRight then rocRobotTurnRight r
  else if value = btGreen then rocRobotTurnLeftRotate r
  else if value = btBlue then rocRobotTurnRightRotate r
  else r

def dispatch (out : Outside) (trig : Trig) (s : StProtocolParser) (r : StRocRobot) : Except Fault StRocRobot := do
  let function ← protocolGetFunction s
  if function = eRobotControlDirection then
    return rocRobotDrive trig r (← protocolGetDegree out s).toUInt16
  else if function = eRobotControlSpeed then
    return rocRobotSetSpeed r (← protocolGetSpeed out s).toInt16
  else if function = eButton then
    return pressButton (← protocolGetButtonValue out s) r
  else return r

/-! ## An iteration -/

structure Packet where
  type : UInt8
  addr : UInt8
  function : UInt8
  protocolDataLen : UInt8
  data : List UInt8
  deriving DecidableEq, Repr

def StProtocolParser.packet (s : StProtocolParser) : Option Packet :=
  s.recv.map fun recv =>
    { type := recv.type
      addr := recv.addr
      function := recv.function
      protocolDataLen := s.protocolDataLen
      data := (s.buffer.toList.drop (recv.data.getD 0)).take s.protocolDataLen.toNat }

/-- An iteration behind `protocol_recev_data`. The packet is the one for which
`protocol_parser` returned true. -/
def parsePhase (out : Outside) (trig : Trig) (s : StProtocolParser) (r : StRocRobot) :
    Except Fault (Option Packet × StProtocolParser × StRocRobot) := do
  let (valid, s) ← protocolParser out s
  if valid then
    let r ← dispatch out trig s r
    return (s.packet, protocolParserReinit s, r)
  else return (none, protocolParserReinit s, r)

structure Car where
  tcpDat : TcpDat
  parser : StProtocolParser
  robot : StRocRobot

def wifiControl (out : Outside) (trig : Trig) (c : Car) : Except Fault (Option Packet × Car) := do
  let (_, parser, tcpDat) ← protocolRecevData out c.parser c.tcpDat
  let (packet, parser, robot) ← parsePhase out trig parser c.robot
  return (packet, { tcpDat, parser, robot })

/-! ## The two threads -/

inductive Pc where
  | top
  /-- At the loop test of `protocol_recev_data`. -/
  | test (l : Locals) (dat : UInt8)
  /-- The test has found a byte. -/
  | getchar (l : Locals) (dat : UInt8)
  | parse
  deriving DecidableEq, Repr

/-- Beside the program's state: the bytes received so far, each with the number
of its connection, and the packets accepted so far. -/
structure Sys extends Car where
  pc : Pc := .top
  fault : Option Fault := none
  conn : Nat := 0
  received : List (Nat × UInt8) := []
  accepted : List Packet := []

inductive Action where
  | accept
  | recv (chunk : Chunk)
  /-- `dat` is the value of the uninitialised local. -/
  | enter (dat : UInt8)
  | test
  | getchar
  | parse

/-- The byte a round works on. A `put_force` between test and `getchar` can
have emptied the ring; then `dat` keeps its value. -/
def nextByte (q : TcpDat) (dat : UInt8) : UInt8 × TcpDat := q.getchar.getD (dat, q)

def Sys.receive (s : Sys) (chunk : Chunk) : Sys :=
  { s with
    tcpDat := s.tcpDat.putForce chunk
    received := s.received ++ chunk.bytes.map (s.conn, ·) }

def step (out : Outside) (trig : Trig) (s : Sys) (a : Action) : Option Sys :=
  if s.fault.isSome then none
  else match a, s.pc with
  | .accept, _ => some { s with conn := s.conn + 1 }
  | .recv chunk, _ =>
    if s.conn = 0 then none else some (s.receive chunk)
  | .enter dat, .top => some { s with pc := .test {} dat }
  | .test, .test l dat =>
    some { s with pc := if rtRingbufferDataLen s.tcpDat.rb ≠ 0 then .getchar l dat else .parse }
  | .getchar, .getchar l dat =>
    let (dat, tcpDat) := nextByte s.tcpDat dat
    match recevByte out l s.parser dat with
    | .error e => some { s with tcpDat, fault := some e }
    | .ok (.continue l parser) => some { s with tcpDat, parser, pc := .test l dat }
    | .ok (.return _ parser) => some { s with tcpDat, parser, pc := .parse }
  | .parse, .parse =>
    match parsePhase out trig s.parser s.robot with
    | .error e => some { s with fault := some e }
    | .ok (packet, parser, robot) =>
      some { s with parser, robot, pc := .top, accepted := s.accepted ++ packet.toList }
  | _, _ => none

/-- When `main` has started `wifi_control` and entered `tcprecvserv`. -/
def start (pool : Vector UInt8 256) : Sys where
  tcpDat := tcpDatCreate pool
  parser := {}
  robot := rocRobotInit

end RocCar

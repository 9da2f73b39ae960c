import Mathlib.Data.List.TakeWhile
import Mathlib.Data.Nat.Digits.Defs
import Mathlib.Logic.Function.Basic
import RocCar.Lib.Bytes

/-!
# The stored Wi-Fi configuration

`wifi_config.c`: the base64 encoder and decoder, and the functions that read and
write the configuration in the ENV store of EasyFlash. A length is a natural
number: it is that of a block in memory, and `roc_robot.uvprojx` gives the target
96 + 32 kB of RAM and 512 kB of flash. No block there has the 2^29 bytes from
which on `len * 4` leaves the `int`s, so the computations are exact.
-/

namespace RocCar.Wifi

open Bytes

structure CString where
  bytes : List UInt8
  nul_free : 0 ∉ bytes
  deriving DecidableEq

namespace CString

def ofBlock (block : List UInt8) : CString where
  bytes := block.takeWhile (· ≠ 0)
  nul_free h := by simpa using List.mem_takeWhile_imp h

def strlen (s : CString) : Nat := s.bytes.length

end CString

inductive Fault where
  | read (i : Int)
  | write (i : Nat)
  deriving DecidableEq, Repr

/-! ## Base 64 -/

/-- With the terminator of the literal, which no index reaches. -/
def base64Table : List UInt8 :=
  ("ABCDEFGHIJKLMNOPQRSTUVWXYZabcdefghijklmnopqrstuvwxyz0123456789+/".toList.map fun c => UInt8.ofNat c.toNat) ++ [0]

def base64DecodeTable : List UInt8 := [
  0x00, 0x00, 0x00, 0x00, 0x00, 0x00, 0x00, 0x00, 0x00, 0x00, 0x00, 0x00, 0x00, 0x00, 0x00, 0x00,
  0x00, 0x00, 0x00, 0x00, 0x00, 0x00, 0x00, 0x00, 0x00, 0x00, 0x00, 0x00, 0x00, 0x00, 0x00, 0x00,
  0x00, 0x00, 0x00, 0x00, 0x00, 0x00, 0x00, 0x00, 0x00, 0x00, 0x00, 0x3E, 0x00, 0x00, 0x00, 0x3F,
  0x34, 0x35, 0x36, 0x37, 0x38, 0x39, 0x3A, 0x3B, 0x3C, 0x3D, 0x00, 0x00, 0x00, 0x00, 0x00, 0x00,
  0x00, 0x00, 0x01, 0x02, 0x03, 0x04, 0x05, 0x06, 0x07, 0x08, 0x09, 0x0A, 0x0B, 0x0C, 0x0D, 0x0E,
  0x0F, 0x10, 0x11, 0x12, 0x13, 0x14, 0x15, 0x16, 0x17, 0x18, 0x19, 0x00, 0x00, 0x00, 0x00, 0x00,
  0x00, 0x1A, 0x1B, 0x1C, 0x1D, 0x1E, 0x1F, 0x20, 0x21, 0x22, 0x23, 0x24, 0x25, 0x26, 0x27, 0x28,
  0x29, 0x2A, 0x2B, 0x2C, 0x2D, 0x2E, 0x2F, 0x30, 0x31, 0x32, 0x33, 0x00, 0x00, 0x00, 0x00, 0x00,
  0x00, 0x00, 0x00, 0x00, 0x00, 0x00, 0x00, 0x00, 0x00, 0x00, 0x00, 0x00, 0x00, 0x00, 0x00, 0x00,
  0x00, 0x00, 0x00, 0x00, 0x00, 0x00, 0x00, 0x00, 0x00, 0x00, 0x00, 0x00, 0x00, 0x00, 0x00, 0x00,
  0x00, 0x00, 0x00, 0x00, 0x00, 0x00, 0x00, 0x00, 0x00, 0x00, 0x00, 0x00, 0x00, 0x00, 0x00, 0x00,
  0x00, 0x00, 0x00, 0x00, 0x00, 0x00, 0x00, 0x00, 0x00, 0x00, 0x00, 0x00, 0x00, 0x00, 0x00, 0x00,
  0x00, 0x00, 0x00, 0x00, 0x00, 0x00, 0x00, 0x00, 0x00, 0x00, 0x00, 0x00, 0x00, 0x00, 0x00, 0x00,
  0x00, 0x00, 0x00, 0x00, 0x00, 0x00, 0x00, 0x00, 0x00, 0x00, 0x00, 0x00, 0x00, 0x00, 0x00, 0x00,
  0x00, 0x00, 0x00, 0x00, 0x00, 0x00, 0x00, 0x00, 0x00, 0x00, 0x00, 0x00, 0x00, 0x00, 0x00, 0x00,
  0x00, 0x00, 0x00, 0x00, 0x00, 0x00, 0x00, 0x00, 0x00, 0x00, 0x00, 0x00, 0x00, 0x00, 0x00, 0x00]

def equalSign : UInt8 := 0x3D

def encodeFrom : List UInt8 → Nat → List UInt8 → Except Fault (List UInt8)
  | in₀ :: in₁ :: in₂ :: src, pos, out => do
    let out ← put .write out pos (base64Table.getD (in₀ >>> 2).toNat 0)
    let out ← put .write out (pos + 1) (base64Table.getD ((in₀ &&& 0x03) <<< 4 ||| in₁ >>> 4).toNat 0)
    let out ← put .write out (pos + 2) (base64Table.getD ((in₁ &&& 0x0F) <<< 2 ||| in₂ >>> 6).toNat 0)
    let out ← put .write out (pos + 3) (base64Table.getD (in₂ &&& 0x3F).toNat 0)
    encodeFrom src (pos + 4) out
  | [in₀, in₁], pos, out => do
    let out ← put .write out pos (base64Table.getD (in₀ >>> 2).toNat 0)
    let out ← put .write out (pos + 1) (base64Table.getD ((in₀ &&& 0x03) <<< 4 ||| in₁ >>> 4).toNat 0)
    let out ← put .write out (pos + 2) (base64Table.getD ((in₁ &&& 0x0F) <<< 2).toNat 0)
    let out ← put .write out (pos + 3) equalSign
    put .write out (pos + 4) 0
  | [in₀], pos, out => do
    let out ← put .write out pos (base64Table.getD (in₀ >>> 2).toNat 0)
    let out ← put .write out (pos + 1) (base64Table.getD ((in₀ &&& 0x03) <<< 4).toNat 0)
    let out ← put .write out (pos + 2) equalSign
    let out ← put .write out (pos + 3) equalSign
    put .write out (pos + 4) 0
  | [], pos, out => put .write out pos 0

def strBase64EncodeLen (src out : List UInt8) : Except Fault (List UInt8) := encodeFrom src 0 out

/-- `data[i]`; `before` is what a read in front of the string yields, from its
first byte on downwards. -/
def loadChar (before : Nat → Option UInt8) (data : CString) : Int → Except Fault UInt8
  | .ofNat i =>
    if h : i < data.bytes.length then .ok data.bytes[i]
    else if i = data.bytes.length then .ok 0 else .error (.read i)
  | .negSucc i =>
    match before i with
    | some c => .ok c
    | none => .error (.read (.negSucc i))

def sextet (before : Nat → Option UInt8) (data : CString) (i : Nat) : Except Fault UInt32 := do
  let c ← loadChar before data i
  return if c = equalSign then 0 else (base64DecodeTable.getD c.toNat 0).toUInt32

/-- Stores the bytes from `j` on, as far as `j < out_len`; it returns `j`. -/
def storeUpTo (outLen : Int) : List UInt8 → Nat → List UInt8 → Except Fault (Nat × List UInt8)
  | [], j, decodedData => .ok (j, decodedData)
  | b :: bs, j, decodedData =>
    if j < outLen then do storeUpTo outLen bs (j + 1) (← put .write decodedData j b)
    else storeUpTo outLen bs j decodedData

/-- The loop, for as many groups as are left from `i` on. -/
def decodeLoop (before : Nat → Option UInt8) (data : CString) (outLen : Int) :
    Nat → Nat → Nat → List UInt8 → Except Fault (List UInt8)
  | 0, _, _, decodedData => .ok decodedData
  | n + 1, i, j, decodedData => do
    let sextetA ← sextet before data i
    let sextetB ← sextet before data (i + 1)
    let sextetC ← sextet before data (i + 2)
    let sextetD ← sextet before data (i + 3)
    let triple := (sextetA <<< 18) + (sextetB <<< 12) + (sextetC <<< 6) + sextetD
    let (j, decodedData) ← storeUpTo outLen
      [(triple >>> 16 &&& 0xFF).toUInt8, (triple >>> 8 &&& 0xFF).toUInt8, (triple &&& 0xFF).toUInt8] j decodedData
    decodeLoop before data outLen n (i + 4) j decodedData

def strBase64Decode (before : Nat → Option UInt8) (data : CString) (decodedData : List UInt8) :
    Except Fault (Int × List UInt8) := do
  let inputLength := data.strlen
  if inputLength % 4 ≠ 0 then return (0, decodedData)
  else
    let outLen : Int := inputLength / 4 * 3
    let outLen := if (← loadChar before data ((inputLength : Int) - 1)) = equalSign then outLen - 1 else outLen
    let outLen := if (← loadChar before data ((inputLength : Int) - 2)) = equalSign then outLen - 1 else outLen
    let decodedData ← decodeLoop before data outLen (inputLength / 4) 0 0 decodedData
    return (outLen, decodedData)

/-! ## The ENV store -/

abbrev Env := String → Option CString

/-- An entry with another value is deleted first, and is lost when there is no
room for the new one. -/
def efSetEnv (full : String → Bool) (env : Env) (key : String) (value : CString) : Bool × Env :=
  if env key = some value then (true, env)
  else if full key then (false, Function.update env key none)
  else (true, Function.update env key (some value))

/-! ## Numbers -/

def isspace (c : UInt8) : Bool := c = 0x20 || 0x09 ≤ c && c ≤ 0x0D

def isdigit (c : UInt8) : Bool := 0x30 ≤ c && c ≤ 0x39

def digitsValue (s : List UInt8) : Nat := (s.takeWhile isdigit).foldl (fun n c => n * 10 + (c.toNat - 0x30)) 0

/-- `atoi`, by way of `strtol`, which stops at the limits of `long`. -/
def atoi (s : CString) : Int :=
  match s.bytes.dropWhile isspace with
  | 0x2D :: s => max (-digitsValue s : Int) (-2 ^ 31)
  | 0x2B :: s => min (digitsValue s : Int) (2 ^ 31 - 1)
  | s => min (digitsValue s : Int) (2 ^ 31 - 1)

/-- `sprintf` with `"%d"`. -/
def decimal (n : Nat) : List UInt8 :=
  if n = 0 then [0x30] else (Nat.digits 10 n).reverse.map fun d => UInt8.ofNat (0x30 + d)

/-! ## The configuration -/

def rtEnomem : Int := 5

def getLen (env : Env) : Int :=
  match env "wlan_cfg_len" with
  | none => 0
  | some wlanCfgLen => atoi wlanCfgLen

def readCfg (before : Nat → Option UInt8) (env : Env) (buff : List UInt8) (len : Int) :
    Except Fault (Int × List UInt8) :=
  match env "wlan_cfg_info" with
  | some wlanCfgInfo => do
    let (_, buff) ← strBase64Decode before wlanCfgInfo buff
    return (len, buff)
  | none => return (0, buff)

/-- `malloc` is what a new block holds, if there is memory for it. -/
def writeCfg (malloc : Option (Nat → UInt8)) (full : String → Bool) (env : Env) (buff : List UInt8) :
    Except Fault (Int × Env) :=
  let len := buff.length
  match malloc with
  | none => return (-rtEnomem, env)
  | some fill => do
    let base64Buf := (List.range (len * 4 / 3 + 4)).map fill
    let base64Buf := List.replicate len 0 ++ base64Buf.drop len
    let (_, env) := efSetEnv full env "wlan_cfg_len" (CString.ofBlock (decimal len ++ [0]))
    let base64Buf ← strBase64EncodeLen buff base64Buf
    let (_, env) := efSetEnv full env "wlan_cfg_info" (CString.ofBlock base64Buf)
    return (len, env)

end RocCar.Wifi

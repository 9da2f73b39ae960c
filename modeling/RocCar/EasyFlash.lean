import RocCar.EfCrc
import RocCar.Fal
import RocCar.Lib.Cells
import RocCar.Lib.Strings
import RocCar.Wifi

/-!
# The ENV store

`ef_env.c` in power fail safeguard mode, over `ef_fal_port.c` and
`fal_flash_sfud_port.c`. The store is a cache of `key=value` strings in RAM with
a copy in one of two areas of the flash; a save writes the area that is not in
use. A pointer into the cache is an index; the memory behind the cache is not
read or written but for a fault.
-/

namespace RocCar.EasyFlash

open Cells Fal
open Nor (Mem Device)
open Wifi (CString equalSign)

/-! ## Configuration -/

abbrev envUserSettingSize : Nat := 2048
abbrev efEraseMinSize : Nat := 4096
abbrev envAreaSize : Nat := 2 * efEraseMinSize
abbrev efStartAddr : Nat := 0
abbrev efEnvVerNum : Nat := 0

abbrev envParamIndexEndAddr : Nat := 0
abbrev envParamIndexSavedCount : Nat := 1
abbrev envParamIndexVerNum : Nat := 2
abbrev envParamIndexDataCrc : Nat := 3
abbrev envParamByteSize : Nat := 16

inductive EfErrCode where
  | efNoErr
  | efEraseErr
  | efReadErr
  | efWriteErr
  | efEnvNameErr
  | efEnvNameExist
  | efEnvFull
  | efEnvInitFailed
  deriving DecidableEq, Repr

structure EfEnv where
  key : CString
  value : CString
  deriving DecidableEq

/-- `assert` is the endless loop of `EF_ASSERT`. -/
inductive Fault where
  | read
  | write
  | assert
  deriving DecidableEq, Repr

def efAssert (expr : Bool) : Except Fault Unit := if expr then .ok () else .error .assert

/-- The statics of `ef_env.c`; `env_start_addr` is `EF_START_ADDR` throughout. -/
structure EnvState where
  defaultEnvSet : List EfEnv := []
  envCache : Vector UInt8 envUserSettingSize := Vector.replicate envUserSettingSize 0
  envCacheChanged : Bool := false
  initOk : Bool := false
  curLoadAreaAddr : Nat := 0
  nextSaveAreaAddr : Nat := 0

structure Store where
  ram : EnvState
  flash : Mem

/-! ## The port -/

def cstring (s : String) : CString := CString.ofBlock (s.toList.map fun c => UInt8.ofNat c.toNat)

/-- `default_env_set` of the port. -/
def defaultEnvSet : List EfEnv := [⟨cstring "boot_times", cstring "0"⟩]

def falEfPartName : String := "easyflash"

/-- What `ef_port_init` finds under that name. -/
def part : FalPartition := ⟨"easyflash", "nor_flash", 0, 512 * 1024⟩

theorem part_eq : falPartitionFind (falPartitionInit {}).2 falEfPartName = some part := by decide

/-- `fal_flash_sfud_port.c`; the result of a read is not looked at. -/
def sfudOps (d : Device efEraseMinSize) (norFlash0 : FalFlashDev) : Ops Mem where
  read m offset size := (size, Nor.read m (norFlash0.addr + offset) size)
  write m offset buf :=
    match d.write m (norFlash0.addr + offset) buf with
    | (true, m) => (buf.length, m)
    | (false, m) => (-1, m)
  erase m offset size :=
    match d.erase m (norFlash0.addr + offset) size with
    | (true, m) => (size, m)
    | (false, m) => (-1, m)

variable (d : Device efEraseMinSize)

def efPortRead (m : Mem) (addr size : Nat) : List UInt8 := (falPartitionRead (sfudOps d) m part addr size).2

def efPortErase (m : Mem) (addr size : Nat) : Except Fault (EfErrCode × Mem) := do
  efAssert (addr % efEraseMinSize = 0)
  match falPartitionErase (sfudOps d) m part addr size with
  | (ret, m) => return (if ret < 0 then .efEraseErr else .efNoErr, m)

def efPortWrite (m : Mem) (addr : Nat) (buf : List UInt8) : EfErrCode × Mem :=
  match falPartitionWrite (sfudOps d) m part addr buf with
  | (ret, m) => (if ret < 0 then .efWriteErr else .efNoErr, m)

def portWord (m : Mem) (addr : Nat) : Nat := Bytes.value (efPortRead d m addr 4)

/-! ## The cache -/

def charsAt (s : EnvState) (p : Nat) : List UInt8 := s.envCache.toList.drop p

def storeAt (s : EnvState) (p : Nat) (bs : List UInt8) : Except Fault EnvState :=
  if p + bs.length ≤ envUserSettingSize then .ok { s with envCache := blit s.envCache p bs } else .error .write

def loadRange (s : EnvState) (p size : Nat) : Except Fault (List UInt8) :=
  if p + size ≤ envUserSettingSize then .ok (bytes s.envCache p size) else .error .read

def getEnvSystemAddr (s : EnvState) : Nat := s.curLoadAreaAddr

def getEnvDataAddr (s : EnvState) : Nat := getEnvSystemAddr s + envParamByteSize

def getEnvEndAddr (s : EnvState) : Nat := wordAt s.envCache envParamIndexEndAddr

def setParam (s : EnvState) (index w : Nat) : EnvState := { s with envCache := setWord s.envCache index w }

def setEnvEndAddr (s : EnvState) (endAddr : Nat) : EnvState := setParam s envParamIndexEndAddr endAddr

def getEnvDataSize (s : EnvState) : Nat :=
  if getEnvEndAddr s > getEnvDataAddr s then getEnvEndAddr s - getEnvDataAddr s else 0

def getEnvUserUsedSize (s : EnvState) : Nat :=
  if getEnvEndAddr s > getEnvSystemAddr s then getEnvEndAddr s - getEnvSystemAddr s else 0

def wordAlign (n : Nat) : Nat := if n % 4 ≠ 0 then (n / 4 + 1) * 4 else n

def writeEnv (s : EnvState) (key value : CString) : Except Fault (EfErrCode × EnvState) := do
  let envStrLen := wordAlign (key.strlen + value.strlen + 2)
  if envStrLen + getEnvUserUsedSize s ≥ envUserSettingSize then return (.efEnvFull, s)
  else
    let envCacheBak := getEnvUserUsedSize s
    let s ← storeAt s envCacheBak key.bytes
    let envCacheBak := envCacheBak + key.strlen
    let s ← storeAt s envCacheBak [equalSign]
    let envCacheBak := envCacheBak + 1
    let s ← storeAt s envCacheBak value.bytes
    let envCacheBak := envCacheBak + value.strlen
    let s ← storeAt s envCacheBak [0]
    let envCacheBak := envCacheBak + 1
    let s ← storeAt s envCacheBak (List.replicate (envStrLen - (key.strlen + value.strlen + 2)) 0)
    let s := setEnvEndAddr s (getEnvEndAddr s + envStrLen)
    return (.efNoErr, { s with envCacheChanged := true })

/-- `!strncmp(env, key, key_len) && env[key_len] == '='` -/
def keyAt (env key : List UInt8) : Except Fault Bool := do
  if ← Strings.startsWith .read env key then return (← Strings.loadAt .read env key.length) == equalSign
  else return false

/-- The loop of `find_env`. An ENV takes at least a word, so there are no more
of them than words in the cache. -/
def findLoop (s : EnvState) (key : List UInt8) (envEnd : Nat) : Nat → Nat → Except Fault (Option Nat)
  | 0, _ => .ok none
  | n + 1, env =>
    if env < envEnd then do
      if ← keyAt (charsAt s env) key then return some env
      else
        let envLen := (← Strings.strlen .read (charsAt s env)) + 1
        findLoop s key envEnd n (env + wordAlign envLen)
    else .ok none

def findEnv (s : EnvState) (key : CString) : Except Fault (Option Nat) :=
  if key.bytes = [] then .ok none
  else findLoop s key.bytes (getEnvUserUsedSize s) (envUserSettingSize / 4) envParamByteSize

def createEnv (s : EnvState) (key value : CString) : Except Fault (EfErrCode × EnvState) := do
  if key.bytes = [] then return (.efEnvNameErr, s)
  else if equalSign ∈ key.bytes then return (.efEnvNameErr, s)
  else if (← findEnv s key).isSome then return (.efEnvNameExist, s)
  else writeEnv s key value

/-- The remaining ENV move to lower addresses, so that the overlap of the two
ranges does no harm. -/
def delEnv (s : EnvState) (key : CString) : Except Fault (EfErrCode × EnvState) := do
  if key.bytes = [] then return (.efEnvNameErr, s)
  else if equalSign ∈ key.bytes then return (.efEnvNameErr, s)
  else
    match ← findEnv s key with
    | none => return (.efEnvNameErr, s)
    | some delEnv =>
      let delEnvLength := wordAlign ((← Strings.strlen .read (charsAt s delEnv)) + 1)
      let remainEnvLength := (getEnvDataSize s + 2 ^ 32 - (delEnv + delEnvLength - envParamByteSize)) % 2 ^ 32
      let s ← storeAt s delEnv (← loadRange s (delEnv + delEnvLength) remainEnvLength)
      let s := setEnvEndAddr s (getEnvEndAddr s + 2 ^ 32 - delEnvLength)
      return (.efNoErr, { s with envCacheChanged := true })

def efSetEnv (s : EnvState) (key : CString) (value : Option CString) : Except Fault (EfErrCode × EnvState) := do
  if !s.initOk then return (.efEnvInitFailed, s)
  else
    match value with
    | none => delEnv s key
    | some value =>
      match ← findEnv s key with
      | some oldEnv =>
        match ← Strings.strchr .read equalSign (charsAt s oldEnv) with
        | none => .error .read
        | some n =>
          if ← Strings.streq .read (charsAt s (oldEnv + n + 1)) value.bytes then return (.efNoErr, s)
          else
            match ← delEnv s key with
            | (.efNoErr, s) => createEnv s key value
            | (result, s) => return (result, s)
      | none => createEnv s key value

def efDelEnv (s : EnvState) (key : CString) : Except Fault (EfErrCode × EnvState) :=
  if !s.initOk then .ok (.efEnvInitFailed, s) else delEnv s key

/-- The address of the value. -/
def efGetEnv (s : EnvState) (key : CString) : Except Fault (Option Nat) := do
  if !s.initOk then return none
  else
    match ← findEnv s key with
    | none => return none
    | some env => return (← Strings.strchr .read equalSign (charsAt s env)).map (env + · + 1)

/-! ## The flash -/

def calcEnvCrc (s : EnvState) : Except Fault UInt32 := do
  let crc32 := 0
  let crc32 := efCalcCrc32 crc32 (bytes s.envCache (4 * envParamIndexEndAddr) 4)
  let crc32 := efCalcCrc32 crc32 (bytes s.envCache (4 * envParamIndexSavedCount) 4)
  return efCalcCrc32 crc32 (← loadRange s envParamByteSize (getEnvDataSize s))

def envCrcIsOk (s : EnvState) : Except Fault Bool := do
  return (← calcEnvCrc s).toNat == wordAt s.envCache envParamIndexDataCrc

def efSaveEnv (s : Store) : Except Fault (EfErrCode × Store) := do
  if !s.ram.envCacheChanged then return (.efNoErr, s)
  else
    let writeAddr := s.ram.nextSaveAreaAddr
    let writeSize := getEnvUserUsedSize s.ram
    let ram := { s.ram with nextSaveAreaAddr := s.ram.curLoadAreaAddr, curLoadAreaAddr := writeAddr }
    let ram := setEnvEndAddr ram (writeAddr + writeSize)
    let ram := setParam ram envParamIndexSavedCount (wordAt ram.envCache envParamIndexSavedCount + 1)
    let ram := setParam ram envParamIndexDataCrc (← calcEnvCrc ram).toNat
    match ← efPortErase d s.flash writeAddr writeSize with
    | (.efEraseErr, flash) => return (.efEraseErr, ⟨ram, flash⟩)
    | (_, flash) =>
      match efPortWrite d flash writeAddr (bytes ram.envCache 0 writeSize) with
      | (result, flash) => return (result, ⟨{ ram with envCacheChanged := false }, flash⟩)

/-- The results are not looked at. -/
def createAll (s : EnvState) : List EfEnv → Except Fault EnvState
  | [] => .ok s
  | env :: envs => do
    let (_, s) ← createEnv s env.key env.value
    createAll s envs

def efSetAndSaveEnv (s : Store) (key : CString) (value : Option CString) : Except Fault (EfErrCode × Store) := do
  match ← efSetEnv s.ram key value with
  | (.efNoErr, ram) => efSaveEnv d { s with ram }
  | (result, ram) => return (result, { s with ram })

def efDelAndSaveEnv (s : Store) (key : CString) : Except Fault (EfErrCode × Store) := do
  match ← efDelEnv s.ram key with
  | (.efNoErr, ram) => efSaveEnv d { s with ram }
  | (result, ram) => return (result, { s with ram })

def efEnvSetDefault (s : Store) : Except Fault (EfErrCode × Store) := do
  efAssert (!s.ram.defaultEnvSet.isEmpty)
  let ram := setEnvEndAddr s.ram (getEnvDataAddr s.ram)
  let ram := setParam ram envParamIndexSavedCount 0
  let ram := setParam ram envParamIndexVerNum efEnvVerNum
  let ram ← createAll ram ram.defaultEnvSet
  match ← efSaveEnv d ⟨ram, s.flash⟩ with
  | (.efNoErr, s) => efSaveEnv d { s with ram := { s.ram with envCacheChanged := true } }
  | (result, s) => return (result, s)

/-- Reads an area into the cache, unless its end address is out of range, and
checks it. -/
def loadArea (m : Mem) (areaStartAddress : Nat) (s : EnvState) : Except Fault (Bool × EnvState) := do
  let areaEndAddr := portWord d m areaStartAddress
  if areaEndAddr = 0xFFFFFFFF ∨ areaEndAddr < areaStartAddress ∨
      areaEndAddr > areaStartAddress + envUserSettingSize then return (false, s)
  else
    let s ← storeAt s 0 (efPortRead d m areaStartAddress (areaEndAddr - areaStartAddress))
    let s := { s with curLoadAreaAddr := areaStartAddress }
    return (← envCrcIsOk s, s)

abbrev area0StartAddress : Nat := efStartAddr
abbrev area1StartAddress : Nat := efStartAddr + envAreaSize / 2

def savedCount (m : Mem) (areaStartAddress : Nat) : Nat :=
  portWord d m (areaStartAddress + envParamIndexSavedCount * 4)

def compareSavedCount (valid : Bool × Bool) (area0SavedCount area1SavedCount : Nat) : Bool × Bool :=
  if valid.1 && valid.2 then
    if area0SavedCount > area1SavedCount ∨ area0SavedCount = 0 ∧ area1SavedCount = 0xFFFFFFFF then (true, false)
    else (false, true)
  else valid

def efLoadEnv (s : Store) : Except Fault (EfErrCode × Store) := do
  let (area0IsValid, ram) ← loadArea d s.flash area0StartAddress s.ram
  let (area1IsValid, ram) ← loadArea d s.flash area1StartAddress ram
  let (area0IsValid, area1IsValid) := compareSavedCount (area0IsValid, area1IsValid)
    (savedCount d s.flash area0StartAddress) (savedCount d s.flash area1StartAddress)
  if area0IsValid then
    let ram := { ram with curLoadAreaAddr := area0StartAddress, nextSaveAreaAddr := area1StartAddress }
    let ram ← storeAt ram 0
      (efPortRead d s.flash area0StartAddress (portWord d s.flash area0StartAddress - area0StartAddress))
    return (.efNoErr, { s with ram })
  else if area1IsValid then
    return (.efNoErr, { s with ram := { ram with nextSaveAreaAddr := area0StartAddress } })
  else
    let ram := { ram with curLoadAreaAddr := area1StartAddress, nextSaveAreaAddr := area0StartAddress }
    efEnvSetDefault d { s with ram }

def createMissing (s : EnvState) : List EfEnv → Except Fault EnvState
  | [] => .ok s
  | env :: envs => do
    if (← findEnv s env.key).isNone then
      let (_, s) ← createEnv s env.key env.value
      createMissing s envs
    else createMissing s envs

def envAutoUpdate (s : Store) : Except Fault (EfErrCode × Store) := do
  let ram ← storeAt s.ram (4 * envParamIndexVerNum)
    (efPortRead d s.flash (getEnvSystemAddr s.ram + envParamIndexVerNum * 4) 4)
  if wordAt ram.envCache envParamIndexVerNum ≠ efEnvVerNum then
    let ram := { ram with envCacheChanged := true }
    let ram := setParam ram envParamIndexVerNum efEnvVerNum
    let ram ← createMissing ram ram.defaultEnvSet
    efSaveEnv d { s with ram }
  else efSaveEnv d { s with ram }

def efEnvInit (defaultEnv : List EfEnv) (s : Store) : Except Fault (EfErrCode × Store) := do
  efAssert (defaultEnv.length < envUserSettingSize)
  match ← efLoadEnv d { s with ram := { s.ram with defaultEnvSet := defaultEnv } } with
  | (.efNoErr, s) =>
    let (_, s) ← envAutoUpdate d s
    return (.efNoErr, { s with ram := { s.ram with initOk := true } })
  | (result, s) => return (result, s)

/-- A start of the program: the RAM is cleared, the flash is what it was. -/
def easyflashInit (flash : Mem) : Except Fault (EfErrCode × Store) := efEnvInit d defaultEnvSet ⟨{}, flash⟩

end RocCar.EasyFlash

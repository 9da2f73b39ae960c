import RocCar.WifiStore

/-!
# The list of Wi-Fi configurations

`wlan_cfg.c`: up to three configurations in RAM, the one that was saved last in
front, with a copy in the store. The record of a network is taken as it is in
memory, its enumerations being words.
-/

namespace RocCar.WlanCfg

open Bytes EasyFlash WifiStore
open Nor (Device)

abbrev rtWlanCfgInfoMax : Nat := 3
abbrev rtWlanBssidMaxLength : Nat := 6
abbrev rtWlanCfgMagic : Nat := 0x426F6D62
abbrev cfgSaveInfoHeadSize : Nat := 16
abbrev rtWlanCfgInfoSize : Nat := 96

inductive Err where
  | rtEok
  | rtError
  | rtEnomem
  | rtEinval
  deriving DecidableEq, Repr

inductive Fault where
  | store (fault : WifiStore.Fault)
  | read
  | write (i : Nat)
  deriving DecidableEq, Repr

/-! ## Records -/

structure CfgInfo where
  bytes : Vector UInt8 rtWlanCfgInfoSize
  deriving DecidableEq

namespace CfgInfo

/-- `info.ssid.len`, and the record from `info.ssid.val` on. -/
def ssidLen (c : CfgInfo) : Nat := (c.bytes.get 16).toNat

def ssidVal (c : CfgInfo) : List UInt8 := c.bytes.toList.drop 17

def bssid (c : CfgInfo) : List UInt8 := c.bytes.toList.drop 50

def keyLen (c : CfgInfo) : Nat := (c.bytes.get 60).toNat

def keyVal (c : CfgInfo) : List UInt8 := c.bytes.toList.drop 61

end CfgInfo

/-- `rt_memcmp(cs, ct, count) == 0` -/
def memcmpEq : List UInt8 → List UInt8 → Nat → Except Fault Bool
  | _, _, 0 => .ok true
  | b :: cs, b' :: ct, count + 1 => if b = b' then memcmpEq cs ct count else .ok false
  | _, _, _ + 1 => .error .read

def sameNetwork (c c' : CfgInfo) : Except Fault Bool :=
  if c.ssidLen = c'.ssidLen then do
    if ← memcmpEq c.ssidVal c'.ssidVal c.ssidLen then memcmpEq c.bssid c'.bssid rtWlanBssidMaxLength
    else return false
  else .ok false

/-- The index of the first record of the network. -/
def findCfg (cfgInfo : CfgInfo) : List CfgInfo → Except Fault (Option Nat)
  | [] => .ok none
  | c :: cache => do
    if ← sameNetwork c cfgInfo then return some 0
    else return (← findCfg cfgInfo cache).map (· + 1)

/-! ## The package -/

def crcStep (crc : UInt16) : UInt16 := if crc &&& 0x8000 ≠ 0 then crc <<< 1 ^^^ 0x1021 else crc <<< 1

def rtWlanCalCrc (buff : List UInt8) : UInt16 :=
  buff.foldl (fun (crc : UInt16) (b : UInt8) => crcStep^[8] (crc ^^^ b.toUInt16 <<< (8 : UInt16))) 0

def records (cache : List CfgInfo) : List UInt8 := cache.flatMap fun c => c.bytes.toList

def infoPkg (cache : List CfgInfo) : List UInt8 :=
  digits 4 rtWlanCfgMagic ++ digits 4 (cfgSaveInfoHeadSize + rtWlanCfgInfoSize * cache.length) ++
    digits 4 cache.length ++ digits 4 (rtWlanCalCrc (records cache)).toNat ++ records cache

def headWord (head : List UInt8) (k : Nat) : Nat := value ((head.drop (4 * k)).take 4)

def recordAt (data : List UInt8) (i : Nat) : CfgInfo :=
  ⟨Vector.ofFn fun j => data.getD (rtWlanCfgInfoSize * i + j) 0⟩

/-! ## The list and its copy -/

structure Wlan where
  store : Store
  cache : List CfgInfo

/-- What the allocations of a call give: the record behind a grown list, a block
for the package, and one for its text. -/
structure Heap where
  realloc : Option CfgInfo
  package : Bool
  text : Option (Nat → UInt8)

def rtWlanCfgCacheSave (heap : Heap) (d : Device efEraseMinSize) (s : Wlan) : Except Fault (Err × Wlan) := do
  if !heap.package then return (.rtEnomem, s)
  else
    let len := cfgSaveInfoHeadSize + rtWlanCfgInfoSize * s.cache.length
    let (ret, store) ← (writeCfg heap.text d s.store (infoPkg s.cache)).mapError .store
    return (if ret ≠ len then .rtError else .rtEok, { s with store })

/-- The loop over the records that were read. -/
def addRecords (realloc : Nat → Bool) : List CfgInfo → Nat → List CfgInfo → Except Fault (Err × List CfgInfo)
  | [], _, cache => .ok (.rtEok, cache)
  | c :: cfgInfo, i, cache => do
    let equalFlag := (← findCfg c cache).isSome
    if cache.length ≥ rtWlanCfgInfoMax then return (.rtEok, cache)
    else if equalFlag then addRecords realloc cfgInfo (i + 1) cache
    else if realloc i then addRecords realloc cfgInfo (i + 1) (cache ++ [c])
    else return (.rtError, cache)

/-- `head` is what the block for the package holds, if there is memory for it;
`realloc` says whether the list can grow for a record. A length below that of the
head makes the length of the data negative, and the checksum leaves the block. -/
def rtWlanCfgCacheRefresh (head : Option (Nat → UInt8)) (realloc : Nat → Bool) (s : Wlan) :
    Except Fault (Err × Wlan) := do
  if s.cache.length ≥ rtWlanCfgInfoMax then return (.rtError, s)
  else
    let len ← (getLen s.store.ram).mapError .store
    if len ≤ 0 then return (.rtError, s)
    else
      match head with
      | none => return (.rtError, s)
      | some fill =>
        let (ret, head) ← (readCfg s.store.ram ((List.range len.toNat).map fill) len).mapError .store
        if ret ≠ len then return (.rtError, s)
        else if len < cfgSaveInfoHeadSize then .error .read
        else
          let data := head.drop cfgSaveInfoHeadSize
          let num := (len.toNat - cfgSaveInfoHeadSize) / rtWlanCfgInfoSize
          if headWord head 0 ≠ rtWlanCfgMagic ∨ headWord head 1 ≠ len.toNat ∨ headWord head 2 ≠ num ∨
              headWord head 3 ≠ (rtWlanCalCrc data).toNat then return (.rtError, s)
          else
            let (err, cache) ← addRecords realloc ((List.range num).map (recordAt data)) 0 s.cache
            return (err, { s with cache })

/-- The records from `i` on move up, from the last one downwards. -/
def moveUp : Nat → List CfgInfo → Except Fault (List CfgInfo)
  | 0, cache => .ok cache
  | i + 1, cache =>
    match cache[i]? with
    | some c => do moveUp i (← put .write cache (i + 1) c)
    | none => .error .read

def keyIs (cfgInfo : CfgInfo) : List CfgInfo → Except Fault Bool
  | [] => .error .read
  | c :: _ => if c.keyLen = cfgInfo.keyLen then memcmpEq c.keyVal cfgInfo.keyVal cfgInfo.keyLen else .ok false

def rtWlanCfgSave (heap : Heap) (d : Device efEraseMinSize) (cfgInfo : CfgInfo) (s : Wlan) :
    Except Fault (Err × Wlan) := do
  if cfgInfo.ssidLen = 0 then return (.rtEinval, s)
  else
    let idx ← findCfg cfgInfo s.cache
    if ← (if idx = some 0 then keyIs cfgInfo s.cache else .ok false) then return (.rtEok, s)
    else
      let grows := idx.isNone && decide (s.cache.length < rtWlanCfgInfoMax)
      if grows && heap.realloc.isNone then return (.rtEnomem, s)
      else
        let i := idx.getD s.cache.length
        let cache := if grows then s.cache ++ heap.realloc.toList else s.cache
        let i := if i ≥ rtWlanCfgInfoMax then rtWlanCfgInfoMax - 1 else i
        let cache ← moveUp i cache
        let cache ← put .write cache 0 cfgInfo
        rtWlanCfgCacheSave heap d { s with cache }

/-- `rt_malloc` gives no block of size 0; `avail` says whether there is memory
for another one. -/
def rtMalloc (avail : Bool) (size : Nat) : Bool := size ≠ 0 && avail

def rtWlanCfgDeleteIndex (avail : Bool) (index : Int) (s : Wlan) : Int × Wlan :=
  if index < 0 then (-1, s)
  else if index ≥ s.cache.length then (-1, s)
  else if !rtMalloc avail (rtWlanCfgInfoSize * (s.cache.length - 1)) then (-1, s)
  else (0, { s with cache := s.cache.take index.toNat ++ s.cache.drop (index.toNat + 1) })

def rtWlanCfgDeleteAll (s : Wlan) : Wlan := { s with cache := [] }

/-- The start of `wifi_config.c`, up to the list of configurations. -/
def wlanAutoconnectInit (d : Device efEraseMinSize) (head : Option (Nat → UInt8)) (realloc : Nat → Bool)
    (flash : Nor.Mem) : Except Fault (Err × Wlan) := do
  let (_, store) ← (easyflashInit d flash).mapError fun fault => .store (.env fault)
  rtWlanCfgCacheRefresh head realloc ⟨store, []⟩

end RocCar.WlanCfg

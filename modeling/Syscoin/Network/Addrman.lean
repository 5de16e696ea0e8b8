import Mathlib.Data.Finset.Sort
import Syscoin.Lib.Multimap
import Syscoin.Lib.Placement
import Syscoin.Lib.Proc
import Syscoin.Primitives.Payload

/-!
# `Network.Addrman` — the addresses of other nodes

The address manager gives every address it knows an id. `mapInfo` has what is known under an id, `mapAddr` the id of a
network address, and `vRandom` the ids in random order. An address that was never connected to lies in up to four "new"
buckets, one that was in one "tried" bucket; a full bucket makes room by throwing an entry out or, if it is a tried one,
by sending it back to the new ones.

The hashes that choose a bucket are parameters, and so are the random numbers, the time, and the floating point
comparisons of `Select_`. An assertion that fails and an `int` that overflows are the errors of the model. The bucket
vectors never change their size, so that a bucket is a `Fin`.
-/

namespace Syscoin

open Lib

def ADDRMAN_TRIED_BUCKET_COUNT : Nat := 64
def ADDRMAN_TRIED_BUCKET_SIZE : Nat := 64
def ADDRMAN_NEW_BUCKET_COUNT : Nat := 256
def ADDRMAN_NEW_BUCKET_SIZE : Nat := 64
def ADDRMAN_NEW_BUCKETS_PER_ADDRESS : Int := 4
def ADDRMAN_TRIED_ENTRIES_INSPECT_ON_EVICT : Nat := 4
def ADDRMAN_HORIZON_DAYS : Int := 30
def ADDRMAN_RETRIES : Int := 3
def ADDRMAN_MAX_FAILURES : Int := 10
def ADDRMAN_MIN_FAIL_DAYS : Int := 7
def ADDRMAN_GETADDR_MAX_PCT : Nat := 23
def ADDRMAN_GETADDR_MAX : Nat := 2500

/-- The members of a `std::set` in the order in which it is gone through. -/
def sorted (ids : Finset Int) : List Int := ids.sort (· ≤ ·)

theorem mem_sorted {ids : Finset Int} {id : Int} : id ∈ sorted ids ↔ id ∈ ids := Finset.mem_sort _

theorem nodup_sorted (ids : Finset Int) : (sorted ids).Nodup := Finset.sort_nodup _ _

theorem length_sorted (ids : Finset Int) : (sorted ids).length = ids.card := Finset.length_sort _

instance : NeZero ADDRMAN_TRIED_BUCKET_COUNT := ⟨by decide⟩
instance : NeZero ADDRMAN_NEW_BUCKET_COUNT := ⟨by decide⟩

/-! ## Addresses -/

/-- Sixteen bytes in network byte order. -/
structure CNetAddr where
  ip : Bytes
  length_ip : ip.length = 16
deriving DecidableEq, Repr

structure CService extends CNetAddr where
  port : UInt16
deriving DecidableEq, Repr

structure CAddress extends CService where
  nServices : UInt64
  nTime : UInt32
  nLastTry : Int
deriving DecidableEq, Repr

structure CAddrInfo extends CAddress where
  source : CNetAddr
  nLastSuccess : Int
  nAttempts : Int
  nRefCount : Int
  fInTried : Bool
  nRandomPos : Int
deriving DecidableEq, Repr

namespace CNetAddr

def pchIPv4 : Bytes := [0, 0, 0, 0, 0, 0, 0, 0, 0, 0, 0xff, 0xff]
def pchOnionCat : Bytes := [0xFD, 0x87, 0xD8, 0x7E, 0xEB, 0x43]

variable (a : CNetAddr)

def getByte (n : Nat) : UInt8 := a.ip.getD (15 - n) 0

/-- `memcmp` with the first bytes of the address. -/
def startsWith (pch : Bytes) : Bool := a.ip.take pch.length = pch

def isIPv4 : Bool := a.startsWith pchIPv4

def isTor : Bool := a.startsWith pchOnionCat

def isRFC1918 : Bool :=
  a.isIPv4 && (a.getByte 3 == 10 || (a.getByte 3 == 192 && a.getByte 2 == 168) ||
    (a.getByte 3 == 172 && (16 ≤ a.getByte 2 && a.getByte 2 ≤ 31)))

def isRFC3927 : Bool := a.isIPv4 && (a.getByte 3 == 169 && a.getByte 2 == 254)

def isRFC3849 : Bool := a.getByte 15 == 0x20 && a.getByte 14 == 0x01 && a.getByte 13 == 0x0D && a.getByte 12 == 0xB8

def isRFC4862 : Bool := a.startsWith [0xFE, 0x80, 0, 0, 0, 0, 0, 0]

def isRFC4193 : Bool := a.getByte 15 &&& 0xFE == 0xFC

def isRFC4843 : Bool :=
  a.getByte 15 == 0x20 && a.getByte 14 == 0x01 && a.getByte 13 == 0x00 && a.getByte 12 &&& 0xF0 == 0x10

def isLocal : Bool :=
  (a.isIPv4 && (a.getByte 3 == 127 || a.getByte 3 == 0)) || a.ip == List.replicate 15 0 ++ [1]

/-- `INADDR_NONE` has all bits set. -/
def isValid : Bool :=
  !a.startsWith (pchIPv4.drop 3) && a.ip != List.replicate 16 0 && !a.isRFC3849 &&
    !(a.isIPv4 && (a.ip.drop 12 == [0xff, 0xff, 0xff, 0xff] || a.ip.drop 12 == [0, 0, 0, 0]))

def isRoutable : Bool :=
  a.isValid && !(a.isRFC1918 || a.isRFC3927 || a.isRFC4862 || (a.isRFC4193 && !a.isTor) || a.isRFC4843 || a.isLocal)

/-- `CNetAddr()` -/
def zero : CNetAddr := ⟨List.replicate 16 0, rfl⟩

end CNetAddr

namespace CAddrInfo

/-- `CAddrInfo(addrIn, addrSource)`, with the `Init` it calls. -/
def ofAddress (addrIn : CAddress) (addrSource : CNetAddr) : CAddrInfo :=
  { addrIn with
    nLastTry := 0
    source := addrSource
    nLastSuccess := 0
    nAttempts := 0
    nRefCount := 0
    fInTried := false
    nRandomPos := -1 }

/-- `CAddrInfo()` -/
def init : CAddrInfo :=
  ofAddress ⟨⟨CNetAddr.zero, 0⟩, 1, 100000000, 0⟩ CNetAddr.zero

def isTerrible (info : CAddrInfo) (nNow : Int) : Bool :=
  let nTime : Int := info.nTime.toNat
  if info.nLastTry ≠ 0 ∧ nNow - 60 ≤ info.nLastTry then false
  else if nNow + 10 * 60 < nTime then true
  else if nTime = 0 ∨ ADDRMAN_HORIZON_DAYS * 86400 < nNow - nTime then true
  else if info.nLastSuccess = 0 ∧ ADDRMAN_RETRIES ≤ info.nAttempts then true
  else if ADDRMAN_MIN_FAIL_DAYS * 86400 < nNow - info.nLastSuccess ∧ ADDRMAN_MAX_FAILURES ≤ info.nAttempts then true
  else false

end CAddrInfo

/-- The hashes behind `GetTriedBucket` and `GetNewBucket`, for the secret key of the manager. -/
structure BucketHash where
  tried : CService → Nat
  new : CNetAddr → CNetAddr → Nat

def CAddrInfo.getTriedBucket (hash : BucketHash) (info : CAddrInfo) : Fin ADDRMAN_TRIED_BUCKET_COUNT :=
  Fin.ofNat ADDRMAN_TRIED_BUCKET_COUNT (hash.tried info.toCService)

def CAddrInfo.getNewBucket (hash : BucketHash) (info : CAddrInfo) (src : CNetAddr) : Fin ADDRMAN_NEW_BUCKET_COUNT :=
  Fin.ofNat ADDRMAN_NEW_BUCKET_COUNT (hash.new info.toCNetAddr src)

/-- What a call finds around it: `GetAdjustedTime`, the random numbers it draws, and how the comparisons of doubles come
    out that it makes. -/
structure Moment where
  nNow : Int
  rand : Nat → Nat
  coin : Nat → Bool

def getRandInt (draw nMax : Nat) : Nat := if nMax = 0 then 0 else draw % nMax

/-! ## The manager -/

inductive AddrmanFault where
  | assertion
  | overflow
deriving DecidableEq, Repr

structure CAddrMan where
  nIdCount : Int
  mapInfo : Finmap fun _ : Int => CAddrInfo
  mapAddr : Finmap fun _ : CNetAddr => Int
  vRandom : List Int
  nTried : Int
  vvTried : Fin ADDRMAN_TRIED_BUCKET_COUNT → List Int
  nNew : Int
  vvNew : Fin ADDRMAN_NEW_BUCKET_COUNT → Finset Int

namespace CAddrMan

/-- `CAddrMan()` -/
def empty : CAddrMan where
  nIdCount := 0
  mapInfo := ∅
  mapAddr := ∅
  vRandom := []
  nTried := 0
  vvTried := fun _ => []
  nNew := 0
  vvNew := fun _ => ∅

/-- `mapInfo[nId]` where it is read. -/
def info (m : CAddrMan) (nId : Int) : CAddrInfo := (m.mapInfo.lookup nId).getD CAddrInfo.init

/-- `mapInfo[nId]` where it is written to. -/
def modifyInfo (nId : Int) (f : CAddrInfo → CAddrInfo) (m : CAddrMan) : CAddrMan :=
  { m with mapInfo := m.mapInfo.insert nId (f (m.info nId)) }

/-- **`Find`**: the id and what is known. -/
def find (addr : CNetAddr) (m : CAddrMan) : Option (Int × CAddrInfo) :=
  (m.mapAddr.lookup addr).bind fun nId => (m.mapInfo.lookup nId).map fun info => (nId, info)

/-- **`Create`** -/
def create (addr : CAddress) (addrSource : CNetAddr) (m : CAddrMan) : Except AddrmanFault (Int × CAddrMan) := do
  require (m.nIdCount < 2 ^ 31 - 1) .overflow
  let nId := m.nIdCount
  .ok (nId, { m with
    nIdCount := nId + 1
    mapInfo := m.mapInfo.insert nId { CAddrInfo.ofAddress addr addrSource with nRandomPos := m.vRandom.length }
    mapAddr := m.mapAddr.insert addr.toCNetAddr nId
    vRandom := m.vRandom ++ [nId] })

/-- **`SwapRandom`.** A negative position is out of range as an unsigned number as well. -/
def swapRandom (nRndPos1 nRndPos2 : Int) (m : CAddrMan) : Except AddrmanFault CAddrMan :=
  if nRndPos1 = nRndPos2 then .ok m
  else do
    require ((0 ≤ nRndPos1 ∧ nRndPos1 < m.vRandom.length) ∧ 0 ≤ nRndPos2 ∧ nRndPos2 < m.vRandom.length) .assertion
    let nId1 := m.vRandom.getD nRndPos1.toNat 0
    let nId2 := m.vRandom.getD nRndPos2.toNat 0
    require (nId1 ∈ m.mapInfo) .assertion
    require (nId2 ∈ m.mapInfo) .assertion
    let m := m.modifyInfo nId1 fun info => { info with nRandomPos := nRndPos2 }
    let m := m.modifyInfo nId2 fun info => { info with nRandomPos := nRndPos1 }
    .ok { m with vRandom := (m.vRandom.set nRndPos1.toNat nId2).set nRndPos2.toNat nId1 }

/-! ## Making room -/

/-- One round of `SelectTried`, on the bucket, `nOldest` and `nOldestPos`. The position it remembers is the one the entry
    was taken from. -/
def inspectTried (rand : Nat → Nat) (m : CAddrMan) (s : List Int × Int × Int) (i : Nat) :
    Except AddrmanFault (List Int × Int × Int) := do
  let vTried := s.1
  let nOldest := s.2.1
  let nPos := getRandInt (rand i) (vTried.length - i) + i
  let nTemp := vTried.getD nPos 0
  let vTried := (vTried.set nPos (vTried.getD i 0)).set i nTemp
  require (nOldest = -1 ∨ nTemp ∈ m.mapInfo) .assertion
  if nOldest = -1 ∨ (m.info nTemp).nLastSuccess < (m.info nOldest).nLastSuccess then .ok (vTried, nTemp, nPos)
  else .ok (vTried, nOldest, s.2.2)

/-- **`SelectTried`**: the position to replace, and the bucket, whose first few entries were shuffled. -/
def selectTried (rand : Nat → Nat) (m : CAddrMan) (vTried : List Int) : Except AddrmanFault (Int × List Int) := do
  let s ← (List.range (min ADDRMAN_TRIED_ENTRIES_INSPECT_ON_EVICT vTried.length)).foldlM (inspectTried rand m)
    (vTried, -1, -1)
  .ok (s.2.2, s.1)

/-- The first loop of `ShrinkNew`, which looks for an entry to delete. -/
def findTerrible (nNow : Int) (m : CAddrMan) : List Int → Except AddrmanFault (Option Int)
  | [] => .ok none
  | nId :: rest => do
    require (nId ∈ m.mapInfo) .assertion
    if (m.info nId).isTerrible nNow then .ok (some nId) else findTerrible nNow m rest

/-- The second loop of `ShrinkNew`, which takes the oldest of the entries at the positions `n`. -/
def oldestNew (n : List Nat) (m : CAddrMan) : List (Int × Nat) → Int → Except AddrmanFault Int
  | [], nOldest => .ok nOldest
  | (nId, nI) :: rest, nOldest =>
    if nI ∈ n then do
      require (nOldest = -1 ∨ nId ∈ m.mapInfo) .assertion
      oldestNew n m rest (if nOldest = -1 ∨ (m.info nId).nTime < (m.info nOldest).nTime then nId else nOldest)
    else oldestNew n m rest nOldest

/-- What both parts of `ShrinkNew` do with the entry they have chosen: it leaves the bucket, and goes altogether if that
    was its last one. -/
def release (nUBucket : Fin ADDRMAN_NEW_BUCKET_COUNT) (nId : Int) (m : CAddrMan) : Except AddrmanFault CAddrMan := do
  let m := m.modifyInfo nId fun info => { info with nRefCount := info.nRefCount - 1 }
  let info := m.info nId
  let m ←
    if info.nRefCount = 0 then do
      let m ← m.swapRandom info.nRandomPos (m.vRandom.length - 1)
      .ok { m with
        vRandom := m.vRandom.dropLast
        mapAddr := m.mapAddr.erase info.toCNetAddr
        mapInfo := m.mapInfo.erase nId
        nNew := m.nNew - 1 }
    else .ok m
  .ok { m with vvNew := Function.update m.vvNew nUBucket ((m.vvNew nUBucket).erase nId) }

/-- **`ShrinkNew`** -/
def shrinkNew (t : Moment) (nUBucket : Fin ADDRMAN_NEW_BUCKET_COUNT) (m : CAddrMan) :
    Except AddrmanFault (Int × CAddrMan) := do
  let vNew := sorted (m.vvNew nUBucket)
  match ← findTerrible t.nNow m vNew with
  | some nId => do
    let m ← m.release nUBucket nId
    .ok (0, m)
  | none => do
    let n := [1, 2, 3, 4].map fun i => getRandInt (t.rand i) vNew.length
    let nOldest ← oldestNew n m vNew.zipIdx (-1)
    require (nOldest ∈ m.mapInfo) .assertion
    let m ← m.release nUBucket nOldest
    .ok (1, m)

/-! ## Moving to the tried buckets -/

/-- The loop at the head of `MakeTried`: the entry leaves all its new buckets. -/
def removeNew (nId : Int) (m : CAddrMan) : CAddrMan :=
  let nRefs : Int := (holding m.vvNew nId).card
  let m := m.modifyInfo nId fun info => { info with nRefCount := info.nRefCount - nRefs }
  { m with
    vvNew := fun b => (m.vvNew b).erase nId
    nNew := m.nNew - 1 }

/-- One entry takes the place of another in a tried bucket, and the other goes to a new bucket. -/
def replaceTried (nId nIdOld : Int) (nHome : Fin ADDRMAN_NEW_BUCKET_COUNT) (nKBucket : Fin ADDRMAN_TRIED_BUCKET_COUNT)
    (vTried : List Int) (m : CAddrMan) : CAddrMan :=
  let m := m.modifyInfo nIdOld fun info => { info with fInTried := false, nRefCount := 1 }
  let m := { m with
    vvNew := Function.update m.vvNew nHome (insert nIdOld (m.vvNew nHome))
    nNew := m.nNew + 1
    vvTried := Function.update m.vvTried nKBucket vTried }
  m.modifyInfo nId fun info => { info with fInTried := true }

/-- The end of `MakeTried`: the entry at a position of a full bucket goes back to a new bucket, its own one or, if that is
    full, the one the other entry came from. -/
def evictTried (hash : BucketHash) (nId : Int) (nOrigin : Fin ADDRMAN_NEW_BUCKET_COUNT)
    (nKBucket : Fin ADDRMAN_TRIED_BUCKET_COUNT) (nPos : Int) (vTried : List Int) (m : CAddrMan) :
    Except AddrmanFault CAddrMan := do
  let nIdOld := vTried.getD nPos.toNat 0
  require (nIdOld ∈ m.mapInfo) .assertion
  let nUBucket := (m.info nIdOld).getNewBucket hash (m.info nIdOld).source
  let nHome := if (m.vvNew nUBucket).card < ADDRMAN_NEW_BUCKET_SIZE then nUBucket else nOrigin
  .ok (m.replaceTried nId nIdOld nHome nKBucket (vTried.set nPos.toNat nId))

/-- **`MakeTried`** -/
def makeTried (hash : BucketHash) (t : Moment) (nId : Int) (nOrigin : Fin ADDRMAN_NEW_BUCKET_COUNT) (m : CAddrMan) :
    Except AddrmanFault CAddrMan := do
  require (nId ∈ m.vvNew nOrigin) .assertion
  let m := m.removeNew nId
  require ((m.info nId).nRefCount = 0) .assertion
  let nKBucket := (m.info nId).getTriedBucket hash
  let vTried := m.vvTried nKBucket
  if vTried.length < ADDRMAN_TRIED_BUCKET_SIZE then
    let m := { m with
      vvTried := Function.update m.vvTried nKBucket (vTried ++ [nId])
      nTried := m.nTried + 1 }
    .ok (m.modifyInfo nId fun info => { info with fInTried := true })
  else do
    let (nPos, vTried) ← selectTried (fun i => t.rand (i + 1)) m vTried
    m.evictTried hash nId nOrigin nKBucket nPos vTried

/-! ## What the manager is asked for -/

/-- The new bucket that `Good_` finds an entry in. -/
def findNew (t : Moment) (nId : Int) (m : CAddrMan) : Option (Fin ADDRMAN_NEW_BUCKET_COUNT) :=
  let nRnd := getRandInt (t.rand 0) ADDRMAN_NEW_BUCKET_COUNT
  ((List.range ADDRMAN_NEW_BUCKET_COUNT).map fun n => Fin.ofNat ADDRMAN_NEW_BUCKET_COUNT (n + nRnd)).find? fun nB =>
    nId ∈ m.vvNew nB

/-- **`Good_`** -/
def good_ (hash : BucketHash) (t : Moment) (addr : CService) (nTime : Int) (m : CAddrMan) :
    Except AddrmanFault CAddrMan :=
  match m.find addr.toCNetAddr with
  | none => .ok m
  | some (nId, info) =>
    if info.toCService ≠ addr then .ok m
    else
      let m := m.modifyInfo nId fun info =>
        { info with nLastSuccess := nTime, nLastTry := nTime, nTime := UInt32.ofInt nTime, nAttempts := 0 }
      if info.fInTried then .ok m
      else
        match m.findNew t nId with
        | none => .ok m
        | some nUBucket => m.makeTried hash t nId nUBucket

/-- What `Add_` writes to the entry of an address it knows. -/
def refresh (t : Moment) (addr : CAddress) (nTimePenalty : Int) (info : CAddrInfo) : CAddrInfo :=
  let nTime : Int := addr.nTime.toNat
  let fCurrentlyOnline := t.nNow - nTime < 24 * 60 * 60
  let nUpdateInterval : Int := if fCurrentlyOnline then 60 * 60 else 24 * 60 * 60
  { info with
    nTime :=
      if addr.nTime ≠ 0 ∧ (info.nTime = 0 ∨ (info.nTime.toNat : Int) < nTime - nUpdateInterval - nTimePenalty) then
        UInt32.ofInt (max 0 (nTime - nTimePenalty))
      else info.nTime
    nServices := info.nServices ||| addr.nServices }

/-- Whether `Add_` then goes on to put the entry into one more bucket: 2^N times harder with N buckets. -/
def wantsBucket (t : Moment) (addr : CAddress) (info : CAddrInfo) : Bool :=
  if addr.nTime = 0 ∨ (info.nTime ≠ 0 ∧ addr.nTime ≤ info.nTime) then false
  else if info.fInTried then false
  else if info.nRefCount = ADDRMAN_NEW_BUCKETS_PER_ADDRESS then false
  else
    let nFactor := 2 ^ info.nRefCount.toNat
    if 1 < nFactor ∧ getRandInt (t.rand 0) nFactor ≠ 0 then false else true

/-- The time of a new entry. -/
def penalise (nTimePenalty : Int) (info : CAddrInfo) : CAddrInfo :=
  { info with nTime := UInt32.ofInt (max 0 ((info.nTime.toNat : Int) - nTimePenalty)) }

/-- The end of `Add_`: the entry goes into the bucket that its source leads to. -/
def insertNew (hash : BucketHash) (t : Moment) (source : CNetAddr) (nId : Int) (m : CAddrMan) :
    Except AddrmanFault CAddrMan := do
  let nUBucket := (m.info nId).getNewBucket hash source
  if nId ∈ m.vvNew nUBucket then .ok m
  else do
    let m := m.modifyInfo nId fun info => { info with nRefCount := info.nRefCount + 1 }
    let m ←
      if (m.vvNew nUBucket).card = ADDRMAN_NEW_BUCKET_SIZE then do
        let (_, m) ← m.shrinkNew t nUBucket
        .ok m
      else .ok m
    .ok { m with vvNew := Function.update m.vvNew nUBucket (insert nId (m.vvNew nUBucket)) }

/-- **`Add_`** -/
def add_ (hash : BucketHash) (t : Moment) (addr : CAddress) (source : CNetAddr) (nTimePenalty : Int) (m : CAddrMan) :
    Except AddrmanFault (Bool × CAddrMan) :=
  if !addr.isRoutable then .ok (false, m)
  else
    match m.find addr.toCNetAddr with
    | some (nId, info) => do
      let m := m.modifyInfo nId (refresh t addr nTimePenalty)
      if wantsBucket t addr (refresh t addr nTimePenalty info) then do
        let m ← m.insertNew hash t source nId
        .ok (false, m)
      else .ok (false, m)
    | none => do
      let (nId, m) ← m.create addr source
      let m := m.modifyInfo nId (penalise nTimePenalty)
      let m := { m with nNew := m.nNew + 1 }
      let m ← m.insertNew hash t source nId
      .ok (true, m)

/-- **`Attempt_`** -/
def attempt_ (addr : CService) (nTime : Int) (m : CAddrMan) : Except AddrmanFault CAddrMan :=
  match m.find addr.toCNetAddr with
  | none => .ok m
  | some (nId, info) =>
    if info.toCService ≠ addr then .ok m
    else do
      require (info.nAttempts < 2 ^ 31 - 1) .overflow
      .ok (m.modifyInfo nId fun info => { info with nLastTry := nTime, nAttempts := info.nAttempts + 1 })

/-- **`Connected_`** -/
def connected_ (addr : CService) (nTime : Int) (m : CAddrMan) : CAddrMan :=
  match m.find addr.toCNetAddr with
  | none => m
  | some (nId, info) =>
    if info.toCService ≠ addr then m
    else if 20 * 60 < nTime - info.nTime.toNat then
      m.modifyInfo nId fun info => { info with nTime := UInt32.ofInt nTime }
    else m

/-- One round of `GetAddr_`, which puts a random one of the remaining ids at position `n`. -/
def pickAddr (rand : Nat → Nat) (s : CAddrMan × List CAddress) (n : Nat) :
    Except AddrmanFault (CAddrMan × List CAddress) := do
  let nRndPos := getRandInt (rand n) (s.1.vRandom.length - n) + n
  let m ← s.1.swapRandom n nRndPos
  let nId := m.vRandom.getD n 0
  require (nId ∈ m.mapInfo) .assertion
  .ok (m, s.2 ++ [(m.info nId).toCAddress])

/-- **`GetAddr_`** -/
def getAddr_ (t : Moment) (m : CAddrMan) : Except AddrmanFault (CAddrMan × List CAddress) :=
  let nNodes := min (ADDRMAN_GETADDR_MAX_PCT * m.vRandom.length / 100) ADDRMAN_GETADDR_MAX
  (List.range nNodes).foldlM (pickAddr t.rand) (m, [])

/-- The two loops of `Select_`, over the buckets as lists. Empty buckets are skipped, and a chosen entry is taken or not.
    `none` after `rounds` rounds: it is still looking. -/
def selectLoop (t : Moment) (m : CAddrMan) {k : Nat} [NeZero k] (vv : Fin k → List Int) :
    Nat → Except AddrmanFault (Option CAddress)
  | 0 => .ok none
  | rounds + 1 => do
    let bucket := vv (Fin.ofNat k (getRandInt (t.rand (2 * rounds)) k))
    if bucket.length = 0 then selectLoop t m vv rounds
    else do
      let nId := bucket.getD (getRandInt (t.rand (2 * rounds + 1)) bucket.length) 0
      require (nId ∈ m.mapInfo) .assertion
      if t.coin rounds then .ok (some (m.info nId).toCAddress) else selectLoop t m vv rounds

/-- **`Select_`**. The first comparison decides between the tried and the new entries. -/
def select_ (t : Moment) (rounds : Nat) (m : CAddrMan) : Except AddrmanFault (Option CAddress) :=
  if m.vRandom.length = 0 then .ok (some CAddrInfo.init.toCAddress)
  else if t.coin rounds then selectLoop t m m.vvTried rounds
  else selectLoop t m (fun b => sorted (m.vvNew b)) rounds

/-! ## The consistency check -/

/-- What `Check_` tests on an entry, each with the code it returns. `mapAddr[info]` is 0 where there is nothing. -/
def checkEntry (m : CAddrMan) (n : Int) : Except Int Unit := do
  let info := m.info n
  if info.fInTried then do
    require (info.nLastSuccess ≠ 0) (-1)
    require (info.nRefCount = 0) (-2)
  else do
    require (0 ≤ info.nRefCount ∧ info.nRefCount ≤ ADDRMAN_NEW_BUCKETS_PER_ADDRESS) (-3)
    require (info.nRefCount ≠ 0) (-4)
  require ((m.mapAddr.lookup info.toCNetAddr).getD 0 = n) (-5)
  require (0 ≤ info.nRandomPos ∧ info.nRandomPos < m.vRandom.length ∧ m.vRandom.getD info.nRandomPos.toNat 0 = n) (-14)
  require (0 ≤ info.nLastTry) (-6)
  require (0 ≤ info.nLastSuccess) (-8)

/-- The ids that lie in buckets are struck off the ones that have to. -/
def strikeOff (code : Int) : List Int → Multiset Int → Except Int (Multiset Int)
  | [], due => .ok due
  | n :: rest, due => do
    require (n ∈ due) code
    strikeOff code rest (due.erase n)

/-- `setTried` -/
def setTried (m : CAddrMan) : Multiset Int := (m.mapInfo.keys.filter fun n => (m.info n).fInTried = true).val

/-- `mapNew`, with every id as often as the map says. -/
def mapNew (m : CAddrMan) : Multiset Int :=
  (m.mapInfo.keys.filter fun n => (m.info n).fInTried = false).val.bind fun n =>
    Multiset.replicate (m.info n).nRefCount.toNat n

def checkAll (m : CAddrMan) : Except Int Unit := do
  require ((m.vRandom.length : Int) = m.nTried + m.nNew) (-7)
  (sorted m.mapInfo.keys).forM m.checkEntry
  require ((m.setTried.toFinset.card : Int) = m.nTried) (-9)
  require ((m.mapNew.toFinset.card : Int) = m.nNew) (-10)
  let setTried ← strikeOff (-11) ((List.finRange ADDRMAN_TRIED_BUCKET_COUNT).flatMap m.vvTried) m.setTried
  let mapNew ← strikeOff (-12) ((List.finRange ADDRMAN_NEW_BUCKET_COUNT).flatMap fun b => sorted (m.vvNew b)) m.mapNew
  require (setTried = 0) (-13)
  require (mapNew = 0) (-15)

/-- **`Check_`**: 0, or the code of the first test that fails. -/
def check_ (m : CAddrMan) : Int :=
  match m.checkAll with
  | .ok _ => 0
  | .error code => code

end CAddrMan

/-! ## Runs -/

/-- A call of the manager. -/
inductive AddrmanOp where
  | add_ (addr : CAddress) (source : CNetAddr) (nTimePenalty : Int)
  | good_ (addr : CService) (nTime : Int)
  | attempt_ (addr : CService) (nTime : Int)
  | connected_ (addr : CService) (nTime : Int)
  | getAddr_
  | select_ (rounds : Nat)

namespace CAddrMan

/-- The manager after a call. -/
def step (hash : BucketHash) (m : CAddrMan) (call : Moment × AddrmanOp) : Except AddrmanFault CAddrMan :=
  match call.2 with
  | .add_ addr source nTimePenalty => (·.2) <$> m.add_ hash call.1 addr source nTimePenalty
  | .good_ addr nTime => m.good_ hash call.1 addr nTime
  | .attempt_ addr nTime => m.attempt_ addr nTime
  | .connected_ addr nTime => .ok (m.connected_ addr nTime)
  | .getAddr_ => (·.1) <$> m.getAddr_ call.1
  | .select_ rounds => (fun _ => m) <$> m.select_ call.1 rounds

/-- The manager after a sequence of calls. -/
def run (hash : BucketHash) (m : CAddrMan) (calls : List (Moment × AddrmanOp)) : Except AddrmanFault CAddrMan :=
  calls.foldlM (step hash) m

end CAddrMan

end Syscoin

import Syscoin.Network.Addrman
import Syscoin.Network.BlockFormat

/-!
# `Network.AddrmanFormat` — the address manager on a stream

The new entries are written first, then the tried ones, then the new buckets as lists of indexes into the new entries.
The tried buckets, `mapAddr` and `vRandom` are not written: the reader makes them from the entries, and gives out new
ids. The version that the entries see is the one byte at the head of the stream, not that of the caller.

Where the reader would leave the bounds of a vector, or run out of ids, the model fails like a stream that ends too soon.
-/

namespace Syscoin

open Lib Lib.Reader

def CADDR_TIME_VERSION : Int := 31402

/-! ## Addresses -/

namespace CNetAddr

def serialize (a : CNetAddr) : Bytes := a.ip

def unserialize : Reader UInt8 CNetAddr := do
  let ip ← take 16
  if length_ip : ip.length = 16 then pure ⟨ip, length_ip⟩ else fail

end CNetAddr

namespace CService

/-- `htons` puts the port in network byte order. -/
def serialize (a : CService) : Bytes := a.toCNetAddr.serialize ++ (toLE 2 a.port.toNat).reverse

def unserialize : Reader UInt8 CService := do
  let addr ← CNetAddr.unserialize
  let portN ← take 2
  pure { addr with port := UInt16.ofNat (fromLE portN.reverse) }

end CService

namespace CAddress

variable (nType : Nat) (nVersion : Int)

/-- Whether `nTime` is on the stream. -/
def hasTime : Bool :=
  nType &&& SER_DISK ≠ 0 || (CADDR_TIME_VERSION ≤ nVersion && nType &&& SER_GETHASH = 0)

def serialize (a : CAddress) : Bytes :=
  (if nType &&& SER_DISK ≠ 0 then writeSigned 4 nVersion else []) ++
    ((if hasTime nType nVersion then toLE 4 a.nTime.toNat else []) ++
      (toLE 8 a.nServices.toNat ++ a.toCService.serialize))

/-- Read after `Init`. On disk the version of the caller is overwritten. -/
def unserialize : Reader UInt8 CAddress := do
  let nVersion ← if nType &&& SER_DISK ≠ 0 then readSigned 4 else pure nVersion
  let nTime ← if hasTime nType nVersion then readLE 4 else pure 100000000
  let nServices ← readLE 8
  let service ← CService.unserialize
  pure { service with nServices := UInt64.ofNat nServices, nTime := UInt32.ofNat nTime, nLastTry := 0 }

end CAddress

namespace CAddrInfo

variable (nType : Nat) (nVersion : Int)

def serialize (info : CAddrInfo) : Bytes :=
  info.toCAddress.serialize nType nVersion ++ (info.source.serialize ++
    (writeSigned 8 info.nLastSuccess ++ writeSigned 4 info.nAttempts))

/-- Read into `CAddrInfo()`: what is only in memory stays as `Init` leaves it. -/
def unserialize : Reader UInt8 CAddrInfo := do
  let addr ← CAddress.unserialize nType nVersion
  let source ← CNetAddr.unserialize
  let nLastSuccess ← readSigned 8
  let nAttempts ← readSigned 4
  pure { ofAddress addr source with nLastSuccess := nLastSuccess, nAttempts := nAttempts }

end CAddrInfo

namespace CAddrMan

/-! ## Writing -/

section Write

variable (nType : Nat) (nVersion : Int) (m : CAddrMan)

/-- The loop that writes the new entries, from the count `nIds` on: `mapUnkIds`, which every entry on the way gets into,
    and what was written. -/
def writeNew : List Int → Int → (Finmap fun _ : Int => Int) → (Finmap fun _ : Int => Int) × Bytes
  | [], _, mapUnkIds => (mapUnkIds, [])
  | nId :: rest, nIds, mapUnkIds =>
    if nIds = m.nNew then (mapUnkIds, [])
    else
      let mapUnkIds := mapUnkIds.insert nId nIds
      if (m.info nId).nRefCount ≠ 0 then
        let (mapUnkIds, written) := writeNew rest (nIds + 1) mapUnkIds
        (mapUnkIds, (m.info nId).serialize nType nVersion ++ written)
      else writeNew rest nIds mapUnkIds

/-- The loop that writes the tried entries. -/
def writeTried : List Int → Int → Bytes
  | [], _ => []
  | nId :: rest, nIds =>
    if nIds = m.nTried then []
    else if (m.info nId).fInTried then (m.info nId).serialize nType nVersion ++ writeTried rest (nIds + 1)
    else writeTried rest nIds

/-- A new bucket: its size, and for each member what `mapUnkIds` has for it, which is 0 where it has nothing. -/
def writeBucket (mapUnkIds : Finmap fun _ : Int => Int) (vNew : Finset Int) : Bytes :=
  writeSigned 4 vNew.card ++ (sorted vNew).flatMap fun nId => writeSigned 4 ((mapUnkIds.lookup nId).getD 0)

end Write

/-- **`CAddrMan::Serialize`** -/
def serialize (nType : Nat) (nKey : Bytes) (m : CAddrMan) : Bytes :=
  let nVersion : UInt8 := 0
  let ids := sorted m.mapInfo.keys
  let (mapUnkIds, written) := m.writeNew nType nVersion.toNat ids 0 ∅
  [nVersion] ++ (writeVch nKey ++ (writeSigned 4 m.nNew ++ (writeSigned 4 m.nTried ++
    (writeSigned 4 ADDRMAN_NEW_BUCKET_COUNT ++ (written ++ (m.writeTried nType nVersion.toNat ids 0 ++
      (List.finRange ADDRMAN_NEW_BUCKET_COUNT).flatMap fun b => writeBucket mapUnkIds (m.vvNew b)))))))

/-! ## Reading -/

section Read

variable (hash : BucketHash) (nType : Nat) (nVersion nUBuckets : Int)

/-- What an entry that was read goes into. -/
def enlist (n : Int) (info : CAddrInfo) (m : CAddrMan) : CAddrMan :=
  { m with
    mapInfo := m.mapInfo.insert n { info with nRandomPos := m.vRandom.length }
    mapAddr := m.mapAddr.insert info.toCNetAddr n
    vRandom := m.vRandom ++ [n] }

/-- One more reference, from a new bucket. -/
def putNew (b : Fin ADDRMAN_NEW_BUCKET_COUNT) (n : Int) (m : CAddrMan) : CAddrMan :=
  let m := m.modifyInfo n fun info => { info with nRefCount := info.nRefCount + 1 }
  { m with vvNew := Function.update m.vvNew b (insert n (m.vvNew b)) }

/-- One round of the loop over the new entries. When the number of buckets was another one, the entry goes where its
    source leads. -/
def readNew (m : CAddrMan) (n : Nat) : Reader UInt8 CAddrMan := do
  let info ← CAddrInfo.unserialize nType nVersion
  let m := m.enlist n info
  if nUBuckets ≠ ADDRMAN_NEW_BUCKET_COUNT then pure (m.putNew (info.getNewBucket hash info.source) n) else pure m

/-- A tried entry gets the next id, and its place in the bucket of its address. -/
def putTried (info : CAddrInfo) (m : CAddrMan) : CAddrMan :=
  let nKBucket := info.getTriedBucket hash
  let m' := m.enlist m.nIdCount { info with fInTried := true }
  { m' with
    vvTried := Function.update m.vvTried nKBucket (m.vvTried nKBucket ++ [m.nIdCount])
    nIdCount := m.nIdCount + 1 }

/-- One round of the loop over the tried entries, on the manager and `nLost`. -/
def readTried (s : CAddrMan × Int) (_n : Nat) : Reader UInt8 (CAddrMan × Int) := do
  let info ← CAddrInfo.unserialize nType nVersion
  if (s.1.vvTried (info.getTriedBucket hash)).length < ADDRMAN_TRIED_BUCKET_SIZE then
    if s.1.nIdCount < 2 ^ 31 - 1 then pure (s.1.putTried hash info, s.2) else fail
  else pure (s.1, s.2 + 1)

/-- One index of a bucket. An entry that is not there is made by `mapInfo[nIndex]`. -/
def readIndex (b : Fin ADDRMAN_NEW_BUCKET_COUNT) (m : CAddrMan) (_n : Nat) : Reader UInt8 CAddrMan := do
  let nIndex ← readSigned 4
  let m := m.modifyInfo nIndex id
  if nUBuckets = ADDRMAN_NEW_BUCKET_COUNT ∧ (m.info nIndex).nRefCount < ADDRMAN_NEW_BUCKETS_PER_ADDRESS then
    pure (m.putNew b nIndex)
  else pure m

def readBucket (m : CAddrMan) (b : Nat) : Reader UInt8 CAddrMan :=
  if h : b < ADDRMAN_NEW_BUCKET_COUNT then do
    let nSize ← readSigned 4
    (List.range nSize.toNat).foldlM (readIndex nUBuckets ⟨b, h⟩) m
  else fail

end Read

/-- **`CAddrMan::Unserialize`**: the secret key and the rest. What `nNew` and `nTried` say is read from the stream, and
    the tried entries that found their bucket full are taken off. -/
def unserialize (hash : Bytes → BucketHash) (nType : Nat) : Reader UInt8 (Bytes × CAddrMan) := do
  let vchVersion ← one
  let nVersion : Int := vchVersion.toNat
  let nKey ← readVch
  let nNew ← readSigned 4
  let nTried ← readSigned 4
  let nUBuckets ← readSigned 4
  let m ← (List.range nNew.toNat).foldlM (readNew (hash nKey) nType nVersion nUBuckets)
    { empty with nNew := nNew, nTried := nTried }
  let (m, nLost) ← (List.range nTried.toNat).foldlM (readTried (hash nKey) nType nVersion)
    ({ m with nIdCount := nNew }, 0)
  let m ← (List.range nUBuckets.toNat).foldlM (readBucket nUBuckets) { m with nTried := nTried - nLost }
  pure (nKey, m)

end CAddrMan

end Syscoin

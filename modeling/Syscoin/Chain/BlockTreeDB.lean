import Syscoin.Lib.Cursor
import Syscoin.Network.BlockFormat

/-!
# `Chain.BlockTreeDB` — the block index on disk

An entry of the index is filed in two records. What is known of a block when it is added goes under its hash and `'a'`, once;
what is found out about it later goes under its hash and `'b'`, as often as it changes. At the start of the program a cursor
walks over the records in the order of their keys and takes them for a sequence of such pairs: it looks at the key of every
other record only.

An entry in memory is an object; a pointer to it is the hash under which `mapBlockIndex` files it.
-/

namespace Syscoin

open Lib Lib.Reader

namespace BlockTreeDB

def BLOCK_VALID_TRANSACTIONS : Nat := 3
def BLOCK_HAVE_DATA : Nat := 8
def BLOCK_HAVE_UNDO : Nat := 16

/-- `if (c) READWRITE(VARINT(n))` -/
def writeVarIntIf (c : Prop) [Decidable c] (n : Nat) : Bytes := if c then writeVarInt n else []

/-- What is not read stays as it was. -/
def readVarIntIf (c : Prop) [Decidable c] (n : Nat) : Reader UInt8 Nat := if c then readVarInt else pure n

/-! ## Entries -/

structure CBlockIndex where
  pprev : Option Uint256
  nHeight : Nat
  nFile : Nat
  nDataPos : Nat
  nUndoPos : Nat
  nTx : Nat
  nStatus : Nat
  nVersion : Int
  hashMerkleRoot : Uint256
  nTime : Nat
  nBits : Nat
  nNonce : Nat
deriving DecidableEq, Repr

structure CAuxPow extends Wire.AuxPowFields where
  parentBlockHeader : Wire.CBlockHeader
deriving DecidableEq, Repr

structure CDiskBlockIndex extends CBlockIndex where
  hashPrev : Uint256
  auxpow : Option CAuxPow
deriving DecidableEq, Repr

namespace CAuxPow

variable (nType : Nat) (nVersion : Int)

/-- The parent's header is written with the version of the transaction that `CAuxPow` inherits from. -/
def serialize (auxpow : CAuxPow) : Option Bytes :=
  (auxpow.parentBlockHeader.serialize nType auxpow.tx.nVersion).map fun s =>
    auxpow.toAuxPowFields.serialize nType ++ s

def unserialize : Reader UInt8 CAuxPow := do
  let auxpow ← Wire.AuxPowFields.unserialize nType
  let parentBlockHeader ← Wire.CBlockHeader.unserialize nType auxpow.tx.nVersion
  pure ⟨auxpow, parentBlockHeader⟩

/-- `ReadWriteAuxPow`, which dereferences the pointer if the version says so. -/
def write (auxpow : Option CAuxPow) : Option Bytes :=
  if Wire.hasAuxPow nVersion then auxpow.bind (serialize nType) else some []

def read : Reader UInt8 (Option CAuxPow) :=
  if Wire.hasAuxPow nVersion then do
    let auxpow ← unserialize nType
    pure (some auxpow)
  else pure none

end CAuxPow

namespace CBlockIndex

def null : CBlockIndex := ⟨none, 0, 0, 0, 0, 0, 0, 0, 0, 0, 0, 0⟩

variable (nType : Nat) (nVersion : Int) (pindex : CBlockIndex)

/-- The mutable part. The version is that of the stream, not the block's. -/
def serialize : Bytes :=
  writeVarIntIf (nType &&& SER_GETHASH = 0) nVersion.toNat ++ (writeVarInt pindex.nStatus ++
    (writeVarIntIf (pindex.nStatus &&& (BLOCK_HAVE_DATA ||| BLOCK_HAVE_UNDO) ≠ 0) pindex.nFile ++
      (writeVarIntIf (pindex.nStatus &&& BLOCK_HAVE_DATA ≠ 0) pindex.nDataPos ++
        writeVarIntIf (pindex.nStatus &&& BLOCK_HAVE_UNDO ≠ 0) pindex.nUndoPos)))

/-- Read into an entry. -/
def unserialize : Reader UInt8 CBlockIndex := do
  let _nVersion ← readVarIntIf (nType &&& SER_GETHASH = 0) nVersion.toNat
  let nStatus ← readVarInt
  let nFile ← readVarIntIf (nStatus &&& (BLOCK_HAVE_DATA ||| BLOCK_HAVE_UNDO) ≠ 0) pindex.nFile
  let nDataPos ← readVarIntIf (nStatus &&& BLOCK_HAVE_DATA ≠ 0) pindex.nDataPos
  let nUndoPos ← readVarIntIf (nStatus &&& BLOCK_HAVE_UNDO ≠ 0) pindex.nUndoPos
  pure { pindex with nStatus := nStatus, nFile := nFile, nDataPos := nDataPos, nUndoPos := nUndoPos }

/-- Proof of work is not checked again. -/
def checkIndex (_pindex : CBlockIndex) : Bool := true

end CBlockIndex

namespace CDiskBlockIndex

/-- `CDiskBlockIndex(pindex, auxpow)` -/
def ofIndex (pindex : CBlockIndex) (auxpow : Option CAuxPow) : CDiskBlockIndex where
  toCBlockIndex := pindex
  hashPrev := pindex.pprev.getD 0
  auxpow := auxpow

def header (diskindex : CDiskBlockIndex) : Wire.HeaderFields :=
  ⟨diskindex.nVersion, diskindex.hashPrev, diskindex.hashMerkleRoot, diskindex.nTime, diskindex.nBits, diskindex.nNonce⟩

def calcBlockHash (Hash : Bytes → Uint256) (diskindex : CDiskBlockIndex) : Uint256 := Hash diskindex.header.serialize

variable (nType : Nat) (nVersion : Int)

/-- The immutable part. The work is written as the block's version says, which hides that of the stream. -/
def serialize (diskindex : CDiskBlockIndex) : Option Bytes :=
  (CAuxPow.write nType diskindex.nVersion diskindex.auxpow).map fun s =>
    writeVarIntIf (nType &&& SER_GETHASH = 0) nVersion.toNat ++ (writeVarInt diskindex.nHeight ++
      (writeVarInt diskindex.nTx ++ (diskindex.header.serialize ++ s)))

/-- Read into a new object. -/
def unserialize : Reader UInt8 CDiskBlockIndex := do
  let _nVersion ← readVarIntIf (nType &&& SER_GETHASH = 0) nVersion.toNat
  let nHeight ← readVarInt
  let nTx ← readVarInt
  let header ← Wire.HeaderFields.unserialize
  let auxpow ← CAuxPow.read nType header.nVersion
  pure
    { CBlockIndex.null with
      nHeight := nHeight
      nTx := nTx
      nVersion := header.nVersion
      hashMerkleRoot := header.hashMerkleRoot
      nTime := header.nTime
      nBits := header.nBits
      nNonce := header.nNonce
      hashPrev := header.hashPrevBlock
      auxpow := auxpow }

end CDiskBlockIndex

/-! ## Records -/

/-- The records of the database in the order of their keys, which is that of their bytes. -/
abbrev CLevelDB : Type := List (Bytes × Bytes)

/-- `make_tuple('b', hash, part)` -/
def blockKey (hash : Uint256) (part : UInt8) : Bytes := 0x62 :: (writeUint256 hash ++ [part])

/-- `'a'`, under which the immutable part is filed, and `'b'`. -/
def immutablePart : UInt8 := 0x61
def mutablePart : UInt8 := 0x62

def writeDiskBlockIndex (hash : Uint256) (diskblockindex : CDiskBlockIndex) (db : CLevelDB) : Option CLevelDB :=
  (diskblockindex.serialize SER_DISK CLIENT_VERSION).map fun value => assign (blockKey hash immutablePart) value db

def writeBlockIndex (hash : Uint256) (blockindex : CBlockIndex) (db : CLevelDB) : CLevelDB :=
  assign (blockKey hash mutablePart) (blockindex.serialize SER_DISK CLIENT_VERSION) db

/-! ## Memory -/

/-- `mapBlockIndex`, in the order of the hashes. -/
abbrev BlockMap : Type := List (Uint256 × CBlockIndex)

/-- The pointer that comes back is null for the null hash. -/
def insertBlockIndex (hash : Uint256) (mapBlockIndex : BlockMap) : Option Uint256 × BlockMap :=
  if hash = 0 then (none, mapBlockIndex)
  else
    match mapBlockIndex.lookup hash with
    | some _ => (some hash, mapBlockIndex)
    | none => (some hash, assign hash CBlockIndex.null mapBlockIndex)

/-- A change of the object that a pointer points to. -/
def BlockMap.modify (hash : Uint256) (f : CBlockIndex → CBlockIndex) (mapBlockIndex : BlockMap) : BlockMap :=
  match mapBlockIndex.lookup hash with
  | none => mapBlockIndex
  | some pindex => assign hash (f pindex) mapBlockIndex

/-- What `AddToBlockIndex` does before it looks for a new best block: a new entry, and its two records. -/
def addToBlockIndex (Hash : Bytes → Uint256) (block : Wire.HeaderFields) (auxpow : Option CAuxPow)
    (nTx nFile nPos : Nat) (mapBlockIndex : BlockMap) (db : CLevelDB) : Option (BlockMap × CLevelDB) :=
  let hash := Hash block.serialize
  if (mapBlockIndex.lookup hash).isSome then some (mapBlockIndex, db)
  else
    let prev := mapBlockIndex.lookup block.hashPrevBlock
    let pindexNew : CBlockIndex :=
      { pprev := prev.map fun _ => block.hashPrevBlock
        nHeight := (prev.map fun pprev => pprev.nHeight + 1).getD 0
        nFile := nFile
        nDataPos := nPos
        nUndoPos := 0
        nTx := nTx
        nStatus := BLOCK_VALID_TRANSACTIONS ||| BLOCK_HAVE_DATA
        nVersion := block.nVersion
        hashMerkleRoot := block.hashMerkleRoot
        nTime := block.nTime
        nBits := block.nBits
        nNonce := block.nNonce }
    (writeDiskBlockIndex hash (CDiskBlockIndex.ofIndex pindexNew auxpow) db).map fun db =>
      (assign hash pindexNew mapBlockIndex, writeBlockIndex hash pindexNew db)

/-! ## The start of the program -/

/-- `error` leaves the texts of the log; `assert` stops the program, as does a null pointer that is followed. -/
inductive LoadFailure where
  | error (text : String)
  | assert
deriving DecidableEq, Repr

structure BlockIndexState where
  mapBlockIndex : BlockMap
  pindexGenesisBlock : Option Uint256
deriving DecidableEq, Repr

/-- `ssKeySet` -/
def keySet : Bytes := blockKey 0 immutablePart

section Load

variable (Hash : Bytes → Uint256) (hashGenesisBlock : Uint256)

def deserializeError : LoadFailure := .error "bool CBlockTreeDB::LoadBlockIndexGuts()() : deserialize error"

/-- The record that the cursor stands at, whose key starts with `'b'` and goes on with `ssKey`. -/
def loadImmutable (slKey ssKey slValue : Bytes) (index : BlockIndexState) : Except LoadFailure (Uint256 × BlockIndexState) :=
  if slKey.length < keySet.length then
    .error (.error ("Database key size is " ++ toString slKey.length ++ " expected " ++ toString keySet.length ++
      ", require reindex to upgrade."))
  else
    match readUint256 ssKey with
    | none => .error deserializeError
    | some (hash, _) =>
      match CDiskBlockIndex.unserialize SER_DISK CLIENT_VERSION slValue with
      | none => .error deserializeError
      | some (diskindex, _) =>
        match insertBlockIndex hash index.mapBlockIndex with
        | (none, _) => .error .assert
        | (some pindexNew, mapBlockIndex) =>
          if diskindex.calcBlockHash Hash ≠ pindexNew then .error .assert
          else
            let (pprev, mapBlockIndex) := insertBlockIndex diskindex.hashPrev mapBlockIndex
            let mapBlockIndex := mapBlockIndex.modify pindexNew fun pindex =>
              { pindex with
                pprev := pprev
                nHeight := diskindex.nHeight
                nVersion := diskindex.nVersion
                hashMerkleRoot := diskindex.hashMerkleRoot
                nTime := diskindex.nTime
                nBits := diskindex.nBits
                nNonce := diskindex.nNonce
                nTx := diskindex.nTx }
            let pindexGenesisBlock :=
              if index.pindexGenesisBlock = none ∧ pindexNew = hashGenesisBlock then some pindexNew
              else index.pindexGenesisBlock
            if diskindex.checkIndex = false then .error (.error "LoadBlockIndex() : CheckIndex failed")
            else .ok (pindexNew, ⟨mapBlockIndex, pindexGenesisBlock⟩)

/-- The record behind it, whatever its key. -/
def loadMutable (pindexNew : Uint256) (slValue : Bytes) (index : BlockIndexState) : Except LoadFailure BlockIndexState :=
  match index.mapBlockIndex.lookup pindexNew with
  | none => .error .assert
  | some pindex =>
    match pindex.unserialize SER_DISK CLIENT_VERSION slValue with
    | none => .error deserializeError
    | some (pindex, _) => .ok { index with mapBlockIndex := assign pindexNew pindex index.mapBlockIndex }

def loadLoop (index : BlockIndexState) : CLevelDB → Except LoadFailure BlockIndexState
  | [] => .ok index
  | (slKey, slValue) :: pcursor =>
    match slKey with
    | [] => .error deserializeError
    | cType :: ssKey =>
      if cType ≠ 0x62 then .ok index
      else
        match loadImmutable Hash hashGenesisBlock slKey ssKey slValue index with
        | .error failure => .error failure
        | .ok (pindexNew, index) =>
          match pcursor with
          | [] => .error .assert
          | (_, slValue) :: pcursor =>
            match loadMutable pindexNew slValue index with
            | .error failure => .error failure
            | .ok index => loadLoop index pcursor

/-- **`LoadBlockIndexGuts`** -/
def loadBlockIndexGuts (db : CLevelDB) (index : BlockIndexState) : Except LoadFailure BlockIndexState :=
  loadLoop Hash hashGenesisBlock index (seek keySet db)

end Load

end BlockTreeDB

end Syscoin

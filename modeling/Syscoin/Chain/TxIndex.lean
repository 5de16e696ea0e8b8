import Mathlib.Logic.Function.Basic
import Syscoin.Chain.BlockFiles
import Syscoin.Network.BlockFormat

/-!
# `Chain.TxIndex` — from the hash of a transaction to its bytes on disk

While a block is connected the place of each of its transactions is worked out from their sizes: the file and the
position of the block, and how far behind the block's header the transaction starts. The block database keeps these
places under the hashes. Who asks for a transaction reads the header at the position, whatever it is followed by, skips
to the transaction and compares the hash.
-/

namespace Syscoin

open Lib Lib.Reader

/-- `nTxOffset` counts from the end of the header. -/
structure CDiskTxPos extends CDiskBlockPos where
  nTxOffset : UInt32
deriving DecidableEq

namespace CDiskTxPos

def serialize (pos : CDiskTxPos) : Bytes :=
  writeVarInt pos.nFile ++ (writeVarInt pos.nPos ++ writeVarInt pos.nTxOffset.toNat)

def unserialize : Reader UInt8 CDiskTxPos := do
  let nFile ← readVarInt
  let nPos ← readVarInt
  let nTxOffset ← readVarInt
  pure ⟨⟨nFile, nPos⟩, UInt32.ofNat nTxOffset⟩

end CDiskTxPos

variable (Hash : Bytes → Uint256)

/-- The loop of `ConnectBlock` as far as it fills `vPos`. -/
def collectPositions : CDiskTxPos → List CTransaction → List (Uint256 × CDiskTxPos)
  | _, [] => []
  | pos, tx :: vtx =>
    (tx.getHash Hash, pos) ::
      collectPositions { pos with nTxOffset := pos.nTxOffset + tx.nSerSize SER_DISK } vtx

/-- `vPos` behind the loop, for a block at `blockPos`. -/
def vPos (blockPos : CDiskBlockPos) (vtx : List CTransaction) : List (Uint256 × CDiskTxPos) :=
  collectPositions Hash ⟨blockPos, UInt32.ofNat (getSizeOfCompactSize vtx.length)⟩ vtx

/-- The records `'t'` of the block database. -/
abbrev TxIndex := Uint256 → Option Bytes

namespace TxIndex

/-- The batch is written in order, so that of two records under one key the later one stays. -/
def writeTxIndex (db : TxIndex) (vect : List (Uint256 × CDiskTxPos)) : TxIndex :=
  vect.foldl (fun db it => Function.update db it.1 (some it.2.serialize)) db

def readTxIndex (db : TxIndex) (txid : Uint256) : Option CDiskTxPos :=
  (db txid).bind fun vch => (CDiskTxPos.unserialize vch).map Prod.fst

end TxIndex

/-- What `GetTransaction` does with a position: the transaction and the hash of the block it is in. To seek behind the
    end of a file is no error, and nothing can be read there. -/
def readTransactionAt (blockFile : Nat → Option Bytes) (hash : Uint256) (postx : CDiskTxPos) :
    Option (CTransaction × Uint256) := do
  let file ← blockFile postx.nFile
  let (header, s) ← Wire.CBlockHeader.unserialize SER_DISK CLIENT_VERSION (file.drop postx.nPos)
  let (txOut, _) ← CTransaction.unserialize SER_DISK (s.drop postx.nTxOffset.toNat)
  if txOut.getHash Hash = hash then some (txOut, header.getHash Hash) else none

/-- `GetTransaction` for a transaction that is not in the pool, with `fTxIndex` set. Where the index has no record a
    caller may have asked for the slow way over the coins. -/
def getTransaction (blockFile : Nat → Option Bytes) (db : TxIndex) (hash : Uint256) :
    Option (CTransaction × Uint256) :=
  (db.readTxIndex hash).bind (readTransactionAt Hash blockFile hash)

end Syscoin

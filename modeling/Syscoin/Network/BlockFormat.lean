import Mathlib.Data.Int.Bitwise
import Syscoin.Primitives.Serialize

/-!
# `Network.BlockFormat` — blocks on a stream

How a block is written, read and measured. A header whose version says so is followed by the work of a parent chain, and
with it by the parent's header, which may be followed by more work in turn. Whether there is more is decided by the
version of the header at hand: the version a caller passes is overwritten before it is looked at. A transaction ends with
its data, unless it is hashed for the parent chain. Sizes are `unsigned int`s.
-/

namespace Syscoin

open Lib Lib.Reader

def SER_NETWORK : Nat := 1
def SER_DISK : Nat := 2
def SER_GETHASH : Nat := 4
def SER_GETAUXHASH : Nat := 8

def CLIENT_VERSION : Int := 80604

/-! ## Vectors -/

/-- The size of a vector of bytes: a `size_t` that is cut to 32 bits. -/
def vchSerSize (vch : Bytes) : UInt32 := UInt32.ofNat (getSizeOfCompactSize vch.length + vch.length)

def vectorSerSize {α : Type} (size : α → UInt32) (v : List α) : UInt32 :=
  v.foldl (fun nSize a => nSize + size a) (UInt32.ofNat (getSizeOfCompactSize v.length))

/-! ## Transactions -/

def COutPoint.unserialize : Reader UInt8 COutPoint := do
  let hash ← readUint256
  let n ← readLE 4
  pure ⟨hash, n⟩

namespace CTxIn

def serialize (txin : CTxIn) : Bytes := txin.prevout.serialize ++ (writeVch txin.scriptSig ++ toLE 4 txin.nSequence)

def unserialize : Reader UInt8 CTxIn := do
  let prevout ← COutPoint.unserialize
  let scriptSig ← readVch
  let nSequence ← readLE 4
  pure ⟨prevout, scriptSig, nSequence⟩

def nSerSize (txin : CTxIn) : UInt32 := 36 + vchSerSize txin.scriptSig + 4

end CTxIn

namespace CTxOut

def serialize (txout : CTxOut) : Bytes := writeSigned 8 txout.nValue ++ writeVch txout.scriptPubKey

def unserialize : Reader UInt8 CTxOut := do
  let nValue ← readSigned 8
  let scriptPubKey ← readVch
  pure ⟨nValue, scriptPubKey⟩

def nSerSize (txout : CTxOut) : UInt32 := 8 + vchSerSize txout.scriptPubKey

end CTxOut

namespace CTransaction

variable (nType : Nat) (tx : CTransaction)

def serialize : Bytes :=
  writeSigned 4 tx.nVersion ++ (writeVector CTxIn.serialize tx.vin ++ (writeVector CTxOut.serialize tx.vout ++
    (toLE 4 tx.nLockTime ++ if nType &&& SER_GETAUXHASH = 0 then writeVch tx.data else [])))

/-- Read into a new transaction, whose data are empty. -/
def unserialize : Reader UInt8 CTransaction := do
  let nVersion ← readSigned 4
  let vin ← readVector CTxIn.unserialize
  let vout ← readVector CTxOut.unserialize
  let nLockTime ← readLE 4
  let data ← if nType &&& SER_GETAUXHASH = 0 then readVch else pure []
  pure ⟨nVersion, vin, vout, nLockTime, data⟩

/-- `GetSerializeSize`, which adds up `nSerSize`. -/
def nSerSize : UInt32 :=
  4 + vectorSerSize CTxIn.nSerSize tx.vin + vectorSerSize CTxOut.nSerSize tx.vout + 4 +
    if nType &&& SER_GETAUXHASH = 0 then vchSerSize tx.data else 0

variable (Hash : Bytes → Uint256)

def getHash : Uint256 := Hash (tx.serialize SER_GETHASH)

def getAuxHash : Uint256 := Hash (tx.serialize (SER_GETAUXHASH ||| SER_GETHASH))

end CTransaction

/-! ## Headers and blocks -/

namespace Wire

/-- `nVersion & BLOCK_VERSION_AUXPOW` -/
def hasAuxPow (nVersion : Int) : Bool := nVersion.testBit 8

/-- What a header has besides the pointer, in the order in which it lies in memory. -/
structure HeaderFields where
  nVersion : Int
  hashPrevBlock : Uint256
  hashMerkleRoot : Uint256
  nTime : Nat
  nBits : Nat
  nNonce : Nat
deriving DecidableEq, Repr

namespace HeaderFields

/-- The 80 bytes from `BEGIN(nVersion)` to `END(nNonce)`, which are also what is written. -/
def serialize (fields : HeaderFields) : Bytes :=
  writeSigned 4 fields.nVersion ++ (writeUint256 fields.hashPrevBlock ++ (writeUint256 fields.hashMerkleRoot ++
    (toLE 4 fields.nTime ++ (toLE 4 fields.nBits ++ toLE 4 fields.nNonce))))

def unserialize : Reader UInt8 HeaderFields := do
  let nVersion ← readSigned 4
  let hashPrevBlock ← readUint256
  let hashMerkleRoot ← readUint256
  let nTime ← readLE 4
  let nBits ← readLE 4
  let nNonce ← readLE 4
  pure ⟨nVersion, hashPrevBlock, hashMerkleRoot, nTime, nBits, nNonce⟩

end HeaderFields

/-- A transaction with the branch that links it to a block. -/
structure CMerkleTx where
  tx : CTransaction
  hashBlock : Uint256
  vMerkleBranch : List Uint256
  nIndex : Int
deriving DecidableEq, Repr

/-- `CAuxPow` up to its `parentBlockHeader`. -/
structure AuxPowFields extends CMerkleTx where
  vChainMerkleBranch : List Uint256
  nChainIndex : Nat
deriving DecidableEq, Repr

/-- A header whose `auxpow` is null, or points to fields and the parent's header. -/
inductive CBlockHeader where
  | plain (fields : HeaderFields)
  | merged (fields : HeaderFields) (auxpow : AuxPowFields) (parentBlockHeader : CBlockHeader)
deriving DecidableEq, Repr

structure CBlock where
  header : CBlockHeader
  vtx : List CTransaction
deriving DecidableEq, Repr

namespace CMerkleTx

variable (nType : Nat) (merkleTx : CMerkleTx)

def serialize : Bytes :=
  merkleTx.tx.serialize nType ++ (writeUint256 merkleTx.hashBlock ++ (writeVector writeUint256 merkleTx.vMerkleBranch ++
    writeSigned 4 merkleTx.nIndex))

def unserialize : Reader UInt8 CMerkleTx := do
  let tx ← CTransaction.unserialize nType
  let hashBlock ← readUint256
  let vMerkleBranch ← readVector readUint256
  let nIndex ← readSigned 4
  pure ⟨tx, hashBlock, vMerkleBranch, nIndex⟩

def nSerSize : UInt32 :=
  merkleTx.tx.nSerSize nType + 32 + vectorSerSize (fun _ => 32) merkleTx.vMerkleBranch + 4

end CMerkleTx

namespace AuxPowFields

variable (nType : Nat) (auxpow : AuxPowFields)

def serialize : Bytes :=
  auxpow.toCMerkleTx.serialize nType ++ (writeVector writeUint256 auxpow.vChainMerkleBranch ++
    toLE 4 auxpow.nChainIndex)

def unserialize : Reader UInt8 AuxPowFields := do
  let merkleTx ← CMerkleTx.unserialize nType
  let vChainMerkleBranch ← readVector readUint256
  let nChainIndex ← readLE 4
  pure ⟨merkleTx, vChainMerkleBranch, nChainIndex⟩

def nSerSize : UInt32 :=
  auxpow.toCMerkleTx.nSerSize nType + vectorSerSize (fun _ => 32) auxpow.vChainMerkleBranch + 4

end AuxPowFields

namespace CBlockHeader

def fields : CBlockHeader → HeaderFields
  | .plain fields => fields
  | .merged fields _ _ => fields

/-- The parent's header is written with the version of the transaction that `CAuxPow` inherits from. A pointer that is
    null where the version announces work is dereferenced. -/
def serialize (nType : Nat) (_nVersion : Int) : CBlockHeader → Option Bytes
  | .plain fields =>
    let nVersion := fields.nVersion
    if hasAuxPow nVersion then none else some fields.serialize
  | .merged fields auxpow parentBlockHeader =>
    let nVersion := fields.nVersion
    if hasAuxPow nVersion then
      (parentBlockHeader.serialize nType auxpow.tx.nVersion).map fun s => fields.serialize ++ (auxpow.serialize nType ++ s)
    else some fields.serialize

def nSerSize (nType : Nat) (_nVersion : Int) : CBlockHeader → Option UInt32
  | .plain fields =>
    let nVersion := fields.nVersion
    if hasAuxPow nVersion then none else some 80
  | .merged fields auxpow parentBlockHeader =>
    let nVersion := fields.nVersion
    if hasAuxPow nVersion then
      (parentBlockHeader.nSerSize nType auxpow.tx.nVersion).map fun nSize => 80 + (auxpow.nSerSize nType + nSize)
    else some 80

/-- The recursion takes 80 bytes off the stream at each level, so that the length of the stream is fuel enough. -/
def unserializeNested (nType : Nat) : Nat → Int → Reader UInt8 CBlockHeader
  | 0, _ => Reader.fail
  | fuel + 1, _ => do
    let fields ← HeaderFields.unserialize
    let nVersion := fields.nVersion
    if hasAuxPow nVersion then
      let auxpow ← AuxPowFields.unserialize nType
      let parentBlockHeader ← unserializeNested nType fuel auxpow.tx.nVersion
      pure (.merged fields auxpow parentBlockHeader)
    else pure (.plain fields)

def unserialize (nType : Nat) (nVersion : Int) : Reader UInt8 CBlockHeader := fun s =>
  unserializeNested nType s.length nVersion s

def getHash (Hash : Bytes → Uint256) (header : CBlockHeader) : Uint256 := Hash header.fields.serialize

end CBlockHeader

namespace CBlock

variable (nType : Nat) (nVersion : Int) (block : CBlock)

def serialize : Option Bytes :=
  (block.header.serialize nType nVersion).map fun s => s ++ writeVector (CTransaction.serialize nType) block.vtx

def nSerSize : Option UInt32 :=
  (block.header.nSerSize nType nVersion).map fun nSize =>
    nSize + vectorSerSize (CTransaction.nSerSize nType) block.vtx

def unserialize : Reader UInt8 CBlock := do
  let header ← CBlockHeader.unserialize nType nVersion
  let vtx ← readVector (CTransaction.unserialize nType)
  pure ⟨header, vtx⟩

end CBlock

end Wire

end Syscoin

import Syscoin.Lib.Access
import Syscoin.Lib.Merkle
import Syscoin.Primitives.Payload
import Syscoin.Primitives.Tx

/-!
# `Network.AuxPow` — merged mining

The work of a parent chain counts for a block of this chain when the parent's coinbase commits to the block: it has the
root of a tree of chains right behind the merged mining header, and behind the root the size of the tree and a nonce,
which fix the slot of this chain in it.
-/

namespace Syscoin

open Lib

def pchMergedMiningHeader : Bytes := [0xfa, 0xbe, 0x6d, 0x6d]

def BLOCK_VERSION_CHAIN_START : Int := 2 ^ 16

/-- `std::search`: the first position where `pattern` occurs, or the end. -/
def search (pattern : Bytes) : Bytes → Nat
  | [] => 0
  | b :: bs => if pattern <+: b :: bs then 0 else 1 + search pattern bs

/-- `CBlock::CheckMerkleBranch`. -/
def checkMerkleBranch (env : Env) (hash : Uint256) (vMerkleBranch : List Uint256) (nIndex : Int) : Uint256 :=
  if nIndex = -1 then 0 else branchRoot env.hashPair hash vMerkleBranch nIndex

/-- What is read of the parent block's header. -/
structure CBlockHeader where
  nVersion : Int
  hashMerkleRoot : Uint256
deriving DecidableEq, Repr

def CBlockHeader.getChainID (header : CBlockHeader) : Int := header.nVersion.tdiv BLOCK_VERSION_CHAIN_START

/-- The parent's coinbase with its place in the parent block, and the branch from a block of this chain to the root that
    the coinbase commits to. -/
structure CAuxPow where
  tx : CTransaction
  vMerkleBranch : List Uint256
  nIndex : Int
  vChainMerkleBranch : List Uint256
  nChainIndex : UInt32
  parentBlockHeader : CBlockHeader
deriving DecidableEq, Repr

/-- An `int` read with `memcpy`. -/
def readInt (vch : Bytes) : Int := (fromLE (vch.take 4) : Int).bmod (2 ^ 32)

/-- The pseudo-random slot of a chain. -/
def chainSlot (nNonce : Int) (nChainID : Int) : UInt32 :=
  let rand : UInt32 := UInt32.ofInt nNonce
  let rand := rand * 1103515245 + 12345
  let rand := rand + UInt32.ofInt nChainID
  rand * 1103515245 + 12345

namespace CAuxPow

variable (env : Env) (getAuxHash : CTransaction → Uint256) (hashAuxBlock : Uint256) (nChainID : Int) (a : CAuxPow)

/-- The root that the coinbase has to commit to. The index becomes an `int`. -/
def nRootHash : Uint256 :=
  checkMerkleBranch env hashAuxBlock a.vChainMerkleBranch ((a.nChainIndex.toNat : Int).bmod (2 ^ 32))

def vchRootHash : Bytes := (toLE 32 (a.nRootHash env hashAuxBlock)).reverse

/-- The part of `Check` that reads the coinbase. A header is asked for before the branch for coinbases without one. -/
def checkCoinbase (script : CScript) : Except Reject Unit := do
  let vchRootHash := a.vchRootHash env hashAuxBlock
  let pcHead := search pchMergedMiningHeader script
  let pc := search vchRootHash script
  require (pcHead ≠ script.length) (error "MergedMiningHeader missing from parent coinbase")
  require (pc ≠ script.length) (error "Aux POW missing chain merkle root in parent coinbase")
  if pcHead ≠ script.length then do
    let rest := script.drop (pcHead + 1)
    require (search pchMergedMiningHeader rest = rest.length) (error "Multiple merged mining headers in coinbase")
    require (pcHead + pchMergedMiningHeader.length = pc)
      (error "Merged mining header is not just before chain merkle root")
  else
    require (pc ≤ 20)
      (error "Aux POW chain merkle root must start in the first 20 bytes of the parent coinbase")
  let pc := pc + vchRootHash.length
  require (pc + 8 ≤ script.length)
    (error "Aux POW missing chain merkle tree size and nonce in parent coinbase")
  let nSize := readInt (script.drop pc)
  require (nSize = 2 ^ a.vChainMerkleBranch.length)
    (error "Aux POW merkle branch size does not match parent coinbase")
  let nNonce := readInt (script.drop (pc + 4))
  require (a.nChainIndex = chainSlot nNonce nChainID % UInt32.ofInt nSize) (error "Aux POW wrong index")

/-- **`CAuxPow::Check`.** A coinbase without inputs is read out of bounds. -/
def check : Except Reject Unit := do
  require (a.nIndex = 0) (error "AuxPow is not a generate")
  require (¬ (env.fTestNet = false ∧ env.fCakeNet = false ∧ a.parentBlockHeader.getChainID = nChainID))
    (error "Aux POW parent has our chain ID")
  require (a.vChainMerkleBranch.length ≤ 30) (error "Aux POW chain merkle branch too long")
  require (checkMerkleBranch env (getAuxHash a.tx) a.vMerkleBranch a.nIndex = a.parentBlockHeader.hashMerkleRoot)
    (error "Aux POW merkle root incorrect")
  match a.tx.vin with
  | [] => .error (crash "vin[0]")
  | txin :: _ => checkCoinbase env hashAuxBlock nChainID a txin.scriptSig

/-! The same with each access written out: what is read of a vector, where an iterator is moved, and the arithmetic that
is not defined for every operand. -/

def checkCoinbaseAccesses (script : CScript) : Except Reject Unit := do
  let vchRootHash := a.vchRootHash env hashAuxBlock
  let pcHead := search pchMergedMiningHeader script
  let pc := search vchRootHash script
  require (pcHead ≠ script.length) (error "MergedMiningHeader missing from parent coinbase")
  require (pc ≠ script.length) (error "Aux POW missing chain merkle root in parent coinbase")
  if pcHead ≠ script.length then do
    let pcNext ← Access.advance (crash "pcHead + 1") script pcHead 1
    let rest := script.drop pcNext
    require (search pchMergedMiningHeader rest = rest.length) (error "Multiple merged mining headers in coinbase")
    let pcRoot ← Access.advance (crash "pcHead + sizeof(pchMergedMiningHeader)") script pcHead
      pchMergedMiningHeader.length
    require (pcRoot = pc) (error "Merged mining header is not just before chain merkle root")
  else
    require (pc ≤ 20)
      (error "Aux POW chain merkle root must start in the first 20 bytes of the parent coinbase")
  let pc ← Access.advance (crash "pc += vchRootHash.size()") script pc vchRootHash.length
  require (8 ≤ script.length - pc)
    (error "Aux POW missing chain merkle tree size and nonce in parent coinbase")
  let pcSize ← Access.copy (crash "memcpy(&nSize, &pc[0], 4)") script pc 4
  let nSize := readInt pcSize
  let nLeaves ← Access.shiftOne (crash "1 << vChainMerkleBranch.size()") a.vChainMerkleBranch.length
  require (nSize = nLeaves) (error "Aux POW merkle branch size does not match parent coinbase")
  let pcNonce ← Access.copy (crash "memcpy(&nNonce, &pc[4], 4)") script (pc + 4) 4
  let nNonce := readInt pcNonce
  let nSlot ← Access.modulo (crash "rand % nSize") (chainSlot nNonce nChainID) (UInt32.ofInt nSize)
  require (a.nChainIndex = nSlot) (error "Aux POW wrong index")

def checkAccesses : Except Reject Unit := do
  require (a.nIndex = 0) (error "AuxPow is not a generate")
  require (¬ (env.fTestNet = false ∧ env.fCakeNet = false ∧ a.parentBlockHeader.getChainID = nChainID))
    (error "Aux POW parent has our chain ID")
  require (a.vChainMerkleBranch.length ≤ 30) (error "Aux POW chain merkle branch too long")
  require (checkMerkleBranch env (getAuxHash a.tx) a.vMerkleBranch a.nIndex = a.parentBlockHeader.hashMerkleRoot)
    (error "Aux POW merkle root incorrect")
  let txin ← Access.front (crash "vin[0]") a.tx.vin
  checkCoinbaseAccesses env hashAuxBlock nChainID a txin.scriptSig

end CAuxPow

end Syscoin

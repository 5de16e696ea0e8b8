import Syscoin.Lib.Access
import Syscoin.Primitives.Serialize

/-!
# `Network.PartialMerkle` — `CPartialMerkleTree`

A depth-first walk over the merkle tree writes one bit for each node it meets: set if a matched transaction is below.
Below a set bit it goes on, for a clear bit or at a leaf it writes the hash of the node. `TraverseAndExtract` makes the
same walk from the bits and hashes alone. The hash of two nodes is a parameter.
-/

namespace Syscoin

open Lib Lib.Reader

structure CPartialMerkleTree where
  nTransactions : Nat
  vBits : List Bool
  vHash : List Uint256
  fBad : Bool
deriving DecidableEq, Repr

namespace CPartialMerkleTree

/-- The number of nodes at a height; the leaves are at height zero. -/
def calcTreeWidth (nTransactions height : Nat) : Nat := (nTransactions + 2 ^ height - 1) / 2 ^ height

/-- `while (CalcTreeWidth(nHeight) > 1) nHeight++`. The width halves, so the number of transactions is fuel enough. -/
def calcHeight (nTransactions : Nat) : Nat → Nat → Nat
  | 0, nHeight => nHeight
  | fuel + 1, nHeight =>
    if 1 < calcTreeWidth nTransactions nHeight then calcHeight nTransactions fuel (nHeight + 1) else nHeight

def nHeight (nTransactions : Nat) : Nat := calcHeight nTransactions nTransactions 0

/-! ## Building -/

section Build

variable (hashPair : Uint256 → Uint256 → Uint256) (vTxid : List Uint256) (vMatch : List Bool)

def calcHash : Nat → Nat → Uint256
  | 0, pos => vTxid.getD pos 0
  | height + 1, pos =>
    let left := calcHash height (pos * 2)
    let right := if pos * 2 + 1 < calcTreeWidth vTxid.length height then calcHash height (pos * 2 + 1) else left
    hashPair left right

/-- Whether a matched transaction is below the node. -/
def parentOfMatch (height pos : Nat) : Bool :=
  (List.range' (pos * 2 ^ height) (2 ^ height)).any fun p => decide (p < vTxid.length) && vMatch.getD p false

def traverseAndBuild : Nat → Nat → CPartialMerkleTree → CPartialMerkleTree
  | 0, pos, tree =>
    { tree with
      vBits := tree.vBits ++ [parentOfMatch vTxid vMatch 0 pos]
      vHash := tree.vHash ++ [calcHash hashPair vTxid 0 pos] }
  | height + 1, pos, tree =>
    let fParentOfMatch := parentOfMatch vTxid vMatch (height + 1) pos
    let tree := { tree with vBits := tree.vBits ++ [fParentOfMatch] }
    if fParentOfMatch = false then
      { tree with vHash := tree.vHash ++ [calcHash hashPair vTxid (height + 1) pos] }
    else
      let tree := traverseAndBuild height (pos * 2) tree
      if pos * 2 + 1 < calcTreeWidth vTxid.length height then traverseAndBuild height (pos * 2 + 1) tree else tree

/-- The constructor from transaction ids and a mask. -/
def ofTxids : CPartialMerkleTree :=
  traverseAndBuild hashPair vTxid vMatch (nHeight vTxid.length) 0 ⟨vTxid.length, [], [], false⟩

end Build

/-! ## Serialization -/

/-- `vBytes[p / 8] |= vBits[p] << (p % 8)`. -/
def packBits (vBits : List Bool) : Bytes :=
  (List.range ((vBits.length + 7) / 8)).map fun i => packByte (vBits.drop (8 * i))

/-- `vBits[p] = (vBytes[p / 8] & (1 << (p % 8))) != 0`. -/
def unpackBits (vBytes : Bytes) : List Bool :=
  (List.range (vBytes.length * 8)).map fun p => (vBytes.getD (p / 8) 0).toNat.testBit (p % 8)

def serialize (tree : CPartialMerkleTree) : Bytes :=
  toLE 4 tree.nTransactions ++ (writeVector writeUint256 tree.vHash ++ writeVch (packBits tree.vBits))

def unserialize : Reader UInt8 CPartialMerkleTree := do
  let nTransactions ← readLE 4
  let vHash ← readVector readUint256
  let vBytes ← readVch
  pure ⟨nTransactions, unpackBits vBytes, vHash, false⟩

/-! ## Extracting -/

/-- How far the walk has come: the bits and hashes used, the transactions matched, and whether it failed. -/
structure Cursor where
  nBitsUsed : Nat
  nHashUsed : Nat
  vMatch : List Uint256
  fBad : Bool
deriving DecidableEq, Repr

section Extract

variable (hashPair : Uint256 → Uint256 → Uint256) (tree : CPartialMerkleTree)

/-- Use a stored hash; one at a leaf with its bit set is a matched transaction. -/
def useHash (height : Nat) (fParentOfMatch : Bool) (cur : Cursor) : Uint256 × Cursor :=
  match tree.vHash[cur.nHashUsed]? with
  | none => (0, { cur with fBad := true })
  | some hash =>
    (hash, { cur with
      nHashUsed := cur.nHashUsed + 1
      vMatch := if height = 0 ∧ fParentOfMatch = true then cur.vMatch ++ [hash] else cur.vMatch })

def traverseAndExtract : Nat → Nat → Cursor → Uint256 × Cursor
  | 0, _, cur =>
    match tree.vBits[cur.nBitsUsed]? with
    | none => (0, { cur with fBad := true })
    | some fParentOfMatch => useHash tree 0 fParentOfMatch { cur with nBitsUsed := cur.nBitsUsed + 1 }
  | height + 1, pos, cur =>
    match tree.vBits[cur.nBitsUsed]? with
    | none => (0, { cur with fBad := true })
    | some fParentOfMatch =>
      let cur := { cur with nBitsUsed := cur.nBitsUsed + 1 }
      if fParentOfMatch = false then useHash tree (height + 1) fParentOfMatch cur
      else
        let (left, cur) := traverseAndExtract height (pos * 2) cur
        if pos * 2 + 1 < calcTreeWidth tree.nTransactions height then
          let (right, cur) := traverseAndExtract height (pos * 2 + 1) cur
          (hashPair left right, cur)
        else (hashPair left left, cur)

/-- **`ExtractMatches`**: the root, zero after a failure, and the matched transactions. -/
def extractMatches : Uint256 × List Uint256 :=
  if tree.nTransactions = 0 ∨ MAX_BLOCK_SIZE / 60 < tree.nTransactions ∨ tree.nTransactions < tree.vHash.length ∨
      tree.vBits.length < tree.vHash.length then (0, [])
  else
    let (hashMerkleRoot, cur) := traverseAndExtract hashPair tree (nHeight tree.nTransactions) 0 ⟨0, 0, [], tree.fBad⟩
    if cur.fBad = true ∨ (cur.nBitsUsed + 7) / 8 ≠ (tree.vBits.length + 7) / 8 ∨ cur.nHashUsed ≠ tree.vHash.length then
      (0, cur.vMatch)
    else (hashMerkleRoot, cur.vMatch)

/-! ### The same with its reads written out -/

/-- A read beyond the end of a vector. -/
inductive ReadFault where
  | outOfRange
deriving DecidableEq, Repr

def useHashAccesses (height : Nat) (fParentOfMatch : Bool) (cur : Cursor) : Except ReadFault (Uint256 × Cursor) :=
  if tree.vHash.length ≤ cur.nHashUsed then .ok (0, { cur with fBad := true })
  else do
    let hash ← Access.element .outOfRange tree.vHash cur.nHashUsed
    .ok (hash, { cur with
      nHashUsed := cur.nHashUsed + 1
      vMatch := if height = 0 ∧ fParentOfMatch = true then cur.vMatch ++ [hash] else cur.vMatch })

def traverseAndExtractAccesses : Nat → Nat → Cursor → Except ReadFault (Uint256 × Cursor)
  | 0, _, cur =>
    if tree.vBits.length ≤ cur.nBitsUsed then .ok (0, { cur with fBad := true })
    else do
      let fParentOfMatch ← Access.element .outOfRange tree.vBits cur.nBitsUsed
      useHashAccesses tree 0 fParentOfMatch { cur with nBitsUsed := cur.nBitsUsed + 1 }
  | height + 1, pos, cur =>
    if tree.vBits.length ≤ cur.nBitsUsed then .ok (0, { cur with fBad := true })
    else do
      let fParentOfMatch ← Access.element .outOfRange tree.vBits cur.nBitsUsed
      let cur := { cur with nBitsUsed := cur.nBitsUsed + 1 }
      if fParentOfMatch = false then useHashAccesses tree (height + 1) fParentOfMatch cur
      else do
        let (left, cur) ← traverseAndExtractAccesses height (pos * 2) cur
        if pos * 2 + 1 < calcTreeWidth tree.nTransactions height then do
          let (right, cur) ← traverseAndExtractAccesses height (pos * 2 + 1) cur
          .ok (hashPair left right, cur)
        else .ok (hashPair left left, cur)

def extractMatchesAccesses : Except ReadFault (Uint256 × List Uint256) :=
  if tree.nTransactions = 0 ∨ MAX_BLOCK_SIZE / 60 < tree.nTransactions ∨ tree.nTransactions < tree.vHash.length ∨
      tree.vBits.length < tree.vHash.length then .ok (0, [])
  else do
    let (hashMerkleRoot, cur) ←
      traverseAndExtractAccesses hashPair tree (nHeight tree.nTransactions) 0 ⟨0, 0, [], tree.fBad⟩
    if cur.fBad = true ∨ (cur.nBitsUsed + 7) / 8 ≠ (tree.vBits.length + 7) / 8 ∨ cur.nHashUsed ≠ tree.vHash.length then
      .ok (0, cur.vMatch)
    else .ok (hashMerkleRoot, cur.vMatch)

end Extract

end CPartialMerkleTree

end Syscoin

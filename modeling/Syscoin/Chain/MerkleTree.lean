import Syscoin.Network.AuxPow

/-!
# `Chain.MerkleTree` — the tree of a block in one array

`BuildMerkleTree` keeps the hashes of all levels in `vMerkleTree`, one level behind the other; `j` is where the level at
hand begins. `GetMerkleBranch` reads the sibling of each node on the way to the root out of that array, which it builds
if there is none yet.
-/

namespace Syscoin

open Lib

section Tree

variable (env : Env)

/-- The inner loop of `BuildMerkleTree`: one node for every two of the level that begins at `j`. -/
def pushLevel (j nSize : Nat) (vMerkleTree : List Uint256) : List Uint256 :=
  (List.range ((nSize + 1) / 2)).foldl (fun vMerkleTree k =>
    let i := 2 * k
    let i2 := min (i + 1) (nSize - 1)
    vMerkleTree ++ [env.hashPair (vMerkleTree.getD (j + i) 0) (vMerkleTree.getD (j + i2) 0)]) vMerkleTree

/-- The outer loop. A level is at most as long as the one before, so that the number of transactions is fuel enough. -/
def pushLevels : Nat → Nat → Nat → List Uint256 → List Uint256
  | 0, _, _, vMerkleTree => vMerkleTree
  | fuel + 1, j, nSize, vMerkleTree =>
    if 1 < nSize then pushLevels fuel (j + nSize) ((nSize + 1) / 2) (pushLevel env j nSize vMerkleTree) else vMerkleTree

/-- The array that `BuildMerkleTree` leaves in the block. -/
def CBlock.vMerkleTree (block : CBlock) : List Uint256 :=
  pushLevels env block.vtx.length 0 block.vtx.length (block.vtx.map env.getHash)

/-- The loop of `GetMerkleBranch`. -/
def readBranch (vMerkleTree : List Uint256) : Nat → Nat → Nat → Nat → List Uint256
  | 0, _, _, _ => []
  | fuel + 1, j, nSize, nIndex =>
    if 1 < nSize then
      vMerkleTree.getD (j + min (nIndex ^^^ 1) (nSize - 1)) 0 ::
        readBranch vMerkleTree fuel (j + nSize) ((nSize + 1) / 2) (nIndex / 2)
    else []

/-- **`GetMerkleBranch`**, of a block that holds the array `vMerkleTree`. -/
def CBlock.getMerkleBranch (block : CBlock) (vMerkleTree : List Uint256) (nIndex : Nat) : List Uint256 :=
  let vMerkleTree := if vMerkleTree = [] then block.vMerkleTree env else vMerkleTree
  readBranch vMerkleTree block.vtx.length 0 block.vtx.length nIndex

end Tree

end Syscoin

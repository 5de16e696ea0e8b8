import Syscoin.Chain.Linkage
import Syscoin.Lib.Sparse

/-!
# `Chain.Locator` — `CBlockLocator`

A locator tells another node where a block is: the hashes of the block and of ancestors of it, the last of them always
that of the genesis block. The other node looks for the first one that it has on its main chain.
-/

namespace Syscoin

open Lib

/-- `vHave`. -/
structure CBlockLocator where
  vHave : List Uint256
deriving DecidableEq, Repr

namespace CBlockLocator

/-- The loop of `Set`: push a hash, and go `nStep` blocks down. -/
def pushDown (env : Env) (nStep : Nat) (hstep : 0 < nStep) (vHave : List Uint256) (pindex : CBlockIndex) :
    List Uint256 :=
  let vHave := vHave ++ [env.getBlockHash pindex.block]
  match _h : CBlockIndex.forest.back nStep pindex with
  | none => vHave
  | some pindex =>
    -- `if (vHave.size() > 10) nStep *= 2;`
    pushDown env (Forest.stride 10 nStep vHave.length) (Forest.stride_pos hstep) vHave pindex
termination_by CBlockIndex.forest.height pindex
decreasing_by
  have hheight := (Forest.back_eq_some _h).1
  omega

/-- **`Set`.** A null pointer stands for no block. -/
def set (env : Env) (pindex : Option CBlockIndex) : CBlockLocator where
  vHave :=
    (match pindex with
      | none => []
      | some pindex => pushDown env 1 Nat.one_pos [] pindex) ++ [env.hashGenesisBlock]

/-- **`GetBlockIndex`**: the first block the caller has in the main chain. -/
def getBlockIndex (mapBlockIndex : Uint256 → Option CBlockIndex) (st : ChainState) (locator : CBlockLocator) :
    Option CBlockIndex :=
  match locator.vHave.findSome? fun hash => (mapBlockIndex hash).filter fun pindex => st.isInMainChain pindex with
  | some pindex => some pindex
  | none => st.pindexGenesisBlock

/-- The loop pushes the hashes of a sparse list. -/
theorem pushDown_eq (env : Env) {nStep : Nat} {hstep : 0 < nStep} {vHave : List Uint256} {pindex : CBlockIndex} :
    pushDown env nStep hstep vHave pindex =
      vHave ++ (CBlockIndex.forest.sparse 10 nStep hstep vHave.length pindex).map (env.getBlockHash ·.block) := by
  fun_induction pushDown env nStep hstep vHave pindex with
  | case1 nStep hstep vHave pindex vHave' hback =>
    rw [Forest.sparse_of_none hback, List.map_singleton]
  | case2 nStep hstep vHave pindex vHave' next hback ih =>
    have hlen : vHave'.length = vHave.length + 1 := by simp [vHave']
    rw [Forest.sparse_of_some hback, ih, List.map_cons]
    simp only [hlen]
    simp [vHave']

end CBlockLocator

/-! ## What a locator is answered -/

namespace ChainState

/-- The loop of `getblocks`, from a block on: the blocks whose hashes are pushed, and the one for `hashContinue`. -/
def pushBlocks (env : Env) (st : ChainState) (hashStop : Uint256) :
    Nat → Option CBlockIndex → List CBlockIndex × Option CBlockIndex
  | 0, _ => ([], none)
  | _ + 1, none => ([], none)
  | nLimit + 1, some pindex =>
    if env.getBlockHash pindex.block = hashStop then ([], none)
    -- `if (--nLimit <= 0)`
    else if nLimit = 0 then ([pindex], some pindex)
    else
      let (pushed, hashContinue) := pushBlocks env st hashStop nLimit (st.pnext pindex)
      (pindex :: pushed, hashContinue)

/-- **`getblocks`**, on the main chain as it is. -/
def getblocks (env : Env) (mapBlockIndex : Uint256 → Option CBlockIndex) (st : ChainState) (locator : CBlockLocator)
    (hashStop : Uint256) : List CBlockIndex × Option CBlockIndex :=
  pushBlocks env st hashStop 500 ((locator.getBlockIndex mapBlockIndex st).bind st.pnext)

/-- The loop of `getheaders`, which stops behind the block with the hash `hashStop`. -/
def pushHeaders (env : Env) (st : ChainState) (hashStop : Uint256) : Nat → Option CBlockIndex → List CBlockIndex
  | 0, _ => []
  | _ + 1, none => []
  | nLimit + 1, some pindex =>
    if nLimit = 0 ∨ env.getBlockHash pindex.block = hashStop then [pindex]
    else pindex :: pushHeaders env st hashStop nLimit (st.pnext pindex)

/-- **`getheaders`**: the blocks whose headers are sent. "If locator is null, return the hashStop block"; there is no
    answer when that is not known. -/
def getheaders (env : Env) (mapBlockIndex : Uint256 → Option CBlockIndex) (st : ChainState) (locator : CBlockLocator)
    (hashStop : Uint256) : Option (List CBlockIndex) :=
  if locator.vHave = [] then (mapBlockIndex hashStop).map fun pindex => pushHeaders env st hashStop 2000 (some pindex)
  else some (pushHeaders env st hashStop 2000 ((locator.getBlockIndex mapBlockIndex st).bind st.pnext))

end ChainState

/-- `mapBlockIndex` finds the blocks of the tree by their hashes. -/
def MapBlockIndex.FoundBy {env : Env} (tree : MapBlockIndex env) (mapBlockIndex : Uint256 → Option CBlockIndex) : Prop :=
  ∀ hash pindex, mapBlockIndex hash = some pindex ↔ pindex ∈ tree.entries ∧ env.getBlockHash pindex.block = hash

end Syscoin

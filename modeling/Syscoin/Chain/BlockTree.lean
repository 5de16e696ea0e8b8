import Syscoin.Chain.Run

/-!
# `Chain.BlockTree` — `ConnectBestBlock` and `AddToBlockIndex`

The node knows more blocks than those of its best chain. `mapBlockIndex` holds all of them, `setBlockIndexValid`
the ones that may still become the tip, and the two failure marks say why a block is no longer among them:
`failedValid` for a block that did not connect, `failedChild` for a block above one.

A block is marked only if the `CValidationState` was left invalid by the call of `ConnectBlock` that failed.
`Attempt` is one such call; the `…Attempts` functions list the calls that a routine makes, in order.
-/

namespace Syscoin

open Lib

/-! ## The fork, once more -/

section Fork

variable {block : CBlock} {ancestors : List CBlock} {pindex pfork : CBlockIndex}

theorem mem_lineage_self (pindex : CBlockIndex) : pindex ∈ CBlockIndex.lineage pindex.block pindex.ancestors := by
  obtain ⟨block, ancestors⟩ := pindex
  cases ancestors with
  | nil => exact List.mem_cons_self
  | cons parent ancestors => exact List.mem_cons_self

theorem lineage_trans (h : pindex ∈ CBlockIndex.lineage block ancestors) :
    CBlockIndex.lineage pindex.block pindex.ancestors ⊆ CBlockIndex.lineage block ancestors := by
  induction ancestors generalizing block with
  | nil =>
    rw [CBlockIndex.lineage, List.mem_singleton] at h
    rw [h]
    exact List.Subset.refl _
  | cons parent ancestors ih =>
    rw [CBlockIndex.lineage, List.mem_cons] at h
    rcases h with rfl | h
    · exact List.Subset.refl _
    · exact fun q hq => List.mem_cons_of_mem _ (ih h hq)

/-- Only the top of a chain has its height. -/
theorem eq_of_mem_lineage (h : pindex ∈ CBlockIndex.lineage block ancestors)
    (hheight : pindex.nHeight = ancestors.length) : pindex = ⟨block, ancestors⟩ := by
  cases ancestors with
  | nil => rwa [CBlockIndex.lineage, List.mem_singleton] at h
  | cons parent ancestors =>
    rw [CBlockIndex.lineage, List.mem_cons] at h
    rcases h with h | h
    · exact h
    · have hle := nHeight_le_of_mem_lineage h
      rw [hheight, List.length_cons] at hle
      omega

theorem nHeight_descendTo_le (nHeight : Nat) (block : CBlock) (ancestors : List CBlock) :
    (CBlockIndex.descendTo nHeight block ancestors).nHeight ≤ nHeight := by
  induction ancestors generalizing block with
  | nil => exact Nat.zero_le _
  | cons parent ancestors ih =>
    unfold CBlockIndex.descendTo
    split
    · exact ih parent
    · rename_i hge
      simpa [CBlockIndex.nHeight] using hge

/-- Lowering the longer side loses nothing of the height asked for or below it. -/
theorem mem_lineage_descendTo {nHeight : Nat} (h : pindex ∈ CBlockIndex.lineage block ancestors)
    (hheight : pindex.nHeight ≤ nHeight) :
    pindex ∈ CBlockIndex.lineage (CBlockIndex.descendTo nHeight block ancestors).block
      (CBlockIndex.descendTo nHeight block ancestors).ancestors := by
  induction ancestors generalizing block with
  | nil => exact h
  | cons parent ancestors ih =>
    unfold CBlockIndex.descendTo
    split
    · rename_i hlt
      refine ih ?_
      rw [CBlockIndex.lineage, List.mem_cons] at h
      rcases h with rfl | h
      · simp only [CBlockIndex.nHeight, List.length_cons] at hheight
        omega
      · exact h
    · exact h

theorem descendTo_mem_lineage (nHeight : Nat) (block : CBlock) (ancestors : List CBlock) :
    CBlockIndex.descendTo nHeight block ancestors ∈ CBlockIndex.lineage block ancestors := by
  induction ancestors generalizing block with
  | nil => exact List.mem_cons_self
  | cons parent ancestors ih =>
    unfold CBlockIndex.descendTo
    split
    · exact List.mem_cons_of_mem _ (ih parent)
    · exact List.mem_cons_self

/-- What the fork search returns lies on the new chain as well. -/
theorem findFork_mem_longer {plonger : CBlockIndex} (h : plonger.findFork block ancestors = some pfork) :
    pfork ∈ CBlockIndex.lineage plonger.block plonger.ancestors := by
  induction ancestors generalizing plonger block with
  | nil =>
    unfold CBlockIndex.findFork at h
    split at h
    · rename_i heq
      rw [Option.some.injEq] at h
      rw [← h, ← heq]
      exact descendTo_mem_lineage _ _ _
    · cases h
  | cons parent ancestors ih =>
    unfold CBlockIndex.findFork at h
    dsimp only at h
    have hlow := descendTo_mem_lineage (ancestors.length + 1) plonger.block plonger.ancestors
    split at h
    · rw [Option.some.injEq] at h
      rw [← h]
      exact hlow
    · exact lineage_trans hlow (ih h)

/-- **The fork is the highest common block**: whatever lies on both chains lies at or below it. -/
theorem findFork_common {plonger : CBlockIndex} (h : plonger.findFork block ancestors = some pfork)
    (hbest : pindex ∈ CBlockIndex.lineage block ancestors)
    (hlonger : pindex ∈ CBlockIndex.lineage plonger.block plonger.ancestors) :
    pindex ∈ CBlockIndex.lineage pfork.block pfork.ancestors := by
  induction ancestors generalizing plonger block with
  | nil =>
    unfold CBlockIndex.findFork at h
    split at h
    · rw [Option.some.injEq] at h
      rw [← h]
      exact hbest
    · cases h
  | cons parent ancestors ih =>
    unfold CBlockIndex.findFork at h
    have hheight := nHeight_le_of_mem_lineage hbest
    have hlow := mem_lineage_descendTo hlonger hheight
    rw [List.length_cons] at hlow
    dsimp only at h
    split at h
    · rw [Option.some.injEq] at h
      rw [← h]
      exact hlow
    · rename_i hne
      refine ih h ?_ hlow
      -- a common block at this height would be where both sides stand
      rw [CBlockIndex.lineage, List.mem_cons] at hbest
      refine hbest.resolve_left fun htop => ?_
      have hle := nHeight_le_of_mem_lineage hlow
      have hd := nHeight_descendTo_le (ancestors.length + 1) plonger.block plonger.ancestors
      have hh : pindex.nHeight = ancestors.length + 1 := by rw [htop]; rfl
      rw [CBlockIndex.nHeight] at hd
      exact hne ((eq_of_mem_lineage hlow (by omega)).symm.trans htop)

/-- What lies above a block of the chain does not lie below it. -/
theorem downTo_above (hfork : pfork ∈ CBlockIndex.lineage block ancestors)
    (h : pindex ∈ (CBlockIndex.lineage block ancestors).takeWhile (· ≠ pfork)) :
    pindex ∉ CBlockIndex.lineage pfork.block pfork.ancestors := by
  induction ancestors generalizing block with
  | nil =>
    rw [CBlockIndex.lineage, List.mem_singleton] at hfork
    simp [CBlockIndex.lineage, hfork] at h
  | cons parent ancestors ih =>
    rw [CBlockIndex.lineage, List.takeWhile_cons] at h
    split at h
    · rename_i hne
      rw [CBlockIndex.lineage, List.mem_cons] at hfork
      have hfork := hfork.resolve_left fun heq => by simp [heq] at hne
      rcases List.mem_cons.mp h with rfl | h
      · intro hbelow
        have hlow := nHeight_le_of_mem_lineage hbelow
        have hf := nHeight_le_of_mem_lineage hfork
        simp only [CBlockIndex.nHeight, List.length_cons] at hlow hf
        omega
      · exact ih hfork h
    · simp at h

/-- What a call connects is on the new chain and not on the best one. -/
theorem mem_connectedBy {node : Node} {pindexNew : CBlockIndex} (h : pindex ∈ connectedBy node pindexNew) :
    pindex ∈ CBlockIndex.lineage pindexNew.block pindexNew.ancestors ∧
      pindex ∉ CBlockIndex.lineage node.pindexBest.block node.pindexBest.ancestors := by
  unfold connectedBy at h
  split at h
  · simp at h
  · rename_i pfork hfork
    rw [List.mem_reverse, CBlockIndex.downTo] at h
    have hnew := (List.takeWhile_sublist _).subset h
    refine ⟨hnew, fun hbest => ?_⟩
    have hcommon := findFork_common hfork hbest hnew
    exact downTo_above (findFork_mem_longer hfork) h hcommon

end Fork

/-! ## Work -/

/-- `SetCompact`: a size byte, a sign bit and 23 bits of mantissa. -/
def setCompact (nCompact : Nat) : Int :=
  let nSize := nCompact / 2 ^ 24
  let nWord := nCompact % 2 ^ 23
  let n : Nat := if nSize ≤ 3 then nWord / 2 ^ (8 * (3 - nSize)) else nWord * 2 ^ (8 * (nSize - 3))
  if nCompact / 2 ^ 23 % 2 = 1 then -n else n

def CBlock.getBlockWork (block : CBlock) : Nat :=
  let bnTarget := setCompact block.nBits
  if bnTarget ≤ 0 then 0 else 2 ^ 256 / (bnTarget.toNat + 1)

namespace CBlockIndex

/-- The work of the whole chain, in 256 bits. -/
def nChainWork (pindex : CBlockIndex) : Nat := (pindex.chain.map (·.getBlockWork)).sum % 2 ^ 256

/-- `CBlockIndexWorkComparator`: less work, or as much work and the larger hash. -/
def worksLess (env : Env) (pa pb : CBlockIndex) : Prop :=
  pa.nChainWork < pb.nChainWork ∨
    (pa.nChainWork = pb.nChainWork ∧ env.getBlockHash pb.block < env.getBlockHash pa.block)

instance (env : Env) (pa pb : CBlockIndex) : Decidable (worksLess env pa pb) :=
  inferInstanceAs (Decidable (_ ∨ _))

/-- `setBlockIndexValid.rbegin()`. -/
def mostWork (env : Env) : List CBlockIndex → Option CBlockIndex
  | [] => none
  | pindex :: rest =>
    match mostWork env rest with
    | none => some pindex
    | some other => if worksLess env pindex other then some other else some pindex

end CBlockIndex

/-! ## Calls of `ConnectBlock` -/

/-- A call of `ConnectBlock` from `SetBestChain`, with everything it depends on. -/
structure Attempt where
  pindexBest : CBlockIndex
  pindex : CBlockIndex
  nNow : Nat
  view : CoinsCache
  store : Store

/-- What the call returns. -/
def Attempt.result (env : Env) (a : Attempt) : Except Reject CoinsCache :=
  (connectBlock env false a.pindexBest a.pindex a.nNow a.view a.store).1

/-- The calls made while connecting a branch, the one it fails at included. -/
def connectAttempts (env : Env) (amb : Ambient) (pindexBest : CBlockIndex) :
    List CBlockIndex → CoinsCache → Store → List Attempt
  | [], _, _ => []
  | pindex :: vConnect, view, s =>
    ⟨pindexBest, pindex, amb.nNow, view, s⟩ ::
      match connectBlock env false pindexBest pindex amb.nNow view s with
      | (.error _, _) => []
      | (.ok view, s) => connectAttempts env amb pindexBest vConnect view s

/-- The calls made by one `SetBestChain`. -/
def callAttempts (env : Env) (amb : Ambient) (pindexNew : CBlockIndex) (node : Node) : List Attempt :=
  match disconnectAll env (disconnectedBy node pindexNew) ⟨node.coinsTip, some node.pindexBest⟩ node.store with
  | (.error _, _) => []
  | (.ok view, s) => connectAttempts env amb node.pindexBest (connectedBy node pindexNew) view s

/-- The block that did not connect, and why. -/
def firstFailure (env : Env) : List Attempt → Option (CBlockIndex × Reject)
  | [] => none
  | a :: rest =>
    match a.result env with
    | .error e => some (a.pindex, e)
    | .ok _ => firstFailure env rest

/-- `state.IsInvalid()` after a rejection: `Invalid` and `DoS` record it, a bare `return false` does not. -/
def Fault.isInvalid : Fault → Bool
  | .invalid => true
  | .dos _ => true
  | .silent => false
  | .crash => false

/-! ## The tree -/

structure BlockTree where
  node : Node
  mapBlockIndex : List CBlockIndex
  setBlockIndexValid : List CBlockIndex
  failedValid : List CBlockIndex
  failedChild : List CBlockIndex

namespace BlockTree

/-- `nStatus & BLOCK_FAILED_MASK`. -/
def failed (tree : BlockTree) (pindex : CBlockIndex) : Prop :=
  pindex ∈ tree.failedValid ∨ pindex ∈ tree.failedChild

instance (tree : BlockTree) (pindex : CBlockIndex) : Decidable (tree.failed pindex) :=
  inferInstanceAs (Decidable (_ ∨ _))

/-- `pnext != NULL`: the entry is on the best chain, below its tip. -/
def hasNext (tree : BlockTree) (pindex : CBlockIndex) : Prop :=
  pindex ∈ (CBlockIndex.lineage tree.node.pindexBest.block tree.node.pindexBest.ancestors).tail

instance (tree : BlockTree) (pindex : CBlockIndex) : Decidable (tree.hasNext pindex) :=
  inferInstanceAs (Decidable (_ ∈ _))

/-- `InvalidBlockFound`. The block is not on the best chain, so the reorganisation away from it is not entered. -/
def invalidBlockFound (tree : BlockTree) (pindex : CBlockIndex) : BlockTree :=
  { tree with
    failedValid := pindex :: tree.failedValid
    setBlockIndexValid := tree.setBlockIndexValid.filter (· ≠ pindex) }

/-- The loop under `mark descendants failed`. -/
def markFailedChild (tree : BlockTree) (above : List CBlockIndex) : BlockTree :=
  { tree with
    failedChild := above ++ tree.failedChild
    setBlockIndexValid := tree.setBlockIndexValid.filter (· ∉ above) }

/-- **`SetBestChain`** with its effect on the marks. -/
def setBestChain (env : Env) (amb : Ambient) (pindexNew : CBlockIndex) : Proc BlockTree Reject Unit := fun tree =>
  let (result, node) := Syscoin.setBestChain env amb pindexNew tree.node
  match firstFailure env (callAttempts env amb pindexNew tree.node) with
  | none => (result, { tree with node := node })
  | some (pindex, e) =>
    if e.fault.isInvalid then (result, { tree with node := node }.invalidBlockFound pindex)
    else (result, { tree with node := node })

/-! ## `ConnectBestBlock` -/

/-- What the ancestry check comes to: whether it met a failed block, and the blocks it passed before it stopped. -/
structure Walk where
  fFailed : Bool
  passed : List CBlockIndex

/-- The walk along `pprev`. It stops at a failed block, at the root or at a block of the best chain. -/
def checkAncestry (tree : BlockTree) : CBlock → List CBlock → Walk
  | block, [] => if tree.failed ⟨block, []⟩ then ⟨true, []⟩ else ⟨false, [⟨block, []⟩]⟩
  | block, parent :: ancestors =>
    let pindexTest : CBlockIndex := ⟨block, parent :: ancestors⟩
    if tree.failed pindexTest then ⟨true, []⟩
    else if tree.hasNext pindexTest then ⟨false, [pindexTest]⟩
    else
      let below := tree.checkAncestry parent ancestors
      ⟨below.fFailed, pindexTest :: below.passed⟩

/-- `vAttach`: of the blocks passed, those with more work than the best one, lowest first. -/
def vAttach (tree : BlockTree) (walk : Walk) : List CBlockIndex :=
  (walk.passed.filter fun pindex => tree.node.pindexBest.nChainWork < pindex.nChainWork).reverse

/-- The rounds of `ConnectBestBlock` up to the one that returns, each of which marks and drops a candidate: the
    tree then, and the blocks to switch to. The loop has no bound of its own, so it may run out of the rounds it
    is given here. -/
def settle (env : Env) : Nat → BlockTree → Option (BlockTree × List CBlockIndex)
  | 0, _ => none
  | rounds + 1, tree =>
    match CBlockIndex.mostWork env tree.setBlockIndexValid with
    | none => some (tree, [])
    | some pindexNewBest =>
      if pindexNewBest = tree.node.pindexBest ∨ pindexNewBest.nChainWork = tree.node.pindexBest.nChainWork then
        some (tree, [])
      else
        let walk := tree.checkAncestry pindexNewBest.block pindexNewBest.ancestors
        if walk.fFailed then settle env rounds (tree.markFailedChild walk.passed)
        else some (tree, tree.vAttach walk)

/-- The loop over `vAttach`. Each call of `SetBestChain` has surroundings of its own. -/
def switchTo (env : Env) (amb : CBlockIndex → Ambient) (vAttach : List CBlockIndex) : Proc BlockTree Reject Unit :=
  Proc.foldM (fun _ pindexSwitch => setBestChain env (amb pindexSwitch) pindexSwitch) vAttach ()

/-- The calls of `ConnectBlock` that the loop makes. -/
def switchAttempts (env : Env) (amb : CBlockIndex → Ambient) : List CBlockIndex → BlockTree → List Attempt
  | [], _ => []
  | pindexSwitch :: vAttach, tree =>
    callAttempts env (amb pindexSwitch) pindexSwitch tree.node ++
      match setBestChain env (amb pindexSwitch) pindexSwitch tree with
      | (.error _, _) => []
      | (.ok _, tree) => switchAttempts env amb vAttach tree

/-- As many rounds as there are candidates are enough, and one for the round that returns. -/
def settled (env : Env) (tree : BlockTree) : Option (BlockTree × List CBlockIndex) :=
  tree.settle env (tree.setBlockIndexValid.length + 1)

/-- **`ConnectBestBlock`.** -/
def connectBestBlock (env : Env) (amb : CBlockIndex → Ambient) : Proc BlockTree Reject Unit := fun tree =>
  match tree.settled env with
  | none => (.error (crash "do { ... } while (true)"), tree)
  | some (tree, vAttach) => switchTo env amb vAttach tree

/-! ## `AddToBlockIndex` -/

/-- `mapBlockIndex.find(hash)`. -/
def find (env : Env) (tree : BlockTree) (hash : Uint256) : Option CBlockIndex :=
  tree.mapBlockIndex.find? fun pindex => env.getBlockHash pindex.block = hash

/-- The entry of a new block: on top of its parent, or a root when the parent is not known. -/
def newIndex (env : Env) (tree : BlockTree) (block : CBlock) : CBlockIndex where
  block := block
  ancestors := ((tree.find env block.hashPrevBlock).map (·.chain)).getD []

def insert (env : Env) (tree : BlockTree) (block : CBlock) : BlockTree :=
  { tree with
    mapBlockIndex := tree.newIndex env block :: tree.mapBlockIndex
    setBlockIndexValid := tree.newIndex env block :: tree.setBlockIndexValid }

/-- **`AddToBlockIndex`.** -/
def addToBlockIndex (env : Env) (amb : CBlockIndex → Ambient) (block : CBlock) : Proc BlockTree Reject Unit :=
  fun tree =>
    if (tree.find env (env.getBlockHash block)).isSome then
      (.error (invalid "AddToBlockIndex() : %s already exists"), tree)
    else connectBestBlock env amb (tree.insert env block)

/-- The calls of `ConnectBlock` that an `AddToBlockIndex` leads to. -/
def addAttempts (env : Env) (amb : CBlockIndex → Ambient) (block : CBlock) (tree : BlockTree) : List Attempt :=
  if (tree.find env (env.getBlockHash block)).isSome then []
  else
    match (tree.insert env block).settled env with
    | none => []
    | some (tree, vAttach) => switchAttempts env amb vAttach tree

/-- The tree that has only the genesis block. -/
def init (genesis : CBlock) : BlockTree := ⟨Node.init genesis, [⟨genesis, []⟩], [⟨genesis, []⟩], [], []⟩

end BlockTree

/-! ## Runs -/

/-- The blocks that some of the calls found unconnectable. A call that stops the program finds nothing. -/
def rejectedBy (env : Env) (attempts : List Attempt) : List CBlockIndex :=
  (attempts.filter fun a => match a.result env with
    | .error e => e.fault ≠ .crash
    | .ok _ => false).map (·.pindex)

/-- `tree` is reached from the genesis block by calls of `AddToBlockIndex`, whether they return true or false;
    `rejected` are the blocks found unconnectable on the way, and every call of `ConnectBlock` met `C`. -/
inductive TreeRun (env : Env) (C : Attempt → Prop) (genesis : CBlock) : List CBlockIndex → BlockTree → Prop where
  | init : TreeRun env C genesis [] (BlockTree.init genesis)
  | add {rejected : List CBlockIndex} {tree tree' : BlockTree} {amb : CBlockIndex → Ambient} {block : CBlock}
      {result : Except Reject Unit} (run : TreeRun env C genesis rejected tree)
      (added : BlockTree.addToBlockIndex env amb block tree = (result, tree'))
      (alive : ∀ e, result = .error e → e.fault ≠ .crash)
      (meets : ∀ a ∈ BlockTree.addAttempts env amb block tree, C a) :
      TreeRun env C genesis (rejectedBy env (BlockTree.addAttempts env amb block tree) ++ rejected) tree'

end Syscoin

import Syscoin.Chain.Miner
import Syscoin.Chain.Work

/-!
# `Chain.ProcessBlock` — a block arrives: `AcceptBlock`, `ProcessBlock` and the orphan blocks

A block whose parent is not known is kept aside, in two maps: `mapOrphanBlocks` under its own hash,
`mapOrphanBlocksByPrev` under the hash of its parent. When a block is accepted, `ProcessBlock` goes through the orphans
on top of it, and on top of these, with a work queue.

`AcceptCall` is a call of `AcceptBlock`, with the state it finds; the `…Calls` functions list those that a routine makes,
in order.
-/

namespace Syscoin

open Lib

def INT_MAX : Nat := 2 ^ 31 - 1

/-! ## `AcceptBlock` -/

/-- What a call of `AcceptBlock` depends on besides the node: the adjusted time, whether there is room for the block on
    disk and it is written, whether its index entry is written and the index flushed, and the surroundings of the calls
    of `SetBestChain`. -/
structure AcceptAmbient where
  nNow : Nat
  fPosFound : Bool
  fWritten : Bool
  fIndexWritten : Bool
  fFlushed : Bool
  amb : CBlockIndex → Ambient

section AcceptBlock

variable (env : Env) (horizon : EventHorizon) (fCheckpoints : Bool) (a : AcceptAmbient) (dbp : Bool) (block : CBlock)

/-- **`AddToBlockIndex`** with its writes. An abort is an error that shuts the node down as well. -/
def addToBlockIndex : Proc BlockTree Reject Unit := fun tree =>
  if (tree.find env (env.getBlockHash block)).isSome then
    (.error (invalid "AddToBlockIndex() : %s already exists"), tree)
  else if a.fIndexWritten = false then (.error (error "Failed to write block index"), tree.insert env block)
  else
    match BlockTree.connectBestBlock env a.amb (tree.insert env block) with
    | (.error e, tree) => (.error e, tree)
    | (.ok _, tree) =>
      if a.fFlushed = false then (.error (error "Failed to sync block index"), tree) else (.ok (), tree)

/-- The checks of `AcceptBlock`. All but the first pass over the genesis block. -/
def acceptChecks (tree : BlockTree) : Except Reject Unit := do
  let hash := env.getBlockHash block
  require ((tree.find env hash).isNone = true) (invalid "AcceptBlock() : block already in mapBlockIndex")
  if hash = env.hashGenesisBlock then .ok ()
  else
    match tree.find env block.hashPrevBlock with
    | none => .error (DoS 10 "AcceptBlock() : prev block not found")
    | some pindexPrev => do
      let nHeight := pindexPrev.nHeight + 1
      require (block.nBits = getNextWorkRequired env horizon pindexPrev)
        (DoS 100 "AcceptBlock() : incorrect proof of work")
      require (pindexPrev.getMedianTimePast < block.nTime) (invalid "AcceptBlock() : block's timestamp is too early")
      -- a block time of zero stands for the adjusted time
      require (∀ tx ∈ block.vtx, tx.isFinal nHeight (if block.nTime = 0 then a.nNow else block.nTime))
        (DoS 10 "AcceptBlock() : contains a non-final transaction")
      require (Checkpoints.checkBlock env fCheckpoints nHeight hash)
        (DoS 100 "AcceptBlock() : rejected by checkpoint lock-in at %d")
      require (∀ pcheckpoint ∈ Checkpoints.getLastCheckpoint env fCheckpoints tree, pcheckpoint.nHeight ≤ nHeight)
        (DoS 100 "AcceptBlock() : forked chain older than last checkpoint (height %d)")

/-- **`CBlock::AcceptBlock`.** A block that comes with its position on disk, `dbp`, is not written again. -/
def acceptBlock : Proc BlockTree Reject Unit := fun tree =>
  match acceptChecks env horizon fCheckpoints a block tree with
  | .error e => (.error e, tree)
  | .ok _ =>
    if a.fPosFound = false then (.error (error "AcceptBlock() : FindBlockPos failed"), tree)
    else if dbp = false ∧ a.fWritten = false then (.error (error "Failed to write block"), tree)
    else addToBlockIndex env a block tree

end AcceptBlock

/-! ## The node with its orphans -/

/-- A map and a multimap of `CBlock*`, as lists of their entries; the multimap keeps those of one key in the order in
    which they came. -/
structure BlockNode where
  tree : BlockTree
  mapOrphanBlocks : List (Uint256 × CBlock)
  mapOrphanBlocksByPrev : List (Uint256 × CBlock)

/-- A call of `ProcessBlock`: whether there is a peer to ask for parents, whether the block has its position on disk, the
    adjusted time, and what each call of `AcceptBlock` depends on. No block is tried twice in a call. -/
structure BlockCall where
  pfrom : Bool
  dbp : Bool
  nNow : Nat
  accept : CBlock → AcceptAmbient

namespace BlockNode

def hasOrphan (hash : Uint256) (node : BlockNode) : Prop := ∃ entry ∈ node.mapOrphanBlocks, entry.1 = hash

instance (hash : Uint256) (node : BlockNode) : Decidable (node.hasOrphan hash) :=
  inferInstanceAs (Decidable (∃ _ ∈ _, _))

/-- The orphans from `lower_bound` to `upper_bound`. -/
def orphansOf (hashPrev : Uint256) (node : BlockNode) : List CBlock :=
  (node.mapOrphanBlocksByPrev.filter (·.1 = hashPrev)).map (·.2)

/-- `mapOrphanBlocks.erase` -/
def eraseOrphan (hash : Uint256) (node : BlockNode) : BlockNode :=
  { node with mapOrphanBlocks := node.mapOrphanBlocks.filter (·.1 ≠ hash) }

/-- `mapOrphanBlocksByPrev.erase` -/
def eraseByPrev (hashPrev : Uint256) (node : BlockNode) : BlockNode :=
  { node with mapOrphanBlocksByPrev := node.mapOrphanBlocksByPrev.filter (·.1 ≠ hashPrev) }

/-- The branch of a block without a parent, where there is a peer. -/
def addOrphan (hash : Uint256) (pblock : CBlock) (node : BlockNode) : BlockNode :=
  { node with
    mapOrphanBlocks := node.mapOrphanBlocks ++ [(hash, pblock)]
    mapOrphanBlocksByPrev := node.mapOrphanBlocksByPrev ++ [(pblock.hashPrevBlock, pblock)] }

end BlockNode

/-! ## The work queue -/

section Queue

variable (env : Env) (horizon : EventHorizon) (fCheckpoints : Bool) (call : BlockCall)

/-- The body of the inner loop. What `AcceptBlock` says is dropped, unless it stopped the program. -/
def acceptOrphan (vWorkQueue : List Uint256) (pblockOrphan : CBlock) : Proc BlockNode Reject (List Uint256) :=
  fun node =>
    let hash := env.getBlockHash pblockOrphan
    match acceptBlock env horizon fCheckpoints (call.accept pblockOrphan) false pblockOrphan node.tree with
    | (.ok _, tree) => (.ok (vWorkQueue ++ [hash]), { node with tree := tree }.eraseOrphan hash)
    | (.error e, tree) =>
      if e.fault = .crash then (.error e, { node with tree := tree })
      else (.ok vWorkQueue, { node with tree := tree }.eraseOrphan hash)

/-- The outer loop, on what is left of the work queue. `fuel` bounds the number of rounds. -/
def acceptOrphans : Nat → List Uint256 → Proc BlockNode Reject Unit
  | 0, _ => pure ()
  | _ + 1, [] => pure ()
  | fuel + 1, hashPrev :: vWorkQueue => fun node =>
    match Proc.foldM (acceptOrphan env horizon fCheckpoints call) (node.orphansOf hashPrev) vWorkQueue node with
    | (.error e, node) => (.error e, node)
    | (.ok vWorkQueue, node) => acceptOrphans fuel vWorkQueue (node.eraseByPrev hashPrev)

end Queue

/-! ## `ProcessBlock` -/

section ProcessBlock

variable (env : Env) (horizon : EventHorizon) (fCheckpoints : Bool) (call : BlockCall) (pblock : CBlock)

/-- `CheckBlock(state, NULL)`: without an index entry, the proof of work is checked at height `INT_MAX`. -/
def checkReceived (nNow : Nat) : Except Reject Unit :=
  checkBlock { env with checkProofOfWork := fun block _ => env.checkProofOfWork block INT_MAX } nNow ⟨pblock, []⟩
    true true

/-- The extra checks of a block that is not on top of the best chain. -/
def checkMinWork (tree : BlockTree) : Except Reject Unit :=
  match Checkpoints.getLastCheckpoint env fCheckpoints tree with
  | none => .ok ()
  | some pcheckpoint =>
    if pblock.hashPrevBlock = env.getBlockHash tree.node.pindexBest.block then .ok ()
    else do
      let deltaTime : Int := (pblock.nTime : Int) - pcheckpoint.nTime
      require (0 ≤ deltaTime) (DoS 100 "ProcessBlock() : block with timestamp before last checkpoint")
      require (setCompact pblock.nBits ≤ setCompact (computeMinWork env pcheckpoint.block.nBits deltaTime))
        (DoS 100 "ProcessBlock() : block with too little proof-of-work")

/-- The block is in the index, or one of the orphans. -/
def BlockNode.knows (hash : Uint256) (node : BlockNode) : Prop :=
  (node.tree.find env hash).isSome = true ∨ node.hasOrphan hash

instance (hash : Uint256) (node : BlockNode) : Decidable (node.knows env hash) := inferInstanceAs (Decidable (_ ∨ _))

/-- **`ProcessBlock`.** A check that another routine made leaves its mark in the validation state, under a text of the
    caller's. -/
def processBlock : Proc BlockNode Reject Unit := fun node =>
  let hash := env.getBlockHash pblock
  if (node.tree.find env hash).isSome = true then (.error (invalid "ProcessBlock() : already have block %d %s"), node)
  else if node.hasOrphan hash then (.error (invalid "ProcessBlock() : already have block (orphan) %s"), node)
  else
    match checkReceived env pblock call.nNow with
    | .error e => (.error { e with text := "ProcessBlock() : CheckBlock FAILED" }, node)
    | .ok _ =>
      match checkMinWork env fCheckpoints pblock node.tree with
      | .error e => (.error e, node)
      | .ok _ =>
        if pblock.hashPrevBlock ≠ 0 ∧ (node.tree.find env pblock.hashPrevBlock).isNone = true then
          (.ok (), if call.pfrom then node.addOrphan hash pblock else node)
        else
          match acceptBlock env horizon fCheckpoints (call.accept pblock) call.dbp pblock node.tree with
          | (.error e, tree) =>
            (.error { e with text := "ProcessBlock() : AcceptBlock FAILED" }, { node with tree := tree })
          | (.ok _, tree) =>
            acceptOrphans env horizon fCheckpoints call (node.mapOrphanBlocksByPrev.length + 2) [hash]
              { node with tree := tree }

end ProcessBlock

/-! ## The calls of `AcceptBlock` -/

/-- A call of `AcceptBlock`, with the state it finds. -/
structure AcceptCall where
  block : CBlock
  dbp : Bool
  ambient : AcceptAmbient
  node : BlockNode

section Calls

variable (env : Env) (horizon : EventHorizon) (fCheckpoints : Bool) (call : BlockCall)

namespace AcceptCall

/-- The block passes the checks and is on disk, so that `AddToBlockIndex` puts it into the index. -/
def Inserts (c : AcceptCall) : Prop :=
  acceptChecks env horizon fCheckpoints c.ambient c.block c.node.tree = .ok () ∧ c.ambient.fPosFound = true ∧
    (c.dbp = true ∨ c.ambient.fWritten = true)

instance (c : AcceptCall) : Decidable (c.Inserts env horizon fCheckpoints) :=
  inferInstanceAs (Decidable (_ ∧ _ ∧ (_ ∨ _)))

/-- What `AddToBlockIndex` does after that succeeds. -/
def Completes (c : AcceptCall) : Prop :=
  c.ambient.fIndexWritten = true ∧
    (BlockTree.connectBestBlock env c.ambient.amb (c.node.tree.insert env c.block)).1 = .ok () ∧
    c.ambient.fFlushed = true

instance (c : AcceptCall) : Decidable (c.Completes env) := inferInstanceAs (Decidable (_ ∧ _ ∧ _))

/-- Some orphan waits for the block. -/
def Awaited (c : AcceptCall) : Prop := ∃ entry ∈ c.node.mapOrphanBlocksByPrev, entry.1 = env.getBlockHash c.block

end AcceptCall

/-- The calls of a pass over some orphans. -/
def orphanCalls : List CBlock → BlockNode → List AcceptCall
  | [], _ => []
  | pblockOrphan :: orphans, node =>
    ⟨pblockOrphan, false, call.accept pblockOrphan, node⟩ ::
      match acceptOrphan env horizon fCheckpoints call [] pblockOrphan node with
      | (.error _, _) => []
      | (.ok _, node) => orphanCalls orphans node

/-- The calls of the rounds of the work queue. -/
def queueCalls : Nat → List Uint256 → BlockNode → List AcceptCall
  | 0, _, _ => []
  | _ + 1, [], _ => []
  | fuel + 1, hashPrev :: vWorkQueue, node =>
    orphanCalls env horizon fCheckpoints call (node.orphansOf hashPrev) node ++
      match Proc.foldM (acceptOrphan env horizon fCheckpoints call) (node.orphansOf hashPrev) vWorkQueue node with
      | (.error _, _) => []
      | (.ok vWorkQueue, node) => queueCalls fuel vWorkQueue (node.eraseByPrev hashPrev)

/-- The calls of a `ProcessBlock` that has come to its `AcceptBlock`. -/
def acceptCalls (pblock : CBlock) (node : BlockNode) : List AcceptCall :=
  ⟨pblock, call.dbp, call.accept pblock, node⟩ ::
    match acceptBlock env horizon fCheckpoints (call.accept pblock) call.dbp pblock node.tree with
    | (.error _, _) => []
    | (.ok _, tree) =>
      queueCalls env horizon fCheckpoints call (node.mapOrphanBlocksByPrev.length + 2) [env.getBlockHash pblock]
        { node with tree := tree }

/-- **`ProcessBlock` comes to its `AcceptBlock`**: the block is new, passes the preliminary checks and does not have to
    wait for its parent. -/
def ComesToAccept (pblock : CBlock) (node : BlockNode) : Prop :=
  ¬ node.knows env (env.getBlockHash pblock) ∧ checkReceived env pblock call.nNow = .ok () ∧
    checkMinWork env fCheckpoints pblock node.tree = .ok () ∧
    (pblock.hashPrevBlock = 0 ∨ (node.tree.find env pblock.hashPrevBlock).isSome = true)

end Calls

/-! ## Runs -/

/-- The node is reached from a tree without orphans by calls of `ProcessBlock` on the blocks `arrived`, last one first,
    which may have failed. Every call met `P`. -/
inductive BlockRun (env : Env) (horizon : EventHorizon) (fCheckpoints : Bool)
    (P : BlockCall → CBlock → BlockNode → Prop) (start : BlockTree) : List CBlock → BlockNode → Prop where
  | init : BlockRun env horizon fCheckpoints P start [] ⟨start, [], []⟩
  | call {arrived : List CBlock} {node node' : BlockNode} {call : BlockCall} {pblock : CBlock}
      {result : Except Reject Unit} (run : BlockRun env horizon fCheckpoints P start arrived node)
      (meets : P call pblock node)
      (step : processBlock env horizon fCheckpoints call pblock node = (result, node'))
      (alive : ∀ e, result = .error e → e.fault ≠ .crash) :
      BlockRun env horizon fCheckpoints P start (pblock :: arrived) node'

end Syscoin

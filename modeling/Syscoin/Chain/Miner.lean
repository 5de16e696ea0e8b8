import Mathlib.Data.List.Sort
import Syscoin.Chain.Mempool

/-!
# `Chain.Miner` — `CreateNewBlock`

The miner's template is filled from the memory pool one transaction at a time. Each is checked against the coins that
the ones before it leave, by the same `CheckInputs` that a block goes through, but with the best block where a block
would pass itself: one height too low, and at a height at which nothing is written. The finished template is then run
through `ConnectBlock` as a mere check.

The order in which the priority queue hands transactions out is a matter of floating-point priorities. The model takes
it from outside, as a list of pool transactions without repetition, with the free transactions that the queue passes
over left out. A transaction that waits for another one is in the list as well; its turn does nothing unless the other
one has been taken, because its input is missing then.
-/

namespace Syscoin

open Lib

def LOCKTIME_THRESHOLD : Nat := 500000000

/-- `GetMedianTimePast`, over the last eleven blocks. -/
def CBlockIndex.getMedianTimePast (pindex : CBlockIndex) : Nat :=
  let pmedian := ((pindex.chain.take 11).map (·.nTime)).insertionSort (· ≤ ·)
  pmedian.getD (pmedian.length / 2) 0

/-- `IsFinal` as the miner calls it: at the best height and the adjusted time. -/
def CTransaction.isFinal (nBestHeight nNow : Nat) (tx : CTransaction) : Prop :=
  tx.nLockTime = 0 ∨ tx.nLockTime < (if tx.nLockTime < LOCKTIME_THRESHOLD then nBestHeight else nNow) ∨
    ∀ txin ∈ tx.vin, txin.nSequence = 2 ^ 32 - 1

instance (nBestHeight nNow : Nat) (tx : CTransaction) : Decidable (tx.isFinal nBestHeight nNow) :=
  inferInstanceAs (Decidable (_ ∨ _))

/-- Signature checks are run on the spot, as without a queue to put them in. -/
def Env.inline (env : Env) : Env := { env with nScriptCheckThreads := 0 }

/-- What `CreateNewBlock` is called with and what it takes from its surroundings: the payout script, `-blockmaxsize`,
    the adjusted time and the required work. -/
structure MinerArgs where
  scriptPubKeyIn : CScript
  blockmaxsize : Nat
  nNow : Nat
  nBits : Nat

/-- `nBlockMaxSize`, between 1K and 1K less than a block may have. -/
def MinerArgs.nBlockMaxSize (args : MinerArgs) : Nat := max 1000 (min (MAX_BLOCK_SIZE - 1000) args.blockmaxsize)

/-- The pool transactions that the queue can hand out. -/
def CTxMemPool.candidates (pool : CTxMemPool) (nBestHeight nNow : Nat) : List CTransaction :=
  pool.mapTx.filter fun tx => tx.isCoinBase = false ∧ tx.isFinal nBestHeight nNow

/-- The local variables of the selection loop. -/
structure TemplateAcc where
  view : CoinsView
  nFees : Int
  nBlockSize : Nat
  nBlockSigOps : Nat
  vtx : List CTransaction

section CreateNewBlock

variable (env : Env) (args : MinerArgs) (pindexPrev : CBlockIndex) (coinsTip : CoinsView)

/-- The transaction is added to the block. -/
def addToTemplate (acc : TemplateAcc) (tx : CTransaction) : Except Reject TemplateAcc := do
  let (view, _) ← updateCoins env tx (pindexPrev.nHeight + 1) acc.view
  let nFees ← addFee acc.nFees (tx.getValueIn acc.view - tx.getValueOut)
  .ok {
    view := view
    nFees := nFees
    nBlockSize := acc.nBlockSize + tx.getSerializeSize
    nBlockSigOps := acc.nBlockSigOps + (tx.getLegacySigOpCount + tx.getP2SHSigOpCount acc.view)
    vtx := acc.vtx ++ [tx] }

/-- What the selection asks before it looks at the inputs in earnest: room for the transaction and its signature
    operations, and inputs that are there. -/
def TemplateAcc.hasRoom (acc : TemplateAcc) (tx : CTransaction) : Prop :=
  acc.nBlockSize + tx.getSerializeSize < args.nBlockMaxSize ∧
    acc.nBlockSigOps + tx.getLegacySigOpCount < MAX_BLOCK_SIGOPS ∧
    tx.haveInputs acc.view ∧
    acc.nBlockSigOps + (tx.getLegacySigOpCount + tx.getP2SHSigOpCount acc.view) < MAX_BLOCK_SIGOPS

instance (acc : TemplateAcc) (tx : CTransaction) : Decidable (acc.hasRoom args tx) :=
  inferInstanceAs (Decidable (_ ∧ _))

/-- One iteration of the selection loop. A transaction that does not fit is passed over, and the inputs are checked for
    the best block. -/
def selectTx (acc : TemplateAcc) (tx : CTransaction) : Proc Store Reject TemplateAcc := fun s =>
  if acc.hasRoom args tx then
    match checkInputs env.inline Mode.connect pindexPrev pindexPrev tx acc.view (pindexPrev.nHeight + 1) true true s with
    | (.error _, s) => (.ok acc, s)
    | (.ok _, s) => (addToTemplate env pindexPrev acc tx, s)
  else (.ok acc, s)

/-- The selection has a test pool of its own, which starts empty. -/
def withOwnTestPool {α : Type} (x : Proc Store Reject α) : Proc Store Reject α := fun s =>
  match x { s with dummyTestPool := fun _ => none } with
  | (r, s') => (r, { s' with dummyTestPool := s.dummyTestPool })

/-- The coinbase of a template. -/
def coinbaseTx (scriptPubKey scriptSig : CScript) (nValue : Int) : CTransaction :=
  ⟨1, [⟨⟨0, 2 ^ 32 - 1⟩, scriptSig, 2 ^ 32 - 1⟩], [⟨nValue, scriptPubKey⟩], 0, []⟩

/-- The header is filled in; version two on the chain with identifier one, and a merkle root only once the block is
    handed to a worker. -/
def templateBlock (nValue : Int) (vtx : List CTransaction) : CBlock where
  nTime := max (pindexPrev.getMedianTimePast + 1) args.nNow
  nVersion := 2 + 2 ^ 16
  hashPrevBlock := env.getBlockHash pindexPrev.block
  hashMerkleRoot := 0
  nBits := args.nBits
  nNonce := 0
  auxpow := []
  vtx := coinbaseTx args.scriptPubKeyIn [OP_0, OP_0] nValue :: vtx

/-- `CreateNewBlock` up to its self-test: the coinbase pays the block value over the fee lists as they are. -/
def assembleBlock (order : List CTransaction) : Proc Store Reject CBlock := do
  let acc ← withOwnTestPool (Proc.foldM (selectTx env args pindexPrev) order ⟨coinsTip, 0, 1000, 100, []⟩)
  let nValue ← fun s => (getBlockValue env s (pindexPrev.nHeight + 1) acc.nFees, s)
  pure (templateBlock env args pindexPrev nValue acc.vtx)

/-- `indexDummy`, the entry of a block on top of the best block. -/
def indexOver (block : CBlock) : CBlockIndex := ⟨block, pindexPrev.chain⟩

/-- **`CreateNewBlock`.** -/
def createNewBlock (order : List CTransaction) : Proc Store Reject CBlock := do
  let block ← assembleBlock env args pindexPrev coinsTip order
  fun s =>
    match connectBlock env true pindexPrev (indexOver pindexPrev block) args.nNow ⟨coinsTip, some pindexPrev⟩ s with
    | (.error _, s) => (.error (crash "CreateNewBlock() : ConnectBlock failed"), s)
    | (.ok _, s) => (.ok block, s)

end CreateNewBlock

end Syscoin

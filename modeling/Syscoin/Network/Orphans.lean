import Mathlib.Data.Finset.Max
import Mathlib.Data.Finset.Sort
import Syscoin.Chain.Mempool
import Syscoin.Lib.Multimap

/-!
# `Network.Orphans` — transactions whose inputs are not known yet

A transaction that a peer sends before its parents is kept as an orphan. `mapOrphanTransactions` has the orphans and
`mapOrphanTransactionsByPrev` says which of them spend an output of a transaction, known or not. When the transaction
comes, the handler of the `tx` message goes through its orphans with a work queue.

The handler is modelled with a record of what was submitted to the memory pool and with what answer.
-/

namespace Syscoin

open Lib

def MAX_ORPHAN_TRANSACTIONS : Nat := MAX_BLOCK_SIZE / 100

/-- The two maps. -/
structure OrphanPool where
  mapOrphanTransactions : Finmap fun _ : Uint256 => CTransaction
  mapOrphanTransactionsByPrev : Multimap Uint256 Uint256

namespace OrphanPool

def empty : OrphanPool := ⟨∅, ∅⟩

variable (env : Env)

def size (m : OrphanPool) : Nat := m.mapOrphanTransactions.keys.card

/-- **`AddOrphanTx`.** Big transactions are ignored. -/
def addOrphanTx (tx : CTransaction) (m : OrphanPool) : Bool × OrphanPool :=
  let hash := env.getHash tx
  if hash ∈ m.mapOrphanTransactions then (false, m)
  else if 5000 < tx.getSerializeSize then (false, m)
  else (true, {
    mapOrphanTransactions := m.mapOrphanTransactions.insert hash tx
    mapOrphanTransactionsByPrev :=
      tx.vin.foldl (fun byPrev txin => byPrev.add txin.prevout.hash hash) m.mapOrphanTransactionsByPrev })

/-- **`EraseOrphanTx`.** An entry of the reverse map goes with its last orphan. -/
def eraseOrphanTx (hash : Uint256) (m : OrphanPool) : OrphanPool :=
  match m.mapOrphanTransactions.lookup hash with
  | none => m
  | some tx => {
    mapOrphanTransactions := m.mapOrphanTransactions.erase hash
    mapOrphanTransactionsByPrev :=
      tx.vin.foldl (fun byPrev txin => byPrev.drop txin.prevout.hash hash) m.mapOrphanTransactionsByPrev }

/-- The orphan that a random number leads to: the first one from there, or else the first one. -/
def victim (randomhash : Uint256) (m : OrphanPool) : Option Uint256 :=
  match (m.mapOrphanTransactions.keys.filter (randomhash ≤ ·)).min with
  | (hash : Uint256) => some hash
  | ⊤ => m.mapOrphanTransactions.keys.min

/-- The loop of `LimitOrphanTxSize`, which counts the orphans it evicts. `fuel` bounds the number of rounds. -/
def evict (rand : Nat → Uint256) (nMaxOrphans : Nat) : Nat → Nat → OrphanPool → Nat × OrphanPool
  | 0, nEvicted, m => (nEvicted, m)
  | fuel + 1, nEvicted, m =>
    if nMaxOrphans < m.size then
      match m.victim (rand nEvicted) with
      | none => (nEvicted, m)
      | some hash => evict rand nMaxOrphans fuel (nEvicted + 1) (m.eraseOrphanTx hash)
    else (nEvicted, m)

/-- **`LimitOrphanTxSize`**, with a stream of random numbers. -/
def limitOrphanTxSize (rand : Nat → Uint256) (nMaxOrphans : Nat) (m : OrphanPool) : Nat × OrphanPool :=
  evict rand nMaxOrphans m.size 0 m

end OrphanPool

/-! ## The `tx` message -/

/-- What `AcceptToMemoryPool` returns, with its `pfMissingInputs`. -/
inductive Answer where
  | accepted
  | missingInputs
  | refused
deriving DecidableEq, Repr

namespace PoolNode

variable (env : Env) (relay : Relay) (tx : CTransaction)

/-- When `accept` sets `pfMissingInputs`: it has come to the inputs, does not know the transaction yet, and does not know
    the transaction of some input either. -/
def fMissingInputs (pn : PoolNode) : Prop :=
  checkTransaction tx = .ok () ∧ tx.isCoinBase = false ∧ tx.nLockTime ≤ 2 ^ 31 - 1 ∧
    (env.fTestNet = true ∨ env.fCakeNet = true ∨ relay.isStandard tx = true) ∧
    (pn.pool.lookup env (env.getHash tx)).isNone = true ∧
    (∀ txin ∈ tx.vin, (pn.pool.mapNextTx txin.prevout).isNone = true) ∧
    (pn.view env (env.getHash tx)).isNone = true ∧
    ¬ ∀ txin ∈ tx.vin, (pn.view env txin.prevout.hash).isSome = true

instance (pn : PoolNode) : Decidable (fMissingInputs env relay tx pn) := inferInstanceAs (Decidable (_ ∧ _))

/-- `AcceptToMemoryPool(state, true, true, &fMissingInputs)`. -/
def acceptToMemoryPool (fRateLimited : Bool) (pn : PoolNode) : Answer × PoolNode :=
  match accept env relay pn.node.pindexBest ⟨true, true, fRateLimited⟩ tx pn with
  | (.ok _, pn') => (.accepted, pn')
  | (.error _, pn') => (if fMissingInputs env relay tx pn then .missingInputs else .refused, pn')

end PoolNode

/-- What the handler works on: the pool, the orphans, the two queues, and what was submitted so far. -/
structure TxMessage where
  node : PoolNode
  orphans : OrphanPool
  vWorkQueue : List Uint256
  vEraseQueue : List Uint256
  submitted : List (CTransaction × Answer)

/-- What else a message is handled with: the relay rules, the rate limiter and the random numbers of the moment. -/
structure MessageEnv where
  relay : Relay
  limiter : Nat → Bool
  rand : Nat → Uint256

section ProcessTx

variable (env : Env) (msg : MessageEnv) (tx : CTransaction)

def TxMessage.submit (t : CTransaction) (l : TxMessage) : Answer × TxMessage :=
  match PoolNode.acceptToMemoryPool env msg.relay t (msg.limiter l.submitted.length) l.node with
  | (answer, node) => (answer, { l with node := node, submitted := l.submitted ++ [(t, answer)] })

/-- `mapOrphanTransactions[orphanHash]`, which makes an entry where there is none. -/
def OrphanPool.readOrphan (orphanHash : Uint256) (m : OrphanPool) : OrphanPool :=
  match m.mapOrphanTransactions.lookup orphanHash with
  | some _ => m
  | none => { m with mapOrphanTransactions := m.mapOrphanTransactions.insert orphanHash ⟨1, [], [], 0, []⟩ }

/-- The body of the inner loop. The orphan is looked up, but it is the transaction of the message, `tx`, that is submitted
    once more. -/
def tryOrphan (l : TxMessage) (orphanHash : Uint256) : TxMessage :=
  let l := { l with orphans := l.orphans.readOrphan orphanHash }
  match l.submit env msg tx with
  | (.accepted, l) =>
    { l with vWorkQueue := l.vWorkQueue ++ [orphanHash], vEraseQueue := l.vEraseQueue ++ [orphanHash] }
  | (.refused, l) => { l with vEraseQueue := l.vEraseQueue ++ [orphanHash] }
  | (.missingInputs, l) => l

/-- The body of the outer loop. The reverse map is read with a subscript. -/
def tryOrphansOf (l : TxMessage) (hashPrev : Uint256) : TxMessage :=
  let byPrev := l.orphans.mapOrphanTransactionsByPrev.touch hashPrev
  ((byPrev.elems hashPrev).sort (· ≤ ·)).foldl (tryOrphan env msg tx)
    { l with orphans := { l.orphans with mapOrphanTransactionsByPrev := byPrev } }

/-- The outer loop from position `i` of the work queue on. `fuel` bounds the number of rounds. -/
def workLoop : Nat → Nat → TxMessage → TxMessage
  | 0, _, l => l
  | fuel + 1, i, l =>
    match l.vWorkQueue[i]? with
    | none => l
    | some hashPrev => workLoop fuel (i + 1) (tryOrphansOf env msg tx l hashPrev)

/-- **The handler of the `tx` message**, after the transaction has been read. An orphan for each round, one round for the
    transaction itself and one that finds the queue at its end are more rounds than there can be (`workLoop_known`). -/
def processTx (node : PoolNode) (orphans : OrphanPool) : Answer × TxMessage :=
  match TxMessage.submit env msg tx ⟨node, orphans, [], [], []⟩ with
  | (.accepted, l) =>
    let hash := env.getHash tx
    let l := workLoop env msg tx (orphans.size + 2) 0
      { l with vWorkQueue := l.vWorkQueue ++ [hash], vEraseQueue := l.vEraseQueue ++ [hash] }
    (.accepted, { l with orphans := l.vEraseQueue.foldl (fun m hash => m.eraseOrphanTx hash) l.orphans })
  | (.missingInputs, l) =>
    let orphans := (l.orphans.addOrphanTx env tx).2
    (.missingInputs, { l with orphans := (orphans.limitOrphanTxSize msg.rand MAX_ORPHAN_TRANSACTIONS).2 })
  | (.refused, l) => (.refused, l)

end ProcessTx

/-! ## Runs -/

/-- An operation on the orphans. A message is handled by whatever node there is at the time. -/
inductive OrphanOp where
  | addOrphanTx (tx : CTransaction)
  | eraseOrphanTx (hash : Uint256)
  | limitOrphanTxSize (rand : Nat → Uint256) (nMaxOrphans : Nat)
  | processTx (msg : MessageEnv) (tx : CTransaction) (node : PoolNode)

namespace OrphanPool

/-- The orphans after an operation. -/
def apply (env : Env) (m : OrphanPool) : OrphanOp → OrphanPool
  | .addOrphanTx tx => (m.addOrphanTx env tx).2
  | .eraseOrphanTx hash => m.eraseOrphanTx hash
  | .limitOrphanTxSize rand nMaxOrphans => (m.limitOrphanTxSize rand nMaxOrphans).2
  | .processTx msg tx node => (Syscoin.processTx env msg tx node m).2.orphans

/-- The states that operations which meet a condition lead to. -/
inductive Reached (env : Env) (P : OrphanPool → OrphanOp → Prop) : OrphanPool → Prop where
  | empty : Reached env P .empty
  | step {m : OrphanPool} {op : OrphanOp} (prev : Reached env P m) (h : P m op) : Reached env P (m.apply env op)

end OrphanPool

end Syscoin

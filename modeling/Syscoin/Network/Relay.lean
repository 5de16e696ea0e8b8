import Mathlib.Data.Finset.Insert
import Syscoin.Lib.Batches
import Syscoin.Chain.Locator
import Syscoin.Network.Bloom
import Syscoin.Network.LimitedMap
import Syscoin.Network.PartialMerkle

/-!
# `Network.Relay` — inventory to a peer and what it asks for

A node tells a peer the hashes of what it has. `PushInventory` queues them, `SendMessages` sends them, transactions
after a while ("trickle"), and `setInventoryKnown` remembers the last ones that either side told the other. The peer
asks for some of them by `getdata`; its requests wait in `vRecvGetData` until `ProcessGetData` comes to them.

What the node serves from, and the buffers of the connection, are in `Serving`; every call comes with its own. `none` is
the division by zero in `CBloomFilter::Hash`.
-/

namespace Syscoin

open Lib

/-! ## `CInv` -/

structure CInv where
  type : Int
  hash : Uint256
deriving DecidableEq, Repr

def MSG_TX : Int := 1
def MSG_BLOCK : Int := 2
def MSG_FILTERED_BLOCK : Int := 3

def ppszTypeName : List String := ["ERROR", "tx", "block", "filtered block"]

/-- `IsKnownType` -/
def CInv.isKnownType (inv : CInv) : Prop := 1 ≤ inv.type ∧ inv.type < ppszTypeName.length

instance (inv : CInv) : Decidable inv.isKnownType := inferInstanceAs (Decidable (_ ∧ _))

/-- `GetCommand`, of a known type. -/
def CInv.getCommand (inv : CInv) : String := ppszTypeName.getD inv.type.toNat ""

/-! ## `mruset` -/

/-- "STL-like set container that only keeps the most recent N elements." -/
structure Mruset (T : Type) where
  set : Finset T
  queue : List T
  nMaxSize : Nat
deriving DecidableEq

namespace Mruset

variable {T : Type} [DecidableEq T]

/-- `mruset()`, and then `max_size(nMaxSizeIn)`. -/
def init (nMaxSizeIn : Nat) : Mruset T := ⟨∅, [], nMaxSizeIn⟩

def count (m : Mruset T) (k : T) : Bool := decide (k ∈ m.set)

/-- `set.erase(queue.front()); queue.pop_front();` -/
def popFront (m : Mruset T) : Mruset T :=
  match m.queue with
  | [] => m
  | front :: queue => { m with set := m.set.erase front, queue := queue }

/-- `insert`, and whether the element was new. -/
def insert (m : Mruset T) (x : T) : Mruset T × Bool :=
  if x ∈ m.set then (m, false)
  else
    let m₁ := { m with set := Insert.insert x m.set }
    let m₂ := if m.nMaxSize ≠ 0 ∧ m.queue.length = m.nMaxSize then m₁.popFront else m₁
    ({ m₂ with queue := m₂.queue ++ [x] }, true)

end Mruset

/-! ## What is sent -/

/-- `CMerkleBlock`. Of the header, a block without transactions is left. -/
structure CMerkleBlock where
  header : CBlock
  txn : CPartialMerkleTree
  vMatchedTxn : List (Nat × Uint256)
deriving DecidableEq, Repr

inductive PeerMessage where
  | inv (vInv : List CInv)
  | block (block : CBlock)
  | merkleblock (merkleBlock : CMerkleBlock)
  | tx (tx : CTransaction)
  /-- A stream from relay memory. -/
  | relayed (strCommand : String) (ss : Bytes)
  | notfound (vInv : List CInv)
deriving DecidableEq, Repr

/-- The loop of the constructor of `CMerkleBlock`, from transaction `i` on: the mask, and the matched transactions. -/
def matchTransactions (env : Env) (solver : CScript → Bool) :
    Nat → List CTransaction → CBloomFilter → Option (List Bool × List (Nat × Uint256) × CBloomFilter)
  | _, [], filter => some ([], [], filter)
  | i, tx :: vtx, filter => do
    let hash := env.getHash tx
    let (fRelevant, filter) ← filter.isRelevantAndUpdate solver tx hash
    let (vMatch, vMatchedTxn, filter) ← matchTransactions env solver (i + 1) vtx filter
    some (fRelevant :: vMatch, if fRelevant then (i, hash) :: vMatchedTxn else vMatchedTxn, filter)

/-- `CMerkleBlock(const CBlock& block, CBloomFilter& filter)` -/
def CMerkleBlock.ofBlock (env : Env) (solver : CScript → Bool) (block : CBlock) (filter : CBloomFilter) :
    Option (CMerkleBlock × CBloomFilter) := do
  let (vMatch, vMatchedTxn, filter) ← matchTransactions env solver 0 block.vtx filter
  let vHashes := block.vtx.map env.getHash
  some (⟨{ block with vtx := [] }, .ofTxids env.hashPair vHashes vMatch, vMatchedTxn⟩, filter)

/-! ## The node's side of a connection -/

/-- The members of `CNode` that inventory goes through. -/
structure CNode where
  setInventoryKnown : Mruset CInv
  vInventoryToSend : List CInv
  hashContinue : Uint256
  vRecvGetData : List CInv
  nBlocksRequested : Nat
  pfilter : Option CBloomFilter
deriving DecidableEq

/-- What requests are answered from, and `nSendSize` and `nSendBytes`, which move with the messages pushed. -/
structure Serving where
  env : Env
  mapBlockIndex : Uint256 → Option CBlockIndex
  st : ChainState
  /-- `GetLastCheckpoint` -/
  pcheckpoint : Option CBlockIndex
  mapRelay : CInv → Option Bytes
  mempool : Uint256 → Option CTransaction
  solver : CScript → Bool
  sendBufferSize : Nat
  nSendSize : CNode → List PeerMessage → Nat
  nSendBytes : CNode → List PeerMessage → Nat

/-- What a round of `SendMessages` goes by. -/
structure Trickle where
  fSendTrickle : Bool
  hashSalt : Uint256
  hash : Uint256 → Uint256
  /-- `fFromMe` of the transactions in the wallets. -/
  fFromMe : Uint256 → Option Bool

/-- `hashBestChain` -/
def Serving.hashBestChain (w : Serving) : Uint256 := (w.st.pindexBest.map (w.env.getBlockHash ·.block)).getD 0

/-- Whether a transaction waits: three of four do, and our own always. -/
def Trickle.fTrickleWait (t : Trickle) (inv : CInv) : Bool :=
  let hashRand := t.hash (inv.hash ^^^ t.hashSalt)
  decide (hashRand &&& 3 ≠ 0) || decide (t.fFromMe inv.hash = some true)

namespace CNode

/-- The constructor, with `setInventoryKnown.max_size(SendBufferSize() / 1000)`. -/
def init (sendBufferSize : Nat) (pfilter : CBloomFilter) : CNode where
  setInventoryKnown := .init (sendBufferSize / 1000)
  vInventoryToSend := []
  hashContinue := 0
  vRecvGetData := []
  nBlocksRequested := 0
  pfilter := some pfilter

def addInventoryKnown (node : CNode) (inv : CInv) : CNode :=
  { node with setInventoryKnown := (node.setInventoryKnown.insert inv).1 }

def pushInventory (node : CNode) (inv : CInv) : CNode :=
  if node.setInventoryKnown.count inv then node
  else { node with vInventoryToSend := node.vInventoryToSend ++ [inv] }

/-- **`getblocks`.** -/
def getblocks (w : Serving) (node : CNode) (locator : CBlockLocator) (hashStop : Uint256) : CNode :=
  let (pushed, hashContinue) := w.st.getblocks w.env w.mapBlockIndex locator hashStop
  let node := (pushed.map fun pindex => ⟨MSG_BLOCK, w.env.getBlockHash pindex.block⟩).foldl pushInventory node
  match hashContinue with
  | none => node
  | some pindex => { node with hashContinue := w.env.getBlockHash pindex.block }

/-! ### `SendMessages`: inventory -/

/-- `setInventoryKnown`, `vInvWait` and `vInv` in the loop. -/
structure InvLoop where
  known : Mruset CInv
  vInvWait : List CInv
  vInv : Batches CInv

/-- The body of the loop over `vInventoryToSend`. -/
def sendInv (t : Trickle) (s : InvLoop) (inv : CInv) : InvLoop :=
  if s.known.count inv then s
  -- "trickle out tx inv to protect privacy"
  else if inv.type = MSG_TX ∧ t.fSendTrickle = false ∧ t.fTrickleWait inv = true then
    { s with vInvWait := s.vInvWait ++ [inv] }
  else
    let (known, inserted) := s.known.insert inv
    { s with known := known, vInv := if inserted then s.vInv.push 1000 inv else s.vInv }

/-- **The inventory part of `SendMessages`.** -/
def sendInventory (t : Trickle) (node : CNode) : CNode × List PeerMessage :=
  let s := node.vInventoryToSend.foldl (sendInv t) ⟨node.setInventoryKnown, [], .empty⟩
  ({ node with setInventoryKnown := s.known, vInventoryToSend := s.vInvWait }, s.vInv.flush.map .inv)

/-! ### `ProcessGetData` -/

section GetData

variable (w : Serving)

/-- The block message, or the filtered block with the transactions that the peer does not know. -/
def pushBlock (node : CNode) (inv : CInv) (block : CBlock) : Option (CNode × List PeerMessage) :=
  if inv.type = MSG_BLOCK then some (node, [.block block])
  else
    match node.pfilter with
    | none => some (node, [])
    | some filter => do
      let (merkleBlock, filter) ← CMerkleBlock.ofBlock w.env w.solver block filter
      let vtx := (merkleBlock.vMatchedTxn.filter fun pair => !node.setInventoryKnown.count ⟨MSG_TX, pair.2⟩).filterMap
        fun pair => block.vtx[pair.1]?
      some ({ node with pfilter := some filter }, .merkleblock merkleBlock :: vtx.map .tx)

/-- A request for a block. What is below the last checkpoint is only served from the main chain. -/
def serveBlock (node : CNode) (inv : CInv) : Option (CNode × List PeerMessage) :=
  match w.mapBlockIndex inv.hash with
  | none => some (node, [])
  | some pindex =>
    if (∃ pcheckpoint ∈ w.pcheckpoint, pindex.nHeight < pcheckpoint.nHeight) ∧ ¬ w.st.isInMainChain pindex then
      some (node, [])
    else do
      let (node, pushed) ← pushBlock w node inv pindex.block
      -- "Trigger them to send a getblocks request for the next batch of inventory"
      if inv.hash = node.hashContinue then
        some ({ node with hashContinue := 0 }, pushed ++ [.inv [⟨MSG_BLOCK, w.hashBestChain⟩]])
      else some (node, pushed)

/-- A request for something else: from relay memory, or a transaction from the pool. -/
def serveRelayed (inv : CInv) : Option PeerMessage :=
  match w.mapRelay inv with
  | some ss => some (.relayed inv.getCommand ss)
  | none => if inv.type = MSG_TX then (w.mempool inv.hash).map .tx else none

/-- The two tests before a request is looked at. `nBlocksRequested * 80` is a `uint64`. -/
def isBusy (node : CNode) (pushed : List PeerMessage) : Prop :=
  w.sendBufferSize ≤ w.nSendSize node pushed ∨ w.nSendBytes node pushed < node.nBlocksRequested * 80 % 2 ^ 64

instance (node : CNode) (pushed : List PeerMessage) : Decidable (isBusy w node pushed) :=
  inferInstanceAs (Decidable (_ ∨ _))

/-- The loop: the node, what was pushed, `vNotFound`, and the requests from `it` on. A block ends it. -/
def getDataLoop : CNode → List PeerMessage → List CInv → List CInv →
    Option (CNode × List PeerMessage × List CInv × List CInv)
  | node, pushed, vNotFound, [] => some (node, pushed, vNotFound, [])
  | node, pushed, vNotFound, inv :: it =>
    if isBusy w node pushed then some (node, pushed, vNotFound, inv :: it)
    else if inv.type = MSG_BLOCK ∨ inv.type = MSG_FILTERED_BLOCK then do
      let (node, served) ← serveBlock w { node with nBlocksRequested := (node.nBlocksRequested + 1) % 2 ^ 64 } inv
      some (node, pushed ++ served, vNotFound, it)
    else if inv.isKnownType then
      match serveRelayed w inv with
      | some message => getDataLoop node (pushed ++ [message]) vNotFound it
      | none => getDataLoop node pushed (vNotFound ++ [inv]) it
    else getDataLoop node pushed vNotFound it

/-- **`ProcessGetData`.** -/
def processGetData (node : CNode) : Option (CNode × List PeerMessage) := do
  let (node, pushed, vNotFound, it) ← getDataLoop w node [] [] node.vRecvGetData
  some ({ node with vRecvGetData := it }, pushed ++ if vNotFound = [] then [] else [.notfound vNotFound])

/-- **`getdata`.** A message that asks for too much is not looked at. -/
def getdata (node : CNode) (vInv : List CInv) : Option (CNode × List PeerMessage) :=
  if MAX_INV_SZ < vInv.length then some (node, [])
  else processGetData w { node with vRecvGetData := node.vRecvGetData ++ vInv }

end GetData

end CNode

/-! ## Runs -/

/-- What happens to a connection. -/
inductive NodeCall where
  | addInventoryKnown (inv : CInv)
  | pushInventory (inv : CInv)
  | getblocks (w : Serving) (locator : CBlockLocator) (hashStop : Uint256)
  | sendInventory (t : Trickle)
  | getdata (w : Serving) (vInv : List CInv)
  | processGetData (w : Serving)
  | filter (solver : CScript → Bool) (op : FilterOp)

def CNode.perform (node : CNode) : NodeCall → Option (CNode × List PeerMessage)
  | .addInventoryKnown inv => some (node.addInventoryKnown inv, [])
  | .pushInventory inv => some (node.pushInventory inv, [])
  | .getblocks w locator hashStop => some (node.getblocks w locator hashStop, [])
  | .sendInventory t => some (node.sendInventory t)
  | .getdata w vInv => node.getdata w vInv
  | .processGetData w => node.processGetData w
  | .filter solver op =>
    match node.pfilter with
    | none => some (node, [])
    | some filter => (filter.apply solver op).map fun filter => ({ node with pfilter := some filter }, [])

/-- A connection from its start on: the calls, each with the messages that it pushed, and the node after them. -/
inductive RelayRun (sendBufferSize : Nat) (pfilter : CBloomFilter) : List (NodeCall × List PeerMessage) → CNode → Prop where
  | init : RelayRun sendBufferSize pfilter [] (.init sendBufferSize pfilter)
  | step {log : List (NodeCall × List PeerMessage)} {node node' : CNode} {call : NodeCall} {pushed : List PeerMessage}
      (run : RelayRun sendBufferSize pfilter log node) (ok : node.perform call = some (node', pushed)) :
      RelayRun sendBufferSize pfilter (log ++ [(call, pushed)]) node'

end Syscoin

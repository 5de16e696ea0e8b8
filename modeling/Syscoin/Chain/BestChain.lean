import Syscoin.Chain.Disconnect

/-!
# `Chain.BestChain` — `SetBestChain` and the runs of a node

`setBestChain` finds the fork, disconnects down to it and connects up to the new tip, all on one coin view that
is kept only at the end. `pindexBest` moves at the very end too, so every block of the new branch is checked
against the *old* best block.

`Run env C genesis blocks node` says that `node` is reached from a node that has just the genesis block by
successful calls, any mix of extensions and reorganisations, that `blocks` are the blocks connected on the way,
in order, and that every transaction was checked at a site that meets `C`. The condition that always holds gives
all runs.
-/

namespace Syscoin

open Lib

/-! ## Walking the tree -/

namespace CBlockIndex

/-- An entry and the entries below it, down to the root. -/
def lineage : CBlock → List CBlock → List CBlockIndex
  | block, [] => [⟨block, []⟩]
  | block, parent :: ancestors => ⟨block, parent :: ancestors⟩ :: lineage parent ancestors

/-- The entries along `pnext` from the genesis block up to the best one. -/
def mainChain (pindexBest : CBlockIndex) : List CBlockIndex := (lineage pindexBest.block pindexBest.ancestors).reverse

/-- The blocks strictly above the fork on the way up to an entry, the entry first. -/
def downTo (pindex pfork : CBlockIndex) : List CBlockIndex :=
  (lineage pindex.block pindex.ancestors).takeWhile (· ≠ pfork)

/-- `while (plonger->nHeight > nHeight) plonger = plonger->pprev`. -/
def descendTo (nHeight : Nat) : CBlock → List CBlock → CBlockIndex
  | block, [] => ⟨block, []⟩
  | block, parent :: ancestors =>
    if nHeight < ancestors.length + 1 then descendTo nHeight parent ancestors
    else ⟨block, parent :: ancestors⟩

/-- The fork search: lower the longer side to the height of `pfork`, compare, lower `pfork` by one. It fails
    the assertion `pfork != NULL` when the two sides have no block in common. -/
def findFork (plonger : CBlockIndex) : CBlock → List CBlock → Option CBlockIndex
  | block, [] =>
    if descendTo 0 plonger.block plonger.ancestors = ⟨block, []⟩ then some ⟨block, []⟩ else none
  | block, parent :: ancestors =>
    let plonger := descendTo (ancestors.length + 1) plonger.block plonger.ancestors
    if plonger = ⟨block, parent :: ancestors⟩ then some plonger else findFork plonger parent ancestors

end CBlockIndex

/-! ## The node -/

structure Node where
  pindexBest : CBlockIndex
  coinsTip : CoinsView
  store : Store

/-- The five pending maps. -/
structure Pendings where
  mapAliasesPending : Pending
  mapOfferPending : Pending
  mapOfferAcceptPending : Pending
  mapCertIssuerPending : Pending
  mapCertItemPending : Pending

def Store.pendings (s : Store) : Pendings :=
  ⟨s.aliasdb.mapAliasesPending, s.offerdb.mapOfferPending, s.offerdb.mapOfferAcceptPending,
    s.certdb.mapCertIssuerPending, s.certdb.mapCertItemPending⟩

def Store.setPendings (s : Store) (p : Pendings) : Store :=
  { s with
    aliasdb := { s.aliasdb with mapAliasesPending := p.mapAliasesPending }
    offerdb := { s.offerdb with
      mapOfferPending := p.mapOfferPending, mapOfferAcceptPending := p.mapOfferAcceptPending }
    certdb := { s.certdb with
      mapCertIssuerPending := p.mapCertIssuerPending, mapCertItemPending := p.mapCertItemPending } }

/-- What a call of `SetBestChain` takes from its surroundings: the adjusted time, whether the coin cache is
    written to disk this time, and what resurrecting and deleting mempool transactions does to the pending
    maps. Mempool checks run with `fJustCheck`, so they write nothing else. -/
structure Ambient where
  nNow : Nat
  fFlush : Bool
  mempool : Pendings → Pendings

section SetBestChain

variable (env : Env) (amb : Ambient)

def disconnectAll (vDisconnect : List CBlockIndex) (view : CoinsCache) : Proc Store Reject CoinsCache :=
  Proc.foldM (fun view pindex => disconnectBlock env pindex view) vDisconnect view

def connectAll (pindexBest : CBlockIndex) (vConnect : List CBlockIndex) (view : CoinsCache) :
    Proc Store Reject CoinsCache :=
  Proc.foldM (fun view pindex => connectBlock env false pindexBest pindex amb.nNow view) vConnect view

/-- The part of `SetBestChain` that works on the discardable view. -/
def reorganize (pindexBest pfork pindexNew : CBlockIndex) (view : CoinsCache) : Proc Store Reject CoinsCache := do
  let view ← disconnectAll env (pindexBest.downTo pfork) view
  connectAll env amb pindexBest (pindexNew.downTo pfork).reverse view

/-- The commit at the end. -/
def commit (pindexNew : CBlockIndex) (view : CoinsCache) (s : Store) : Node where
  pindexBest := pindexNew
  coinsTip := if amb.fFlush then view.coins.prune else view.coins
  store := s.setPendings (amb.mempool s.pendings)

/-- **`SetBestChain`.** A failure keeps the best block and the coins, and the store as it has become. -/
def setBestChain (pindexNew : CBlockIndex) (node : Node) : Except Reject Unit × Node :=
  match pindexNew.findFork node.pindexBest.block node.pindexBest.ancestors with
  | none => (.error (crash "assert(pfork != NULL)"), node)
  | some pfork =>
    match reorganize env amb node.pindexBest pfork pindexNew ⟨node.coinsTip, some node.pindexBest⟩ node.store with
    | (.error e, s) => (.error e, { node with store := s })
    | (.ok view, s) => (.ok (), commit amb pindexNew view s)

end SetBestChain

/-- The sites reached while connecting the blocks of a branch. -/
def chainSites (env : Env) (amb : Ambient) (pindexBest : CBlockIndex) :
    List CBlockIndex → CoinsCache → Store → List Site
  | [], _, _ => []
  | pindex :: vConnect, view, s =>
    blockSites env pindexBest pindex amb.nNow view s ++
      match connectBlock env false pindexBest pindex amb.nNow view s with
      | (.error _, _) => []
      | (.ok view, s) => chainSites env amb pindexBest vConnect view s

/-! ## Runs -/

/-- Databases and lists before anything was connected. -/
def Store.init : Store where
  aliasdb := ⟨fun _ => none, none, [], fun _ => ∅⟩
  offerdb := ⟨fun _ => none, fun _ => none, [], fun _ => ∅, fun _ => ∅⟩
  certdb := ⟨fun _ => none, fun _ => none, [], fun _ => ∅, fun _ => ∅⟩
  dummyTestPool := fun _ => none
  undo := fun _ => none
  txIndex := fun _ => false

/-- The node that has only the genesis block. -/
def Node.init (genesis : CBlock) : Node := ⟨⟨genesis, []⟩, fun _ => none, Store.init⟩

/-- The entries that a call connects, in the order in which it connects them. -/
def connectedBy (node : Node) (pindexNew : CBlockIndex) : List CBlockIndex :=
  match pindexNew.findFork node.pindexBest.block node.pindexBest.ancestors with
  | none => []
  | some pfork => (pindexNew.downTo pfork).reverse

/-- The entries that a call disconnects, in the order in which it disconnects them. -/
def disconnectedBy (node : Node) (pindexNew : CBlockIndex) : List CBlockIndex :=
  match pindexNew.findFork node.pindexBest.block node.pindexBest.ancestors with
  | none => []
  | some pfork => node.pindexBest.downTo pfork

/-- The sites that a call reaches. -/
def callSites (env : Env) (amb : Ambient) (pindexNew : CBlockIndex) (node : Node) : List Site :=
  match disconnectAll env (disconnectedBy node pindexNew) ⟨node.coinsTip, some node.pindexBest⟩ node.store with
  | (.error _, _) => []
  | (.ok view, s) => chainSites env amb node.pindexBest (connectedBy node pindexNew) view s

/-- `node` is reached by successful `SetBestChain` calls that connected `blocks`, from sites that meet `C`. -/
inductive Run (env : Env) (C : Site → Prop) (genesis : CBlock) : List CBlockIndex → Node → Prop where
  | init : Run env C genesis [] (Node.init genesis)
  | step {blocks : List CBlockIndex} {node node' : Node} {amb : Ambient} {pindexNew : CBlockIndex}
      (run : Run env C genesis blocks node) (ok : setBestChain env amb pindexNew node = (.ok (), node'))
      (meets : ∀ site ∈ callSites env amb pindexNew node, C site) :
      Run env C genesis (blocks ++ connectedBy node pindexNew) node'

end Syscoin

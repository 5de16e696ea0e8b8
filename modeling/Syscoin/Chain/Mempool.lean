import Syscoin.Chain.Run

/-!
# `Chain.Mempool` — `CTxMemPool` and the pending maps

A transaction that a peer or the wallet sends goes through `accept` into the memory pool, and leaves it through
`remove`, be it on its own, as a conflict or a dependent of one, or because a block has it. On its way in its name is
entered in one of the pending maps, which the wallet consults before it starts another operation on the name.

The pending maps are part of the node's store, since `ConnectBlock` writes them as well. `PoolNode.setBestChain` is
`SetBestChain` with its effect on the pool spelled out, which `Chain.BestChain` takes from its surroundings;
`PoolNode.setBestChain_node` says that the two agree.
-/

namespace Syscoin

open Lib

def MEMPOOL_HEIGHT : Nat := 0x7fffffff

/-- What relaying adds to the environment: the standardness tests, strict signature encodings and the fee. -/
structure Relay where
  isStandard : CTransaction → Bool
  areInputsStandard : CoinsView → CTransaction → Bool
  verifyScriptStrictEnc : CScript → CScript → CTransaction → Nat → Bool → Bool
  nMinRelayTxFee : Int

/-- Scripts are verified with `SCRIPT_VERIFY_STRICTENC`. -/
def Env.strictEnc (env : Env) (relay : Relay) : Env := { env with verifyScript := relay.verifyScriptStrictEnc }

/-- `GetMinFee(1000, true, GMF_RELAY)`. -/
def CTransaction.getRelayFee (relay : Relay) (tx : CTransaction) : Int :=
  let nBytes := tx.getSerializeSize
  let nNewBlockSize := 1000 + nBytes
  let nMinFee :=
    if nBytes < DEFAULT_BLOCK_PRIORITY_SIZE - 1000 then 0 else (1 + (nBytes : Int) / 1000) * relay.nMinRelayTxFee
  let nMinFee := nMinFee + (tx.vout.countP fun o => o.nValue < DUST_SOFT_LIMIT) * relay.nMinRelayTxFee
  if MAX_BLOCK_SIZE_GEN ≤ nNewBlockSize then MAX_MONEY
  else
    let nMinFee :=
      if MAX_BLOCK_SIZE_GEN / 2 ≤ nNewBlockSize then
        nMinFee * ((MAX_BLOCK_SIZE_GEN / (MAX_BLOCK_SIZE_GEN - nNewBlockSize) : Nat) : Int)
      else nMinFee
    if moneyRange nMinFee then nMinFee else MAX_MONEY

/-- `operator==`, which does not look at the data. -/
def CTransaction.same (a b : CTransaction) : Prop :=
  a.nVersion = b.nVersion ∧ a.vin = b.vin ∧ a.vout = b.vout ∧ a.nLockTime = b.nLockTime

instance (a b : CTransaction) : Decidable (a.same b) := inferInstanceAs (Decidable (_ ∧ _))

/-! ## The pool -/

/-- An input: the transaction of the pool that has it and its number there. -/
structure CInPoint where
  ptx : CTransaction
  n : Nat
deriving DecidableEq, Repr

/-- The transactions of the pool, and for each output that one of them spends the input that does. -/
structure CTxMemPool where
  mapTx : List CTransaction
  mapNextTx : COutPoint → Option CInPoint

namespace CTxMemPool

def empty : CTxMemPool := ⟨[], fun _ => none⟩

variable (env : Env) (pool : CTxMemPool)

/-- `mapTx.find(hash)`. -/
def lookup (hash : Uint256) : Option CTransaction := pool.mapTx.find? fun tx => env.getHash tx = hash

def addUnchecked (tx : CTransaction) : CTxMemPool where
  mapTx := tx :: pool.mapTx
  mapNextTx := tx.vin.zipIdx.foldl (fun m p => Function.update m p.1.prevout (some ⟨tx, p.2⟩)) pool.mapNextTx

/-- Take one transaction out, if it is there. -/
def erase (tx : CTransaction) : CTxMemPool :=
  if (pool.lookup env (env.getHash tx)).isSome then
    { mapTx := pool.mapTx.filter fun t => env.getHash t ≠ env.getHash tx
      mapNextTx := fun o => if o ∈ tx.vin.map (·.prevout) then none else pool.mapNextTx o }
  else pool

/-- **`CTxMemPool::remove`.** The spenders of the outputs go first, recursively. A chain of dependents is at most as
    long as the pool, which bounds the recursion. -/
def removeWithin : Nat → Bool → CTransaction → CTxMemPool → CTxMemPool
  | 0, _, _, pool => pool
  | depth + 1, fRecursive, tx, pool =>
    let pool :=
      if fRecursive then
        (List.range tx.vout.length).foldl (fun pool i =>
          match pool.mapNextTx ⟨env.getHash tx, i⟩ with
          | none => pool
          | some inp => removeWithin depth true inp.ptx pool) pool
      else pool
    pool.erase env tx

def remove (tx : CTransaction) (fRecursive : Bool) : CTxMemPool :=
  removeWithin env (pool.mapTx.length + 1) fRecursive tx pool

/-- **`CTxMemPool::removeConflicts`.** -/
def removeConflicts (tx : CTransaction) : CTxMemPool :=
  tx.vin.foldl (fun pool txin =>
    match pool.mapNextTx txin.prevout with
    | none => pool
    | some inp => if inp.ptx.same tx then pool else pool.remove env inp.ptx true) pool

/-- **`CTxMemPool::clear`.** -/
def clear (_ : CTxMemPool) : CTxMemPool := ⟨[], fun _ => none⟩

/-- `CCoinsViewMemPool`: the coins of the chain, and those that the pool would add. -/
def coinsView (base : CoinsView) : CoinsView := fun txid =>
  match base txid with
  | some coins => some coins
  | none => (pool.lookup env txid).map fun tx => CCoins.ofTx tx MEMPOOL_HEIGHT

end CTxMemPool

/-! ## `accept` -/

/-- A node with its memory pool. -/
structure PoolNode where
  node : Node
  pool : CTxMemPool

def Pending.insert (m : Pending) (vch : Bytes) (hash : Uint256) : Pending :=
  Function.update m vch (Insert.insert hash (m vch))

/-- `HexStr`, two lower-case digits for a byte. -/
def hexStr (vch : Bytes) : Bytes :=
  let digit (n : Nat) : UInt8 := UInt8.ofNat (if n < 10 then 48 + n else 87 + n)
  vch.flatMap fun b => [digit (b.toNat / 16), digit (b.toNat % 16)]

/-- Enter a transaction in the pending map of its operation. The operation is what `DecodeAliasTx` finds. -/
def Pendings.record (env : Env) (tx : CTransaction) (p : Pendings) : Pendings :=
  match decodeAliasTx tx with
  | none => p
  | some (op, _, vvch) =>
    let hash := env.getHash tx
    if op.isAliasOp then { p with mapAliasesPending := p.mapAliasesPending.insert (arg vvch 0) hash }
    else if op.isOfferOp then
      if op = .offerAccept ∨ op = .offerPay then
        { p with mapOfferAcceptPending := p.mapOfferAcceptPending.insert (arg vvch 1) hash }
      else
        { p with mapOfferPending :=
          p.mapOfferPending.insert (if op = .offerNew then hexStr (arg vvch 0) else arg vvch 0) hash }
    else if op.isCertOp then
      if op = .certTransfer then
        { p with mapCertItemPending := p.mapCertItemPending.insert (arg vvch 1) hash }
      else
        { p with mapCertIssuerPending :=
          p.mapCertIssuerPending.insert (if op = .certissuerNew then hexStr (arg vvch 0) else arg vvch 0) hash }
    else p

/-- How `accept` is called: whether it looks at the inputs and limits free transactions, and what the rate limiter,
    which runs on real time, has to say. -/
structure AcceptArgs where
  fCheckInputs : Bool
  fLimitFree : Bool
  fRateLimited : Bool
deriving DecidableEq, Repr

namespace PoolNode

variable (env : Env) (relay : Relay) (pindexBest : CBlockIndex) (args : AcceptArgs) (tx : CTransaction)

/-- What the input checks of the pool see. -/
def view (pn : PoolNode) : CoinsView := pn.pool.coinsView env pn.node.coinsTip

/-- The part of `accept` that looks at the inputs, up to the point where the transaction is entered as pending. -/
def precheckInputs (pn : PoolNode) : Except Reject Unit := do
  let view := pn.view env
  require ((view (env.getHash tx)).isNone = true) (error "")
  require (∀ txin ∈ tx.vin, (view txin.prevout.hash).isSome = true) (error "")
  require (tx.haveInputs view) (invalid "CTxMemPool::accept() : inputs already spent")
  require (tx.nVersion = SYSCOIN_TX_VERSION ∨ relay.areInputsStandard view tx = true ∨ env.fTestNet = true ∨
    env.fCakeNet = true) (error "CTxMemPool::accept() : nonstandard transaction input")
  let nFees := tx.getValueIn view - tx.getValueOut
  require (¬ (args.fLimitFree = true ∧ nFees < tx.getRelayFee relay))
    (error "CTxMemPool::accept() : not enough fees %s, %d < %d")
  require (¬ (args.fLimitFree = true ∧ nFees < relay.nMinRelayTxFee ∧ args.fRateLimited = true))
    (error "CTxMemPool::accept() : free transaction rejected by rate limiter")

/-- Everything `accept` checks before it writes. -/
def precheck (pn : PoolNode) : Except Reject Unit := do
  checkTransaction tx
  require (tx.isCoinBase = false) (DoS 100 "CTxMemPool::accept() : coinbase as individual tx")
  require (tx.nLockTime ≤ 2 ^ 31 - 1) (error "CTxMemPool::accept() : not accepting nLockTime beyond 2038 yet")
  require (env.fTestNet = true ∨ env.fCakeNet = true ∨ relay.isStandard tx = true)
    (error "CTxMemPool::accept() : nonstandard transaction (%s)")
  require ((pn.pool.lookup env (env.getHash tx)).isNone = true) (error "")
  require (∀ txin ∈ tx.vin, (pn.pool.mapNextTx txin.prevout).isNone = true) (error "")
  if args.fCheckInputs then precheckInputs env relay args tx pn else .ok ()

/-- The final `CheckInputs`, a mere check against `pindexBest`. -/
def checkPoolInputs (pn : PoolNode) : Except Reject (List CScriptCheck) × Store :=
  checkInputs (env.strictEnc relay) ⟨false, false, true⟩ pindexBest pindexBest tx (pn.view env)
    (pn.node.pindexBest.nHeight + 1) true true pn.node.store

/-- The pending maps are written. -/
def record (pn : PoolNode) : PoolNode :=
  { pn with node := { pn.node with store := pn.node.store.setPendings (pn.node.store.pendings.record env tx) } }

def addUnchecked (pn : PoolNode) : PoolNode := { pn with pool := pn.pool.addUnchecked tx }

/-- **`CTxMemPool::accept`.** The transaction is entered as pending before its inputs are checked. -/
def accept : Proc PoolNode Reject Unit := fun pn =>
  match precheck env relay args tx pn with
  | .error e => (.error e, pn)
  | .ok () =>
    if args.fCheckInputs then
      let pn := record env tx pn
      match checkPoolInputs env relay pindexBest tx pn with
      | (.error e, s) => (.error e, { pn with node := { pn.node with store := s } })
      | (.ok _, s) => (.ok (), addUnchecked tx { pn with node := { pn.node with store := s } })
    else (.ok (), addUnchecked tx pn)

def remove (fRecursive : Bool) (pn : PoolNode) : PoolNode := { pn with pool := pn.pool.remove env tx fRecursive }

def removeConflicts (pn : PoolNode) : PoolNode := { pn with pool := pn.pool.removeConflicts env tx }

/-! ## `SetBestChain` -/

/-- A disconnected transaction goes back to the pool; one that does not get in takes its dependents along. -/
def resurrect (pn : PoolNode) : PoolNode :=
  match accept env relay pindexBest ⟨true, false, false⟩ tx pn with
  | (.ok _, pn) => pn
  | (.error _, pn) => remove env tx true pn

/-- A connected transaction and what conflicts with it leave the pool. -/
def delete (pn : PoolNode) : PoolNode := removeConflicts env tx (remove env tx false pn)

end PoolNode

/-- `vResurrect`. -/
def vResurrect (env : Env) (node : Node) (pindexNew : CBlockIndex) : List CTransaction :=
  (disconnectedBy node pindexNew).flatMap fun pindex =>
    if env.getTotalBlocksEstimate < pindex.nHeight then pindex.block.vtx.filter (·.isCoinBase = false) else []

/-- `vDelete`. -/
def vDelete (node : Node) (pindexNew : CBlockIndex) : List CTransaction :=
  (connectedBy node pindexNew).flatMap fun pindex => pindex.block.vtx

namespace PoolNode

variable (env : Env) (relay : Relay)

def resurrectAll (pindexBest : CBlockIndex) (txs : List CTransaction) (pn : PoolNode) : PoolNode :=
  txs.foldl (fun pn tx => resurrect env relay pindexBest tx pn) pn

def deleteAll (txs : List CTransaction) (pn : PoolNode) : PoolNode := txs.foldl (fun pn tx => delete env tx pn) pn

/-- **`SetBestChain`** with the memory pool. The pool is brought up to date before `pindexBest` moves. -/
def setBestChain (nNow : Nat) (fFlush : Bool) (pindexNew : CBlockIndex) : Proc PoolNode Reject Unit := fun pn =>
  match Syscoin.setBestChain env ⟨nNow, fFlush, id⟩ pindexNew pn.node with
  | (.error e, node) => (.error e, { pn with node := node })
  | (.ok _, node) =>
    let pn' := resurrectAll env relay pn.node.pindexBest (vResurrect env pn.node pindexNew) { pn with node := node }
    (.ok (), deleteAll env (vDelete pn.node pindexNew) pn')

end PoolNode

/-! ## Checks that do not write -/

section Unwritten

variable {env : Env} {m : Mode} {pindexBest pindexBlock : CBlockIndex} {tx : CTransaction} {inputs : CoinsView}
  {pool : TestPool}

theorem checkAliasInputs_unwritten {s : AliasState} {r : AliasState × TestPool}
    (hm : ¬ m.writes pindexBlock pindexBest)
    (h : checkAliasInputs env m pindexBest pindexBlock tx inputs s pool = .ok r) : r = (s, pool) := by
  unfold checkAliasInputs at h
  split at h
  · exact (Except.ok.inj h).symm
  · dsimp only at h
    split at h
    · exact (Except.ok.inj (require_bind_ok_iff.mp h).2).symm
    · split at h
      · cases h
      · obtain ⟨_, -, h⟩ := Except.bind_ok_iff.mp h
        split at h
        · exact (Except.ok.inj h).symm
        · rw [if_neg fun hw => hm hw.2] at h
          exact (Except.ok.inj h).symm

theorem checkOfferInputs_unwritten {s : OfferState} {r : OfferState × TestPool}
    (hm : ¬ m.writes pindexBlock pindexBest)
    (h : checkOfferInputs env m pindexBest pindexBlock tx inputs s pool = .ok r) : r = (s, pool) := by
  unfold checkOfferInputs at h
  split at h
  · exact (Except.ok.inj h).symm
  · dsimp only at h
    split at h
    · exact (Except.ok.inj (require_bind_ok_iff.mp h).2).symm
    · split at h
      · cases h
      · obtain ⟨_, -, h⟩ := Except.bind_ok_iff.mp (require_bind_ok_iff.mp h).2
        rw [if_neg fun hw => hm hw.2] at h
        exact (Except.ok.inj h).symm

theorem checkCertInputs_unwritten {s : CertState} {r : CertState × TestPool}
    (hm : ¬ m.writes pindexBlock pindexBest)
    (h : checkCertInputs env m pindexBest pindexBlock tx inputs s pool = .ok r) : r = (s, pool) := by
  unfold checkCertInputs at h
  split at h
  · exact (Except.ok.inj h).symm
  · dsimp only at h
    split at h
    · exact (Except.ok.inj (require_bind_ok_iff.mp h).2).symm
    · split at h
      · cases h
      · obtain ⟨_, -, h⟩ := Except.bind_ok_iff.mp (require_bind_ok_iff.mp h).2
        rw [if_neg fun hw => hm hw.2] at h
        exact (Except.ok.inj h).symm

/-- The store is equal before and after. -/
def SameStore (s s' : Store) : Prop := s' = s

theorem SameStore.refl (s : Store) : SameStore s s := rfl

theorem SameStore.trans ⦃s₁ s₂ s₃ : Store⦄ (h : SameStore s₁ s₂) (h' : SameStore s₂ s₃) : SameStore s₁ s₃ :=
  Eq.trans h' h

theorem aliasRules_unwritten (hm : ¬ m.writes pindexBlock pindexBest) :
    Proc.Keeps SameStore (aliasRules env m pindexBest pindexBlock tx inputs) := by
  refine .update SameStore.refl ?_
  intro s s' h
  split at h
  · obtain ⟨r, hcheck, h⟩ := Except.bind_ok_iff.mp h
    rw [checkAliasInputs_unwritten hm hcheck] at h
    exact (Except.ok.inj h).symm
  · exact (Except.ok.inj h).symm

theorem offerRules_unwritten (hm : ¬ m.writes pindexBlock pindexBest) :
    Proc.Keeps SameStore (offerRules env m pindexBest pindexBlock tx inputs) := by
  refine .update SameStore.refl ?_
  intro s s' h
  split at h
  · obtain ⟨r, hcheck, h⟩ := Except.bind_ok_iff.mp h
    rw [checkOfferInputs_unwritten hm hcheck] at h
    exact (Except.ok.inj h).symm
  · exact (Except.ok.inj h).symm

theorem certRules_unwritten (hm : ¬ m.writes pindexBlock pindexBest) :
    Proc.Keeps SameStore (certRules env m pindexBest pindexBlock tx inputs) := by
  refine .update SameStore.refl ?_
  intro s s' h
  split at h
  · obtain ⟨r, hcheck, h⟩ := Except.bind_ok_iff.mp h
    rw [checkCertInputs_unwritten hm hcheck] at h
    exact (Except.ok.inj h).symm
  · exact (Except.ok.inj h).symm

/-- **`CheckInputs` of a caller that does not write** leaves the store as it is, whatever it returns. -/
theorem checkInputs_unwritten {nSpendHeight : Nat} {fScript fP2SH : Bool} (hm : ¬ m.writes pindexBlock pindexBest) :
    Proc.Keeps SameStore (checkInputs env m pindexBest pindexBlock tx inputs nSpendHeight fScript fP2SH) := by
  unfold checkInputs
  split
  · exact SameStore.refl
  · exact checkSpend_keeps SameStore.refl SameStore.trans (aliasRules_unwritten hm) (offerRules_unwritten hm)
      (certRules_unwritten hm)

end Unwritten

namespace PoolNode

variable (env : Env) (relay : Relay) (pindexBest : CBlockIndex) (args : AcceptArgs) (tx : CTransaction)

theorem checkPoolInputs_store (pn : PoolNode) : (checkPoolInputs env relay pindexBest tx pn).2 = pn.node.store :=
  checkInputs_unwritten (m := ⟨false, false, true⟩) (by simp [Mode.writes]) pn.node.store

/-- The final check lets the transaction through. -/
def PoolInputsOk (pn : PoolNode) : Prop := (checkPoolInputs env relay pindexBest tx pn).1.isOk = true

instance (pn : PoolNode) : Decidable (PoolInputsOk env relay pindexBest tx pn) := inferInstanceAs (Decidable (_ = true))

/-- **What `accept` does**: nothing, or it takes the transaction in unseen, or it enters it as pending and then takes
    it in or not. -/
theorem accept_cases (pn : PoolNode) :
    (∃ e, precheck env relay args tx pn = .error e ∧ accept env relay pindexBest args tx pn = (.error e, pn)) ∨
    (precheck env relay args tx pn = .ok () ∧ args.fCheckInputs = false ∧
      accept env relay pindexBest args tx pn = (.ok (), addUnchecked tx pn)) ∨
    (precheck env relay args tx pn = .ok () ∧ args.fCheckInputs = true ∧
      ¬ PoolInputsOk env relay pindexBest tx (record env tx pn) ∧
      ∃ e, accept env relay pindexBest args tx pn = (.error e, record env tx pn)) ∨
    (precheck env relay args tx pn = .ok () ∧ args.fCheckInputs = true ∧
      PoolInputsOk env relay pindexBest tx (record env tx pn) ∧
      accept env relay pindexBest args tx pn = (.ok (), addUnchecked tx (record env tx pn))) := by
  have hstore := checkPoolInputs_store env relay pindexBest tx (record env tx pn)
  cases hpre : precheck env relay args tx pn with
  | error e =>
    refine .inl ⟨e, rfl, ?_⟩
    simp only [accept, hpre]
  | ok _ =>
    refine .inr ?_
    cases hargs : args.fCheckInputs with
    | false =>
      refine .inl ⟨rfl, rfl, ?_⟩
      simp [accept, hpre, hargs]
    | true =>
      refine .inr ?_
      unfold PoolInputsOk
      rcases hcheck : checkPoolInputs env relay pindexBest tx (record env tx pn) with ⟨e | checks, s⟩
      · rw [hcheck] at hstore
        refine .inl ⟨rfl, rfl, Bool.false_ne_true, e, ?_⟩
        simp only [accept, hpre, hargs, if_true, hcheck]
        rw [show s = (record env tx pn).node.store from hstore]
      · rw [hcheck] at hstore
        refine .inr ⟨rfl, rfl, rfl, ?_⟩
        simp only [accept, hpre, hargs, if_true, hcheck]
        rw [show s = (record env tx pn).node.store from hstore]

/-! ## The pool and the node -/

/-- Two nodes that differ in their pending maps at most. -/
def SameNode (node node' : Node) : Prop := ∃ p, node' = { node with store := node.store.setPendings p }

theorem SameNode.refl (node : Node) : SameNode node node := ⟨node.store.pendings, rfl⟩

theorem SameNode.trans {node₁ node₂ node₃ : Node} (h : SameNode node₁ node₂) (h' : SameNode node₂ node₃) :
    SameNode node₁ node₃ := by
  obtain ⟨p, rfl⟩ := h
  obtain ⟨p', rfl⟩ := h'
  exact ⟨p', rfl⟩

theorem accept_node (pn : PoolNode) : SameNode pn.node (accept env relay pindexBest args tx pn).2.node := by
  rcases accept_cases env relay pindexBest args tx pn with ⟨e, -, h⟩ | ⟨-, -, h⟩ | ⟨-, -, -, e, h⟩ | ⟨-, -, -, h⟩
  · rw [h]; exact .refl _
  · rw [h]; exact .refl _
  · rw [h]; exact ⟨_, rfl⟩
  · rw [h]; exact ⟨_, rfl⟩

theorem resurrectAll_node (txs : List CTransaction) (pn : PoolNode) :
    SameNode pn.node (resurrectAll env relay pindexBest txs pn).node := by
  induction txs generalizing pn with
  | nil => exact .refl _
  | cons tx txs ih =>
    refine SameNode.trans ?_ (ih (resurrect env relay pindexBest tx pn))
    have hnode := accept_node env relay pindexBest ⟨true, false, false⟩ tx pn
    unfold resurrect
    split
    · rename_i hacc
      rw [hacc] at hnode
      exact hnode
    · rename_i hacc
      rw [hacc] at hnode
      exact hnode

theorem deleteAll_node (txs : List CTransaction) (pn : PoolNode) : (deleteAll env txs pn).node = pn.node := by
  induction txs generalizing pn with
  | nil => rfl
  | cons tx txs ih => exact ih (delete env tx pn)

/-- **The node's part of a call** is `SetBestChain` in surroundings that do to the pending maps what the pool does. -/
theorem setBestChain_node (nNow : Nat) (fFlush : Bool) (pindexNew : CBlockIndex) (pn : PoolNode) :
    ∃ mempool, (setBestChain env relay nNow fFlush pindexNew pn).2.node =
      (Syscoin.setBestChain env ⟨nNow, fFlush, mempool⟩ pindexNew pn.node).2 := by
  unfold setBestChain Syscoin.setBestChain
  cases hfork : pindexNew.findFork pn.node.pindexBest.block pn.node.pindexBest.ancestors with
  | none => exact ⟨id, rfl⟩
  | some pfork =>
    dsimp only
    rcases hrun : reorganize env ⟨nNow, fFlush, id⟩ pn.node.pindexBest pfork pindexNew
      ⟨pn.node.coinsTip, some pn.node.pindexBest⟩ pn.node.store with ⟨e | view, s⟩
    · refine ⟨id, ?_⟩
      rw [hrun]
    · -- what the pool leaves of the pending maps does not depend on what it found
      obtain ⟨p, hp⟩ := resurrectAll_node env relay pn.node.pindexBest (vResurrect env pn.node pindexNew)
        { pn with node := commit ⟨nNow, fFlush, id⟩ pindexNew view s }
      refine ⟨fun _ => p, ?_⟩
      have hsame : reorganize env ⟨nNow, fFlush, fun _ => p⟩ pn.node.pindexBest pfork pindexNew
          ⟨pn.node.coinsTip, some pn.node.pindexBest⟩ pn.node.store = (.ok view, s) := hrun
      rw [hsame]
      dsimp only
      rw [deleteAll_node, hp]
      rfl

end PoolNode

/-! ## What leaves the pool -/

namespace CTxMemPool

variable {env : Env} {pool pool' : CTxMemPool} {tx : CTransaction}

@[simp] theorem lookup_erase {hash : Uint256} :
    (pool.erase env tx).lookup env hash = if hash = env.getHash tx then none else pool.lookup env hash := by
  unfold erase
  split
  · rw [lookup, List.find?_filter]
    split
    · rename_i heq
      rw [List.find?_eq_none]
      intro t _
      simp [heq]
    · rename_i hne
      rw [lookup]
      congr 1
      funext t
      by_cases ht : env.getHash t = hash
      · simp [ht, hne]
      · simp [ht]
  · rename_i hnone
    split
    · rename_i heq
      rw [heq]
      simpa using hnone
    · rfl

theorem lookup_addUnchecked {hash : Uint256} :
    (pool.addUnchecked tx).lookup env hash = if env.getHash tx = hash then some tx else pool.lookup env hash := by
  unfold addUnchecked lookup
  rw [List.find?_cons]
  by_cases h : env.getHash tx = hash
  · simp [h]
  · simp [h]

/-- From `pool` to `pool'` nothing was added, and only transactions with the hash of an `R` were lost. -/
structure Sheds (env : Env) (R : CTransaction → Prop) (pool pool' : CTxMemPool) : Prop where
  sub : ∀ hash t, pool'.lookup env hash = some t → pool.lookup env hash = some t
  next : ∀ o inp, pool'.mapNextTx o = some inp → pool.mapNextTx o = some inp
  kept : ∀ hash t, pool.lookup env hash = some t →
    pool'.lookup env hash = some t ∨ ∃ tx, R tx ∧ env.getHash tx = hash

variable {R R' : CTransaction → Prop}

theorem Sheds.refl (pool : CTxMemPool) : Sheds env R pool pool :=
  ⟨fun _ _ h => h, fun _ _ h => h, fun _ _ h => .inl h⟩

theorem Sheds.trans {pool₁ pool₂ pool₃ : CTxMemPool} (h : Sheds env R pool₁ pool₂) (h' : Sheds env R pool₂ pool₃) :
    Sheds env R pool₁ pool₃ := by
  refine ⟨fun hash t ht => h.sub hash t (h'.sub hash t ht), fun o t ht => h.next o t (h'.next o t ht),
    fun hash t ht => ?_⟩
  rcases h.kept hash t ht with ht | hlost
  · exact h'.kept hash t ht
  · exact .inr hlost

theorem Sheds.mono (hR : ∀ t, R t → R' t) (h : Sheds env R pool pool') : Sheds env R' pool pool' :=
  ⟨h.sub, h.next, fun hash t ht => (h.kept hash t ht).imp_right fun ⟨tx, htx, hhash⟩ => ⟨tx, hR tx htx, hhash⟩⟩

theorem erase_sheds (pool : CTxMemPool) (tx : CTransaction) : Sheds env (· = tx) pool (pool.erase env tx) := by
  refine ⟨fun hash t ht => ?_, fun o t ht => ?_, fun hash t ht => ?_⟩
  · rw [lookup_erase] at ht
    split at ht
    · cases ht
    · exact ht
  · unfold erase at ht
    split at ht
    · dsimp only at ht
      split at ht
      · cases ht
      · exact ht
    · exact ht
  · rw [lookup_erase]
    by_cases h : hash = env.getHash tx
    · exact .inr ⟨tx, rfl, h.symm⟩
    · rw [if_neg h]
      exact .inl ht

/-- The transactions of the pool that depend on `tx`, and `tx` itself. -/
inductive Reaches (env : Env) (pool : CTxMemPool) (tx : CTransaction) : CTransaction → Prop where
  | self : Reaches env pool tx tx
  | next {t : CTransaction} {inp : CInPoint} {i : Nat} (h : Reaches env pool tx t)
      (hnext : pool.mapNextTx ⟨env.getHash t, i⟩ = some inp) : Reaches env pool tx inp.ptx

theorem Reaches.trans {tx₁ tx₂ tx₃ : CTransaction} (h : Reaches env pool tx₁ tx₂) (h' : Reaches env pool tx₂ tx₃) :
    Reaches env pool tx₁ tx₃ := by
  induction h' with
  | self => exact h
  | next _ hnext ih => exact .next ih hnext

theorem Reaches.of_sheds {t : CTransaction} (hsheds : Sheds env R pool pool') (h : Reaches env pool' tx t) :
    Reaches env pool tx t := by
  induction h with
  | self => exact .self
  | next _ hnext ih => exact .next ih (hsheds.next _ _ hnext)

theorem removeWithin_sheds (depth : Nat) (fRecursive : Bool) (tx : CTransaction) (pool : CTxMemPool) :
    Sheds env (fun t => t = tx ∨ (fRecursive = true ∧ Reaches env pool tx t)) pool
      (removeWithin env depth fRecursive tx pool) := by
  induction depth generalizing fRecursive tx pool with
  | zero => exact .refl pool
  | succ depth ih =>
    unfold removeWithin
    have herase : ∀ p : CTxMemPool, Sheds env (fun t => t = tx ∨ (fRecursive = true ∧ Reaches env pool tx t)) p
        (p.erase env tx) := fun p => (erase_sheds p tx).mono fun t ht => .inl ht
    refine Sheds.trans ?_ (herase _)
    split
    · rename_i hrec
      -- along the loop, whatever is lost depends on `tx` in the pool the call started from
      refine Sheds.mono (fun t ht => .inr ⟨hrec, ht⟩) ?_
      refine List.foldlRecOn (motive := Sheds env (Reaches env pool tx) pool) _ _ (.refl pool) fun p hp i _ => ?_
      split
      · exact hp
      · rename_i inp hnext
        have hptx : Reaches env pool tx inp.ptx := .next .self (hp.next _ _ hnext)
        refine hp.trans ((ih true inp.ptx p).mono fun t ht => ?_)
        rcases ht with rfl | ⟨-, ht⟩
        · exact hptx
        · exact hptx.trans (ht.of_sheds hp)
    · exact .refl pool

theorem remove_sheds (pool : CTxMemPool) (tx : CTransaction) (fRecursive : Bool) :
    Sheds env (fun t => t = tx ∨ (fRecursive = true ∧ Reaches env pool tx t)) pool (pool.remove env tx fRecursive) :=
  removeWithin_sheds _ _ _ _

theorem lookup_remove_self (pool : CTxMemPool) (tx : CTransaction) (fRecursive : Bool) :
    (pool.remove env tx fRecursive).lookup env (env.getHash tx) = none := by
  unfold remove removeWithin
  rw [lookup_erase, if_pos rfl]

/-- `t` conflicts with `tx`, or depends on one that does. -/
def Conflicts (env : Env) (pool : CTxMemPool) (tx t : CTransaction) : Prop :=
  ∃ txin ∈ tx.vin, ∃ inp, pool.mapNextTx txin.prevout = some inp ∧ ¬ inp.ptx.same tx ∧ Reaches env pool inp.ptx t

theorem removeConflicts_sheds (pool : CTxMemPool) (tx : CTransaction) :
    Sheds env (Conflicts env pool tx) pool (pool.removeConflicts env tx) := by
  unfold removeConflicts
  refine List.foldlRecOn (motive := Sheds env (Conflicts env pool tx) pool) _ _ (.refl pool) fun p hp txin hin => ?_
  split
  · exact hp
  · rename_i inp hnext
    split
    · exact hp
    · rename_i hdiff
      refine hp.trans ((remove_sheds p inp.ptx true).mono fun t ht => ⟨txin, hin, inp, hp.next _ _ hnext, hdiff, ?_⟩)
      rcases ht with rfl | ⟨-, ht⟩
      · exact .self
      · exact ht.of_sheds hp

end CTxMemPool

/-! ## Sequences of operations -/

/-- An operation on the pool. `accept` runs on whatever node and best block there are at the time. -/
inductive MempoolOp where
  | accept (relay : Relay) (pindexBest : CBlockIndex) (node : Node) (args : AcceptArgs) (tx : CTransaction)
  | remove (tx : CTransaction) (fRecursive : Bool)
  | removeConflicts (tx : CTransaction)
  | clear

namespace CTxMemPool

/-- The pool after an operation, whatever the operation returned. -/
def apply (env : Env) (pool : CTxMemPool) : MempoolOp → CTxMemPool
  | .accept relay pindexBest node args tx => (PoolNode.accept env relay pindexBest args tx ⟨node, pool⟩).2.pool
  | .remove tx fRecursive => pool.remove env tx fRecursive
  | .removeConflicts tx => pool.removeConflicts env tx
  | .clear => pool.clear

/-- The pool after a sequence of operations on an empty one. -/
def run (env : Env) (ops : List MempoolOp) : CTxMemPool := ops.foldl (apply env) empty

/-- What an acceptance does to the pool: nothing, or the transaction is added after its checks. -/
theorem accept_pool (env : Env) (relay : Relay) (pindexBest : CBlockIndex) (args : AcceptArgs) (tx : CTransaction)
    (pn : PoolNode) :
    (PoolNode.accept env relay pindexBest args tx pn).2.pool = pn.pool ∨
      (PoolNode.precheck env relay args tx pn = .ok () ∧
        (PoolNode.accept env relay pindexBest args tx pn).2.pool = pn.pool.addUnchecked tx) := by
  rcases PoolNode.accept_cases env relay pindexBest args tx pn with
    ⟨e, -, h⟩ | ⟨hpre, -, h⟩ | ⟨-, -, -, e, h⟩ | ⟨hpre, -, -, h⟩
  · exact .inl (by rw [h])
  · exact .inr ⟨hpre, by rw [h]; rfl⟩
  · exact .inl (by rw [h]; rfl)
  · exact .inr ⟨hpre, by rw [h]; rfl⟩

end CTxMemPool

end Syscoin

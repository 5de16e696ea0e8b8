import Syscoin.Services.Cert

/-!
# `Chain.Connect` — `CheckInputs`, `GetBlockValue`, `CheckBlock` and `ConnectBlock`

A block is connected against a coin view that can be thrown away and a `Store` that cannot: the alias, offer
and certificate databases with their fee lists are written by the input checks themselves, one transaction at a
time. `ConnectBlock` is therefore a `Proc` over the store. When it fails, the view is dropped by the caller and
the store keeps whatever the transactions before the failure wrote.

Undo data and the transaction index are part of the store as well. Disk operations succeed.
-/

namespace Syscoin

open Lib

/-- The state that outlives a failed block: the service databases, the test pool that `ConnectBlock` shares
    between calls, the undo data of every block connected so far and the transaction index. -/
structure Store where
  aliasdb : AliasState
  offerdb : OfferState
  certdb : CertState
  dummyTestPool : TestPool
  undo : CBlockIndex → Option CBlockUndo
  txIndex : Uint256 → Bool

/-- A coin view with its best block. -/
structure CoinsCache where
  coins : CoinsView
  best : Option CBlockIndex

/-- A queued signature check. -/
structure CScriptCheck where
  scriptPubKey : CScript
  tx : CTransaction
  nIn : Nat
  fP2SH : Bool
deriving DecidableEq, Repr

def CScriptCheck.run (env : Env) (check : CScriptCheck) : Bool :=
  match check.tx.vin[check.nIn]? with
  | none => false
  | some txin => env.verifyScript txin.scriptSig check.scriptPubKey check.tx check.nIn check.fP2SH

/-! ## `CheckInputs` -/

/-- Maturity and range of the inputs, with the running total. -/
def checkTxIns (env : Env) (inputs : CoinsView) (nSpendHeight : Nat) : Int → List CTxIn → Except Reject Int
  | nValueIn, [] => .ok nValueIn
  | nValueIn, txin :: vin => do
    let coins := inputs.getCoins txin.prevout.hash
    require (coins.fCoinBase = true → ¬ ((nSpendHeight : Int) - coins.nHeight <
        if env.fTestNet || env.fCakeNet then 8 else COINBASE_MATURITY))
      (invalid "CheckInputs() : tried to spend coinbase at depth %d")
    let nValue := (inputs.output txin.prevout).nValue
    require (moneyRange nValue ∧ moneyRange (nValueIn + nValue))
      (DoS 100 "CheckInputs() : txin values out of range")
    checkTxIns env inputs nSpendHeight (nValueIn + nValue) vin

/-- The amounts: inputs cover outputs, and the difference covers the minimum fee. -/
def checkTxFee (env : Env) (tx : CTransaction) (nValueIn : Int) : Except Reject Unit := do
  require (tx.getValueOut ≤ nValueIn) (DoS 100 "CheckInputs() : %s value in < value out")
  let nTxFee := nValueIn - tx.getValueOut
  require (0 ≤ nTxFee) (DoS 100 "CheckInputs() : %s nTxFee < 0")
  require (tx.getMinFee env ≤ nTxFee) (DoS 100 "CheckInputs() : %s not paying required fee=%s, paid=%s")
  require (moneyRange nTxFee) (DoS 100 "CheckInputs() : nFees out of range")

/-- The signature checks of a transaction, in input order. -/
def scriptChecks (inputs : CoinsView) (tx : CTransaction) (fP2SH : Bool) : List CScriptCheck :=
  tx.vin.mapIdx fun i txin => ⟨(inputs.output txin.prevout).scriptPubKey, tx, i, fP2SH⟩

/-- Queue the signature checks for the worker threads, or run them here when there are none. -/
def checkScripts (env : Env) (inputs : CoinsView) (tx : CTransaction) (fScriptChecks fP2SH : Bool) :
    Except Reject (List CScriptCheck) :=
  if fScriptChecks = false then .ok []
  else if env.nScriptCheckThreads = 0 then do
    require ((scriptChecks inputs tx fP2SH).all (·.run env) = true) (DoS 100 "")
    .ok []
  else .ok (scriptChecks inputs tx fP2SH)

section CheckInputs

variable (env : Env) (m : Mode) (pindexBest pindex : CBlockIndex) (tx : CTransaction) (inputs : CoinsView)

/-- The alias rules, applied iff the transaction has an alias output. -/
def aliasRules : Proc Store Reject Unit := Proc.update fun s =>
  if (decodeAliasTx tx).isSome = true then do
    let (aliasdb, pool) ← checkAliasInputs env m pindexBest pindex tx inputs s.aliasdb s.dummyTestPool
    .ok { s with aliasdb := aliasdb, dummyTestPool := pool }
  else .ok s

/-- The offer rules, applied iff the transaction has an offer output. -/
def offerRules : Proc Store Reject Unit := Proc.update fun s =>
  if (decodeOfferTx tx).isSome = true then do
    let (offerdb, pool) ← checkOfferInputs env m pindexBest pindex tx inputs s.offerdb s.dummyTestPool
    .ok { s with offerdb := offerdb, dummyTestPool := pool }
  else .ok s

/-- The certificate rules, applied iff the transaction has a certificate output. -/
def certRules : Proc Store Reject Unit := Proc.update fun s =>
  if (decodeCertTx tx).isSome = true then do
    let (certdb, pool) ← checkCertInputs env m pindexBest pindex tx inputs s.certdb s.dummyTestPool
    .ok { s with certdb := certdb, dummyTestPool := pool }
  else .ok s

/-- **`CTransaction::CheckInputs`** for a transaction that is not a coinbase. The service rules run, and
    write, before the amounts and the signatures are looked at. -/
def checkSpend (nSpendHeight : Nat) (fScriptChecks fP2SH : Bool) : Proc Store Reject (List CScriptCheck) := do
  Proc.lift (require (tx.haveInputs inputs) (invalid "CheckInputs() : %s inputs unavailable"))
  let nValueIn ← Proc.lift (checkTxIns env inputs nSpendHeight 0 tx.vin)
  aliasRules env m pindexBest pindex tx inputs
  offerRules env m pindexBest pindex tx inputs
  certRules env m pindexBest pindex tx inputs
  Proc.lift (checkTxFee env tx nValueIn)
  Proc.lift (checkScripts env inputs tx fScriptChecks fP2SH)

/-- **`CTransaction::CheckInputs`.** A coinbase passes unexamined. -/
def checkInputs (nSpendHeight : Nat) (fScriptChecks fP2SH : Bool) : Proc Store Reject (List CScriptCheck) :=
  if tx.isCoinBase then Proc.pure []
  else checkSpend env m pindexBest pindex tx inputs nSpendHeight fScriptChecks fP2SH

end CheckInputs

/-! ## The block reward -/

def hardforkLaunch : Nat := 1660
def MM_FEEREGEN_HARDFORK : Nat := 17000

/-- The base subsidy of a height. -/
def blockSubsidy (env : Env) (nHeight : Nat) : Int :=
  if nHeight = 0 then 1024 * COIN
  else if nHeight = 1 then 364222858 * COIN
  else if 259440 < nHeight ∧ nHeight ≤ 777840 then 96 * COIN
  else if 777840 < nHeight ∧ nHeight ≤ 1814640 then 80 * COIN
  else if 1814640 < nHeight ∧ nHeight ≤ 3369840 then 64 * COIN
  else if 3369840 < nHeight ∧ nHeight ≤ 5443440 then 48 * COIN
  else if 5443440 < nHeight ∧ nHeight ≤ 8035440 then 40 * COIN
  else if 8035440 < nHeight ∧ nHeight ≤ 35913640 then 32 * COIN
  else if (env.fTestNet = false ∧ env.fCakeNet = false) ∧ (35913640 < nHeight ∨ nHeight < 241) then 0
  else if (env.fTestNet = true ∨ env.fCakeNet = true) ∧ 35913640 < nHeight then 0
  else 128 * COIN

/-- **`GetBlockValue`.** The three fee subsidies are computed at every height and added at some. -/
def getBlockValue (env : Env) (s : Store) (nHeight : Nat) (nFees : Int) : Except Reject Int := do
  let b ← getAliasFeeSubsidy nHeight s.aliasdb.lstAliasFees
  let c ← getOfferFeeSubsidy nHeight s.offerdb.lstOfferFees
  let d ← getCertFeeSubsidy nHeight s.certdb.lstCertIssuerFees
  let value := blockSubsidy env nHeight + nFees
  .ok (if nHeight < hardforkLaunch ∨ MM_FEEREGEN_HARDFORK ≤ nHeight ∨ env.fCakeNet = true ∨ env.fTestNet = true
    then value + ((b : Int).bmod (2 ^ 64) + (c : Int).bmod (2 ^ 64) + (d : Int).bmod (2 ^ 64)) else value)

/-! ## `CheckBlock` -/

/-- **`CheckBlock`**, at the adjusted time `nNow`. -/
def checkBlock (env : Env) (nNow : Nat) (pindex : CBlockIndex) (fCheckPOW fCheckMerkleRoot : Bool) :
    Except Reject Unit := do
  let block := pindex.block
  require (block.vtx ≠ [] ∧ block.vtx.length ≤ MAX_BLOCK_SIZE ∧ block.getSerializeSize ≤ MAX_BLOCK_SIZE)
    (DoS 100 "CheckBlock() : size limits failed")
  require (fCheckPOW = true → env.checkProofOfWork block pindex.nHeight = true)
    (DoS 50 "CheckBlock() : proof of work failed")
  require (block.nTime ≤ nNow + 2 * 60 * 60) (invalid "CheckBlock() : block timestamp too far in the future")
  require (∀ tx ∈ block.vtx.head?, tx.isCoinBase = true) (DoS 100 "CheckBlock() : first tx is not coinbase")
  require (∀ tx ∈ block.vtx.tail, tx.isCoinBase = false) (DoS 100 "CheckBlock() : more than one coinbase")
  block.vtx.forM checkTransaction
  require (block.vtx.map env.getHash).Nodup (DoS 100 "CheckBlock() : duplicate transaction")
  require ((block.vtx.map (·.getLegacySigOpCount)).sum ≤ MAX_BLOCK_SIGOPS)
    (DoS 100 "CheckBlock() : out-of-bounds SigOpCount")
  require (fCheckMerkleRoot = true → block.hashMerkleRoot = block.buildMerkleTree env)
    (DoS 100 "CheckBlock() : hashMerkleRoot mismatch")

/-! ## `ConnectBlock` -/

/-- The local variables of the transaction loop. -/
structure ConnectAcc where
  view : CoinsView
  nFees : Int
  nSigOps : Nat
  checks : List CScriptCheck
  blockundo : CBlockUndo

section ConnectBlock

variable (env : Env) (fJustCheck : Bool) (pindexBest pindex : CBlockIndex)

def fScriptChecks : Bool := env.getTotalBlocksEstimate ≤ pindex.nHeight

/-- Pay-to-script-hash from the first of October 2012 on. -/
def fStrictPayToScriptHash : Bool := 1349049600 ≤ pindex.nTime

/-- The signature operations of a spending transaction that go over the block's limit or not. -/
def p2shSigOps (acc : ConnectAcc) (tx : CTransaction) : Nat :=
  if fStrictPayToScriptHash pindex then tx.getP2SHSigOpCount acc.view else 0

/-- Move on to the next transaction: coins updated, undo recorded, checks queued. -/
def finishTx (acc : ConnectAcc) (tx : CTransaction) (nFees : Int) (nSigOps : Nat) (vChecks : List CScriptCheck) :
    Except Reject ConnectAcc := do
  let (view, txundo) ← updateCoins env tx pindex.nHeight acc.view
  .ok {
    view := view
    nFees := nFees
    nSigOps := nSigOps
    checks := acc.checks ++ vChecks
    blockundo := if tx.isCoinBase then acc.blockundo else acc.blockundo ++ [txundo] }

/-- `nFees += nTxFee` on 64 bits. The fee of a transaction that has passed is within the money range, but nothing bounds
    their sum; overflow has no defined result, so the model stops there. -/
def addFee (nFees nTxFee : Int) : Except Reject Int := do
  require (nFees + nTxFee < 2 ^ 63) (crash "nFees += tx.GetValueIn(view) - tx.GetValueOut()")
  .ok (nFees + nTxFee)

/-- A transaction that spends: inputs present, signature operations within the limit, `CheckInputs`. -/
def connectSpend (acc : ConnectAcc) (tx : CTransaction) (nSigOps : Nat) : Proc Store Reject ConnectAcc := do
  Proc.lift (require (tx.haveInputs acc.view) (DoS 100 "ConnectBlock() : inputs missing/spent"))
  Proc.lift (require (nSigOps + p2shSigOps pindex acc tx ≤ MAX_BLOCK_SIGOPS)
    (DoS 100 "ConnectBlock() : too many sigops"))
  let vChecks ← checkInputs env ⟨true, false, fJustCheck⟩ pindexBest pindex tx acc.view pindex.nHeight
    (fScriptChecks env pindex) (fStrictPayToScriptHash pindex)
  Proc.lift (do
    let nFees ← addFee acc.nFees (tx.getValueIn acc.view - tx.getValueOut)
    finishTx env pindex acc tx nFees (nSigOps + p2shSigOps pindex acc tx) vChecks)

/-- One iteration of the transaction loop. -/
def connectTx (acc : ConnectAcc) (tx : CTransaction) : Proc Store Reject ConnectAcc := do
  Proc.lift (require (acc.nSigOps + tx.getLegacySigOpCount ≤ MAX_BLOCK_SIGOPS)
    (DoS 100 "ConnectBlock() : too many sigops"))
  if tx.isCoinBase then
    Proc.lift (finishTx env pindex acc tx acc.nFees (acc.nSigOps + tx.getLegacySigOpCount) [])
  else
    connectSpend env fJustCheck pindexBest pindex acc tx (acc.nSigOps + tx.getLegacySigOpCount)

/-- What precedes the loop: `CheckBlock`, the parent, and no transaction that overwrites an unspent one. -/
def connectPrologue (nNow : Nat) (view : CoinsCache) : Except Reject Unit := do
  checkBlock env nNow pindex (!fJustCheck) (!fJustCheck)
  require (pindex.pprev = view.best) (crash "assert(pindex->pprev == view.GetBestBlock())")
  require (env.getBlockHash pindex.block = env.hashGenesisBlock ∨
      ∀ tx ∈ pindex.block.vtx, ∀ coins ∈ view.coins (env.getHash tx), coins.isPruned)
    (DoS 100 "ConnectBlock() : tried to overwrite transaction")

/-- The coinbase may claim the block value; below `hardforkLaunch` nine times as much, and below 1500 anything. -/
def checkReward (nFees : Int) (s : Store) : Except Reject Unit := do
  let bValue ← getBlockValue env s pindex.nHeight nFees
  let bValue := if pindex.nHeight < hardforkLaunch then bValue + bValue * 8 else bValue
  require (¬ (0 ≤ nFees ∧ bValue < (pindex.block.vtx.head?.map (·.getValueOut)).getD 0 ∧ 1500 < pindex.nHeight))
    (DoS 100 "ConnectBlock() : coinbase pays too much for %d (actual=%d vs limit=%d)")

/-- Undo data is written once for a block, the transaction index every time. -/
def writeBlock (blockundo : CBlockUndo) (s : Store) : Store :=
  { s with
    undo := if (s.undo pindex).isSome = true then s.undo else Function.update s.undo pindex (some blockundo)
    txIndex := if env.fTxIndex then fun hash => s.txIndex hash || pindex.block.vtx.any (env.getHash · = hash)
      else s.txIndex }

/-- What follows the loop. Negative total fees end the function early with a true result. -/
def connectEpilogue (view : CoinsCache) (acc : ConnectAcc) : Proc Store Reject CoinsCache := do
  Proc.update fun s => do
    checkReward env pindex acc.nFees s
    .ok s
  if acc.nFees < 0 then pure { view with coins := acc.view }
  else do
    Proc.lift (require (acc.checks.all (·.run env) = true) (DoS 100 ""))
    if fJustCheck then pure { view with coins := acc.view }
    else do
      Proc.update fun s => .ok (writeBlock env pindex acc.blockundo s)
      pure ⟨acc.view, some pindex⟩

/-- **`CBlock::ConnectBlock`.** The genesis block only moves the view; its coinbase is not spendable. -/
def connectBlock (nNow : Nat) (view : CoinsCache) : Proc Store Reject CoinsCache := do
  Proc.lift (connectPrologue env fJustCheck pindex nNow view)
  if env.getBlockHash pindex.block = env.hashGenesisBlock then pure { view with best := some pindex }
  else do
    let acc ← Proc.foldM (connectTx env fJustCheck pindexBest pindex) pindex.block.vtx
      ⟨view.coins, 0, 0, [], []⟩
    connectEpilogue env fJustCheck pindex view acc

end ConnectBlock

/-! ## The sites of a block -/

/-- **A site**: a transaction about to be checked, with the block it is in, the best block of the moment and the
    state it meets. Conditions on a run are conditions on its sites. -/
structure Site where
  pindexBest : CBlockIndex
  pindex : CBlockIndex
  tx : CTransaction
  inputs : CoinsView
  store : Store

/-- The transaction is one that the service rules look at. -/
def CTransaction.examined (tx : CTransaction) : Prop :=
  tx.isCoinBase = false ∧ tx.nVersion = SYSCOIN_TX_VERSION

instance (tx : CTransaction) : Decidable tx.examined := inferInstanceAs (Decidable (_ ∧ _))

/-- The loop gets as far as the checks of the transaction: signature operations are within the limit and the inputs
    are there. -/
def ConnectAcc.admits (pindex : CBlockIndex) (acc : ConnectAcc) (tx : CTransaction) : Prop :=
  acc.nSigOps + tx.getLegacySigOpCount ≤ MAX_BLOCK_SIGOPS ∧
    (tx.isCoinBase = true ∨ (tx.haveInputs acc.view ∧
      acc.nSigOps + tx.getLegacySigOpCount + p2shSigOps pindex acc tx ≤ MAX_BLOCK_SIGOPS))

instance (pindex : CBlockIndex) (acc : ConnectAcc) (tx : CTransaction) : Decidable (acc.admits pindex tx) :=
  inferInstanceAs (Decidable (_ ∧ _))

/-- The sites that the transaction loop reaches, the one it fails at included. -/
def connectSites (env : Env) (pindexBest pindex : CBlockIndex) :
    List CTransaction → ConnectAcc → Store → List Site
  | [], _, _ => []
  | tx :: txs, acc, s =>
    if acc.admits pindex tx then
      ⟨pindexBest, pindex, tx, acc.view, s⟩ ::
        match connectTx env false pindexBest pindex acc tx s with
        | (.error _, _) => []
        | (.ok acc, s) => connectSites env pindexBest pindex txs acc s
    else []

/-- The sites that connecting a block reaches; a genesis block has none. -/
def blockSites (env : Env) (pindexBest pindex : CBlockIndex) (nNow : Nat) (view : CoinsCache) (s : Store) :
    List Site :=
  match connectPrologue env false pindex nNow view with
  | .error _ => []
  | .ok _ =>
    if env.getBlockHash pindex.block = env.hashGenesisBlock then []
    else connectSites env pindexBest pindex pindex.block.vtx ⟨view.coins, 0, 0, [], []⟩ s

/-! ## What a connected transaction does -/

section TxStep

variable {env : Env} {pindexBest pindex : CBlockIndex} {tx : CTransaction} {inputs : CoinsView} {s s' : Store}

/-- A spending transaction against the store: each service either does not see it or takes one of its steps,
    and nothing else is written but the test pool. -/
structure SpendStep (env : Env) (pindexBest pindex : CBlockIndex) (tx : CTransaction) (inputs : CoinsView)
    (s s' : Store) : Prop where
  aliasStep : (decodeAliasTx tx = none ∧ s'.aliasdb = s.aliasdb) ∨
    AliasStep env pindexBest pindex tx inputs s.aliasdb s'.aliasdb
  offerStep : (decodeOfferTx tx = none ∧ s'.offerdb = s.offerdb) ∨
    OfferStep env pindexBest pindex tx inputs s.offerdb s'.offerdb
  certStep : (decodeCertTx tx = none ∧ s'.certdb = s.certdb) ∨
    CertStep env pindexBest pindex tx inputs s.certdb s'.certdb
  undo : s'.undo = s.undo
  txIndex : s'.txIndex = s.txIndex

/-- What a rule set does: nothing for a transaction without an output of its service, and otherwise what its check says. -/
theorem ruled_ok_iff {α : Type} {c : Prop} [Decidable c] {check : Except Reject α} {put : α → Except Reject Store}
    {write : α → Store} (hput : ∀ a, put a = .ok (write a)) :
    (if c then check >>= put else .ok s) = .ok s' ↔ (c ∧ ∃ a, check = .ok a ∧ s' = write a) ∨ (¬ c ∧ s' = s) := by
  by_cases hc : c
  · rw [if_pos hc, Except.bind_ok_iff]
    constructor
    · rintro ⟨a, ha, hs'⟩
      rw [hput, Except.ok.injEq] at hs'
      exact .inl ⟨hc, a, ha, hs'.symm⟩
    · rintro (⟨-, a, ha, rfl⟩ | ⟨hnot, -⟩)
      · exact ⟨a, ha, hput a⟩
      · exact absurd hc hnot
  · rw [if_neg hc, Except.ok.injEq]
    constructor
    · intro heq
      exact .inr ⟨hc, heq.symm⟩
    · rintro (⟨hyes, -⟩ | ⟨-, rfl⟩)
      · exact absurd hyes hc
      · rfl

theorem aliasRules_ok_iff {m : Mode} {x : Unit} :
    aliasRules env m pindexBest pindex tx inputs s = (.ok x, s') ↔
      ((decodeAliasTx tx).isSome = true ∧ ∃ r,
        checkAliasInputs env m pindexBest pindex tx inputs s.aliasdb s.dummyTestPool = .ok r ∧
          s' = { s with aliasdb := r.1, dummyTestPool := r.2 }) ∨
      (¬ (decodeAliasTx tx).isSome = true ∧ s' = s) :=
  Proc.update_ok_iff.trans (ruled_ok_iff fun _ => rfl)

theorem offerRules_ok_iff {m : Mode} {x : Unit} :
    offerRules env m pindexBest pindex tx inputs s = (.ok x, s') ↔
      ((decodeOfferTx tx).isSome = true ∧ ∃ r,
        checkOfferInputs env m pindexBest pindex tx inputs s.offerdb s.dummyTestPool = .ok r ∧
          s' = { s with offerdb := r.1, dummyTestPool := r.2 }) ∨
      (¬ (decodeOfferTx tx).isSome = true ∧ s' = s) :=
  Proc.update_ok_iff.trans (ruled_ok_iff fun _ => rfl)

theorem certRules_ok_iff {m : Mode} {x : Unit} :
    certRules env m pindexBest pindex tx inputs s = (.ok x, s') ↔
      ((decodeCertTx tx).isSome = true ∧ ∃ r,
        checkCertInputs env m pindexBest pindex tx inputs s.certdb s.dummyTestPool = .ok r ∧
          s' = { s with certdb := r.1, dummyTestPool := r.2 }) ∨
      (¬ (decodeCertTx tx).isSome = true ∧ s' = s) :=
  Proc.update_ok_iff.trans (ruled_ok_iff fun _ => rfl)

theorem aliasRules_ok (hcb : tx.isCoinBase = false) {x : Unit}
    (h : aliasRules env Mode.connect pindexBest pindex tx inputs s = (.ok x, s')) :
    ((decodeAliasTx tx = none ∧ s'.aliasdb = s.aliasdb) ∨
      AliasStep env pindexBest pindex tx inputs s.aliasdb s'.aliasdb) ∧
      ∃ pool, s' = { s with aliasdb := s'.aliasdb, dummyTestPool := pool } := by
  rcases aliasRules_ok_iff.mp h with ⟨-, r, hcheck, rfl⟩ | ⟨hnone, rfl⟩
  · exact ⟨.inr (checkAliasInputs_connect hcb hcheck), r.2, rfl⟩
  · exact ⟨.inl ⟨Option.not_isSome_iff_eq_none.mp hnone, rfl⟩, s'.dummyTestPool, rfl⟩

theorem offerRules_ok (hcb : tx.isCoinBase = false) {x : Unit}
    (h : offerRules env Mode.connect pindexBest pindex tx inputs s = (.ok x, s')) :
    ((decodeOfferTx tx = none ∧ s'.offerdb = s.offerdb) ∨
      OfferStep env pindexBest pindex tx inputs s.offerdb s'.offerdb) ∧
      ∃ pool, s' = { s with offerdb := s'.offerdb, dummyTestPool := pool } := by
  rcases offerRules_ok_iff.mp h with ⟨-, r, hcheck, rfl⟩ | ⟨hnone, rfl⟩
  · exact ⟨.inr (checkOfferInputs_connect hcb hcheck), r.2, rfl⟩
  · exact ⟨.inl ⟨Option.not_isSome_iff_eq_none.mp hnone, rfl⟩, s'.dummyTestPool, rfl⟩

theorem certRules_ok (hcb : tx.isCoinBase = false) {x : Unit}
    (h : certRules env Mode.connect pindexBest pindex tx inputs s = (.ok x, s')) :
    ((decodeCertTx tx = none ∧ s'.certdb = s.certdb) ∨
      CertStep env pindexBest pindex tx inputs s.certdb s'.certdb) ∧
      ∃ pool, s' = { s with certdb := s'.certdb, dummyTestPool := pool } := by
  rcases certRules_ok_iff.mp h with ⟨-, r, hcheck, rfl⟩ | ⟨hnone, rfl⟩
  · exact ⟨.inr (checkCertInputs_connect hcb hcheck), r.2, rfl⟩
  · exact ⟨.inl ⟨Option.not_isSome_iff_eq_none.mp hnone, rfl⟩, s'.dummyTestPool, rfl⟩

/-- The running total of the input loop is the sum of the spent values. -/
theorem checkTxIns_ok {nSpendHeight : Nat} {vin : List CTxIn} {nValueIn nTotal : Int}
    (h : checkTxIns env inputs nSpendHeight nValueIn vin = .ok nTotal) :
    nTotal = nValueIn + (vin.map fun txin => (inputs.output txin.prevout).nValue).sum := by
  induction vin generalizing nValueIn with
  | nil =>
    simp only [checkTxIns, Except.ok.injEq] at h
    simp [h]
  | cons txin vin ih =>
    simp only [checkTxIns, require_bind_ok_iff] at h
    rw [ih h.2.2, List.map_cons, List.sum_cons]
    omega

/-- **`CheckInputs` accepts**: the inputs are there, each service has had its say, and the fee is not
    negative. -/
theorem checkSpend_ok (hcb : tx.isCoinBase = false) {nSpendHeight : Nat} {fScript fP2SH : Bool}
    {checks : List CScriptCheck}
    (h : checkSpend env Mode.connect pindexBest pindex tx inputs nSpendHeight fScript fP2SH s
      = (.ok checks, s')) :
    tx.haveInputs inputs ∧ SpendStep env pindexBest pindex tx inputs s s' ∧
      tx.getValueOut ≤ tx.getValueIn inputs := by
  unfold checkSpend at h
  obtain ⟨hin, h⟩ := Proc.require_bind_ok_iff.mp h
  obtain ⟨nValueIn, hvin, h⟩ := Proc.lift_bind_ok_iff.mp h
  obtain ⟨_, s₁, ha, h⟩ := Proc.bind_ok_iff.mp h
  obtain ⟨_, s₂, ho, h⟩ := Proc.bind_ok_iff.mp h
  obtain ⟨_, s₃, hc, h⟩ := Proc.bind_ok_iff.mp h
  obtain ⟨_, hfee, h⟩ := Proc.lift_bind_ok_iff.mp h
  obtain ⟨-, hs⟩ := Proc.lift_ok_iff.mp h
  obtain ⟨ha, poola, ea⟩ := aliasRules_ok hcb ha
  obtain ⟨ho, poolo, eo⟩ := offerRules_ok hcb ho
  obtain ⟨hc, poolc, ec⟩ := certRules_ok hcb hc
  refine ⟨hin, ?_, ?_⟩
  · -- each rule set writes its own database only
    have ea' : s'.aliasdb = s₁.aliasdb := by rw [hs, ec, eo]
    have eo' : s'.offerdb = s₂.offerdb := by rw [hs, ec]
    have e₁ : s₁.offerdb = s.offerdb := by rw [ea]
    have e₂ : s₂.certdb = s.certdb := by rw [eo, ea]
    constructor
    · rw [ea']; exact ha
    · rw [eo', ← e₁]; exact ho
    · rw [hs, ← e₂]; exact hc
    · rw [hs, ec, eo, ea]
    · rw [hs, ec, eo, ea]
  · have hsum := checkTxIns_ok hvin
    simp only [checkTxFee, require_bind_ok_iff] at hfee
    have hle := hfee.1
    unfold CTransaction.getValueIn
    rw [if_neg (by simp [hcb])]
    omega

/-- **One transaction of a connecting block**: coins updated, undo recorded and, unless it is the coinbase,
    the services consulted. -/
inductive TxStep (env : Env) (pindexBest pindex : CBlockIndex) (acc : ConnectAcc) (tx : CTransaction) (s : Store)
    (acc' : ConnectAcc) : Store → Prop where
  | coinbase {txundo : CTxUndo} (hcb : tx.isCoinBase = true)
      (hcoins : updateCoins env tx pindex.nHeight acc.view = .ok (acc'.view, txundo))
      (hundo : acc'.blockundo = acc.blockundo) (hfees : acc'.nFees = acc.nFees) :
      TxStep env pindexBest pindex acc tx s acc' s
  | spend {txundo : CTxUndo} {s' : Store} (hcb : tx.isCoinBase = false) (hin : tx.haveInputs acc.view)
      (hstep : SpendStep env pindexBest pindex tx acc.view s s')
      (hcoins : updateCoins env tx pindex.nHeight acc.view = .ok (acc'.view, txundo))
      (hundo : acc'.blockundo = acc.blockundo ++ [txundo]) (hfees : acc.nFees ≤ acc'.nFees) :
      TxStep env pindexBest pindex acc tx s acc' s'

variable {acc acc' : ConnectAcc}

theorem finishTx_ok {nFees : Int} {nSigOps : Nat} {vChecks : List CScriptCheck}
    (h : finishTx env pindex acc tx nFees nSigOps vChecks = .ok acc') :
    ∃ txundo, updateCoins env tx pindex.nHeight acc.view = .ok (acc'.view, txundo) ∧ acc'.nFees = nFees ∧
      acc'.blockundo = if tx.isCoinBase then acc.blockundo else acc.blockundo ++ [txundo] := by
  unfold finishTx at h
  obtain ⟨⟨view, txundo⟩, hcoins, h⟩ := Except.bind_ok_iff.mp h
  simp only [Except.ok.injEq] at h
  subst h
  exact ⟨txundo, hcoins, rfl, rfl⟩

theorem addFee_ok {nFees nTxFee nTotal : Int} (h : addFee nFees nTxFee = .ok nTotal) : nTotal = nFees + nTxFee := by
  unfold addFee at h
  obtain ⟨-, h⟩ := require_bind_ok_iff.mp h
  rw [Except.ok.injEq] at h
  exact h.symm

theorem connectTx_ok (h : connectTx env false pindexBest pindex acc tx s = (.ok acc', s')) :
    TxStep env pindexBest pindex acc tx s acc' s' := by
  unfold connectTx at h
  obtain ⟨-, h⟩ := Proc.require_bind_ok_iff.mp h
  split at h
  · rename_i hcb
    obtain ⟨hfin, hs⟩ := Proc.lift_ok_iff.mp h
    obtain ⟨txundo, hcoins, hfees, hundo⟩ := finishTx_ok hfin
    rw [if_pos hcb] at hundo
    exact hs ▸ .coinbase hcb hcoins hundo hfees
  · rename_i hcb
    have hcb : tx.isCoinBase = false := by simpa using hcb
    unfold connectSpend at h
    obtain ⟨-, h⟩ := Proc.require_bind_ok_iff.mp h
    obtain ⟨-, h⟩ := Proc.require_bind_ok_iff.mp h
    obtain ⟨vChecks, s₁, hcheck, h⟩ := Proc.bind_ok_iff.mp h
    obtain ⟨hfin, hs⟩ := Proc.lift_ok_iff.mp h
    obtain ⟨nFees, hadd, hfin⟩ := Except.bind_ok_iff.mp hfin
    have hsum := addFee_ok hadd
    unfold checkInputs at hcheck
    rw [if_neg (by simp [hcb])] at hcheck
    obtain ⟨hin, hstep, hfee⟩ := checkSpend_ok hcb hcheck
    obtain ⟨txundo, hcoins, hfees, hundo⟩ := finishTx_ok hfin
    rw [if_neg (by simp [hcb])] at hundo
    exact hs ▸ .spend hcb hin hstep hcoins hundo (by omega)

/-- A transaction that goes through was admitted to its checks. -/
theorem connectTx_admits (h : connectTx env false pindexBest pindex acc tx s = (.ok acc', s')) :
    acc.admits pindex tx := by
  unfold connectTx at h
  obtain ⟨hlegacy, h⟩ := Proc.require_bind_ok_iff.mp h
  refine ⟨hlegacy, ?_⟩
  split at h
  · rename_i hcb
    exact .inl hcb
  · unfold connectSpend at h
    obtain ⟨hin, h⟩ := Proc.require_bind_ok_iff.mp h
    obtain ⟨hsigops, -⟩ := Proc.require_bind_ok_iff.mp h
    exact .inr ⟨hin, hsigops⟩

/-- A transaction that is not admitted fails before anything is written. -/
theorem connectTx_not_admitted (h : ¬ acc.admits pindex tx) :
    (connectTx env false pindexBest pindex acc tx s).2 = s := by
  unfold connectTx
  refine Proc.lift_bind_ends (P := (· = s)) (fun _ _ => rfl) fun _ hlegacy => ?_
  split
  · rfl
  · unfold connectSpend
    refine Proc.lift_bind_ends (P := (· = s)) (fun _ _ => rfl) fun _ hin => ?_
    refine Proc.lift_bind_ends (P := (· = s)) (fun _ _ => rfl) fun _ hsigops => ?_
    exact absurd ⟨require_ok_iff.mp hlegacy, .inr ⟨require_ok_iff.mp hin, require_ok_iff.mp hsigops⟩⟩ h

/-- An admitted transaction that spends ends where `CheckInputs` ends. -/
theorem connectTx_admitted (hcb : tx.isCoinBase = false) (h : acc.admits pindex tx) :
    (connectTx env false pindexBest pindex acc tx s).2 =
      (checkSpend env Mode.connect pindexBest pindex tx acc.view pindex.nHeight (fScriptChecks env pindex)
        (fStrictPayToScriptHash pindex) s).2 := by
  obtain ⟨hlegacy, hspend⟩ := h
  obtain ⟨hin, hsigops⟩ := hspend.resolve_left (by simp [hcb])
  unfold connectTx
  rw [if_neg (by simp [hcb])]
  refine Proc.lift_bind_ends (P := (· = _)) (fun e herr => ?_) fun _ _ => ?_
  · simp [require, hlegacy] at herr
  unfold connectSpend
  refine Proc.lift_bind_ends (P := (· = _)) (fun e herr => ?_) fun _ _ => ?_
  · simp [require, hin] at herr
  refine Proc.lift_bind_ends (P := (· = _)) (fun e herr => ?_) fun _ _ => ?_
  · simp [require, hsigops] at herr
  unfold checkInputs
  rw [if_neg (by simp [hcb])]
  exact Proc.bind_ends (P := (· = _)) (fun _ _ hrun => (congrArg Prod.snd hrun).symm)
    fun _ _ hrun => (congrArg Prod.snd hrun).symm

/-- What the three rule sets keep, `CheckInputs` keeps, accepted or not. -/
theorem checkSpend_keeps {m : Mode} {R : Store → Store → Prop} (hrefl : ∀ s, R s s)
    (htrans : ∀ ⦃s₁ s₂ s₃⦄, R s₁ s₂ → R s₂ s₃ → R s₁ s₃)
    (halias : Proc.Keeps R (aliasRules env m pindexBest pindex tx inputs))
    (hoffer : Proc.Keeps R (offerRules env m pindexBest pindex tx inputs))
    (hcert : Proc.Keeps R (certRules env m pindexBest pindex tx inputs)) {nSpendHeight : Nat}
    {fScript fP2SH : Bool} :
    Proc.Keeps R (checkSpend env m pindexBest pindex tx inputs nSpendHeight fScript fP2SH) := by
  refine Proc.Keeps.bind htrans (Proc.Keeps.lift hrefl _) fun _ => ?_
  refine Proc.Keeps.bind htrans (Proc.Keeps.lift hrefl _) fun _ => ?_
  refine Proc.Keeps.bind htrans halias fun _ => ?_
  refine Proc.Keeps.bind htrans hoffer fun _ => ?_
  refine Proc.Keeps.bind htrans hcert fun _ => ?_
  refine Proc.Keeps.bind htrans (Proc.Keeps.lift hrefl _) fun _ => ?_
  exact Proc.Keeps.lift hrefl _

/-- What `CheckInputs` keeps for a transaction that gets to it, the loop keeps. -/
theorem connectTx_keeps {R : Store → Store → Prop} (hrefl : ∀ s, R s s)
    (hspend : acc.admits pindex tx → tx.isCoinBase = false →
      R s (checkSpend env Mode.connect pindexBest pindex tx acc.view pindex.nHeight (fScriptChecks env pindex)
        (fStrictPayToScriptHash pindex) s).2) :
    R s (connectTx env false pindexBest pindex acc tx s).2 := by
  by_cases hadmits : acc.admits pindex tx
  · by_cases hcb : tx.isCoinBase = true
    · unfold connectTx
      rw [if_pos hcb]
      exact Proc.lift_bind_ends (P := R s) (fun _ _ => hrefl s) fun _ _ => hrefl s
    · have hcb : tx.isCoinBase = false := by simpa using hcb
      rw [connectTx_admitted hcb hadmits]
      exact hspend hadmits hcb
  · rw [connectTx_not_admitted hadmits]
    exact hrefl s

theorem connectSites_cons {txs : List CTransaction}
    (h : connectTx env false pindexBest pindex acc tx s = (.ok acc', s')) :
    connectSites env pindexBest pindex (tx :: txs) acc s =
      ⟨pindexBest, pindex, tx, acc.view, s⟩ :: connectSites env pindexBest pindex txs acc' s' := by
  rw [connectSites, if_pos (connectTx_admits h), h]

/-- The whole loop: a chain of steps, one for each transaction, from sites that meet the condition `C`. -/
inductive TxSteps (env : Env) (C : Site → Prop) (pindexBest pindex : CBlockIndex) :
    ConnectAcc → List CTransaction → Store → ConnectAcc → Store → Prop where
  | nil {acc : ConnectAcc} {s : Store} : TxSteps env C pindexBest pindex acc [] s acc s
  | cons {acc acc₁ acc' : ConnectAcc} {tx : CTransaction} {txs : List CTransaction} {s s₁ s' : Store}
      (meets : C ⟨pindexBest, pindex, tx, acc.view, s⟩)
      (hd : TxStep env pindexBest pindex acc tx s acc₁ s₁)
      (tl : TxSteps env C pindexBest pindex acc₁ txs s₁ acc' s') :
      TxSteps env C pindexBest pindex acc (tx :: txs) s acc' s'

variable {C : Site → Prop}

theorem connectTxs_ok {txs : List CTransaction}
    (h : Proc.foldM (connectTx env false pindexBest pindex) txs acc s = (.ok acc', s'))
    (hC : ∀ site ∈ connectSites env pindexBest pindex txs acc s, C site) :
    TxSteps env C pindexBest pindex acc txs s acc' s' := by
  induction txs generalizing acc s with
  | nil =>
    rw [Proc.foldM_nil] at h
    simp only [Prod.mk.injEq, Except.ok.injEq] at h
    obtain ⟨rfl, rfl⟩ := h
    exact .nil
  | cons tx txs ih =>
    obtain ⟨acc₁, s₁, hd, tl⟩ := Proc.foldM_cons_ok_iff.mp h
    rw [connectSites_cons hd, List.forall_mem_cons] at hC
    exact .cons hC.1 (connectTx_ok hd) (ih tl hC.2)

theorem TxSteps.nFees_mono {txs : List CTransaction} (h : TxSteps env C pindexBest pindex acc txs s acc' s') :
    acc.nFees ≤ acc'.nFees := by
  induction h with
  | nil => exact Int.le_refl _
  | cons _ hd _ ih =>
    cases hd with
    | coinbase _ _ _ hfees => omega
    | spend _ _ _ _ _ hfees => omega

/-- **`ConnectBlock` accepts a block.** Either it is the genesis block, or the loop ran through and undo data
    and index were written. The early exit for negative fees is not taken: no transaction lowers them. -/
theorem connectBlock_loop {nNow : Nat} {view view' : CoinsCache}
    (h : connectBlock env false pindexBest pindex nNow view s = (.ok view', s')) :
    connectPrologue env false pindex nNow view = .ok () ∧
      ((env.getBlockHash pindex.block = env.hashGenesisBlock ∧ s' = s ∧
          view' = { view with best := some pindex }) ∨
       (env.getBlockHash pindex.block ≠ env.hashGenesisBlock ∧ ∃ acc s₁,
          Proc.foldM (connectTx env false pindexBest pindex) pindex.block.vtx ⟨view.coins, 0, 0, [], []⟩ s
            = (.ok acc, s₁) ∧
          s' = writeBlock env pindex acc.blockundo s₁ ∧ view' = ⟨acc.view, some pindex⟩ ∧
          0 ≤ acc.nFees ∧ checkReward env pindex acc.nFees s₁ = .ok ())) := by
  unfold connectBlock at h
  obtain ⟨_, hpro, h⟩ := Proc.lift_bind_ok_iff.mp h
  refine ⟨hpro, ?_⟩
  split at h
  · rename_i hgen
    simp only [Proc.pure_apply, Prod.mk.injEq, Except.ok.injEq] at h
    exact .inl ⟨hgen, h.2.symm, h.1.symm⟩
  · rename_i hgen
    obtain ⟨acc, s₁, hloop, h⟩ := Proc.bind_ok_iff.mp h
    have hsteps := connectTxs_ok (C := fun _ => True) hloop fun _ _ => trivial
    have hfees : 0 ≤ acc.nFees := hsteps.nFees_mono
    unfold connectEpilogue at h
    obtain ⟨s₂, hreward, h⟩ := Proc.update_bind_ok_iff.mp h
    obtain ⟨_, hreward, hs₂⟩ := Except.bind_ok_iff.mp hreward
    rw [if_neg (not_lt.mpr hfees)] at h
    obtain ⟨-, h⟩ := Proc.require_bind_ok_iff.mp h
    rw [if_neg (by simp)] at h
    obtain ⟨s₃, hwrite, h⟩ := Proc.update_bind_ok_iff.mp h
    simp only [Proc.pure_apply, Prod.mk.injEq, Except.ok.injEq] at h hwrite hs₂
    refine .inr ⟨hgen, acc, s₁, hloop, ?_, h.1.symm, hfees, hreward⟩
    rw [← h.2, ← hwrite, hs₂]

/-- The loop as a chain of steps from sites that meet the condition. -/
theorem connectBlock_ok {nNow : Nat} {view view' : CoinsCache}
    (h : connectBlock env false pindexBest pindex nNow view s = (.ok view', s'))
    (hC : ∀ site ∈ blockSites env pindexBest pindex nNow view s, C site) :
    connectPrologue env false pindex nNow view = .ok () ∧
      ((env.getBlockHash pindex.block = env.hashGenesisBlock ∧ s' = s ∧
          view' = { view with best := some pindex }) ∨
       (env.getBlockHash pindex.block ≠ env.hashGenesisBlock ∧ ∃ acc s₁,
          TxSteps env C pindexBest pindex ⟨view.coins, 0, 0, [], []⟩ pindex.block.vtx s acc s₁ ∧
          s' = writeBlock env pindex acc.blockundo s₁ ∧ view' = ⟨acc.view, some pindex⟩)) := by
  obtain ⟨hpro, hcases⟩ := connectBlock_loop h
  refine ⟨hpro, hcases.imp_right ?_⟩
  rintro ⟨hgen, acc, s₁, hloop, hs', hview', -⟩
  simp only [blockSites, hpro, if_neg hgen] at hC
  exact ⟨hgen, acc, s₁, connectTxs_ok hloop hC, hs', hview'⟩

end TxStep

end Syscoin

import Syscoin.Services.Common

/-!
# `Services.Alias` — the alias rules and the alias database

`CheckAliasInputs` decides whether a transaction may carry its alias operation and, when a block is being
connected, writes the alias database on the spot. The model keeps the two apart: `checkAliasOp` is the switch
over the operation, `connectAlias` the write. Every check precedes every write, so a rejected transaction
writes nothing; `checkAliasInputs_ok_iff` is the one statement about the whole function that later proofs use.

The database calls themselves do not fail here.
-/

namespace Syscoin

open Lib

structure CAliasIndex where
  txHash : Uint256
  nHeight : Nat
  txPrevOut : COutPoint
  vValue : Bytes
deriving DecidableEq, Repr

/-- The alias database (`namei`, `nametxf`), the fee list it is a copy of, and the pending map. -/
structure AliasState where
  names : Bytes → Option (List CAliasIndex)
  txFees : Option (List CFee)
  lstAliasFees : List CFee
  mapAliasesPending : Pending

/-- The history stored for a name, empty when there is none. -/
def AliasState.history (s : AliasState) (vchName : Bytes) : List CAliasIndex := (s.names vchName).getD []

/-- **`PutToAliasList`.** The scan runs from the back and stops at an entry of the same height or of the same
    transaction. -/
def putToAliasList (aliasList : List CAliasIndex) (index : CAliasIndex) : List CAliasIndex :=
  upsertLast (fun o => (index.nHeight ≠ 0 ∧ o.nHeight = index.nHeight) ∨ (o.txHash ≠ 0 ∧ o.txHash = index.txHash))
    index aliasList

/-! ## Parameters of the rules -/

def getMinActivateDepth (env : Env) : Nat :=
  if env.fCakeNet then MIN_ACTIVATE_DEPTH_CAKENET else MIN_ACTIVATE_DEPTH

/-- The price that falls by `nDif` at `nTargetHeight`: the division is an integer one. -/
def networkFee (nRes nDif : Int) (nHeight : Nat) : Int :=
  if 130080 < nHeight then nRes - nDif else nRes - (nHeight / 130080 : Nat) * nDif

def getAliasNetworkFee (nHeight : Nat) : Int := networkFee (5172 * COIN) (3448 * COIN) nHeight

def getAliasExpirationDepth (nHeight : Nat) : Nat :=
  if nHeight < 174720 then 87360 else if nHeight < 349440 then nHeight - 87360 else 262080

/-- `GetAliasHeight`: the height of the last entry, `none` for the code's `-1`. -/
def getAliasHeight (s : AliasState) (vchName : Bytes) : Option Nat :=
  (s.names vchName).bind fun vtxPos => vtxPos.getLast?.map (·.nHeight)

/-! ## The checks -/

section Checks

variable (env : Env) (m : Mode) (pindexBlock : CBlockIndex) (tx : CTransaction) (prev : Option Prev)
  (vvchArgs : List Bytes)

/-- The part of an activation that only a connecting block checks: the commitment is opened and old enough,
    and not expired. The test for an unexpired holder is guarded by `!fBlock` inside this `fBlock` branch. -/
def checkAliasActivation (s : AliasState) (p : Prev) : Except Reject Unit := do
  require (uint160 (arg p.vvchPrevArgs 0) = env.hash160 (arg vvchArgs 1 ++ arg vvchArgs 0))
    (error "CheckAliasInputs() : aliasactivate hash mismatch")
  require (¬ ((m.fBlock = true ∨ m.fMiner = true) ∧
      (relativeDepth pindexBlock p.prevCoins.nHeight (getMinActivateDepth env)).isSome = true))
    (error "")
  require ((relativeDepth pindexBlock p.prevCoins.nHeight
      (getAliasExpirationDepth pindexBlock.nHeight)).isSome = true)
    (error ("CheckAliasInputs() : aliasactivate cannot be mined if aliasnew is not already in chain " ++
      "and unexpired"))
  require (¬ (m.fBlock = false ∧ ∃ nPrevHeight ∈ getAliasHeight s (arg vvchArgs 0),
      (pindexBlock.nHeight : Int) - nPrevHeight < getAliasExpirationDepth pindexBlock.nHeight))
    (error "CheckAliasInputs() : aliasactivate on an unexpired alias")

def checkAliasNew : Except Reject Unit := do
  require (prev.isNone = true) (error "CheckAliasInputs() : aliasnew tx pointing to previous syscoin tx")
  require ((arg vvchArgs 0).length = 20) (error "aliasnew tx with incorrect hash length")

def checkAliasActivate (s : AliasState) : Except Reject Unit := do
  require (getAliasNetworkFee pindexBlock.nHeight ≤ getAliasNetFee tx)
    (error "CheckAliasInputs() : got tx %s with fee too low %lu")
  require (m.fJustCheck = true ∨ ∃ p ∈ prev, p.prevOp = .aliasNew)
    (error "CheckAliasInputs() : aliasactivate tx without previous aliasnew tx")
  require ((arg vvchArgs 1).length ≤ 20) (error "aliasactivate tx with guid too big")
  require ((arg vvchArgs 2).length ≤ MAX_VALUE_LENGTH) (error "aliasactivate tx with value too long")
  match prev with
  | none => .ok ()
  | some p =>
    if m.fBlock = true ∧ m.fJustCheck = false then checkAliasActivation env m pindexBlock vvchArgs s p else .ok ()

/-- With `fBlock && fJustCheck` and no alias input the code returns true at once; such a call writes nothing
    anyway. -/
def checkAliasUpdate : Except Reject Unit :=
  match prev with
  | none =>
    if m.fBlock = true ∧ m.fJustCheck = true then .ok ()
    else .error (error "aliasupdate tx without previous update tx")
  | some p => do
    require (p.prevOp = .aliasActivate ∨ p.prevOp = .aliasUpdate)
      (error "aliasupdate tx without previous update tx")
    require ((arg vvchArgs 1).length ≤ MAX_VALUE_LENGTH) (error "aliasupdate tx with value too long")
    require (arg p.vvchPrevArgs 0 = arg vvchArgs 0) (error "CheckAliasInputs() : aliasupdate alias mismatch")
    require (¬ ((m.fBlock = true ∨ m.fMiner = true) ∧ relativeDepth pindexBlock p.prevCoins.nHeight
        (getAliasExpirationDepth pindexBlock.nHeight) = none))
      (error ("CheckAliasInputs() : aliasupdate on an expired alias, or there is a pending transaction " ++
        "on the alias"))

/-- The switch over the operation. -/
def checkAliasOp (s : AliasState) (op : Op) : Except Reject Unit :=
  match op with
  | .aliasNew => checkAliasNew prev vvchArgs
  | .aliasActivate => checkAliasActivate env m pindexBlock tx prev vvchArgs s
  | .aliasUpdate => checkAliasUpdate m pindexBlock prev vvchArgs
  | _ => .error (error "CheckAliasInputs() : alias transaction has unknown op")

end Checks

/-! ## The write -/

/-- The entry an operation adds to the history of its name. -/
def aliasEntry (env : Env) (nHeight : Nat) (tx : CTransaction) (op : Op) (vvchArgs : List Bytes)
    (prevOutput : COutPoint) : CAliasIndex where
  txHash := env.getHash tx
  nHeight := nHeight
  txPrevOut := prevOutput
  vValue := arg vvchArgs (if op = .aliasActivate then 2 else 1)

/-- History, fees and pending map after an activation or an update. -/
def connectAlias (env : Env) (pindexBlock : CBlockIndex) (tx : CTransaction) (op : Op) (vvchArgs : List Bytes)
    (prevOutput : COutPoint) (s : AliasState) : AliasState :=
  let index := aliasEntry env pindexBlock.nHeight tx op vvchArgs prevOutput
  let fees := insertAliasFee pindexBlock (env.getHash tx) (getAliasNetFee tx) s.lstAliasFees
  { names := Function.update s.names (arg vvchArgs 0) (some (putToAliasList (s.history (arg vvchArgs 0)) index))
    txFees := some fees
    lstAliasFees := fees
    mapAliasesPending := s.mapAliasesPending.erase (arg vvchArgs 0) (env.getHash tx) }

/-- When the code writes: not for the miner, not for a mere check, and not for a block at the height of the
    current best block. -/
def Mode.writes (m : Mode) (pindexBlock pindexBest : CBlockIndex) : Prop :=
  (m.fBlock = true ∨ (m.fMiner = false ∧ m.fJustCheck = false)) ∧
    m.fMiner = false ∧ m.fJustCheck = false ∧ pindexBlock.nHeight ≠ pindexBest.nHeight

instance (m : Mode) (pindexBlock pindexBest : CBlockIndex) : Decidable (m.writes pindexBlock pindexBest) :=
  inferInstanceAs (Decidable (_ ∧ _))

/-- **`CheckAliasInputs`.** -/
def checkAliasInputs (env : Env) (m : Mode) (pindexBest pindexBlock : CBlockIndex) (tx : CTransaction)
    (inputs : CoinsView) (s : AliasState) (mapTestPool : TestPool) : Except Reject (AliasState × TestPool) :=
  if tx.isCoinBase then .ok (s, mapTestPool)
  else
    let prev := findPrev decodeAliasScript inputs tx.vin
    if tx.nVersion ≠ SYSCOIN_TX_VERSION then do
      require (prev.isNone = true) (error "CheckAliasInputs() : a non-syscoin transaction with a syscoin input")
      .ok (s, mapTestPool)
    else
      match decodeAliasTx tx with
      | none => .error (error "CheckAliasInputs() : could not decode syscoin alias info from tx %s")
      | some (op, _, vvchArgs) => do
        checkAliasOp env m pindexBlock tx prev vvchArgs s op
        match prev with
        | none => .ok (s, mapTestPool)
        | some p =>
          if op ≠ .aliasNew ∧ m.writes pindexBlock pindexBest then
            .ok (connectAlias env pindexBlock tx op vvchArgs p.prevOutput s,
              Function.update mapTestPool (arg vvchArgs 0) (some (env.getHash tx)))
          else .ok (s, mapTestPool)

/-! ## What an accepted transaction does -/

/-- The alias state after a connecting block has let an activation or an update through: written, unless the
    block has the height of the best block. -/
def writeAlias (env : Env) (pindexBest pindexBlock : CBlockIndex) (tx : CTransaction) (op : Op)
    (vvchArgs : List Bytes) (prevOutput : COutPoint) (s : AliasState) : AliasState :=
  if pindexBlock.nHeight ≠ pindexBest.nHeight then
    connectAlias env pindexBlock tx op vvchArgs prevOutput s
  else s

/-- **One accepted transaction with an alias output**, as a connecting block sees it: what it spent, what it
    carries and what it did to the alias state. -/
inductive AliasStep (env : Env) (pindexBest pindexBlock : CBlockIndex) (tx : CTransaction) (inputs : CoinsView)
    (s : AliasState) : AliasState → Prop where
  | plain (hver : tx.nVersion ≠ SYSCOIN_TX_VERSION)
      (hprev : findPrev decodeAliasScript inputs tx.vin = none) :
      AliasStep env pindexBest pindexBlock tx inputs s s
  | new {nOut : Nat} {vvchArgs : List Bytes} (hver : tx.nVersion = SYSCOIN_TX_VERSION)
      (hop : decodeAliasTx tx = some (.aliasNew, nOut, vvchArgs))
      (hprev : findPrev decodeAliasScript inputs tx.vin = none) :
      AliasStep env pindexBest pindexBlock tx inputs s s
  | activate {nOut : Nat} {vvchArgs : List Bytes} {p : Prev} (hver : tx.nVersion = SYSCOIN_TX_VERSION)
      (hop : decodeAliasTx tx = some (.aliasActivate, nOut, vvchArgs))
      (hprev : findPrev decodeAliasScript inputs tx.vin = some p) (hnew : p.prevOp = .aliasNew)
      (hopen : uint160 (arg p.vvchPrevArgs 0) = env.hash160 (arg vvchArgs 1 ++ arg vvchArgs 0)) :
      AliasStep env pindexBest pindexBlock tx inputs s
        (writeAlias env pindexBest pindexBlock tx .aliasActivate vvchArgs p.prevOutput s)
  | update {nOut : Nat} {vvchArgs : List Bytes} {p : Prev} (hver : tx.nVersion = SYSCOIN_TX_VERSION)
      (hop : decodeAliasTx tx = some (.aliasUpdate, nOut, vvchArgs))
      (hprev : findPrev decodeAliasScript inputs tx.vin = some p)
      (hown : p.prevOp = .aliasActivate ∨ p.prevOp = .aliasUpdate)
      (hname : arg p.vvchPrevArgs 0 = arg vvchArgs 0) :
      AliasStep env pindexBest pindexBlock tx inputs s
        (writeAlias env pindexBest pindexBlock tx .aliasUpdate vvchArgs p.prevOutput s)

section Accepted

variable {env : Env} {pindexBest pindexBlock : CBlockIndex} {tx : CTransaction} {inputs : CoinsView}
  {s s' : AliasState} {mapTestPool mapTestPool' : TestPool} {prev : Option Prev} {vvchArgs : List Bytes}

theorem writes_connect_iff : Mode.connect.writes pindexBlock pindexBest ↔
    pindexBlock.nHeight ≠ pindexBest.nHeight := by
  simp [Mode.writes]

/-- What a connecting block demands of an activation, apart from the test it leaves out. -/
def ActivationRules (env : Env) (pindexBlock : CBlockIndex) (tx : CTransaction) (inputs : CoinsView)
    (vvchArgs : List Bytes) : Prop :=
  getAliasNetworkFee pindexBlock.nHeight ≤ getAliasNetFee tx ∧
    (arg vvchArgs 1).length ≤ 20 ∧ (arg vvchArgs 2).length ≤ MAX_VALUE_LENGTH ∧
    ∃ p, findPrev decodeAliasScript inputs tx.vin = some p ∧ p.prevOp = .aliasNew ∧
      uint160 (arg p.vvchPrevArgs 0) = env.hash160 (arg vvchArgs 1 ++ arg vvchArgs 0) ∧
      relativeDepth pindexBlock p.prevCoins.nHeight (getMinActivateDepth env) = none ∧
      (relativeDepth pindexBlock p.prevCoins.nHeight
        (getAliasExpirationDepth pindexBlock.nHeight)).isSome = true

theorem checkAliasActivation_connect_iff {p : Prev} :
    checkAliasActivation env Mode.connect pindexBlock vvchArgs s p = .ok () ↔
      uint160 (arg p.vvchPrevArgs 0) = env.hash160 (arg vvchArgs 1 ++ arg vvchArgs 0) ∧
      relativeDepth pindexBlock p.prevCoins.nHeight (getMinActivateDepth env) = none ∧
      (relativeDepth pindexBlock p.prevCoins.nHeight
        (getAliasExpirationDepth pindexBlock.nHeight)).isSome = true := by
  simp [checkAliasActivation]

theorem checkAliasActivate_connect_iff :
    checkAliasActivate env Mode.connect pindexBlock tx (findPrev decodeAliasScript inputs tx.vin) vvchArgs s
      = .ok () ↔ ActivationRules env pindexBlock tx inputs vvchArgs := by
  unfold checkAliasActivate ActivationRules
  cases findPrev decodeAliasScript inputs tx.vin with
  | none => simp
  | some p =>
    simp only [require_bind_ok_iff, Mode.connect_fBlock, Mode.connect_fJustCheck, and_self, if_true,
      checkAliasActivation_connect_iff, Bool.false_eq_true, false_or, Option.mem_def, Option.some.injEq,
      exists_eq_left']
    tauto

theorem checkAliasUpdate_connect
    (h : checkAliasUpdate Mode.connect pindexBlock prev vvchArgs = .ok ()) :
    ∃ p, prev = some p ∧ (p.prevOp = .aliasActivate ∨ p.prevOp = .aliasUpdate) ∧
      arg p.vvchPrevArgs 0 = arg vvchArgs 0 := by
  unfold checkAliasUpdate at h
  cases prev with
  | none => simp at h
  | some p =>
    simp only [require_bind_ok_iff, require_ok_iff] at h
    exact ⟨p, rfl, h.1, h.2.2.1⟩

/-- **An accepted transaction takes one of the four steps.** -/
theorem checkAliasInputs_connect (hcb : tx.isCoinBase = false)
    (h : checkAliasInputs env Mode.connect pindexBest pindexBlock tx inputs s mapTestPool
      = .ok (s', mapTestPool')) :
    AliasStep env pindexBest pindexBlock tx inputs s s' := by
  unfold checkAliasInputs at h
  rw [if_neg (by simp [hcb])] at h
  simp only at h
  split at h
  · rename_i hver
    simp only [require_bind_ok_iff, Option.isNone_iff_eq_none, Except.ok.injEq, Prod.mk.injEq] at h
    obtain ⟨hprev, rfl, -⟩ := h
    exact .plain hver hprev
  · rename_i hver
    have hver := not_not.mp hver
    split at h
    · cases h
    · rename_i op nOut vvchArgs hop
      obtain ⟨_, hcheck, h⟩ := Except.bind_ok_iff.mp h
      cases op with
      | aliasNew =>
        simp only [checkAliasOp, checkAliasNew, require_bind_ok_iff, Option.isNone_iff_eq_none] at hcheck
        simp only [hcheck.1, Except.ok.injEq, Prod.mk.injEq] at h
        obtain ⟨rfl, -⟩ := h
        exact .new hver hop hcheck.1
      | aliasActivate =>
        obtain ⟨-, -, -, p, hprev, hnew, hopen, -⟩ := checkAliasActivate_connect_iff.mp hcheck
        simp only [hprev, writes_connect_iff] at h
        have hs : s' = writeAlias env pindexBest pindexBlock tx .aliasActivate vvchArgs p.prevOutput s := by
          unfold writeAlias
          split at h <;> simp_all
        exact hs ▸ .activate hver hop hprev hnew hopen
      | aliasUpdate =>
        obtain ⟨p, hprev, hown, hname⟩ := checkAliasUpdate_connect hcheck
        simp only [hprev, writes_connect_iff] at h
        have hs : s' = writeAlias env pindexBest pindexBlock tx .aliasUpdate vvchArgs p.prevOutput s := by
          unfold writeAlias
          split at h <;> simp_all
        exact hs ▸ .update hver hop hprev hown hname
      | _ => cases hcheck

end Accepted

end Syscoin

import Syscoin.Chain.Run
import Syscoin.Lib.Access

/-!
# `Correctness.ServiceFees` — which operations burn a fee

The least fee of an operation falls from one amount to another at a height. The amounts of an alias, an offer and an
issuer are coins, and what is subtracted from the latter two is less than they are, so that an activation burns something
at every height. The amounts of a payment and of a transfer lack the factor `COIN`, and a coin is subtracted from them as
well: the least fee is negative, and nothing has to be burned.
-/

namespace Syscoin

open Lib

/-- The operations that carry a fee. -/
def Op.CarriesFee (op : Op) : Prop :=
  op = .aliasActivate ∨ op = .offerActivate ∨ op = .offerPay ∨ op = .certissuerActivate ∨ op = .certTransfer

def Op.IsActivation (op : Op) : Prop := op = .aliasActivate ∨ op = .offerActivate ∨ op = .certissuerActivate

/-- The configuration of the main network. -/
def Env.MainNet (env : Env) : Prop := env.fTestNet = false ∧ env.fCakeNet = false

/-- A call of `CheckInputs`. -/
structure InputsCall where
  m : Mode
  pindexBest : CBlockIndex
  pindex : CBlockIndex
  tx : CTransaction
  inputs : CoinsView
  nSpendHeight : Nat
  fScriptChecks : Bool
  fP2SH : Bool
  store : Store

namespace InputsCall

variable (env : Env) (c : InputsCall)

/-- The transaction is accepted for a block that is not just checked, as an operation of a service. -/
def AcceptedAs (op : Op) : Prop :=
  c.m.fBlock = true ∧ c.m.fJustCheck = false ∧ c.tx.examined ∧
    (∃ r, decodeAliasTx c.tx = some r ∧ r.1 = op ∨ decodeOfferTx c.tx = some r ∧ r.1 = op ∨
      decodeCertTx c.tx = some r ∧ r.1 = op) ∧
    ∃ checks s', checkInputs env c.m c.pindexBest c.pindex c.tx c.inputs c.nSpendHeight c.fScriptChecks c.fP2SH c.store =
      (.ok checks, s')

end InputsCall

/-! ## Activations -/

section Activations

variable {env : Env} {m : Mode} {pindexBest pindex : CBlockIndex} {tx : CTransaction} {inputs : CoinsView}
  {nSpendHeight nHeight : Nat} {fScriptChecks fP2SH : Bool} {s s' : Store} {checks : List CScriptCheck}
  {op : Op} {nOut : Nat} {vvchArgs : List Bytes} {mapTestPool : TestPool}

/-- The price is one of two amounts. -/
theorem networkFee_pos {nRes nDif : Int} (hres : 0 < nRes) (hdif : nDif < nRes) : 0 < networkFee nRes nDif nHeight := by
  unfold networkFee
  split
  · omega
  · rename_i hle
    have hquot : nHeight / 130080 = 0 ∨ nHeight / 130080 = 1 := by omega
    rcases hquot with hzero | hone
    · rw [hzero]
      omega
    · rw [hone]
      omega

theorem getAliasNetworkFee_pos (nHeight : Nat) : 0 < getAliasNetworkFee nHeight := networkFee_pos (by decide) (by decide)

theorem coin_lt_networkFee {nRes nDif : Int} (hres : COIN < nRes) (hdif : nDif + COIN < nRes) :
    COIN < networkFee nRes nDif nHeight := by
  have hpos : 0 < networkFee (nRes - COIN) nDif nHeight := networkFee_pos (by omega) (by omega)
  have hshift : networkFee (nRes - COIN) nDif nHeight = networkFee nRes nDif nHeight - COIN := by
    unfold networkFee
    split
    · omega
    · omega
  omega

theorem coin_lt_getOfferNetworkFee (hmain : env.MainNet) (nHeight : Nat) : COIN < getOfferNetworkFee env 1 nHeight := by
  rw [getOfferNetworkFee, if_neg (by rw [hmain.2]; decide), if_neg (by decide)]
  exact coin_lt_networkFee (by decide) (by decide)

theorem coin_lt_getCertNetworkFee (hmain : env.MainNet) (nHeight : Nat) : COIN < getCertNetworkFee env 1 nHeight := by
  rw [getCertNetworkFee, if_neg (by rw [hmain.2]; decide), if_neg (by decide), if_neg (by decide)]
  exact coin_lt_networkFee (by decide) (by decide)

/-! What each of the three checks asks of its operation. -/

theorem checkAliasOp_of_inputs {aliasdb : AliasState} {r : AliasState × TestPool} (hexamined : tx.examined)
    (hop : decodeAliasTx tx = some (op, nOut, vvchArgs))
    (h : checkAliasInputs env m pindexBest pindex tx inputs aliasdb mapTestPool = .ok r) :
    checkAliasOp env m pindex tx (findPrev decodeAliasScript inputs tx.vin) vvchArgs aliasdb op = .ok ⟨⟩ := by
  unfold checkAliasInputs at h
  rw [if_neg (by simp [hexamined.1])] at h
  dsimp only at h
  rw [if_neg (by simp [hexamined.2]), hop] at h
  obtain ⟨_, hcheck, -⟩ := Except.bind_ok_iff.mp h
  exact hcheck

theorem checkOfferOp_of_inputs {offerdb : OfferState} {r : OfferState × TestPool} (hexamined : tx.examined)
    (hop : decodeOfferTx tx = some (op, nOut, vvchArgs))
    (h : checkOfferInputs env m pindexBest pindex tx inputs offerdb mapTestPool = .ok r) :
    checkOfferOp env m pindexBest pindex tx (findPrev decodeOfferScript inputs tx.vin) vvchArgs (COffer.ofTx tx) mapTestPool
      offerdb op = .ok ⟨⟩ := by
  unfold checkOfferInputs at h
  rw [if_neg (by simp [hexamined.1])] at h
  dsimp only at h
  rw [if_neg (by simp [hexamined.2]), hop] at h
  obtain ⟨-, h⟩ := require_bind_ok_iff.mp h
  obtain ⟨_, hcheck, -⟩ := Except.bind_ok_iff.mp h
  exact hcheck

theorem checkCertOp_of_inputs {certdb : CertState} {r : CertState × TestPool} (hexamined : tx.examined)
    (hop : decodeCertTx tx = some (op, nOut, vvchArgs))
    (h : checkCertInputs env m pindexBest pindex tx inputs certdb mapTestPool = .ok r) :
    checkCertOp env m pindexBest pindex tx (findPrev decodeCertScript inputs tx.vin) vvchArgs (CCertIssuer.ofTx tx)
      mapTestPool certdb op = .ok ⟨⟩ := by
  unfold checkCertInputs at h
  rw [if_neg (by simp [hexamined.1])] at h
  dsimp only at h
  rw [if_neg (by simp [hexamined.2]), hop] at h
  obtain ⟨-, h⟩ := require_bind_ok_iff.mp h
  obtain ⟨_, hcheck, -⟩ := Except.bind_ok_iff.mp h
  exact hcheck

theorem burns_of_checkAliasOp {aliasdb : AliasState} {prev : Option Prev} (hactivation : op.IsActivation)
    (h : checkAliasOp env m pindex tx prev vvchArgs aliasdb op = .ok ⟨⟩) : 0 < tx.getNetFee := by
  rcases hactivation with rfl | rfl | rfl
  · obtain ⟨hfee, -⟩ := require_bind_ok_iff.mp h
    exact lt_of_lt_of_le (getAliasNetworkFee_pos _) hfee
  · cases h
  · cases h

theorem burns_of_checkOfferOp {offerdb : OfferState} {prev : Option Prev} {theOffer : COffer} (hmain : env.MainNet)
    (hactivation : op.IsActivation)
    (h : checkOfferOp env m pindexBest pindex tx prev vvchArgs theOffer mapTestPool offerdb op = .ok ⟨⟩) :
    0 < tx.getNetFee := by
  rcases hactivation with rfl | rfl | rfl
  · cases h
  · obtain ⟨hfee, -⟩ := require_bind_ok_iff.mp h
    have hcoin := coin_lt_getOfferNetworkFee hmain pindex.nHeight
    have hfee' : getOfferNetworkFee env 1 pindex.nHeight - COIN ≤ tx.getNetFee := hfee
    omega
  · cases h

theorem burns_of_checkCertOp {certdb : CertState} {prev : Option Prev} {theCertIssuer : CCertIssuer}
    (hmain : env.MainNet) (hactivation : op.IsActivation)
    (h : checkCertOp env m pindexBest pindex tx prev vvchArgs theCertIssuer mapTestPool certdb op = .ok ⟨⟩) :
    0 < tx.getNetFee := by
  rcases hactivation with rfl | rfl | rfl
  · cases h
  · cases h
  · obtain ⟨hfee, -⟩ := require_bind_ok_iff.mp h
    have hcoin := coin_lt_getCertNetworkFee hmain pindex.nHeight
    have hfee' : getCertNetworkFee env 1 pindex.nHeight - COIN ≤ tx.getNetFee := hfee
    omega

/-- The genesis block comes behind no accept or item. -/
theorem relativeDepth_genesis (nTxHeight : Nat) (hheight : pindex.nHeight = 0) :
    relativeDepth pindex nTxHeight pindex.nHeight = none := by
  rw [relativeDepth_eq_none_iff, hheight]
  omega

theorem height_pos_of_checkOfferOp {offerdb : OfferState} {prev : Option Prev} {theOffer : COffer}
    (hfBlock : m.fBlock = true) (hfJustCheck : m.fJustCheck = false) (hop : op = .offerPay ∨ op = .certTransfer)
    (h : checkOfferOp env m pindexBest pindex tx prev vvchArgs theOffer mapTestPool offerdb op = .ok ⟨⟩) :
    pindex.nHeight ≠ 0 := by
  rcases hop with rfl | rfl
  · intro hheight
    obtain ⟨hprev, h⟩ := require_bind_ok_iff.mp h
    obtain ⟨-, h⟩ := require_bind_ok_iff.mp h
    obtain ⟨-, h⟩ := require_bind_ok_iff.mp h
    rcases hprev with hjust | ⟨p, hp, -⟩
    · rw [hfJustCheck] at hjust
      cases hjust
    · rw [Option.mem_def.mp hp] at h
      dsimp only at h
      rw [if_pos ⟨hfBlock, hfJustCheck⟩] at h
      obtain ⟨hdepth, -⟩ := require_bind_ok_iff.mp h
      rw [relativeDepth_genesis _ hheight] at hdepth
      cases hdepth
  · cases h

theorem height_pos_of_checkCertOp {certdb : CertState} {prev : Option Prev} {theCertIssuer : CCertIssuer}
    (hfBlock : m.fBlock = true) (hfJustCheck : m.fJustCheck = false) (hop : op = .offerPay ∨ op = .certTransfer)
    (h : checkCertOp env m pindexBest pindex tx prev vvchArgs theCertIssuer mapTestPool certdb op = .ok ⟨⟩) :
    pindex.nHeight ≠ 0 := by
  rcases hop with rfl | rfl
  · cases h
  · intro hheight
    obtain ⟨hprev, h⟩ := require_bind_ok_iff.mp h
    obtain ⟨-, h⟩ := require_bind_ok_iff.mp h
    obtain ⟨-, h⟩ := require_bind_ok_iff.mp h
    rcases hprev with hjust | ⟨p, hp, -⟩
    · rw [hfJustCheck] at hjust
      cases hjust
    · rw [Option.mem_def.mp hp] at h
      dsimp only at h
      rw [if_pos ⟨hfBlock, hfJustCheck⟩] at h
      obtain ⟨hdepth, -⟩ := require_bind_ok_iff.mp h
      rw [relativeDepth_genesis _ hheight] at hdepth
      cases hdepth

/-- What `CheckInputs` has gone through when it succeeds: the rules of each service that has an output. -/
theorem checkInputs_fees (hexamined : tx.examined)
    (h : checkInputs env m pindexBest pindex tx inputs nSpendHeight fScriptChecks fP2SH s = (.ok checks, s')) :
    ((decodeAliasTx tx).isSome = true → ∃ aliasdb pool r,
        checkAliasInputs env m pindexBest pindex tx inputs aliasdb pool = .ok r) ∧
      ((decodeOfferTx tx).isSome = true → ∃ offerdb pool r,
        checkOfferInputs env m pindexBest pindex tx inputs offerdb pool = .ok r) ∧
      ((decodeCertTx tx).isSome = true → ∃ certdb pool r,
        checkCertInputs env m pindexBest pindex tx inputs certdb pool = .ok r) := by
  unfold checkInputs at h
  rw [if_neg (by simp [hexamined.1])] at h
  unfold checkSpend at h
  obtain ⟨-, h⟩ := Proc.require_bind_ok_iff.mp h
  obtain ⟨_, -, h⟩ := Proc.lift_bind_ok_iff.mp h
  obtain ⟨s₁, haliases, h⟩ := Proc.update_bind_ok_iff.mp h
  obtain ⟨s₂, hoffers, h⟩ := Proc.update_bind_ok_iff.mp h
  obtain ⟨s₃, hcerts, -⟩ := Proc.update_bind_ok_iff.mp h
  refine ⟨?_, ?_, ?_⟩
  · intro hsome
    rw [if_pos hsome] at haliases
    obtain ⟨r, hok, -⟩ := Except.bind_ok_iff.mp haliases
    exact ⟨_, _, r, hok⟩
  · intro hsome
    rw [if_pos hsome] at hoffers
    obtain ⟨r, hok, -⟩ := Except.bind_ok_iff.mp hoffers
    exact ⟨_, _, r, hok⟩
  · intro hsome
    rw [if_pos hsome] at hcerts
    obtain ⟨r, hok, -⟩ := Except.bind_ok_iff.mp hcerts
    exact ⟨_, _, r, hok⟩

/-- The check of the operation, in the service that the transaction was accepted for. -/
theorem InputsCall.AcceptedAs.checked {c : InputsCall} (h : c.AcceptedAs env op) :
    (∃ prev vvchArgs aliasdb, checkAliasOp env c.m c.pindex c.tx prev vvchArgs aliasdb op = .ok ⟨⟩) ∨
    (∃ prev vvchArgs theOffer mapTestPool offerdb, checkOfferOp env c.m c.pindexBest c.pindex c.tx prev vvchArgs theOffer
      mapTestPool offerdb op = .ok ⟨⟩) ∨
    ∃ prev vvchArgs theCertIssuer mapTestPool certdb, checkCertOp env c.m c.pindexBest c.pindex c.tx prev vvchArgs
      theCertIssuer mapTestPool certdb op = .ok ⟨⟩ := by
  obtain ⟨-, -, hexamined, ⟨⟨op', nOut, vvchArgs⟩, hdecode⟩, checks, s', hok⟩ := h
  obtain ⟨haliases, hoffers, hcerts⟩ := checkInputs_fees hexamined hok
  rcases hdecode with ⟨hop, rfl⟩ | ⟨hop, rfl⟩ | ⟨hop, rfl⟩
  · obtain ⟨_, _, _, hcheck⟩ := haliases (by rw [hop]; rfl)
    exact .inl ⟨_, _, _, checkAliasOp_of_inputs hexamined hop hcheck⟩
  · obtain ⟨_, _, _, hcheck⟩ := hoffers (by rw [hop]; rfl)
    exact .inr (.inl ⟨_, _, _, _, _, checkOfferOp_of_inputs hexamined hop hcheck⟩)
  · obtain ⟨_, _, _, hcheck⟩ := hcerts (by rw [hop]; rfl)
    exact .inr (.inr ⟨_, _, _, _, _, checkCertOp_of_inputs hexamined hop hcheck⟩)

/-- **An activation burns something**, at every height. -/
theorem InputsCall.AcceptedAs.burns {c : InputsCall} (hmain : env.MainNet) (h : c.AcceptedAs env op)
    (hactivation : op.IsActivation) : 0 < c.tx.getNetFee := by
  rcases h.checked with ⟨_, _, _, hcheck⟩ | ⟨_, _, _, _, _, hcheck⟩ | ⟨_, _, _, _, _, hcheck⟩
  · exact burns_of_checkAliasOp hactivation hcheck
  · exact burns_of_checkOfferOp hmain hactivation hcheck
  · exact burns_of_checkCertOp hmain hactivation hcheck

/-- A payment or a transfer is behind the genesis block. -/
theorem InputsCall.AcceptedAs.height_pos {c : InputsCall} (h : c.AcceptedAs env op)
    (hop : op = .offerPay ∨ op = .certTransfer) : c.pindex.nHeight ≠ 0 := by
  rcases h.checked with ⟨_, _, _, hcheck⟩ | ⟨_, _, _, _, _, hcheck⟩ | ⟨_, _, _, _, _, hcheck⟩
  · rcases hop with rfl | rfl
    · cases hcheck
    · cases hcheck
  · exact height_pos_of_checkOfferOp h.1 h.2.1 hop hcheck
  · exact height_pos_of_checkCertOp h.1 h.2.1 hop hcheck

end Activations

/-! ## Payments and transfers -/

namespace MainNet

/-- The main network, with the hash functions of the cake network. -/
def env : Env := { Cakenet.env with fCakeNet := false }

/-- The item that `Cakenet.itemTx` created goes to a new owner. -/
def transferTx : CTransaction :=
  Cakenet.syscoin 304 [⟨303, 0⟩, ⟨1, 11⟩] [Cakenet.service 14 [Cakenet.vchName, Cakenet.vchRand]]
    { Cakenet.issuer with certs := [{ CCertItem.null with vchRand := Cakenet.vchRand }] }.serializeToString

/-- Funds, an accept and an item, all from the first block. -/
def coins : CoinsView := fun hash =>
  if hash = 1 then some ⟨false, Cakenet.fund.vout, 1, 1⟩
  else if hash = 203 then some ⟨false, Cakenet.offerAcceptTx.vout, 1, SYSCOIN_TX_VERSION⟩
  else if hash = 303 then some ⟨false, (Cakenet.itemTx []).vout, 1, SYSCOIN_TX_VERSION⟩
  else none

/-- A block at a height. -/
def blockAt (nHeight : Nat) : CBlockIndex := ⟨Cakenet.genesis, List.replicate nHeight Cakenet.genesis⟩

/-- A block on top of its parent, which is checked for the main chain. -/
def call (nHeight : Nat) (tx : CTransaction) : InputsCall :=
  ⟨Mode.connect, blockAt (nHeight - 1), blockAt nHeight, tx, coins, nHeight, true, true, Store.init⟩

theorem nHeight_blockAt (nHeight : Nat) : (blockAt nHeight).nHeight = nHeight := List.length_replicate

/-- The inputs of the payment and of the transfer: an output of the service and funds. -/
theorem checkTxIns_call (nSpendHeight : Nat) :
    checkTxIns env coins nSpendHeight 0 Cakenet.offerPayTx.vin = .ok (20001 * COIN) ∧
      checkTxIns env coins nSpendHeight 0 transferTx.vin = .ok (20001 * COIN) := by
  constructor
  · rfl
  · rfl

/-- A height after that of an accept or an item, which is one. -/
theorem relativeDepth_blockAt {nHeight : Nat} (hpos : 0 < nHeight) :
    (relativeDepth (blockAt nHeight) 1 (blockAt nHeight).nHeight).isSome = true := by
  rw [relativeDepth_isSome_iff, nHeight_blockAt]
  omega

theorem networkFee_le {nRes nDif : Int} (hdif : 0 ≤ nDif) (nHeight : Nat) : networkFee nRes nDif nHeight ≤ nRes := by
  unfold networkFee
  split
  · omega
  · have hfall : 0 ≤ ((nHeight / 130080 : Nat) : Int) * nDif := Int.mul_nonneg (Int.natCast_nonneg _) hdif
    omega

/-- A fee of at most a coin need not be burned. -/
theorem networkFee_waived {nRes nDif nNetFee : Int} (hdif : 0 ≤ nDif) (hres : nRes ≤ COIN) (hburned : nNetFee = 0)
    (nHeight : Nat) : networkFee nRes nDif nHeight - COIN ≤ nNetFee := by
  have hle : networkFee nRes nDif nHeight ≤ nRes := networkFee_le hdif nHeight
  omega

/-- The block is on top of the best one, and is written. -/
theorem writes_call {nHeight : Nat} (hpos : 0 < nHeight) : Mode.connect.writes (blockAt nHeight) (blockAt (nHeight - 1)) := by
  rw [writes_connect_iff, nHeight_blockAt, nHeight_blockAt]
  omega

/-- What passes the service rules is accepted, if its amounts and its scripts are fine. -/
theorem accepted_of_rules {nHeight : Nat} {tx : CTransaction} {op : Op} {nValueIn : Int} {checks : List CScriptCheck}
    {s₁ s₂ s₃ : Store} (hexamined : tx.examined) (hcb : tx.isCoinBase = false)
    (hdecode : ∃ r, decodeAliasTx tx = some r ∧ r.1 = op ∨ decodeOfferTx tx = some r ∧ r.1 = op ∨
      decodeCertTx tx = some r ∧ r.1 = op)
    (hinputs : tx.haveInputs coins) (hvalue : checkTxIns env coins nHeight 0 tx.vin = .ok nValueIn)
    (haliases : aliasRules env Mode.connect (blockAt (nHeight - 1)) (blockAt nHeight) tx coins Store.init = (.ok (), s₁))
    (hoffers : offerRules env Mode.connect (blockAt (nHeight - 1)) (blockAt nHeight) tx coins s₁ = (.ok (), s₂))
    (hcerts : certRules env Mode.connect (blockAt (nHeight - 1)) (blockAt nHeight) tx coins s₂ = (.ok (), s₃))
    (hfee : checkTxFee env tx nValueIn = .ok ()) (hscripts : checkScripts env coins tx true true = .ok checks) :
    (call nHeight tx).AcceptedAs env op := by
  refine ⟨rfl, rfl, hexamined, hdecode, checks, s₃, ?_⟩
  show checkInputs env Mode.connect (blockAt (nHeight - 1)) (blockAt nHeight) tx coins nHeight true true Store.init = _
  unfold checkInputs
  rw [if_neg (by rw [hcb]; exact Bool.false_ne_true)]
  unfold checkSpend
  rw [Proc.require_bind_ok_iff, Proc.lift_bind_ok_iff]
  refine ⟨hinputs, nValueIn, hvalue, ?_⟩
  rw [Proc.bind_of_ok haliases, Proc.bind_of_ok hoffers, Proc.bind_of_ok hcerts, Proc.lift_bind_ok_iff]
  exact ⟨(), hfee, Proc.lift_ok_iff.mpr ⟨hscripts, rfl⟩⟩

/-- With nothing stored an accept is looked for in the payload only, and its payment recorded. -/
theorem connectOffer_pay {pindex : CBlockIndex} {tx : CTransaction} {vvchArgs : List Bytes} {payload : COffer}
    {offerdb : OfferState} {mapTestPool : TestPool} (hempty : offerdb.history (arg vvchArgs 0) = [])
    (haccept : (payload.getAcceptByHash (arg vvchArgs 1)).isSome = true) :
    ∃ r, connectOffer env pindex tx .offerPay vvchArgs payload offerdb mapTestPool = .ok r := by
  have hbase : (baseOffer offerdb (arg vvchArgs 0) pindex.nHeight payload).getAcceptByHash (arg vvchArgs 1) =
      payload.getAcceptByHash (arg vvchArgs 1) := by
    rw [baseOffer, hempty]
    rfl
  obtain ⟨a, ha⟩ := Option.isSome_iff_exists.mp haccept
  unfold connectOffer
  rw [if_pos (.inr rfl)]
  unfold connectOfferBuyer
  dsimp only
  rw [ha]
  dsimp only
  rw [if_neg (by simp), if_neg (by rw [hbase, ha]; simp)]
  exact ⟨_, rfl⟩

/-- A payment that burns nothing passes. -/
theorem checkOfferInputs_call {nHeight : Nat} (hpos : 0 < nHeight) :
    ∃ r, checkOfferInputs env Mode.connect (blockAt (nHeight - 1)) (blockAt nHeight) Cakenet.offerPayTx coins
      Store.init.offerdb Store.init.dummyTestPool = .ok r := by
  have hop : decodeOfferTx Cakenet.offerPayTx = some (.offerPay, 0, [Cakenet.vchName, Cakenet.vchRand]) := by
    decide +kernel
  have hprev : findPrev decodeOfferScript coins Cakenet.offerPayTx.vin = some ⟨⟨203, 0⟩,
      ⟨false, Cakenet.offerAcceptTx.vout, 1, SYSCOIN_TX_VERSION⟩, .offerAccept,
      [Cakenet.vchName, Cakenet.vchRand, Cakenet.vchRand ++ Cakenet.vchName]⟩ := rfl
  have haccept : ((COffer.ofTx Cakenet.offerPayTx).getAcceptByHash Cakenet.vchRand).isSome = true := by decide +kernel
  have hfee : getOfferNetworkFee env 2 (blockAt nHeight).nHeight - COIN ≤ getOfferNetFee Cakenet.offerPayTx :=
    networkFee_waived (by decide) (by decide) (by decide +kernel) _
  have hcheck : checkOfferOp env Mode.connect (blockAt (nHeight - 1)) (blockAt nHeight) Cakenet.offerPayTx
      (findPrev decodeOfferScript coins Cakenet.offerPayTx.vin) [Cakenet.vchName, Cakenet.vchRand]
      (COffer.ofTx Cakenet.offerPayTx) Store.init.dummyTestPool Store.init.offerdb .offerPay = .ok ⟨⟩ := by
    rw [hprev]
    show checkOfferPay _ _ _ _ _ _ _ _ _ = _
    unfold checkOfferPay
    refine require_bind_ok_iff.mpr ⟨.inr ⟨_, rfl, rfl⟩, require_bind_ok_iff.mpr ⟨by decide, require_bind_ok_iff.mpr
      ⟨by decide, ?_⟩⟩⟩
    show checkOfferPayment _ _ _ _ _ _ _ _ = _
    unfold checkOfferPayment
    refine require_bind_ok_iff.mpr ⟨relativeDepth_blockAt hpos, require_bind_ok_iff.mpr ⟨by decide +kernel,
      require_bind_ok_iff.mpr ⟨haccept, require_bind_ok_iff.mpr ⟨hfee, ?_⟩⟩⟩⟩
    exact noClash_ok_iff.mpr fun _ => rfl
  unfold checkOfferInputs
  rw [if_neg (by decide +kernel)]
  dsimp only
  rw [if_neg (by decide), hop]
  dsimp only
  rw [require_bind_of (by decide), hcheck, ok_bind, if_pos ⟨by decide, writes_call hpos⟩]
  exact connectOffer_pay rfl haccept

theorem connectCert_transfer {pindex : CBlockIndex} {tx : CTransaction} {vvchArgs : List Bytes} {payload : CCertIssuer}
    {certdb : CertState} {mapTestPool : TestPool}
    (hitem : (payload.getCertItemByHash (arg vvchArgs 1)).isSome = true) :
    ∃ r, connectCert env pindex tx .certTransfer vvchArgs payload certdb mapTestPool = .ok r := by
  obtain ⟨c, hc⟩ := Option.isSome_iff_exists.mp hitem
  unfold connectCert
  rw [if_pos (.inr rfl)]
  unfold connectItem
  dsimp only
  rw [hc]
  exact ⟨_, rfl⟩

/-- A transfer that burns nothing passes. -/
theorem checkCertInputs_call {nHeight : Nat} (hpos : 0 < nHeight) :
    ∃ r, checkCertInputs env Mode.connect (blockAt (nHeight - 1)) (blockAt nHeight) transferTx coins Store.init.certdb
      Store.init.dummyTestPool = .ok r := by
  have hop : decodeCertTx transferTx = some (.certTransfer, 0, [Cakenet.vchName, Cakenet.vchRand]) := by
    decide +kernel
  have hprev : findPrev decodeCertScript coins transferTx.vin = some ⟨⟨303, 0⟩,
      ⟨false, (Cakenet.itemTx []).vout, 1, SYSCOIN_TX_VERSION⟩, .certNew,
      [Cakenet.vchName, Cakenet.vchRand, Cakenet.vchRand ++ Cakenet.vchName]⟩ := rfl
  have hitem : ((CCertIssuer.ofTx transferTx).getCertItemByHash Cakenet.vchRand).isSome = true := by decide +kernel
  have hrand : ∀ c ∈ (CCertIssuer.ofTx transferTx).getCertItemByHash Cakenet.vchRand, c.vchRand = Cakenet.vchRand := by
    decide +kernel
  have hfee : getCertNetworkFee env 4 (blockAt nHeight).nHeight - COIN ≤ getCertNetFee transferTx :=
    networkFee_waived (by decide) (by decide) (by decide +kernel) _
  have hcheck : checkCertOp env Mode.connect (blockAt (nHeight - 1)) (blockAt nHeight) transferTx
      (findPrev decodeCertScript coins transferTx.vin) [Cakenet.vchName, Cakenet.vchRand] (CCertIssuer.ofTx transferTx)
      Store.init.dummyTestPool Store.init.certdb .certTransfer = .ok ⟨⟩ := by
    rw [hprev]
    show checkCertTransfer _ _ _ _ _ _ _ _ _ = _
    unfold checkCertTransfer
    refine require_bind_ok_iff.mpr ⟨.inr ⟨_, rfl, rfl⟩, require_bind_ok_iff.mpr ⟨by decide, require_bind_ok_iff.mpr
      ⟨by decide, ?_⟩⟩⟩
    show checkCertTransferItem _ _ _ _ _ _ _ _ = _
    unfold checkCertTransferItem
    refine require_bind_ok_iff.mpr ⟨relativeDepth_blockAt hpos, require_bind_ok_iff.mpr ⟨by decide +kernel,
      require_bind_ok_iff.mpr ⟨hitem, require_bind_ok_iff.mpr ⟨hfee, require_bind_ok_iff.mpr ⟨hrand, ?_⟩⟩⟩⟩⟩
    exact noClash_ok_iff.mpr fun _ => rfl
  unfold checkCertInputs
  rw [if_neg (by decide +kernel)]
  dsimp only
  rw [if_neg (by decide), hop]
  dsimp only
  rw [require_bind_of (by decide), hcheck, ok_bind, if_pos ⟨by decide, writes_call hpos⟩]
  exact connectCert_transfer hitem

theorem offerPay_accepted {nHeight : Nat} (hpos : 0 < nHeight) :
    (call nHeight Cakenet.offerPayTx).AcceptedAs env .offerPay := by
  have hnone : ¬ (decodeAliasTx Cakenet.offerPayTx).isSome = true ∧ ¬ (decodeCertTx Cakenet.offerPayTx).isSome = true := by
    decide +kernel
  have hop : decodeOfferTx Cakenet.offerPayTx = some (.offerPay, 0, [Cakenet.vchName, Cakenet.vchRand]) := by
    decide +kernel
  obtain ⟨r, hok⟩ := checkOfferInputs_call hpos
  apply accepted_of_rules
  · decide +kernel
  · decide +kernel
  · exact ⟨_, .inr (.inl ⟨hop, rfl⟩)⟩
  · decide +kernel
  · exact (checkTxIns_call nHeight).1
  · exact aliasRules_ok_iff.mpr (.inr ⟨hnone.1, rfl⟩)
  · exact offerRules_ok_iff.mpr (.inl ⟨by rw [hop]; rfl, r, hok, rfl⟩)
  · exact certRules_ok_iff.mpr (.inr ⟨hnone.2, rfl⟩)
  · decide +kernel
  · show _ = Except.ok []
    decide +kernel

theorem certTransfer_accepted {nHeight : Nat} (hpos : 0 < nHeight) :
    (call nHeight transferTx).AcceptedAs env .certTransfer := by
  have hnone : ¬ (decodeAliasTx transferTx).isSome = true ∧ ¬ (decodeOfferTx transferTx).isSome = true := by
    decide +kernel
  have hop : decodeCertTx transferTx = some (.certTransfer, 0, [Cakenet.vchName, Cakenet.vchRand]) := by
    decide +kernel
  obtain ⟨r, hok⟩ := checkCertInputs_call hpos
  apply accepted_of_rules
  · decide +kernel
  · decide +kernel
  · exact ⟨_, .inr (.inr ⟨hop, rfl⟩)⟩
  · decide +kernel
  · exact (checkTxIns_call nHeight).2
  · exact aliasRules_ok_iff.mpr (.inr ⟨hnone.1, rfl⟩)
  · exact offerRules_ok_iff.mpr (.inr ⟨hnone.2, rfl⟩)
  · exact certRules_ok_iff.mpr (.inl ⟨by rw [hop]; rfl, r, hok, rfl⟩)
  · decide +kernel
  · show _ = Except.ok []
    decide +kernel

theorem burns_nothing : Cakenet.offerPayTx.getNetFee = 0 ∧ transferTx.getNetFee = 0 := by
  decide +kernel

end MainNet

/-- **Which service operations burn a fee.** Of the operations that carry a fee, whatever is accepted on the main network
    burns something just for the activations, at every height; the genesis block aside, behind which there is nothing to
    pay for or to transfer. -/
theorem service_fee_burned_iff {op : Op} (hop : op.CarriesFee) (nHeight : Nat) :
    (∀ (env : Env) (c : InputsCall), env.MainNet → c.pindex.nHeight = nHeight → c.AcceptedAs env op →
      0 < c.tx.getNetFee) ↔ op.IsActivation ∨ nHeight = 0 := by
  constructor
  · intro hburns
    by_contra hneither
    obtain ⟨hactivation, hheight⟩ := not_or.mp hneither
    have hpos : 0 < nHeight := Nat.pos_of_ne_zero hheight
    have hmain : MainNet.env.MainNet := ⟨rfl, rfl⟩
    rcases hop with rfl | rfl | rfl | rfl | rfl
    · exact hactivation (.inl rfl)
    · exact hactivation (.inr (.inl rfl))
    · have hfee := hburns MainNet.env _ hmain (MainNet.nHeight_blockAt nHeight) (MainNet.offerPay_accepted hpos)
      exact absurd MainNet.burns_nothing.1 hfee.ne'
    · exact hactivation (.inr (.inr rfl))
    · have hfee := hburns MainNet.env _ hmain (MainNet.nHeight_blockAt nHeight) (MainNet.certTransfer_accepted hpos)
      exact absurd MainNet.burns_nothing.2 hfee.ne'
  · rintro (hactivation | hheight) env c hmain hc haccepted
    · exact haccepted.burns hmain hactivation
    · rcases hop with rfl | rfl | rfl | rfl | rfl
      · exact haccepted.burns hmain (.inl rfl)
      · exact haccepted.burns hmain (.inr (.inl rfl))
      · exact absurd (hc.trans hheight) (haccepted.height_pos (.inl rfl))
      · exact haccepted.burns hmain (.inr (.inr rfl))
      · exact absurd (hc.trans hheight) (haccepted.height_pos (.inr rfl))

namespace MainNet

/-- Alias activations burn something at height twelve, and payments do not have to. -/
theorem fees_at_twelve :
    (∀ (env : Env) (c : InputsCall), env.MainNet → c.pindex.nHeight = 12 → c.AcceptedAs env .aliasActivate →
        0 < c.tx.getNetFee) ∧
      ¬ ∀ (env : Env) (c : InputsCall), env.MainNet → c.pindex.nHeight = 12 → c.AcceptedAs env .offerPay →
        0 < c.tx.getNetFee := by
  constructor
  · exact (@service_fee_burned_iff Op.aliasActivate (.inl rfl) 12).mpr (.inl (.inl rfl))
  · intro hburns
    rcases (@service_fee_burned_iff Op.offerPay (.inr (.inr (.inl rfl))) 12).mp hburns with hactivation | hheight
    · rcases hactivation with h | h | h
      · cases h
      · cases h
      · cases h
    · cases hheight

/-- The payment of an accept is let through although it burns nothing. -/
theorem free_payment_accepted :
    ¬ ∀ (env : Env) (c : InputsCall) (op : Op), env.MainNet → op.CarriesFee → c.AcceptedAs env op →
      0 < c.tx.getNetFee := by
  intro hburns
  have hfee := hburns env (call 12 Cakenet.offerPayTx) .offerPay ⟨rfl, rfl⟩ (.inr (.inr (.inl rfl)))
    (offerPay_accepted (by decide))
  exact absurd burns_nothing.1 hfee.ne'

end MainNet

end Syscoin

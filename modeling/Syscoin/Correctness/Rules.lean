import Syscoin.Chain.Run

/-!
# `Correctness.Rules` — what the input rules turn down

Two laws that the rules are meant to enforce on a connecting block, with the exact extent to which they do.

* **Exclusivity.** A name, an offer or an issuer that has not expired cannot be activated a second time. The test
  for it stands inside the branch for connecting blocks but is guarded by `!fBlock`, so it never runs there: an
  activation is turned down iff it breaks one of the *other* rules (`unexpired_activation_rejected_iff`).
* **No plain spending.** A service output is not spent by an ordinary transaction. The guard is part of the
  service rules, and those are consulted only for transactions that carry an output of the service
  (`service_spend_guarded_iff`).
-/

namespace Syscoin

open Lib

/-! ## Exclusivity -/

/-- The last entry is younger than the expiration depth. -/
def Unexpired (nHeight : Nat) (nPrevHeight : Option Nat) (nDepth : Nat) : Prop :=
  ∃ p ∈ nPrevHeight, (nHeight : Int) - p < nDepth

instance (nHeight : Nat) (nPrevHeight : Option Nat) (nDepth : Nat) :
    Decidable (Unexpired nHeight nPrevHeight nDepth) :=
  inferInstanceAs (Decidable (∃ p ∈ nPrevHeight, _))

/-- The grounds on which an activation is turned down: as a plain transaction that spends a service output, or
    by one of the rules for activations. A coinbase is not looked at. -/
def TurnedDown (tx : CTransaction) (prev : Option Prev) (rules : Prop) : Prop :=
  tx.isCoinBase = false ∧
    ((tx.nVersion ≠ SYSCOIN_TX_VERSION ∧ prev ≠ none) ∨ (tx.nVersion = SYSCOIN_TX_VERSION ∧ ¬ rules))

section Activation

variable {env : Env} {pindexBest pindexBlock : CBlockIndex} {tx : CTransaction} {inputs : CoinsView}
  {mapTestPool : TestPool} {nOut : Nat} {vvchArgs : List Bytes}

theorem checkAliasInputs_activate_rejected_iff {s : AliasState}
    (hop : decodeAliasTx tx = some (.aliasActivate, nOut, vvchArgs)) :
    (∃ e, checkAliasInputs env Mode.connect pindexBest pindexBlock tx inputs s mapTestPool = .error e) ↔
      TurnedDown tx (findPrev decodeAliasScript inputs tx.vin)
        (ActivationRules env pindexBlock tx inputs vvchArgs) := by
  rw [Except.isError_iff, TurnedDown, checkAliasInputs]
  by_cases hcb : tx.isCoinBase = true
  · simp [hcb]
  · by_cases hver : tx.nVersion = SYSCOIN_TX_VERSION
    · rw [if_neg hcb]
      simp only [hver, ne_eq, not_true_eq_false, if_false, hop, checkAliasOp]
      rw [Except.exists_bind_ok_iff, checkAliasActivate_connect_iff]
      · simp [hcb]
      · -- nothing fails after the switch
        split
        · exact ⟨_, rfl⟩
        · split <;> exact ⟨_, rfl⟩
    · simp [hcb, hver, Option.isNone_iff_eq_none]

theorem checkOfferInputs_activate_rejected_iff {s : OfferState}
    (hop : decodeOfferTx tx = some (.offerActivate, nOut, vvchArgs)) :
    (∃ e, checkOfferInputs env Mode.connect pindexBest pindexBlock tx inputs s mapTestPool = .error e) ↔
      TurnedDown tx (findPrev decodeOfferScript inputs tx.vin)
        ((arg vvchArgs 0).length ≤ MAX_NAME_LENGTH ∧
          OfferActivationRules env pindexBest pindexBlock tx inputs vvchArgs mapTestPool) := by
  rw [Except.isError_iff, TurnedDown, checkOfferInputs]
  by_cases hcb : tx.isCoinBase = true
  · simp [hcb]
  · by_cases hver : tx.nVersion = SYSCOIN_TX_VERSION
    · rw [if_neg hcb]
      simp only [hver, ne_eq, not_true_eq_false, if_false, hop, checkOfferOp, require_bind_ok_iff,
        exists_and_left]
      rw [Except.exists_bind_ok_iff, checkOfferActivate_connect_iff]
      · simp [hcb]
      · split <;> exact ⟨_, rfl⟩
    · simp [hcb, hver, Option.isNone_iff_eq_none]

theorem checkCertInputs_activate_rejected_iff {s : CertState}
    (hop : decodeCertTx tx = some (.certissuerActivate, nOut, vvchArgs)) :
    (∃ e, checkCertInputs env Mode.connect pindexBest pindexBlock tx inputs s mapTestPool = .error e) ↔
      TurnedDown tx (findPrev decodeCertScript inputs tx.vin)
        ((arg vvchArgs 0).length ≤ MAX_NAME_LENGTH ∧
          CertActivationRules env pindexBest pindexBlock tx inputs vvchArgs mapTestPool) := by
  rw [Except.isError_iff, TurnedDown, checkCertInputs]
  by_cases hcb : tx.isCoinBase = true
  · simp [hcb]
  · by_cases hver : tx.nVersion = SYSCOIN_TX_VERSION
    · rw [if_neg hcb]
      simp only [hver, ne_eq, not_true_eq_false, if_false, hop, checkCertOp, require_bind_ok_iff,
        exists_and_left]
      rw [Except.exists_bind_ok_iff, checkCertissuerActivate_connect_iff]
      · simp [hcb]
      · split <;> exact ⟨_, rfl⟩
    · simp [hcb, hver, Option.isNone_iff_eq_none]

end Activation

/-- **An activation of an unexpired name, offer or issuer is turned down iff it breaks one of the other rules.**
    What the databases hold for it plays no part. -/
theorem unexpired_activation_rejected_iff (env : Env) (pindexBest pindexBlock : CBlockIndex) (tx : CTransaction)
    (inputs : CoinsView) (mapTestPool : TestPool) (nOut : Nat) (vvchArgs : List Bytes) :
    (∀ s : AliasState, decodeAliasTx tx = some (.aliasActivate, nOut, vvchArgs) →
      Unexpired pindexBlock.nHeight (getAliasHeight s (arg vvchArgs 0))
        (getAliasExpirationDepth pindexBlock.nHeight) →
      ((∃ e, checkAliasInputs env Mode.connect pindexBest pindexBlock tx inputs s mapTestPool = .error e) ↔
        TurnedDown tx (findPrev decodeAliasScript inputs tx.vin)
          (ActivationRules env pindexBlock tx inputs vvchArgs))) ∧
    (∀ s : OfferState, decodeOfferTx tx = some (.offerActivate, nOut, vvchArgs) →
      Unexpired pindexBlock.nHeight (getOfferHeight s (arg vvchArgs 0))
        (getOfferExpirationDepth pindexBlock.nHeight) →
      ((∃ e, checkOfferInputs env Mode.connect pindexBest pindexBlock tx inputs s mapTestPool = .error e) ↔
        TurnedDown tx (findPrev decodeOfferScript inputs tx.vin)
          ((arg vvchArgs 0).length ≤ MAX_NAME_LENGTH ∧
            OfferActivationRules env pindexBest pindexBlock tx inputs vvchArgs mapTestPool))) ∧
    (∀ s : CertState, decodeCertTx tx = some (.certissuerActivate, nOut, vvchArgs) →
      Unexpired pindexBlock.nHeight (getCertHeight s (arg vvchArgs 0))
        (getCertExpirationDepth pindexBlock.nHeight) →
      ((∃ e, checkCertInputs env Mode.connect pindexBest pindexBlock tx inputs s mapTestPool = .error e) ↔
        TurnedDown tx (findPrev decodeCertScript inputs tx.vin)
          ((arg vvchArgs 0).length ≤ MAX_NAME_LENGTH ∧
            CertActivationRules env pindexBest pindexBlock tx inputs vvchArgs mapTestPool))) :=
  ⟨fun _ hop _ => checkAliasInputs_activate_rejected_iff hop,
    fun _ hop _ => checkOfferInputs_activate_rejected_iff hop,
    fun _ hop _ => checkCertInputs_activate_rejected_iff hop⟩

namespace Cakenet

/-- The name is activated in block ten, and a second commitment to it stands in the chain. -/
def rivalNewTx : CTransaction := syscoin 103 [⟨1, 5⟩] [service 1 [vchRand ++ vchName], pay (19000 * COIN)] []

def rivalActivateTx : CTransaction :=
  syscoin 104 [⟨103, 0⟩, ⟨1, 6⟩] [service 2 [vchName, vchRand, [9]], burn (5172 * COIN)] []

def takenBlock10 : CBlockIndex :=
  mine (mine block8 9 [aliasNewTx, rivalNewTx, offerNewTx, issuerNewTx])
    10 [aliasActivateTx, offerActivateTx, issuerActivateTx]

def rivalBlock11 : CBlockIndex := mine takenBlock10 11 [rivalActivateTx]

/-- The activations of an alias, an offer and an issuer that are already active, sent a second time. -/
theorem second_activation_rejected_iff :
    let node := nodeAt takenBlock10
    let pool := node.store.dummyTestPool
    (Unexpired 11 (getAliasHeight node.store.aliasdb vchName) (getAliasExpirationDepth 11) ∧
      ((∃ e, checkAliasInputs env Mode.connect takenBlock10 rivalBlock11 rivalActivateTx node.coinsTip
          node.store.aliasdb pool = .error e) ↔
        TurnedDown rivalActivateTx (findPrev decodeAliasScript node.coinsTip rivalActivateTx.vin)
          (ActivationRules env rivalBlock11 rivalActivateTx node.coinsTip [vchName, vchRand, [9]]))) ∧
    (Unexpired 11 (getOfferHeight node.store.offerdb vchName) (getOfferExpirationDepth 11) ∧
      ((∃ e, checkOfferInputs env Mode.connect takenBlock10 rivalBlock11 offerActivateTx node.coinsTip
          node.store.offerdb pool = .error e) ↔
        TurnedDown offerActivateTx (findPrev decodeOfferScript node.coinsTip offerActivateTx.vin)
          ((arg [vchName, vchRand, [1]] 0).length ≤ MAX_NAME_LENGTH ∧ OfferActivationRules env takenBlock10
            rivalBlock11 offerActivateTx node.coinsTip [vchName, vchRand, [1]] pool))) ∧
    (Unexpired 11 (getCertHeight node.store.certdb vchName) (getCertExpirationDepth 11) ∧
      ((∃ e, checkCertInputs env Mode.connect takenBlock10 rivalBlock11 issuerActivateTx node.coinsTip
          node.store.certdb pool = .error e) ↔
        TurnedDown issuerActivateTx (findPrev decodeCertScript node.coinsTip issuerActivateTx.vin)
          ((arg [vchName, vchRand, [1]] 0).length ≤ MAX_NAME_LENGTH ∧ CertActivationRules env takenBlock10
            rivalBlock11 issuerActivateTx node.coinsTip [vchName, vchRand, [1]] pool))) := by
  intro node pool
  have ha : Unexpired 11 (getAliasHeight node.store.aliasdb vchName) (getAliasExpirationDepth 11) := by
    decide +kernel
  have ho : Unexpired 11 (getOfferHeight node.store.offerdb vchName) (getOfferExpirationDepth 11) := by
    decide +kernel
  have hc : Unexpired 11 (getCertHeight node.store.certdb vchName) (getCertExpirationDepth 11) := by
    decide +kernel
  exact ⟨⟨ha, (unexpired_activation_rejected_iff env takenBlock10 rivalBlock11 rivalActivateTx node.coinsTip pool
      0 _).1 _ (by decide +kernel) ha⟩,
    ⟨ho, (unexpired_activation_rejected_iff env takenBlock10 rivalBlock11 offerActivateTx node.coinsTip pool
      0 _).2.1 _ (by decide +kernel) ho⟩,
    ⟨hc, (unexpired_activation_rejected_iff env takenBlock10 rivalBlock11 issuerActivateTx node.coinsTip pool
      0 _).2.2 _ (by decide +kernel) hc⟩⟩

/-- A rival activates the name one block after its holder did, and the database follows. -/
theorem unexpired_alias_activated_again :
    ∃ blocks node, Run env (fun _ => True) genesis blocks node ∧ node.pindexBest = takenBlock10 ∧
      decodeAliasTx rivalActivateTx = some (.aliasActivate, 0, [vchName, vchRand, [9]]) ∧
      Unexpired 11 (getAliasHeight node.store.aliasdb vchName) (getAliasExpirationDepth 11) ∧
      (checkAliasInputs env Mode.connect node.pindexBest rivalBlock11 rivalActivateTx node.coinsTip
        node.store.aliasdb node.store.dummyTestPool).isOk = true ∧
      (setBestChain env amb rivalBlock11 node).1.isOk = true ∧
      ((nodeThen node rivalBlock11).store.aliasdb.history vchName).getLast?.map (·.txHash) = some 104 :=
  ⟨_, nodeAt takenBlock10, run_nodeAt (by decide +kernel) (fun _ _ => trivial), by decide +kernel,
    by decide +kernel, by decide +kernel, by decide +kernel, by decide +kernel, by decide +kernel⟩

end Cakenet

/-! ## No plain spending -/

/-- One of the inputs spends an output that `decode` accepts. -/
def SpendsService (decode : CScript → Option (Op × List Bytes)) (inputs : CoinsView) (tx : CTransaction) : Prop :=
  ∃ txin ∈ tx.vin, (decode (inputs.output txin.prevout).scriptPubKey).isSome = true

instance (decode : CScript → Option (Op × List Bytes)) (inputs : CoinsView) (tx : CTransaction) :
    Decidable (SpendsService decode inputs tx) :=
  inferInstanceAs (Decidable (∃ txin ∈ tx.vin, _))

section Guard

variable {env : Env} {m : Mode} {pindexBest pindexBlock : CBlockIndex} {tx : CTransaction} {inputs : CoinsView}
  {mapTestPool : TestPool}

theorem SpendsService.findPrev_ne_none {decode : CScript → Option (Op × List Bytes)}
    (h : SpendsService decode inputs tx) : (findPrev decode inputs tx.vin).isNone ≠ true := by
  obtain ⟨txin, hin, hsome⟩ := h
  rw [ne_eq, Option.isNone_iff_eq_none, findPrev_eq_none_iff]
  intro hnone
  rw [hnone txin hin] at hsome
  cases hsome

theorem checkAliasInputs_version {s : AliasState} {r : AliasState × TestPool} (hcb : tx.isCoinBase = false)
    (hspends : SpendsService decodeAliasScript inputs tx)
    (h : checkAliasInputs env m pindexBest pindexBlock tx inputs s mapTestPool = .ok r) :
    tx.nVersion = SYSCOIN_TX_VERSION := by
  unfold checkAliasInputs at h
  rw [if_neg (by simp [hcb])] at h
  by_contra hver
  simp only [if_pos hver, require_bind_ok_iff] at h
  exact hspends.findPrev_ne_none h.1

theorem checkOfferInputs_version {s : OfferState} {r : OfferState × TestPool} (hcb : tx.isCoinBase = false)
    (hspends : SpendsService decodeOfferScript inputs tx)
    (h : checkOfferInputs env m pindexBest pindexBlock tx inputs s mapTestPool = .ok r) :
    tx.nVersion = SYSCOIN_TX_VERSION := by
  unfold checkOfferInputs at h
  rw [if_neg (by simp [hcb])] at h
  by_contra hver
  simp only [if_pos hver, require_bind_ok_iff] at h
  exact hspends.findPrev_ne_none h.1

theorem checkCertInputs_version {s : CertState} {r : CertState × TestPool} (hcb : tx.isCoinBase = false)
    (hspends : SpendsService decodeCertScript inputs tx)
    (h : checkCertInputs env m pindexBest pindexBlock tx inputs s mapTestPool = .ok r) :
    tx.nVersion = SYSCOIN_TX_VERSION := by
  unfold checkCertInputs at h
  rw [if_neg (by simp [hcb])] at h
  by_contra hver
  simp only [if_pos hver, require_bind_ok_iff] at h
  exact hspends.findPrev_ne_none h.1

/-- The three rule sets ran to the end. -/
theorem checkInputs_rules {nSpendHeight : Nat} {fScript fP2SH : Bool} {s s' : Store} {checks : List CScriptCheck}
    (hcb : tx.isCoinBase = false)
    (h : checkInputs env m pindexBest pindexBlock tx inputs nSpendHeight fScript fP2SH s = (.ok checks, s')) :
    ∃ s₁ s₂ s₃, aliasRules env m pindexBest pindexBlock tx inputs s = (.ok (), s₁) ∧
      offerRules env m pindexBest pindexBlock tx inputs s₁ = (.ok (), s₂) ∧
      certRules env m pindexBest pindexBlock tx inputs s₂ = (.ok (), s₃) := by
  unfold checkInputs at h
  rw [if_neg (by simp [hcb])] at h
  unfold checkSpend at h
  obtain ⟨-, h⟩ := Proc.require_bind_ok_iff.mp h
  obtain ⟨_, -, h⟩ := Proc.lift_bind_ok_iff.mp h
  obtain ⟨⟨⟩, s₁, ha, h⟩ := Proc.bind_ok_iff.mp h
  obtain ⟨⟨⟩, s₂, ho, h⟩ := Proc.bind_ok_iff.mp h
  obtain ⟨⟨⟩, s₃, hc, -⟩ := Proc.bind_ok_iff.mp h
  exact ⟨s₁, s₂, s₃, ha, ho, hc⟩

end Guard

/-- **The guard against plain spending holds exactly for transactions that carry an output of the service.** Of an
    accepted transaction that spends an alias output: it is a syscoin transaction with an alias output iff it has
    an alias output at all. Likewise for offers and certificates. -/
theorem service_spend_guarded_iff {env : Env} {m : Mode} {pindexBest pindex : CBlockIndex} {tx : CTransaction}
    {inputs : CoinsView} {nSpendHeight : Nat} {fScript fP2SH : Bool} {s s' : Store} {checks : List CScriptCheck}
    (hcb : tx.isCoinBase = false)
    (h : checkInputs env m pindexBest pindex tx inputs nSpendHeight fScript fP2SH s = (.ok checks, s')) :
    (SpendsService decodeAliasScript inputs tx →
      ((tx.nVersion = SYSCOIN_TX_VERSION ∧ (decodeAliasTx tx).isSome = true) ↔
        (decodeAliasTx tx).isSome = true)) ∧
    (SpendsService decodeOfferScript inputs tx →
      ((tx.nVersion = SYSCOIN_TX_VERSION ∧ (decodeOfferTx tx).isSome = true) ↔
        (decodeOfferTx tx).isSome = true)) ∧
    (SpendsService decodeCertScript inputs tx →
      ((tx.nVersion = SYSCOIN_TX_VERSION ∧ (decodeCertTx tx).isSome = true) ↔
        (decodeCertTx tx).isSome = true)) := by
  obtain ⟨s₁, s₂, s₃, ha, ho, hc⟩ := checkInputs_rules hcb h
  refine ⟨fun hspends => and_iff_right_of_imp fun hout => ?_, fun hspends => and_iff_right_of_imp fun hout => ?_,
    fun hspends => and_iff_right_of_imp fun hout => ?_⟩
  · have ha := Proc.update_ok_iff.mp ha
    rw [if_pos hout] at ha
    obtain ⟨r, hcheck, -⟩ := Except.bind_ok_iff.mp ha
    exact checkAliasInputs_version hcb hspends hcheck
  · have ho := Proc.update_ok_iff.mp ho
    rw [if_pos hout] at ho
    obtain ⟨r, hcheck, -⟩ := Except.bind_ok_iff.mp ho
    exact checkOfferInputs_version hcb hspends hcheck
  · have hc := Proc.update_ok_iff.mp hc
    rw [if_pos hout] at hc
    obtain ⟨r, hcheck, -⟩ := Except.bind_ok_iff.mp hc
    exact checkCertInputs_version hcb hspends hcheck

namespace Cakenet

/-- The update of an alias spends an alias output and carries one. -/
theorem alias_update_spend_guarded :
    ∃ checks s', checkInputs env Mode.connect takenBlock10 rivalBlock11 aliasUpdateTx (nodeAt takenBlock10).coinsTip
        11 true true (nodeAt takenBlock10).store = (.ok checks, s') ∧
      SpendsService decodeAliasScript (nodeAt takenBlock10).coinsTip aliasUpdateTx ∧
      ((aliasUpdateTx.nVersion = SYSCOIN_TX_VERSION ∧ (decodeAliasTx aliasUpdateTx).isSome = true) ↔
        (decodeAliasTx aliasUpdateTx).isSome = true) := by
  have hok : (checkInputs env Mode.connect takenBlock10 rivalBlock11 aliasUpdateTx (nodeAt takenBlock10).coinsTip
      11 true true (nodeAt takenBlock10).store).1.toOption = some [] := by decide +kernel
  have hspends : SpendsService decodeAliasScript (nodeAt takenBlock10).coinsTip aliasUpdateTx := by
    decide +kernel
  rcases hrun : checkInputs env Mode.connect takenBlock10 rivalBlock11 aliasUpdateTx
      (nodeAt takenBlock10).coinsTip 11 true true (nodeAt takenBlock10).store with ⟨_ | checks, s'⟩
  · rw [hrun] at hok
    cases hok
  · exact ⟨checks, s', rfl, hspends, (service_spend_guarded_iff (by decide +kernel) hrun).1 hspends⟩

/-- A payment of version one that spends the output of an active alias and carries no alias output. -/
def plainTx : CTransaction := ⟨1, [spends ⟨101, 0⟩, spends ⟨1, 6⟩], [pay (19000 * COIN)], 400, []⟩

theorem plain_payment_spends_alias :
    (checkInputs env Mode.connect takenBlock10 (mine takenBlock10 11 [plainTx]) plainTx
      (nodeAt takenBlock10).coinsTip 11 true true (nodeAt takenBlock10).store).1.isOk = true ∧
      plainTx.isCoinBase = false ∧ SpendsService decodeAliasScript (nodeAt takenBlock10).coinsTip plainTx ∧
      ¬ (plainTx.nVersion = SYSCOIN_TX_VERSION ∧ (decodeAliasTx plainTx).isSome = true) ∧
      (setBestChain env amb (mine takenBlock10 11 [plainTx]) (nodeAt takenBlock10)).1.isOk = true := by
  decide +kernel

end Cakenet

end Syscoin

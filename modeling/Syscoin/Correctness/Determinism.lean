import Syscoin.Chain.History
import Syscoin.Lib.Lockstep

/-!
# `Correctness.Determinism` — is validity a function of the chain?

Two nodes are on the same chain and get the same next block. Their coins are equivalent whatever they have been
through (`History.coins_equiv`). Their service databases need not be: offers are not undone by a disconnect, and a
block that fails leaves behind what its first transactions wrote.

Of all that, connecting the next block reads little: the three fee lists, which decide how much the coinbase may claim,
and the stored offers that its buyers name, which decide whether an accept is recorded and a payment let through. The
test pool is not read, because the block is above the best block. `next_block_agrees` runs `ConnectBlock` on both
nodes side by side, with `StoresAgree` as the relation between their stores.
-/

namespace Syscoin

open Lib

/-- The block has an accept or a payment of the offer `g`. -/
def BuyersName (block : CBlock) (g : Bytes) : Prop :=
  ∃ tx ∈ block.vtx, ∃ r ∈ decodeOfferTx tx, (r.1 = .offerAccept ∨ r.1 = .offerPay) ∧ arg r.2.2 0 = g

/-- The stores agree on what connecting the block reads of them. -/
structure StoresAgree (block : CBlock) (s t : Store) : Prop where
  aliasFees : t.aliasdb.lstAliasFees = s.aliasdb.lstAliasFees
  offerFees : t.offerdb.lstOfferFees = s.offerdb.lstOfferFees
  certFees : t.certdb.lstCertIssuerFees = s.certdb.lstCertIssuerFees
  offers : ∀ g, BuyersName block g → t.offerdb.history g = s.offerdb.history g

/-! ## What is read of the coins -/

section Coins

variable {env : Env} {tx : CTransaction} {v w : CoinsView}

/-- The views have the same entries for the inputs. -/
def SameInputs (vin : List CTxIn) (v w : CoinsView) : Prop :=
  ∀ txin ∈ vin, w.getCoins txin.prevout.hash = v.getCoins txin.prevout.hash

theorem SameInputs.output_eq {vin : List CTxIn} (h : SameInputs vin v w) {txin : CTxIn} (hmem : txin ∈ vin) :
    w.output txin.prevout = v.output txin.prevout := by
  rw [CoinsView.output, CoinsView.output, h txin hmem]

theorem SameInputs.checkTxIns_eq {nSpendHeight : Nat} {nValueIn : Int} {vin : List CTxIn} (h : SameInputs vin v w) :
    checkTxIns env w nSpendHeight nValueIn vin = checkTxIns env v nSpendHeight nValueIn vin := by
  induction vin generalizing nValueIn with
  | nil => rfl
  | cons txin vin ih =>
    have htail : SameInputs vin v w := fun txin' hmem => h txin' (List.mem_cons_of_mem txin hmem)
    rw [checkTxIns, checkTxIns, h txin List.mem_cons_self, h.output_eq List.mem_cons_self]
    simp only [ih htail]

theorem SameInputs.scriptChecks_eq {fP2SH : Bool} (h : SameInputs tx.vin v w) :
    scriptChecks w tx fP2SH = scriptChecks v tx fP2SH := by
  unfold scriptChecks
  refine List.ext_getElem? fun i => ?_
  rw [List.getElem?_mapIdx, List.getElem?_mapIdx]
  cases hi : tx.vin[i]? with
  | none => rfl
  | some txin => simp only [Option.map_some, h.output_eq (List.mem_of_getElem? hi)]

theorem SameInputs.getValueIn_eq (h : SameInputs tx.vin v w) : tx.getValueIn w = tx.getValueIn v := by
  have hmap : (tx.vin.map fun txin => (w.output txin.prevout).nValue) =
      tx.vin.map fun txin => (v.output txin.prevout).nValue :=
    List.map_congr_left fun txin hmem => by rw [h.output_eq hmem]
  rw [CTransaction.getValueIn, CTransaction.getValueIn, hmap]

theorem SameInputs.getP2SHSigOpCount_eq (h : SameInputs tx.vin v w) :
    tx.getP2SHSigOpCount w = tx.getP2SHSigOpCount v := by
  unfold CTransaction.getP2SHSigOpCount
  split
  · rfl
  · refine congrArg List.sum (List.map_congr_left fun txin hmem => ?_)
    rw [h.output_eq hmem]

theorem updateCoins_agree {nHeight : Nat} (h : v.Equiv w) :
    Agree (fun r r' => r.1.Equiv r'.1 ∧ r.2 = r'.2) (updateCoins env tx nHeight v) (updateCoins env tx nHeight w) := by
  cases hv : updateCoins env tx nHeight v with
  | ok r =>
    obtain ⟨w', hw, hequiv⟩ := updateCoins_congr h hv
    rw [hw]
    exact .ok ⟨hequiv, rfl⟩
  | error e =>
    cases hw : updateCoins env tx nHeight w with
    | ok r =>
      obtain ⟨v', hv', -⟩ := updateCoins_congr h.symm hw
      rw [hv] at hv'
      cases hv'
    | error e' => exact .error

end Coins

/-! ## What is read of the services -/

section Services

variable {env : Env} {pindexBest pindex : CBlockIndex} {tx : CTransaction} {inputs inputs' : CoinsView}
  {pool pool' : TestPool} {prev : Option Prev} {vvchArgs : List Bytes} {op : Op}

/-- A connecting block does not look at the alias database to accept an operation. -/
theorem checkAliasOp_congr (s t : AliasState) :
    checkAliasOp env Mode.connect pindex tx prev vvchArgs s op =
      checkAliasOp env Mode.connect pindex tx prev vvchArgs t op := by
  cases op <;> simp [checkAliasOp, checkAliasActivate, checkAliasActivation]

theorem checkOfferOp_congr {theOffer : COffer} (hh : pindex.nHeight ≠ pindexBest.nHeight) (s t : OfferState) :
    checkOfferOp env Mode.connect pindexBest pindex tx prev vvchArgs theOffer pool s op =
      checkOfferOp env Mode.connect pindexBest pindex tx prev vvchArgs theOffer pool' t op := by
  cases op <;> simp [checkOfferOp, checkOfferActivate, checkOfferActivation, checkOfferUpdate, checkOfferPay,
    checkOfferPayment, noClash, hh]

theorem checkCertOp_congr {theCertIssuer : CCertIssuer} (hh : pindex.nHeight ≠ pindexBest.nHeight)
    (s t : CertState) :
    checkCertOp env Mode.connect pindexBest pindex tx prev vvchArgs theCertIssuer pool s op =
      checkCertOp env Mode.connect pindexBest pindex tx prev vvchArgs theCertIssuer pool' t op := by
  cases op <;> simp [checkCertOp, checkCertissuerActivate, checkCertissuerActivation, checkCertissuerUpdate,
    checkCertTransfer, checkCertTransferItem, noClash, hh]

/-- The alias rules, on states with the same fees. -/
theorem checkAliasInputs_agree {s t : AliasState} (hcb : tx.isCoinBase = false)
    (hprev : SameInputs tx.vin inputs inputs') (hfees : t.lstAliasFees = s.lstAliasFees) :
    Agree (fun r r' => r'.1.lstAliasFees = r.1.lstAliasFees)
      (checkAliasInputs env Mode.connect pindexBest pindex tx inputs s pool)
      (checkAliasInputs env Mode.connect pindexBest pindex tx inputs' t pool') := by
  unfold checkAliasInputs
  simp only [hcb, Bool.false_eq_true, if_false, findPrev_congr hprev]
  split
  · exact (Agree.require Iff.rfl).bind fun _ _ _ => .ok hfees
  · split
    · exact .error
    · rename_i op _ vvchArgs _
      rw [checkAliasOp_congr s t]
      refine (Agree.refl (R := fun _ _ => True) (fun _ => trivial) _).bind fun _ _ _ => ?_
      split
      · exact .ok hfees
      · split
        · refine .ok ?_
          simp only [connectAlias, hfees]
        · exact .ok hfees

/-- The certificate rules, on states with the same fees. -/
theorem checkCertInputs_agree {s t : CertState} (hcb : tx.isCoinBase = false)
    (hh : pindex.nHeight ≠ pindexBest.nHeight) (hprev : SameInputs tx.vin inputs inputs')
    (hfees : t.lstCertIssuerFees = s.lstCertIssuerFees) :
    Agree (fun r r' => r'.1.lstCertIssuerFees = r.1.lstCertIssuerFees)
      (checkCertInputs env Mode.connect pindexBest pindex tx inputs s pool)
      (checkCertInputs env Mode.connect pindexBest pindex tx inputs' t pool') := by
  unfold checkCertInputs
  simp only [hcb, Bool.false_eq_true, if_false, findPrev_congr hprev]
  split
  · exact (Agree.require Iff.rfl).bind fun _ _ _ => .ok hfees
  · split
    · exact .error
    · rename_i op _ vvchArgs _
      refine (Agree.require Iff.rfl).bind fun _ _ _ => ?_
      rw [checkCertOp_congr hh s t]
      refine (Agree.refl (R := fun _ _ => True) (fun _ => trivial) _).bind fun _ _ _ => ?_
      split
      · unfold connectCert
        split
        · unfold connectItem
          split
          · exact .error
          · refine .ok ?_
            simp only [storeIssuer, hfees]
        · refine .ok ?_
          simp only [connectIssuer, storeIssuer, hfees]
      · exact .ok hfees

/-- The offer states agree on fees and on the histories in `guids`. -/
def OffersAgree (guids : Bytes → Prop) (s t : OfferState) : Prop :=
  t.lstOfferFees = s.lstOfferFees ∧ ∀ g, guids g → t.history g = s.history g

/-- Storing the same offer, or an offer whose history is not compared. -/
theorem OffersAgree.storeOffer {guids : Bytes → Prop} {s t : OfferState} {o o' : COffer}
    {offera offera' : Bytes → Option OfferaValue} (h : OffersAgree guids s t)
    (ho : guids (arg vvchArgs 0) → o' = o) :
    OffersAgree guids (storeOffer env pindex tx op vvchArgs o offera s)
      (Syscoin.storeOffer env pindex tx op vvchArgs o' offera' t) := by
  refine ⟨by simp only [Syscoin.storeOffer, h.1], fun g hg => ?_⟩
  simp only [Syscoin.storeOffer, OfferState.history]
  by_cases heq : g = arg vvchArgs 0
  · subst heq
    have hhist := h.2 _ hg
    rw [OfferState.history, OfferState.history] at hhist
    rw [Function.update_self, Function.update_self, ho hg, hhist]
  · rw [Function.update_of_ne heq, Function.update_of_ne heq]
    exact h.2 g hg

/-- The offer rules. A buyer's operation reads the stored offer, so its history has to be among those compared. -/
theorem checkOfferInputs_agree {guids : Bytes → Prop} {s t : OfferState} (hcb : tx.isCoinBase = false)
    (hh : pindex.nHeight ≠ pindexBest.nHeight) (hprev : SameInputs tx.vin inputs inputs')
    (hguid : ∀ r ∈ decodeOfferTx tx, r.1 = .offerAccept ∨ r.1 = .offerPay → guids (arg r.2.2 0))
    (hagree : OffersAgree guids s t) :
    Agree (fun r r' => OffersAgree guids r.1 r'.1)
      (checkOfferInputs env Mode.connect pindexBest pindex tx inputs s pool)
      (checkOfferInputs env Mode.connect pindexBest pindex tx inputs' t pool') := by
  have hbase : ∀ {vch payload}, guids vch →
      baseOffer t vch pindex.nHeight payload = baseOffer s vch pindex.nHeight payload := by
    intro vch payload hg
    rw [baseOffer, baseOffer, hagree.2 vch hg]
  unfold checkOfferInputs
  simp only [hcb, Bool.false_eq_true, if_false, findPrev_congr hprev]
  split
  · exact (Agree.require Iff.rfl).bind fun _ _ _ => .ok hagree
  · split
    · exact .error
    · rename_i op _ vvchArgs hop
      refine (Agree.require Iff.rfl).bind fun _ _ _ => ?_
      rw [checkOfferOp_congr hh s t]
      refine (Agree.refl (R := fun _ _ => True) (fun _ => trivial) _).bind fun _ _ _ => ?_
      split
      · unfold connectOffer
        split
        · rename_i hbuyer
          have hg := hguid _ hop hbuyer
          unfold connectOfferBuyer
          simp only [hbase hg]
          split
          · exact .error
          · split
            · exact .ok hagree
            · split
              · exact .error
              · exact .ok (hagree.storeOffer fun _ => rfl)
        · refine .ok (hagree.storeOffer fun hg => ?_)
          simp only [hbase hg]
      · exact .ok hagree

end Services

/-! ## Both nodes side by side -/

/-- The local variables of the two loops. -/
structure AccsAgree (acc acc' : ConnectAcc) : Prop where
  view : acc.view.Equiv acc'.view
  nFees : acc'.nFees = acc.nFees
  nSigOps : acc'.nSigOps = acc.nSigOps
  checks : acc'.checks = acc.checks

section Connect

variable {env : Env} {pindexBest pindex : CBlockIndex} {tx : CTransaction} {inputs inputs' : CoinsView}

theorem aliasRules_lockstep (hcb : tx.isCoinBase = false) (hin : SameInputs tx.vin inputs inputs') :
    Lockstep (StoresAgree pindex.block) (fun _ _ => True)
      (aliasRules env Mode.connect pindexBest pindex tx inputs)
      (aliasRules env Mode.connect pindexBest pindex tx inputs') := by
  refine Lockstep.update fun s t hst => ?_
  split
  · refine (checkAliasInputs_agree hcb hin hst.aliasFees).bind fun r r' hfees => .ok ?_
    exact ⟨hfees, hst.offerFees, hst.certFees, hst.offers⟩
  · exact .ok hst

theorem offerRules_lockstep (hmem : tx ∈ pindex.block.vtx) (hcb : tx.isCoinBase = false)
    (hh : pindex.nHeight ≠ pindexBest.nHeight) (hin : SameInputs tx.vin inputs inputs') :
    Lockstep (StoresAgree pindex.block) (fun _ _ => True)
      (offerRules env Mode.connect pindexBest pindex tx inputs)
      (offerRules env Mode.connect pindexBest pindex tx inputs') := by
  refine Lockstep.update fun s t hst => ?_
  split
  · refine (checkOfferInputs_agree hcb hh hin (fun r hr hbuyer => ⟨tx, hmem, r, hr, hbuyer, rfl⟩)
      ⟨hst.offerFees, hst.offers⟩).bind fun r r' hagree => .ok ?_
    exact ⟨hst.aliasFees, hagree.1, hst.certFees, hagree.2⟩
  · exact .ok hst

theorem certRules_lockstep (hcb : tx.isCoinBase = false) (hh : pindex.nHeight ≠ pindexBest.nHeight)
    (hin : SameInputs tx.vin inputs inputs') :
    Lockstep (StoresAgree pindex.block) (fun _ _ => True)
      (certRules env Mode.connect pindexBest pindex tx inputs)
      (certRules env Mode.connect pindexBest pindex tx inputs') := by
  refine Lockstep.update fun s t hst => ?_
  split
  · refine (checkCertInputs_agree hcb hh hin hst.certFees).bind fun r r' hfees => .ok ?_
    exact ⟨hst.aliasFees, hst.offerFees, hfees, hst.offers⟩
  · exact .ok hst

/-- `CheckInputs` on both nodes: the same signature checks are queued. -/
theorem checkSpend_lockstep {nSpendHeight : Nat} {fScript fP2SH : Bool} (hmem : tx ∈ pindex.block.vtx)
    (hcb : tx.isCoinBase = false) (hh : pindex.nHeight ≠ pindexBest.nHeight)
    (hhave : tx.haveInputs inputs ↔ tx.haveInputs inputs') (hin : SameInputs tx.vin inputs inputs') :
    Lockstep (StoresAgree pindex.block) Eq
      (checkSpend env Mode.connect pindexBest pindex tx inputs nSpendHeight fScript fP2SH)
      (checkSpend env Mode.connect pindexBest pindex tx inputs' nSpendHeight fScript fP2SH) := by
  unfold checkSpend checkScripts
  rw [hin.checkTxIns_eq, hin.scriptChecks_eq]
  refine Lockstep.bind (Lockstep.lift (Agree.require hhave)) fun _ _ _ => ?_
  refine Lockstep.bind (Lockstep.lift (Agree.refl (fun _ => rfl) _)) ?_
  rintro nValueIn _ rfl
  refine Lockstep.bind (aliasRules_lockstep hcb hin) fun _ _ _ => ?_
  refine Lockstep.bind (offerRules_lockstep hmem hcb hh hin) fun _ _ _ => ?_
  refine Lockstep.bind (certRules_lockstep hcb hh hin) fun _ _ _ => ?_
  refine Lockstep.bind (Lockstep.lift (Agree.refl (R := fun _ _ => True) (fun _ => trivial) _)) fun _ _ _ => ?_
  exact Lockstep.lift (Agree.refl (fun _ => rfl) _)

theorem finishTx_agree {acc acc' : ConnectAcc} {nFees : Int} {nSigOps : Nat} {vChecks : List CScriptCheck}
    (hacc : AccsAgree acc acc') :
    Agree AccsAgree (finishTx env pindex acc tx nFees nSigOps vChecks)
      (finishTx env pindex acc' tx nFees nSigOps vChecks) := by
  refine (updateCoins_agree hacc.view).bind ?_
  rintro ⟨view, txundo⟩ ⟨view', txundo'⟩ ⟨hview, -⟩
  exact .ok ⟨hview, rfl, rfl, by rw [hacc.checks]⟩

/-- **One transaction** on both nodes. -/
theorem connectTx_lockstep {acc acc' : ConnectAcc} (hmem : tx ∈ pindex.block.vtx)
    (hh : pindex.nHeight ≠ pindexBest.nHeight) (hacc : AccsAgree acc acc') :
    Lockstep (StoresAgree pindex.block) AccsAgree (connectTx env false pindexBest pindex acc tx)
      (connectTx env false pindexBest pindex acc' tx) := by
  unfold connectTx
  rw [hacc.nSigOps, hacc.nFees]
  refine Lockstep.bind (Lockstep.lift (Agree.require Iff.rfl)) fun _ _ _ => ?_
  split
  · exact Lockstep.lift (finishTx_agree hacc)
  · rename_i hcb
    have hcb : tx.isCoinBase = false := by simpa using hcb
    have hhave : tx.haveInputs acc.view ↔ tx.haveInputs acc'.view :=
      ⟨haveInputs_congr hacc.view, haveInputs_congr hacc.view.symm⟩
    unfold connectSpend
    by_cases hin : tx.haveInputs acc.view
    · have hsame : SameInputs tx.vin acc.view acc'.view := fun txin hmem' => haveInputs_getCoins hacc.view hin hcb hmem'
      have hsigops : p2shSigOps pindex acc' tx = p2shSigOps pindex acc tx := by
        rw [p2shSigOps, p2shSigOps, hsame.getP2SHSigOpCount_eq]
      rw [hsigops, hsame.getValueIn_eq, hacc.nFees]
      refine Lockstep.bind (Lockstep.lift (Agree.require hhave)) fun _ _ _ => ?_
      refine Lockstep.bind (Lockstep.lift (Agree.require Iff.rfl)) fun _ _ _ => ?_
      refine Lockstep.bind ?_ ?_ (R := Eq)
      · unfold checkInputs
        rw [if_neg (by simp [hcb]), if_neg (by simp [hcb])]
        exact checkSpend_lockstep hmem hcb hh hhave hsame
      · rintro vChecks _ rfl
        refine Lockstep.lift ((Agree.refl (fun _ => rfl) _).bind ?_ (R := Eq))
        rintro nFees _ rfl
        exact finishTx_agree hacc
    · -- neither node has the inputs
      intro s t _
      simp only [bind, Proc.bind, Proc.lift_apply, require, if_neg hin, if_neg (hin ∘ hhave.mpr)]
      exact .error

/-- The reward is checked against the same fees. -/
theorem checkReward_eq {nFees : Int} {s t : Store} (hst : StoresAgree pindex.block s t) :
    checkReward env pindex nFees t = checkReward env pindex nFees s := by
  rw [checkReward, checkReward, getBlockValue, getBlockValue, hst.aliasFees, hst.offerFees, hst.certFees]

theorem connectEpilogue_lockstep {view view' : CoinsCache} {acc acc' : ConnectAcc} (hacc : AccsAgree acc acc') :
    Lockstep (StoresAgree pindex.block) (fun _ _ => True) (connectEpilogue env false pindex view acc)
      (connectEpilogue env false pindex view' acc') := by
  unfold connectEpilogue
  rw [hacc.nFees, hacc.checks]
  refine Lockstep.bind (Lockstep.update fun s t hst => ?_) fun _ _ _ => ?_
  · rw [checkReward_eq hst]
    exact (Agree.refl (R := fun _ _ => True) (fun _ => trivial) _).bind fun _ _ _ => .ok hst
  split
  · exact Lockstep.pure trivial
  refine Lockstep.bind (Lockstep.lift (Agree.require Iff.rfl)) fun _ _ _ => ?_
  split
  · exact Lockstep.pure trivial
  refine Lockstep.bind (Lockstep.update fun s t hst => .ok ?_) fun _ _ _ => Lockstep.pure trivial
  exact ⟨hst.aliasFees, hst.offerFees, hst.certFees, hst.offers⟩

/-- The checks before the loop: BIP30 asks the same of equivalent views. -/
theorem connectPrologue_agree {nNow : Nat} {view view' : CoinsCache} (hbest : view'.best = view.best)
    (hcoins : view.coins.Equiv view'.coins) :
    Agree (fun _ _ => True) (connectPrologue env false pindex nNow view)
      (connectPrologue env false pindex nNow view') := by
  have hoverwrite : (∀ tx ∈ pindex.block.vtx, ∀ coins ∈ view.coins (env.getHash tx), coins.isPruned) ↔
      ∀ tx ∈ pindex.block.vtx, ∀ coins ∈ view'.coins (env.getHash tx), coins.isPruned :=
    forall₂_congr fun tx _ => hcoins.dead_iff
  have hcheck : Agree (fun _ _ => True) (checkBlock env nNow pindex (!false) (!false))
      (checkBlock env nNow pindex (!false) (!false)) := Agree.refl (fun _ => trivial) _
  unfold connectPrologue
  refine hcheck.bind fun _ _ _ => ?_
  rw [hbest]
  exact (Agree.require Iff.rfl).bind fun _ _ _ => Agree.require (or_congr_right hoverwrite)

/-- The loop, from equivalent coins. -/
theorem connectTxs_lockstep {coins coins' : CoinsView} (hh : pindex.nHeight ≠ pindexBest.nHeight)
    (hcoins : coins.Equiv coins') :
    Lockstep (StoresAgree pindex.block) AccsAgree
      (Proc.foldM (connectTx env false pindexBest pindex) pindex.block.vtx ⟨coins, 0, 0, [], []⟩)
      (Proc.foldM (connectTx env false pindexBest pindex) pindex.block.vtx ⟨coins', 0, 0, [], []⟩) := by
  refine Lockstep.foldM ?_ _ _ ⟨hcoins, rfl, rfl, rfl⟩
  intro tx hmem acc acc' hacc
  exact connectTx_lockstep hmem hh hacc

/-- **`ConnectBlock` on both nodes**, for a block above the best block. -/
theorem connectBlock_lockstep {nNow : Nat} {view view' : CoinsCache} (hh : pindex.nHeight ≠ pindexBest.nHeight)
    (hbest : view'.best = view.best) (hcoins : view.coins.Equiv view'.coins) :
    Lockstep (StoresAgree pindex.block) (fun _ _ => True) (connectBlock env false pindexBest pindex nNow view)
      (connectBlock env false pindexBest pindex nNow view') := by
  unfold connectBlock
  refine Lockstep.bind (Lockstep.lift (connectPrologue_agree hbest hcoins)) fun _ _ _ => ?_
  split
  · exact Lockstep.pure trivial
  · exact Lockstep.bind (connectTxs_lockstep hh hcoins) fun acc acc' hacc => connectEpilogue_lockstep hacc

end Connect

/-- The next block, connected to a node. -/
def connectNext (env : Env) (node : Node) (pindex : CBlockIndex) (nNow : Nat) : Except Reject CoinsCache × Store :=
  connectBlock env false node.pindexBest pindex nNow ⟨node.coinsTip, some node.pindexBest⟩ node.store

/-- **Validity of the next block is a function of the chain, of the fee lists and of the offers its buyers name.** Two
    nodes on the same chain, with any histories, that agree on these accept the same next blocks. -/
theorem next_block_agrees {env : Env} {genesis : CBlock} {node node' : Node} {pindex : CBlockIndex} {nNow : Nat}
    (h : History env genesis node) (h' : History env genesis node') (hbest : node'.pindexBest = node.pindexBest)
    (hnext : pindex.pprev = some node.pindexBest) (hagree : StoresAgree pindex.block node.store node'.store) :
    (connectNext env node pindex nNow).1.isOk = (connectNext env node' pindex nNow).1.isOk := by
  have hh : pindex.nHeight ≠ node.pindexBest.nHeight := by
    rw [CBlockIndex.nHeight_eq_succ_of_pprev hnext]
    omega
  have hrun : Lockstep (StoresAgree pindex.block) (fun _ _ => True)
      (connectBlock env false node.pindexBest pindex nNow ⟨node.coinsTip, some node.pindexBest⟩)
      (connectBlock env false node.pindexBest pindex nNow ⟨node'.coinsTip, some node.pindexBest⟩) :=
    connectBlock_lockstep hh rfl (h.coins_equiv h' hbest.symm)
  unfold connectNext
  rw [hbest]
  exact (hrun _ _ hagree).isOk_eq

namespace Cakenet

theorem history_nodeAt {pindexNew : CBlockIndex} : History env genesis (nodeAt pindexNew) :=
  History.init.call amb pindexNew

theorem history_nodeThen {node : Node} {pindexNew : CBlockIndex} (h : History env genesis node) :
    History env genesis (nodeThen node pindexNew) :=
  h.call amb pindexNew

/-- An offer and an accept of two of its pieces. -/
def offerBlock10 : CBlockIndex := mine (mine block8 9 [offerNewTx]) 10 [offerActivateTx]

def offerBlock11 : CBlockIndex := mine offerBlock10 11 [offerAcceptTx]

/-- A block that fails after a commitment. -/
def spoiledCommitment11 : CBlockIndex := mine offerBlock10 21 [issuerNewTx, missingTx]

theorem offer_accepted_after_failure :
    History env genesis (nodeAt offerBlock10) ∧
      History env genesis (nodeThen (nodeAt offerBlock10) spoiledCommitment11) ∧
      (connectNext env (nodeAt offerBlock10) offerBlock11 amb.nNow).1.isOk =
        (connectNext env (nodeThen (nodeAt offerBlock10) spoiledCommitment11) offerBlock11 amb.nNow).1.isOk := by
  have hbuyers : ∀ tx ∈ offerBlock11.block.vtx, ∀ r ∈ decodeOfferTx tx, arg r.2.2 0 = vchName := by decide +kernel
  refine ⟨history_nodeAt, history_nodeThen history_nodeAt, ?_⟩
  refine next_block_agrees history_nodeAt (history_nodeThen history_nodeAt) (by decide +kernel) (by decide +kernel) ?_
  refine ⟨by decide +kernel, by decide +kernel, by decide +kernel, ?_⟩
  rintro g ⟨tx, htx, r, hr, -, hg⟩
  rw [← hg, hbuyers tx htx r hr]
  decide +kernel

/-- An accept of more pieces than there are, which is not recorded, and a payment for it. -/
def greedyAcceptTx : CTransaction :=
  syscoin 206 [⟨1, 6⟩] [service 7 [vchName, vchRand, vchRand ++ vchName]] (acceptPayload vchRand 100 1000000000)

def greedyPayTx : CTransaction :=
  syscoin 207 [⟨206, 0⟩, ⟨1, 7⟩] [service 8 [vchName, vchRand]] (acceptPayload vchRand 100 1000000000)

def greedyBlock11 : CBlockIndex := mine offerBlock10 11 [greedyAcceptTx]

def greedyBlock12 : CBlockIndex := mine greedyBlock11 12 [greedyPayTx]

/-- A block that fails after an accept of two pieces under the same identifier, which is recorded. -/
def spoiledAccept11 : CBlockIndex := mine offerBlock10 21 [offerAcceptTx, missingTx]

/-- The node that has seen the failed block finds an accept to pay for, the other one does not. -/
theorem failed_block_decides_payment :
    ∃ node node', History env genesis node ∧ History env genesis node' ∧ node'.pindexBest = node.pindexBest ∧
      greedyBlock12.pprev = some node.pindexBest ∧
      (connectNext env node greedyBlock12 amb.nNow).1.isOk = false ∧
      (connectNext env node' greedyBlock12 amb.nNow).1.isOk = true :=
  ⟨nodeAt greedyBlock11, nodeThen (nodeThen (nodeAt offerBlock10) spoiledAccept11) greedyBlock11, history_nodeAt,
    history_nodeThen (history_nodeThen history_nodeAt), by decide +kernel, by decide +kernel, by decide +kernel,
    by decide +kernel⟩

end Cakenet

end Syscoin

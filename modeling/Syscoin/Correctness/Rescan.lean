import Syscoin.Chain.Growth
import Syscoin.Chain.Rescan

/-!
# `Correctness.Rescan` — the rebuilt index against the live one

A rescan of the main chain is meant to give the databases that connecting the chain block by block has left. It does so
only for part of the operations. It leaves `txPrevOut` of an alias entry null; it moves the height of an offer or an
issuer on every operation; it takes an accept or an item from the stored record, where it is not, instead of from the
payload, and does not mark it paid; and it records accepts that the stock did not cover.

`Follows` is what the three simulations have in common: the rescan of a transaction matches what connecting it did.
-/

namespace Syscoin

open Lib

/-! ## The property -/

def OfferaValue.offer? : OfferaValue → Option Bytes
  | .offer vchOffer => some vchOffer
  | .txFees _ => none

def CertaValue.issuer? : CertaValue → Option Bytes
  | .issuer vchCertIssuer => some vchCertIssuer
  | .txFees _ => none

/-- The offer that an accept is mapped to. -/
def OfferState.acceptOf (s : OfferState) (vchOfferAccept : Bytes) : Option Bytes :=
  (s.offera vchOfferAccept).bind OfferaValue.offer?

/-- The issuer that an item is mapped to. -/
def CertState.itemOf (s : CertState) (vchCertItem : Bytes) : Option Bytes :=
  (s.certissuera vchCertItem).bind CertaValue.issuer?

/-- The databases hold the same histories and mappings as the store. -/
structure SameIndex (s : Store) (aliasdb : AliasState) (offerdb : OfferState) (certdb : CertState) : Prop where
  names : aliasdb.names = s.aliasdb.names
  offers : offerdb.offers = s.offerdb.offers
  accepts : ∀ guid, offerdb.acceptOf guid = s.offerdb.acceptOf guid
  issuers : certdb.issuers = s.certdb.issuers
  items : ∀ guid, certdb.itemOf guid = s.certdb.itemOf guid

/-- Empty databases, whatever the fee lists and the pending maps. -/
structure Blank (aliasdb : AliasState) (offerdb : OfferState) (certdb : CertState) : Prop where
  names : ∀ vch, aliasdb.names vch = none
  offers : ∀ vch, offerdb.offers vch = none
  offera : ∀ vch, offerdb.offera vch = none
  issuers : ∀ vch, certdb.issuers vch = none
  certissuera : ∀ vch, certdb.certissuera vch = none

/-- **The property**: the three rescans come to their end and leave what the node has. -/
def Reproduces (env : Env) (pn : PoolNode) : Prop :=
  ∀ aliasdb offerdb certdb, Blank aliasdb offerdb certdb →
    ∃ aliasdb' offerdb' certdb', reconstructNameIndex env pn aliasdb = (.ok (), aliasdb') ∧
      reconstructOfferIndex env pn offerdb = (.ok (), offerdb') ∧
      reconstructCertIndex env pn certdb = (.ok (), certdb') ∧ SameIndex pn.node.store aliasdb' offerdb' certdb'

/-! ## The condition -/

/-- The transaction carries commitments at most. -/
def CTransaction.inert (tx : CTransaction) : Prop :=
  tx.nVersion ≠ SYSCOIN_TX_VERSION ∨
    ((∀ r ∈ decodeAliasTx tx, r.1 = .aliasNew) ∧ (∀ r ∈ decodeOfferTx tx, r.1 = .offerNew) ∧
      ∀ r ∈ decodeCertTx tx, r.1 = .certissuerNew)

instance (tx : CTransaction) : Decidable tx.inert := inferInstanceAs (Decidable (_ ∨ _))

/-- The services are not consulted about the transaction: it is in the genesis block or a coinbase. -/
def Overlooked (env : Env) (pindex : CBlockIndex) (tx : CTransaction) : Prop :=
  pindex.pprev = none ∨ env.getBlockHash pindex.block = env.hashGenesisBlock ∨ tx.isCoinBase = true

instance (env : Env) (pindex : CBlockIndex) (tx : CTransaction) : Decidable (Overlooked env pindex tx) :=
  inferInstanceAs (Decidable (_ ∨ _))

section Clean

variable (site : Site) (op : Op) (vvchArgs : List Bytes)

/-- An accept or a payment for an offer that is not stored, so that the payload is all there is: its guid is free, an
    accept is covered by the stock, and a payment says so itself. -/
def FirstAccept : Prop :=
  site.store.offerdb.history (arg vvchArgs 0) = [] ∧ site.store.offerdb.acceptOf (arg vvchArgs 1) = none ∧
    arg vvchArgs 1 ≠ offertxf ∧
    ∀ a ∈ (COffer.ofTx site.tx).getAcceptByHash (arg vvchArgs 1),
      (op ≠ .offerAccept ∨ ¬ (a.nQty < 1 ∨
        (baseOffer site.store.offerdb (arg vvchArgs 0) site.pindex.nHeight (COffer.ofTx site.tx)).getRemQty < a.nQty)) ∧
      (op ≠ .offerPay ∨ a.bPaid = true)

instance : Decidable (FirstAccept site op vvchArgs) := inferInstanceAs (Decidable (_ ∧ _))

/-- An item or a transfer for an issuer that is not stored, under a guid that is free. -/
def FirstItem : Prop :=
  site.store.certdb.history (arg vvchArgs 0) = [] ∧ site.store.certdb.certissuera (arg vvchArgs 1) = none

instance : Decidable (FirstItem site vvchArgs) := inferInstanceAs (Decidable (_ ∧ _))

/-- **The condition on a site**: no alias operation but commitments; payloads that unserialize; and no accept, payment,
    item or transfer for what is already stored. -/
def RescanClean : Prop :=
  site.tx.nVersion ≠ SYSCOIN_TX_VERSION ∨
    ((∀ r ∈ decodeAliasTx site.tx, r.1 = .aliasNew) ∧
      (∀ r ∈ decodeOfferTx site.tx, r.1 = .offerNew ∨ (COffer.unserializes site.tx = true ∧
        (r.1 = .offerActivate ∨ r.1 = .offerUpdate ∨ FirstAccept site r.1 r.2.2))) ∧
      ∀ r ∈ decodeCertTx site.tx, r.1 = .certissuerNew ∨ (CCertIssuer.unserializes site.tx = true ∧
        (r.1 = .certissuerActivate ∨ r.1 = .certissuerUpdate ∨ FirstItem site r.2.2)))

instance : Decidable (RescanClean site) := inferInstanceAs (Decidable (_ ∨ _))

end Clean

/-! ## Following a chain -/

section Follow

variable {env : Env} {C : Site → Prop} {P : CTransaction → Prop} {σ : Type}
  {step : CBlockIndex → CTransaction → Proc σ Reject Unit} {R : Store → σ → Prop}

/-- The rescan of a transaction does to its state what connecting it did to the store. `P` is what is known of the
    transactions of the chain. -/
structure Follows (env : Env) (C : Site → Prop) (P : CTransaction → Prop)
    (step : CBlockIndex → CTransaction → Proc σ Reject Unit) (R : Store → σ → Prop) : Prop where
  spends : ∀ {pindexBest pindex : CBlockIndex} {tx : CTransaction} {inputs : CoinsView} {s s' : Store} {t : σ},
    pindex.nHeight ≠ pindexBest.nHeight → C ⟨pindexBest, pindex, tx, inputs, s⟩ → P tx →
      SpendStep env pindexBest pindex tx inputs s s' → R s t → ∃ t', step pindex tx t = (.ok (), t') ∧ R s' t'
  skips : ∀ {pindex : CBlockIndex} {tx : CTransaction} (t : σ), tx.inert → step pindex tx t = (.ok (), t)
  blocks : ∀ {s : Store} {t : σ} (pindex : CBlockIndex) (blockundo : CBlockUndo), R s t →
    R (writeBlock env pindex blockundo s) t
  pendings : ∀ {s : Store} {t : σ} (p : Pendings), R s t → R (s.setPendings p) t

theorem Follows.txs (h : Follows env C P step R) {pindexBest pindex : CBlockIndex} {acc acc' : ConnectAcc}
    {txs : List CTransaction} {s s' : Store} {t : σ} (hheight : pindex.nHeight ≠ pindexBest.nHeight)
    (hsteps : TxSteps env C pindexBest pindex acc txs s acc' s')
    (hknown : ∀ tx ∈ txs, P tx ∧ (tx.isCoinBase = true → tx.inert)) (hR : R s t) :
    ∃ t', Proc.foldM (fun _ tx => step pindex tx) txs () t = (.ok (), t') ∧ R s' t' := by
  induction hsteps generalizing t with
  | nil => exact ⟨t, rfl, hR⟩
  | @cons acc acc₁ acc' tx txs s s₁ s' meets hd _ ih =>
    obtain ⟨⟨hP, hcoinbase⟩, htail⟩ := List.forall_mem_cons.mp hknown
    have hhead : ∃ t₁, step pindex tx t = (.ok (), t₁) ∧ R s₁ t₁ := by
      cases hd with
      | coinbase hcb => exact ⟨t, h.skips t (hcoinbase hcb), hR⟩
      | spend _ _ hstep => exact h.spends hheight meets hP hstep hR
    obtain ⟨t₁, hstep, hR₁⟩ := hhead
    obtain ⟨t', hrest, hR'⟩ := ih htail hR₁
    exact ⟨t', Proc.foldM_cons_ok_iff.mpr ⟨(), t₁, hstep, hrest⟩, hR'⟩

theorem Follows.inert (h : Follows env C P step R) {pindex : CBlockIndex} {txs : List CTransaction}
    (hinert : ∀ tx ∈ txs, tx.inert) (t : σ) :
    Proc.foldM (fun _ tx => step pindex tx) txs () t = (.ok (), t) := by
  induction txs with
  | nil => rfl
  | cons tx txs ih =>
    obtain ⟨hhead, htail⟩ := List.forall_mem_cons.mp hinert
    exact Proc.foldM_cons_ok_iff.mpr ⟨(), t, h.skips t hhead, ih htail⟩

theorem mainChain_extend {pindexNew pindexBest : CBlockIndex} (h : pindexNew.pprev = some pindexBest) :
    pindexNew.mainChain = pindexBest.mainChain ++ [pindexNew] := by
  obtain ⟨block, ancestors⟩ := pindexNew
  cases ancestors with
  | nil => cases h
  | cons parent below =>
    simp only [CBlockIndex.pprev, Option.some.injEq] at h
    subst h
    simp [CBlockIndex.mainChain, CBlockIndex.lineage]

/-- **A whole chain**: the rescan from the genesis block follows the calls that connected it. -/
theorem Follows.grown (h : Follows env C P step R) {genesis : CBlock} {node : Node} {t : σ}
    (hgrown : Grown env C genesis node) (hinit : R Store.init t)
    (hknown : ∀ pindex ∈ node.pindexBest.mainChain, ∀ tx ∈ pindex.block.vtx,
      P tx ∧ (Overlooked env pindex tx → tx.inert)) :
    ∃ t', rescan step node.pindexBest.mainChain t = (.ok (), t') ∧ R node.store t' := by
  induction hgrown with
  | init =>
    have hgenesis : ∀ tx ∈ genesis.vtx, tx.inert := fun tx htx =>
      (hknown ⟨genesis, []⟩ (List.mem_singleton_self _) tx htx).2 (.inl rfl)
    exact ⟨t, Proc.foldM_cons_ok_iff.mpr ⟨(), t, h.inert hgenesis t, rfl⟩, hinit⟩
  | @step node node' amb pindexNew _ hprev ok meets ih =>
    obtain ⟨view, s', hblock, rfl⟩ := (setBestChain_extend_ok hprev).mp ok
    rw [callSites_extend hprev] at meets
    change ∀ pindex ∈ pindexNew.mainChain, _ at hknown
    show ∃ t', rescan step pindexNew.mainChain t = (.ok (), t') ∧ _
    rw [mainChain_extend hprev] at hknown ⊢
    obtain ⟨t₁, hbefore, hR⟩ := ih fun pindex hin => hknown pindex (List.mem_append_left _ hin)
    have hnew := hknown pindexNew (List.mem_append_right _ (List.mem_singleton_self _))
    -- the new block: passed over as a whole, or one transaction after the other
    have hlast : ∃ t₂, Proc.foldM (fun _ tx => step pindexNew tx) pindexNew.block.vtx () t₁ = (.ok (), t₂) ∧ R s' t₂ := by
      rcases (connectBlock_ok hblock meets).2 with ⟨hgen, rfl, -⟩ | ⟨-, acc, s₁, hsteps, rfl, -⟩
      · exact ⟨t₁, h.inert (fun tx htx => (hnew tx htx).2 (.inr (.inl hgen))) t₁, hR⟩
      · have hheight : pindexNew.nHeight ≠ node.pindexBest.nHeight := by
          rw [CBlockIndex.nHeight_eq_succ_of_pprev hprev]
          omega
        obtain ⟨t₂, hrun, hR₂⟩ := h.txs hheight hsteps
          (fun tx htx => ⟨(hnew tx htx).1, fun hcb => (hnew tx htx).2 (.inr (.inr hcb))⟩) hR
        exact ⟨t₂, hrun, h.blocks pindexNew acc.blockundo hR₂⟩
    obtain ⟨t₂, hrun, hR₂⟩ := hlast
    refine ⟨t₂, ?_, h.pendings _ hR₂⟩
    exact Proc.foldM_snoc_ok_iff.mpr ⟨(), t₁, hbefore, hrun⟩

end Follow

section Services

variable {env : Env} {get : Uint256 → Option CTransaction} {pindexBest pindex : CBlockIndex} {tx : CTransaction}
  {inputs : CoinsView}

/-- The transaction is one that a rescan passes over, or one that it can get. -/
def Gettable (env : Env) (get : Uint256 → Option CTransaction) (tx : CTransaction) : Prop :=
  tx.inert ∨ get (env.getHash tx) = some tx

instance (env : Env) (get : Uint256 → Option CTransaction) (tx : CTransaction) : Decidable (Gettable env get tx) :=
  inferInstanceAs (Decidable (_ ∨ _))

/-! ## Aliases -/

theorem rescanName_skip (h : tx.nVersion ≠ SYSCOIN_TX_VERSION ∨ ∀ r ∈ decodeAliasTx tx, r.1 = .aliasNew)
    (t : AliasState) : rescanName env get pindex tx t = (.ok (), t) := by
  unfold rescanName
  split
  · rfl
  · rename_i hver
    have hnew := h.resolve_left hver
    cases hop : decodeAliasTx tx with
    | none => rfl
    | some r =>
      simp only [if_pos (hnew r hop)]
      rfl

theorem follows_aliases :
    Follows env RescanClean (Gettable env get) (rescanName env get) fun s t => t.names = s.aliasdb.names where
  spends := by
    intro pindexBest pindex tx inputs s s' t hheight hclean _ hstep hR
    refine ⟨t, rescanName_skip (hclean.imp_right (·.1)) t, ?_⟩
    -- the transaction has not written the names either
    have hsame : s'.aliasdb = s.aliasdb := by
      rcases hstep.aliasStep with ⟨-, hsame⟩ | halias
      · exact hsame
      · generalize s'.aliasdb = aliasdb' at halias ⊢
        cases halias with
        | plain | new => rfl
        | activate hver hop =>
          have hnew := (hclean.resolve_left (not_not.mpr hver)).1 _ hop
          cases hnew
        | update hver hop =>
          have hnew := (hclean.resolve_left (not_not.mpr hver)).1 _ hop
          cases hnew
    rw [hsame]
    exact hR
  skips := fun t hinert => rescanName_skip (hinert.imp_right (·.1)) t
  blocks := fun _ _ hR => hR
  pendings := fun _ hR => hR

/-! ## Offers -/

theorem rescanOffer_skip (h : tx.nVersion ≠ SYSCOIN_TX_VERSION ∨ ∀ r ∈ decodeOfferTx tx, r.1 = .offerNew)
    (t : OfferState) : rescanOffer env get pindex tx t = (.ok (), t) := by
  unfold rescanOffer
  split
  · rfl
  · rename_i hver
    have hnew := h.resolve_left hver
    cases hop : decodeOfferTx tx with
    | none => rfl
    | some r =>
      simp only [if_pos (hnew r hop)]
      rfl

theorem rescanOffer_found {op : Op} {nOut : Nat} {vvchArgs : List Bytes} (hver : tx.nVersion = SYSCOIN_TX_VERSION)
    (hop : decodeOfferTx tx = some (op, nOut, vvchArgs)) (hnew : op ≠ .offerNew) (hget : Gettable env get tx)
    (hread : COffer.unserializes tx = true) (t : OfferState) :
    rescanOffer env get pindex tx t = (.ok (), reconstructOffer env pindex tx op vvchArgs t) := by
  have hget : get (env.getHash tx) = some tx :=
    hget.resolve_left fun hinert => hnew ((hinert.resolve_left (not_not.mpr hver)).2.1 _ hop)
  simp only [rescanOffer, hver, ne_eq, not_true_eq_false, if_false, hop, hnew, hget]
  exact Proc.require_bind_ok_iff.mpr ⟨hread, rfl⟩

/-- The rebuilt offers: the same histories, and the same mapping without the fee list that is filed in it. -/
structure SameOffers (s : Store) (t : OfferState) : Prop where
  offers : t.offers = s.offerdb.offers
  offera : ∀ guid, t.offera guid = (s.offerdb.acceptOf guid).map .offer
  txf : s.offerdb.acceptOf offertxf = none

theorem SameOffers.history {s : Store} {t : OfferState} (h : SameOffers s t) (vchOffer : Bytes) :
    t.history vchOffer = s.offerdb.history vchOffer := by
  unfold OfferState.history
  rw [h.offers]

/-- The fee list that a write files among the accepts does not show. -/
theorem acceptOf_storeOffer {op : Op} {vvchArgs : List Bytes} {o : COffer} {offera : Bytes → Option OfferaValue}
    {s : OfferState} {guid : Bytes} :
    (storeOffer env pindex tx op vvchArgs o offera s).acceptOf guid =
      if guid = offertxf then none else (offera guid).bind OfferaValue.offer? := by
  unfold OfferState.acceptOf storeOffer
  by_cases h : guid = offertxf
  · rw [h]
    simp [OfferaValue.offer?]
  · simp [h]

/-- The offer that an activation or an update stores is the same both ways. -/
theorem rescannedOffer_seller {op : Op} (hop : op = .offerActivate ∨ op = .offerUpdate) (vvchArgs : List Bytes)
    (t : OfferState) :
    { rescannedOffer env pindex tx op vvchArgs t with
        vchRand := arg vvchArgs 0, txHash := env.getHash tx, nHeight := pindex.nHeight, nTime := pindex.nTime } =
      stampOffer env pindex tx op (arg vvchArgs 0)
        (if op = .offerUpdate then
            { COffer.ofTx tx with accepts := (baseOffer t (arg vvchArgs 0) pindex.nHeight (COffer.ofTx tx)).accepts }
          else baseOffer t (arg vvchArgs 0) pindex.nHeight (COffer.ofTx tx)) := by
  unfold rescannedOffer stampOffer baseOffer
  by_cases hnil : t.history (arg vvchArgs 0) = []
  · rcases hop with rfl | rfl
    · simp [hnil, COffer.getOfferFromList]
    · simp [hnil, COffer.getOfferFromList]
  · rcases hop with rfl | rfl
    · simp [hnil]
    · simp [hnil]

theorem SameOffers.seller {s : Store} {t : OfferState} {op : Op} (hop : op = .offerActivate ∨ op = .offerUpdate)
    (vvchArgs : List Bytes) (h : SameOffers s t) (hheight : pindex.nHeight ≠ pindexBest.nHeight) {s' : Store}
    (hs' : s'.offerdb = writeOfferSeller env pindexBest pindex tx op vvchArgs s.offerdb) :
    SameOffers s' (reconstructOffer env pindex tx op vvchArgs t) := by
  have hbuyer : ¬ (op = .offerAccept ∨ op = .offerPay) := by
    rcases hop with rfl | rfl
    · simp
    · simp
  have hbase : ∀ payload, baseOffer t (arg vvchArgs 0) pindex.nHeight payload =
      baseOffer s.offerdb (arg vvchArgs 0) pindex.nHeight payload := fun payload => by
    unfold baseOffer
    rw [h.history]
  rw [writeOfferSeller, if_pos hheight] at hs'
  have haccept : ∀ guid, s'.offerdb.acceptOf guid = s.offerdb.acceptOf guid := by
    intro guid
    rw [hs', connectOfferSeller, acceptOf_storeOffer]
    split
    · rename_i heq
      rw [heq, h.txf]
    · rfl
  refine ⟨?_, fun guid => ?_, ?_⟩
  · rw [hs']
    simp only [reconstructOffer, connectOfferSeller, storeOffer, if_neg hbuyer, rescannedOffer_seller hop, hbase,
      h.history, h.offers]
  · rw [haccept]
    simp only [reconstructOffer, if_neg hbuyer]
    exact h.offera guid
  · rw [haccept]
    exact h.txf

/-- An accept or a payment for an offer that is not stored. -/
theorem SameOffers.buyer {s : Store} {t : OfferState} {op : Op} (hop : op = .offerAccept ∨ op = .offerPay)
    {vvchArgs : List Bytes} {a : COfferAccept} (h : SameOffers s t)
    (hfirst : FirstAccept ⟨pindexBest, pindex, tx, inputs, s⟩ op vvchArgs)
    (ha : (COffer.ofTx tx).getAcceptByHash (arg vvchArgs 1) = some a) {s' : Store}
    (hs' : s'.offerdb = recordAccept env pindex tx op vvchArgs a s.offerdb) :
    SameOffers s' (reconstructOffer env pindex tx op vvchArgs t) := by
  obtain ⟨hnil, hfree, htxf, hclean⟩ := hfirst
  have hpaid := (hclean a ha).2
  have hseller : ¬ (op = .offerActivate ∨ op = .offerUpdate) := by
    rcases hop with rfl | rfl
    · simp
    · simp
  have hupdate : op ≠ .offerUpdate := fun heq => hseller (.inr heq)
  have hnil' : t.history (arg vvchArgs 0) = [] := by rw [h.history, hnil]
  have hfree' : t.offera (arg vvchArgs 1) = none := by rw [h.offera, hfree]; rfl
  -- the payment flag is the one thing that only the live side sets
  have hstamp : rescannedAccept env pindex tx t (arg vvchArgs 1) (COffer.ofTx tx) =
      stampAccept env pindex tx op (arg vvchArgs 1) a := by
    have hflag : (a.bPaid || decide (op = .offerPay)) = a.bPaid := by
      rcases hop with rfl | rfl
      · simp
      · simp [hpaid.resolve_left (not_not.mpr rfl)]
    simp only [rescannedAccept, stampAccept, hfree', ha, Option.isSome_none, Bool.false_eq_true, if_false,
      Option.getD_some, hflag]
  have haccept : ∀ guid, s'.offerdb.acceptOf guid =
      if guid = arg vvchArgs 1 then some (arg vvchArgs 0) else s.offerdb.acceptOf guid := by
    intro guid
    rw [hs', recordAccept, acceptOf_storeOffer]
    by_cases heq : guid = arg vvchArgs 1
    · rw [if_pos heq, heq, if_neg htxf, Function.update_self]
      rfl
    · rw [if_neg heq, Function.update_of_ne heq]
      split
      · rename_i heq
        rw [heq, h.txf]
      · rfl
  refine ⟨?_, fun guid => ?_, ?_⟩
  · rw [hs']
    simp only [reconstructOffer, recordAccept, storeOffer, stampOffer, baseOffer, rescannedOffer, if_pos hop,
      if_neg hseller, if_neg hupdate, hnil, hnil', if_true, hstamp, h.offers, readOfferAccept, hfree', Option.map_none,
      Option.getD_none, COffer.getOfferFromList, COffer.putOfferAccept, List.find?_nil, List.getLast?_nil]
  · rw [haccept]
    simp only [reconstructOffer, if_pos hop]
    by_cases heq : guid = arg vvchArgs 1
    · rw [if_pos heq, heq, Function.update_self]
      rfl
    · rw [if_neg heq, Function.update_of_ne heq]
      exact h.offera guid
  · rw [haccept, if_neg htxf.symm]
    exact h.txf

theorem follows_offers : Follows env RescanClean (Gettable env get) (rescanOffer env get) SameOffers where
  spends := by
    intro pindexBest pindex tx inputs s s' t hheight hclean hget hstep hR
    rcases hstep.offerStep with ⟨hnone, hsame⟩ | hoffer
    · refine ⟨t, rescanOffer_skip (.inr fun r hr => ?_) t, ?_⟩
      · rw [hnone] at hr
        cases hr
      · exact ⟨hsame ▸ hR.offers, hsame ▸ hR.offera, hsame ▸ hR.txf⟩
    · generalize hs' : s'.offerdb = offerdb' at hoffer
      have hkeep : offerdb' = s.offerdb → SameOffers s' t := by
        rintro rfl
        exact ⟨hs' ▸ hR.offers, hs' ▸ hR.offera, hs' ▸ hR.txf⟩
      -- an operation other than a commitment is one of those that the condition lets through
      have hlet : ∀ {op : Op} {nOut : Nat} {vvchArgs : List Bytes}, tx.nVersion = SYSCOIN_TX_VERSION →
          decodeOfferTx tx = some (op, nOut, vvchArgs) → op ≠ .offerNew → COffer.unserializes tx = true ∧
            (op = .offerActivate ∨ op = .offerUpdate ∨
              FirstAccept ⟨pindexBest, pindex, tx, inputs, s⟩ op vvchArgs) := by
        intro op nOut vvchArgs hver hop hnew
        exact ((hclean.resolve_left (not_not.mpr hver)).2.1 _ hop).resolve_left hnew
      cases hoffer with
      | plain hver => exact ⟨t, rescanOffer_skip (.inl hver) t, hkeep rfl⟩
      | new hver hop =>
        refine ⟨t, rescanOffer_skip (.inr fun r hr => ?_) t, hkeep rfl⟩
        rw [hop, Option.mem_some] at hr
        rw [← hr]
      | activate hver hop =>
        obtain ⟨hread, -⟩ := hlet hver hop (by decide)
        exact ⟨_, rescanOffer_found hver hop (by decide) hget hread t, hR.seller (.inl rfl) _ hheight hs'⟩
      | update hver hop =>
        obtain ⟨hread, -⟩ := hlet hver hop (by decide)
        exact ⟨_, rescanOffer_found hver hop (by decide) hget hread t, hR.seller (.inr rfl) _ hheight hs'⟩
      | acceptSkip _ _ hsame => exact absurd hsame hheight
      | paySkip _ _ _ _ hsame => exact absurd hsame hheight
      | acceptShort hver hop _ ha hshort =>
        -- a short accept is not covered, so the condition does not let it through
        obtain ⟨-, hfirst⟩ := hlet hver hop (by decide)
        obtain ⟨-, -, -, hcovered⟩ := (hfirst.resolve_left (by decide)).resolve_left (by decide)
        exact absurd hshort ((hcovered _ ha).1.resolve_left (not_not.mpr rfl))
      | accept hver hop _ ha _ =>
        obtain ⟨hread, hfirst⟩ := hlet hver hop (by decide)
        have hfirst := (hfirst.resolve_left (by decide)).resolve_left (by decide)
        exact ⟨_, rescanOffer_found hver hop (by decide) hget hread t, hR.buyer (.inl rfl) hfirst ha hs'⟩
      | pay hver hop _ _ _ _ _ ha _ =>
        obtain ⟨hread, hfirst⟩ := hlet hver hop (by decide)
        have hfirst := (hfirst.resolve_left (by decide)).resolve_left (by decide)
        exact ⟨_, rescanOffer_found hver hop (by decide) hget hread t, hR.buyer (.inr rfl) hfirst ha hs'⟩
  skips := fun t hinert => rescanOffer_skip (hinert.imp_right (·.2.1)) t
  blocks := fun _ _ hR => ⟨hR.offers, hR.offera, hR.txf⟩
  pendings := fun _ hR => ⟨hR.offers, hR.offera, hR.txf⟩

/-! ## Certificates -/

theorem rescanCert_skip (h : tx.nVersion ≠ SYSCOIN_TX_VERSION ∨ ∀ r ∈ decodeCertTx tx, r.1 = .certissuerNew)
    (t : CertState) : rescanCert env get pindex tx t = (.ok (), t) := by
  unfold rescanCert
  split
  · rfl
  · rename_i hver
    have hnew := h.resolve_left hver
    cases hop : decodeCertTx tx with
    | none => rfl
    | some r =>
      simp only [if_pos (hnew r hop)]
      rfl

theorem rescanCert_found {op : Op} {nOut : Nat} {vvchArgs : List Bytes} (hver : tx.nVersion = SYSCOIN_TX_VERSION)
    (hop : decodeCertTx tx = some (op, nOut, vvchArgs)) (hnew : op ≠ .certissuerNew) (hget : Gettable env get tx)
    (hread : CCertIssuer.unserializes tx = true) (t : CertState) :
    rescanCert env get pindex tx t = (.ok (), reconstructCert env pindex tx op vvchArgs t) := by
  have hget : get (env.getHash tx) = some tx :=
    hget.resolve_left fun hinert => hnew ((hinert.resolve_left (not_not.mpr hver)).2.2 _ hop)
  simp only [rescanCert, hver, ne_eq, not_true_eq_false, if_false, hop, hnew, hget]
  exact Proc.require_bind_ok_iff.mpr ⟨hread, rfl⟩

/-- The rebuilt issuers: the same histories, and a mapping that differs in the fee list at most. -/
structure SameIssuers (s : Store) (t : CertState) : Prop where
  issuers : t.issuers = s.certdb.issuers
  items : ∀ guid, t.itemOf guid = s.certdb.itemOf guid
  filed : ∀ guid, t.certissuera guid = none ↔ s.certdb.certissuera guid = none

theorem SameIssuers.history {s : Store} {t : CertState} (h : SameIssuers s t) (vchCertIssuer : Bytes) :
    t.history vchCertIssuer = s.certdb.history vchCertIssuer := by
  unfold CertState.history
  rw [h.issuers]

/-- Both sides file an item, or none, and then a fee list of their own. -/
theorem SameIssuers.refile {s s' : Store} {t t' : CertState} (h : SameIssuers s t)
    (hissuers : t'.issuers = s'.certdb.issuers) {fees fees' : List CFee} {ft fs : Bytes → Option CertaValue}
    (ht : t'.certissuera = Function.update ft certissuertxf (some (.txFees fees)))
    (hs : s'.certdb.certissuera = Function.update fs certissuertxf (some (.txFees fees')))
    (hitem : (ft = t.certissuera ∧ fs = s.certdb.certissuera) ∨
      ∃ guid value, ft = Function.update t.certissuera guid (some value) ∧
        fs = Function.update s.certdb.certissuera guid (some value)) : SameIssuers s' t' := by
  -- before the fee list goes in, the two mappings correspond
  have hmap : ∀ guid, ((ft guid).bind CertaValue.issuer? = (fs guid).bind CertaValue.issuer?) ∧
      (ft guid = none ↔ fs guid = none) := by
    intro guid
    rcases hitem with ⟨rfl, rfl⟩ | ⟨key, value, rfl, rfl⟩
    · exact ⟨h.items guid, h.filed guid⟩
    · by_cases heq : guid = key
      · rw [heq, Function.update_self, Function.update_self]
        exact ⟨rfl, Iff.rfl⟩
      · rw [Function.update_of_ne heq, Function.update_of_ne heq]
        exact ⟨h.items guid, h.filed guid⟩
  refine ⟨hissuers, fun guid => ?_, fun guid => ?_⟩
  · unfold CertState.itemOf
    rw [ht, hs]
    by_cases heq : guid = certissuertxf
    · rw [heq, Function.update_self, Function.update_self]
      rfl
    · rw [Function.update_of_ne heq, Function.update_of_ne heq]
      exact (hmap guid).1
  · rw [ht, hs]
    by_cases heq : guid = certissuertxf
    · rw [heq, Function.update_self, Function.update_self]
      simp
    · rw [Function.update_of_ne heq, Function.update_of_ne heq]
      exact (hmap guid).2

theorem rescannedIssuer_owner {op : Op} (hop : op = .certissuerActivate ∨ op = .certissuerUpdate)
    (vvchArgs : List Bytes) (t : CertState) :
    { rescannedIssuer env pindex tx op vvchArgs t with
        vchRand := arg vvchArgs 0, txHash := env.getHash tx, nHeight := pindex.nHeight, nTime := pindex.nTime } =
      stampIssuer env pindex tx op (arg vvchArgs 0)
        (if op = .certissuerUpdate then
            { CCertIssuer.ofTx tx with
              certs := (baseIssuer t (arg vvchArgs 0) pindex.nHeight (CCertIssuer.ofTx tx)).certs }
          else baseIssuer t (arg vvchArgs 0) pindex.nHeight (CCertIssuer.ofTx tx)) := by
  unfold rescannedIssuer stampIssuer baseIssuer
  by_cases hnil : t.history (arg vvchArgs 0) = []
  · rcases hop with rfl | rfl
    · simp [hnil, CCertIssuer.getCertFromList]
    · simp [hnil, CCertIssuer.getCertFromList]
  · rcases hop with rfl | rfl
    · simp [hnil]
    · simp [hnil]

theorem SameIssuers.owner {s : Store} {t : CertState} {op : Op}
    (hop : op = .certissuerActivate ∨ op = .certissuerUpdate) (vvchArgs : List Bytes) (h : SameIssuers s t)
    (hheight : pindex.nHeight ≠ pindexBest.nHeight) {s' : Store}
    (hs' : s'.certdb = writeIssuer env pindexBest pindex tx op vvchArgs s.certdb) :
    SameIssuers s' (reconstructCert env pindex tx op vvchArgs t) := by
  have hitem : ¬ (op = .certNew ∨ op = .certTransfer) := by
    rcases hop with rfl | rfl
    · simp
    · simp
  have hbase : ∀ payload, baseIssuer t (arg vvchArgs 0) pindex.nHeight payload =
      baseIssuer s.certdb (arg vvchArgs 0) pindex.nHeight payload := fun payload => by
    unfold baseIssuer
    rw [h.history]
  rw [writeIssuer, if_pos hheight] at hs'
  have ht : (reconstructCert env pindex tx op vvchArgs t).certissuera =
      Function.update t.certissuera certissuertxf
        (some (.txFees (insertCertFee pindex (getCertNetFee tx) t.lstCertIssuerFees))) := by
    simp only [reconstructCert, if_neg hitem]
  refine h.refile ?_ ht (by rw [hs']; rfl) (.inl ⟨rfl, rfl⟩)
  rw [hs']
  simp only [reconstructCert, connectIssuer, storeIssuer, if_neg hitem, rescannedIssuer_owner hop, hbase, h.history,
    h.issuers]

/-- An item or a transfer for an issuer that is not stored. -/
theorem SameIssuers.item {s : Store} {t : CertState} {op : Op} (hop : op = .certNew ∨ op = .certTransfer)
    {vvchArgs : List Bytes} {c : CCertItem} (h : SameIssuers s t)
    (hfirst : FirstItem ⟨pindexBest, pindex, tx, inputs, s⟩ vvchArgs)
    (hc : (CCertIssuer.ofTx tx).getCertItemByHash (arg vvchArgs 1) = some c) {s' : Store}
    (hs' : s'.certdb = recordItem env pindex tx op vvchArgs c s.certdb) :
    SameIssuers s' (reconstructCert env pindex tx op vvchArgs t) := by
  obtain ⟨hnil, hfree⟩ := hfirst
  have howner : ¬ (op = .certissuerActivate ∨ op = .certissuerUpdate) := by
    rcases hop with rfl | rfl
    · simp
    · simp
  have hupdate : op ≠ .certissuerUpdate := fun heq => howner (.inr heq)
  have hnil' : t.history (arg vvchArgs 0) = [] := by rw [h.history, hnil]
  have hfree' : t.certissuera (arg vvchArgs 1) = none := (h.filed _).mpr hfree
  have hstamp : rescannedItem env pindex tx t (arg vvchArgs 1) (CCertIssuer.ofTx tx) =
      stampItem env pindex tx (arg vvchArgs 1) c := by
    simp only [rescannedItem, stampItem, hfree', hc, Option.isSome_none, Bool.false_eq_true, if_false,
      Option.getD_some]
  have ht : (reconstructCert env pindex tx op vvchArgs t).certissuera =
      Function.update (Function.update t.certissuera (arg vvchArgs 1) (some (.issuer (arg vvchArgs 0)))) certissuertxf
        (some (.txFees (insertCertFee pindex (getCertNetFee tx) t.lstCertIssuerFees))) := by
    simp only [reconstructCert, if_pos hop]
  refine h.refile ?_ ht (by rw [hs']; rfl) (.inr ⟨_, _, rfl, rfl⟩)
  rw [hs']
  simp only [reconstructCert, recordItem, storeIssuer, stampIssuer, baseIssuer, rescannedIssuer, if_pos hop,
    if_neg howner, if_neg hupdate, hnil, hnil', if_true, hstamp, h.issuers, readCertItem, hfree', Option.map_none,
    Option.getD_none, CCertIssuer.getCertFromList, CCertIssuer.putCertItem, List.find?_nil, List.getLast?_nil]

theorem follows_certs : Follows env RescanClean (Gettable env get) (rescanCert env get) SameIssuers where
  spends := by
    intro pindexBest pindex tx inputs s s' t hheight hclean hget hstep hR
    rcases hstep.certStep with ⟨hnone, hsame⟩ | hcert
    · refine ⟨t, rescanCert_skip (.inr fun r hr => ?_) t, ?_⟩
      · rw [hnone] at hr
        cases hr
      · exact ⟨hsame ▸ hR.issuers, hsame ▸ hR.items, hsame ▸ hR.filed⟩
    · generalize hs' : s'.certdb = certdb' at hcert
      have hkeep : certdb' = s.certdb → SameIssuers s' t := by
        rintro rfl
        exact ⟨hs' ▸ hR.issuers, hs' ▸ hR.items, hs' ▸ hR.filed⟩
      have hlet : ∀ {op : Op} {nOut : Nat} {vvchArgs : List Bytes}, tx.nVersion = SYSCOIN_TX_VERSION →
          decodeCertTx tx = some (op, nOut, vvchArgs) → op ≠ .certissuerNew → CCertIssuer.unserializes tx = true ∧
            (op = .certissuerActivate ∨ op = .certissuerUpdate ∨
              FirstItem ⟨pindexBest, pindex, tx, inputs, s⟩ vvchArgs) := by
        intro op nOut vvchArgs hver hop hnew
        exact ((hclean.resolve_left (not_not.mpr hver)).2.2 _ hop).resolve_left hnew
      cases hcert with
      | plain hver => exact ⟨t, rescanCert_skip (.inl hver) t, hkeep rfl⟩
      | new hver hop =>
        refine ⟨t, rescanCert_skip (.inr fun r hr => ?_) t, hkeep rfl⟩
        rw [hop, Option.mem_some] at hr
        rw [← hr]
      | activate hver hop =>
        obtain ⟨hread, -⟩ := hlet hver hop (by decide)
        exact ⟨_, rescanCert_found hver hop (by decide) hget hread t, hR.owner (.inl rfl) _ hheight hs'⟩
      | update hver hop =>
        obtain ⟨hread, -⟩ := hlet hver hop (by decide)
        exact ⟨_, rescanCert_found hver hop (by decide) hget hread t, hR.owner (.inr rfl) _ hheight hs'⟩
      | itemSkip _ _ _ hsame => exact absurd hsame hheight
      | item hver hop _ hc =>
        obtain ⟨hread, hfirst⟩ := hlet hver hop (by decide)
        have hfirst := (hfirst.resolve_left (by decide)).resolve_left (by decide)
        exact ⟨_, rescanCert_found hver hop (by decide) hget hread t, hR.item (.inl rfl) hfirst hc hs'⟩
      | transfer hver hop _ _ _ _ hc =>
        obtain ⟨hread, hfirst⟩ := hlet hver hop (by decide)
        have hfirst := (hfirst.resolve_left (by decide)).resolve_left (by decide)
        exact ⟨_, rescanCert_found hver hop (by decide) hget hread t, hR.item (.inr rfl) hfirst hc hs'⟩
  skips := fun t hinert => rescanCert_skip (hinert.imp_right (·.2.2)) t
  blocks := fun _ _ hR => ⟨hR.issuers, hR.items, hR.filed⟩
  pendings := fun _ hR => ⟨hR.issuers, hR.items, hR.filed⟩

end Services

/-! ## The rescans -/

/-- **A rescan reproduces the index** of a chain whose sites are clean, if neither the genesis block nor a coinbase
    carries an operation and `GetTransaction` finds the transactions that do. -/
theorem rescan_reproduces {env : Env} {genesis : CBlock} {pn : PoolNode} (h : Grown env RescanClean genesis pn.node)
    (hover : ∀ pindex ∈ pn.node.pindexBest.mainChain, ∀ tx ∈ pindex.block.vtx, Overlooked env pindex tx → tx.inert)
    (hget : ∀ pindex ∈ pn.node.pindexBest.mainChain, ∀ tx ∈ pindex.block.vtx,
      Gettable env (pn.getTransaction env) tx) : Reproduces env pn := by
  have hknown : ∀ pindex ∈ pn.node.pindexBest.mainChain, ∀ tx ∈ pindex.block.vtx,
      Gettable env (pn.getTransaction env) tx ∧ (Overlooked env pindex tx → tx.inert) :=
    fun pindex hin tx htx => ⟨hget pindex hin tx htx, hover pindex hin tx htx⟩
  intro aliasdb offerdb certdb hblank
  obtain ⟨aliasdb', hnames, hsameA⟩ := follows_aliases.grown (t := aliasdb) h (funext hblank.names) hknown
  -- the fee list has no part in the offers
  have hinitO : SameOffers Store.init
      { offerdb with lstOfferFees := zeroFirstFee 0 pn.node.pindexBest.nHeight offerdb.lstOfferFees } :=
    ⟨funext hblank.offers, hblank.offera, rfl⟩
  obtain ⟨offerdb', hoffers, hsameO⟩ := follows_offers.grown h hinitO hknown
  have hinitC : SameIssuers Store.init certdb := by
    refine ⟨funext hblank.issuers, fun guid => ?_, fun guid => ?_⟩
    · unfold CertState.itemOf
      rw [hblank.certissuera guid]
      rfl
    · exact ⟨fun _ => rfl, fun _ => hblank.certissuera guid⟩
  obtain ⟨certdb', hcerts, hsameC⟩ := follows_certs.grown h hinitC hknown
  refine ⟨aliasdb', offerdb', certdb', hnames, ?_, hcerts, hsameA, hsameO.offers, fun guid => ?_, hsameC.issuers,
    hsameC.items⟩
  · exact Proc.update_bind_ok_iff.mpr ⟨_, rfl, hoffers⟩
  · unfold OfferState.acceptOf
    rw [hsameO.offera guid]
    show _ = pn.node.store.offerdb.acceptOf guid
    cases pn.node.store.offerdb.acceptOf guid with
    | none => rfl
    | some vchOffer => rfl

namespace Cakenet

/-- A chain connected block by block, with nothing in the pool. -/
def idleNode (pindexNew : CBlockIndex) : PoolNode := ⟨grownTo pindexNew, .empty⟩

theorem grown_idleNode {C : Site → Prop} {pindexNew : CBlockIndex}
    (h : Along C pindexNew.mainChain.tail (Node.init genesis)) : Grown env C genesis (idleNode pindexNew).node :=
  grown_grownTo h

/-- An offer and an issuer, each activated and then updated. -/
def ownersBlock11 : CBlockIndex :=
  mine (mine (mine block8 9 [offerNewTx, issuerNewTx]) 10 [offerActivateTx, issuerActivateTx])
    11 [offerUpdateTx, issuerUpdateTx]

theorem owners_reproduced :
    Reproduces env (idleNode ownersBlock11) ∧
      ((idleNode ownersBlock11).node.store.offerdb.history vchName).length = 2 ∧
      ((idleNode ownersBlock11).node.store.certdb.history vchName).length = 2 := by
  have hgrown : Grown env RescanClean genesis (idleNode ownersBlock11).node := grown_idleNode (by decide +kernel)
  refine ⟨rescan_reproduces hgrown ?_ ?_, ?_, ?_⟩
  · decide +kernel
  · decide +kernel
  · decide +kernel
  · decide +kernel

/-- **The claim fails**: the activation of a name is found again without the output that it spent. -/
theorem activation_not_reproduced :
    Grown env (fun _ => True) genesis (idleNode aliasBlock10).node ∧ ¬ Reproduces env (idleNode aliasBlock10) := by
  refine ⟨grown_idleNode (by decide +kernel), fun h => ?_⟩
  have hblank : Blank Store.init.aliasdb Store.init.offerdb Store.init.certdb :=
    ⟨fun _ => rfl, fun _ => rfl, fun _ => rfl, fun _ => rfl, fun _ => rfl⟩
  obtain ⟨aliasdb', offerdb', certdb', hnames, -, -, hsame⟩ := h _ _ _ hblank
  have hdiff : (reconstructNameIndex env (idleNode aliasBlock10) Store.init.aliasdb).2.names vchName ≠
      (idleNode aliasBlock10).node.store.aliasdb.names vchName := by decide +kernel
  rw [hnames] at hdiff
  exact hdiff (congrFun hsame.names vchName)

end Cakenet

end Syscoin

import Syscoin.Chain.Run

/-!
# `Correctness.Rollback` — what a disconnect leaves in the databases

The coin view is rolled back by replaying undo data. Offers and certificates are not: `DisconnectBlock` asks
`DecodeAliasTx` which service a transaction belongs to, so it never undoes one of theirs. A block is undone there iff
it recorded nothing (`disconnect_restores_iff`).

`OfferRecords` and `CertRecords` say of a site, before it is checked, whether the check records.
-/

namespace Syscoin

open Lib

/-! ## What a block records -/

/-- The payload's accept is not covered by what is left of the offer. -/
def AcceptShort (site : Site) (vvchArgs : List Bytes) : Prop :=
  ∃ a ∈ (COffer.ofTx site.tx).getAcceptByHash (arg vvchArgs 1), a.nQty < 1 ∨
    (baseOffer site.store.offerdb (arg vvchArgs 0) site.pindex.nHeight (COffer.ofTx site.tx)).getRemQty < a.nQty

/-- The site records an offer: an operation other than a commitment, at a height other than the best one, and not an
    accept that falls short. -/
def OfferRecords (site : Site) : Prop :=
  site.tx.examined ∧ site.pindex.nHeight ≠ site.pindexBest.nHeight ∧
    ∃ r ∈ decodeOfferTx site.tx, r.1 ≠ .offerNew ∧ ¬ (r.1 = .offerAccept ∧ AcceptShort site r.2.2)

/-- The site records an issuer. -/
def CertRecords (site : Site) : Prop :=
  site.tx.examined ∧ site.pindex.nHeight ≠ site.pindexBest.nHeight ∧
    ∃ r ∈ decodeCertTx site.tx, r.1 ≠ .certissuerNew

instance (site : Site) (vvchArgs : List Bytes) : Decidable (AcceptShort site vvchArgs) :=
  inferInstanceAs (Decidable (∃ _ ∈ _, _))

instance : DecidablePred OfferRecords := fun _ => inferInstanceAs (Decidable (_ ∧ _))

instance : DecidablePred CertRecords := fun _ => inferInstanceAs (Decidable (_ ∧ _))

/-- The two databases have the same contents: histories, and the mappings filed beside them. -/
def SameRecords (s s' : Store) : Prop :=
  s'.offerdb.offers = s.offerdb.offers ∧ s'.offerdb.offera = s.offerdb.offera ∧
    s'.certdb.issuers = s.certdb.issuers ∧ s'.certdb.certissuera = s.certdb.certissuera

/-- A history has an entry that one of the transactions wrote. -/
def Marked (env : Env) (txs : List CTransaction) (s : Store) : Prop :=
  (∃ g, ∃ o ∈ s.offerdb.history g, ∃ tx ∈ txs, o.txHash = env.getHash tx) ∨
    ∃ g, ∃ i ∈ s.certdb.history g, ∃ tx ∈ txs, i.txHash = env.getHash tx

section Records

variable {env : Env} {pindexBest pindex : CBlockIndex} {tx : CTransaction} {inputs : CoinsView}

theorem SameRecords.refl (s : Store) : SameRecords s s := ⟨rfl, rfl, rfl, rfl⟩

theorem SameRecords.trans ⦃s₁ s₂ s₃ : Store⦄ (h : SameRecords s₁ s₂) (h' : SameRecords s₂ s₃) : SameRecords s₁ s₃ :=
  ⟨h'.1.trans h.1, h'.2.1.trans h.2.1, h'.2.2.1.trans h.2.2.1, h'.2.2.2.trans h.2.2.2⟩

theorem SameRecords.marked_iff {txs : List CTransaction} {s s' : Store} (h : SameRecords s s') :
    Marked env txs s' ↔ Marked env txs s := by
  simp only [Marked, OfferState.history, CertState.history, h.1, h.2.2.1]

/-- What is stored bears the hash of the transaction. -/
theorem storeOffer_hash {op : Op} {vvchArgs : List Bytes} {o : COffer} {offera : Bytes → Option OfferaValue}
    {s : OfferState} :
    ∃ o' ∈ (storeOffer env pindex tx op vvchArgs o offera s).history (arg vvchArgs 0), o'.txHash = env.getHash tx := by
  simp only [storeOffer, OfferState.history, Function.update_self, Option.getD_some]
  exact ⟨_, self_mem_upsert, rfl⟩

theorem storeIssuer_hash {op : Op} {vvchArgs : List Bytes} {c : CCertIssuer}
    {certissuera : Bytes → Option CertaValue} {s : CertState} :
    ∃ i ∈ (storeIssuer env pindex tx op vvchArgs c certissuera s).history (arg vvchArgs 0),
      i.txHash = env.getHash tx := by
  simp only [storeIssuer, CertState.history, Function.update_self, Option.getD_some]
  exact ⟨_, self_mem_upsert, rfl⟩

/-- **An offer step** at a site that does not record leaves the database alone; at one that does, it leaves the
    transaction's hash in a history. -/
theorem OfferStep.records {st : Store} {s' : OfferState}
    (h : OfferStep env pindexBest pindex tx inputs st.offerdb s') (hcb : tx.isCoinBase = false) :
    (OfferRecords ⟨pindexBest, pindex, tx, inputs, st⟩ ∧ ∃ g, ∃ o ∈ s'.history g, o.txHash = env.getHash tx) ∨
      (¬ OfferRecords ⟨pindexBest, pindex, tx, inputs, st⟩ ∧
        s'.offers = st.offerdb.offers ∧ s'.offera = st.offerdb.offera) := by
  generalize hs : st.offerdb = s at h
  cases h with
  | plain hver => exact .inr ⟨fun hrec => hver hrec.1.2, rfl, rfl⟩
  | new _ hop =>
    refine .inr ⟨?_, rfl, rfl⟩
    rintro ⟨-, -, r, hr, hne, -⟩
    rw [Option.mem_def, hop, Option.some.injEq] at hr
    exact hne (hr ▸ rfl)
  | activate hver hop =>
    unfold writeOfferSeller
    by_cases hh : pindex.nHeight = pindexBest.nHeight
    · rw [if_neg (not_not.mpr hh)]
      exact .inr ⟨fun hrec => hrec.2.1 hh, rfl, rfl⟩
    · rw [if_pos hh]
      exact .inl ⟨⟨⟨hcb, hver⟩, hh, _, hop, by simp, by simp⟩, _, storeOffer_hash⟩
  | update hver hop =>
    unfold writeOfferSeller
    by_cases hh : pindex.nHeight = pindexBest.nHeight
    · rw [if_neg (not_not.mpr hh)]
      exact .inr ⟨fun hrec => hrec.2.1 hh, rfl, rfl⟩
    · rw [if_pos hh]
      exact .inl ⟨⟨⟨hcb, hver⟩, hh, _, hop, by simp, by simp⟩, _, storeOffer_hash⟩
  | acceptSkip _ _ hh | paySkip _ _ _ _ hh => exact .inr ⟨fun hrec => hrec.2.1 hh, rfl, rfl⟩
  | acceptShort _ hop _ ha hshort =>
    refine .inr ⟨?_, rfl, rfl⟩
    rintro ⟨-, -, r, hr, -, hcovered⟩
    rw [Option.mem_def, hop, Option.some.injEq] at hr
    subst hr
    exact hcovered ⟨rfl, _, ha, hs ▸ hshort⟩
  | accept hver hop hh ha hcovered =>
    refine .inl ⟨⟨⟨hcb, hver⟩, hh, _, hop, by simp, ?_⟩, _, storeOffer_hash⟩
    rintro ⟨-, a, ha', hshort⟩
    rw [Option.mem_def, ha, Option.some.injEq] at ha'
    subst ha'
    exact hcovered (hs ▸ hshort)
  | pay hver hop _ _ _ _ hh => exact .inl ⟨⟨⟨hcb, hver⟩, hh, _, hop, by simp, by simp⟩, _, storeOffer_hash⟩

theorem CertStep.records {st : Store} {s' : CertState}
    (h : CertStep env pindexBest pindex tx inputs st.certdb s') (hcb : tx.isCoinBase = false) :
    (CertRecords ⟨pindexBest, pindex, tx, inputs, st⟩ ∧ ∃ g, ∃ i ∈ s'.history g, i.txHash = env.getHash tx) ∨
      (¬ CertRecords ⟨pindexBest, pindex, tx, inputs, st⟩ ∧
        s'.issuers = st.certdb.issuers ∧ s'.certissuera = st.certdb.certissuera) := by
  cases h with
  | plain hver => exact .inr ⟨fun hrec => hver hrec.1.2, rfl, rfl⟩
  | new _ hop =>
    refine .inr ⟨?_, rfl, rfl⟩
    rintro ⟨-, -, r, hr, hne⟩
    rw [Option.mem_def, hop, Option.some.injEq] at hr
    exact hne (hr ▸ rfl)
  | activate hver hop =>
    unfold writeIssuer
    by_cases hh : pindex.nHeight = pindexBest.nHeight
    · rw [if_neg (not_not.mpr hh)]
      exact .inr ⟨fun hrec => hrec.2.1 hh, rfl, rfl⟩
    · rw [if_pos hh]
      exact .inl ⟨⟨⟨hcb, hver⟩, hh, _, hop, by simp⟩, _, storeIssuer_hash⟩
  | update hver hop =>
    unfold writeIssuer
    by_cases hh : pindex.nHeight = pindexBest.nHeight
    · rw [if_neg (not_not.mpr hh)]
      exact .inr ⟨fun hrec => hrec.2.1 hh, rfl, rfl⟩
    · rw [if_pos hh]
      exact .inl ⟨⟨⟨hcb, hver⟩, hh, _, hop, by simp⟩, _, storeIssuer_hash⟩
  | itemSkip _ _ _ hh => exact .inr ⟨fun hrec => hrec.2.1 hh, rfl, rfl⟩
  | item hver hop hh => exact .inl ⟨⟨⟨hcb, hver⟩, hh, _, hop, by simp⟩, _, storeIssuer_hash⟩
  | transfer hver hop _ _ _ hh => exact .inl ⟨⟨⟨hcb, hver⟩, hh, _, hop, by simp⟩, _, storeIssuer_hash⟩

/-- **One transaction** of a connecting block: either its site records and a history bears its hash, or its site does
    not and the records are the same. -/
theorem TxStep.records {acc acc' : ConnectAcc} {s s' : Store} {txs : List CTransaction} (hmem : tx ∈ txs)
    (h : TxStep env pindexBest pindex acc tx s acc' s') :
    let site : Site := ⟨pindexBest, pindex, tx, acc.view, s⟩
    ((OfferRecords site ∨ CertRecords site) ∧ Marked env txs s') ∨
      (¬ OfferRecords site ∧ ¬ CertRecords site ∧ SameRecords s s') := by
  intro site
  cases h with
  | coinbase hcb =>
    refine .inr ⟨fun hrec => ?_, fun hrec => ?_, SameRecords.refl s⟩
    · exact Bool.false_ne_true (hrec.1.1.symm.trans hcb)
    · exact Bool.false_ne_true (hrec.1.1.symm.trans hcb)
  | spend hcb _ hspend =>
    have hoffer : (OfferRecords site ∧ ∃ g, ∃ o ∈ s'.offerdb.history g, o.txHash = env.getHash tx) ∨
        (¬ OfferRecords site ∧ s'.offerdb.offers = s.offerdb.offers ∧ s'.offerdb.offera = s.offerdb.offera) := by
      rcases hspend.offerStep with ⟨hnone, hsame⟩ | hstep
      · refine .inr ⟨?_, by rw [hsame], by rw [hsame]⟩
        rintro ⟨-, -, r, hr, -⟩
        rw [Option.mem_def, hnone] at hr
        cases hr
      · exact hstep.records hcb
    have hcert : (CertRecords site ∧ ∃ g, ∃ i ∈ s'.certdb.history g, i.txHash = env.getHash tx) ∨
        (¬ CertRecords site ∧ s'.certdb.issuers = s.certdb.issuers ∧
          s'.certdb.certissuera = s.certdb.certissuera) := by
      rcases hspend.certStep with ⟨hnone, hsame⟩ | hstep
      · refine .inr ⟨?_, by rw [hsame], by rw [hsame]⟩
        rintro ⟨-, -, r, hr, -⟩
        rw [Option.mem_def, hnone] at hr
        cases hr
      · exact hstep.records hcb
    rcases hoffer with ⟨hrec, g, o, ho, hhash⟩ | ⟨hno, hoffers, hoffera⟩
    · exact .inl ⟨.inl hrec, .inl ⟨g, o, ho, tx, hmem, hhash⟩⟩
    · rcases hcert with ⟨hrec, g, i, hi, hhash⟩ | ⟨hnoCert, hissuers, hcerta⟩
      · exact .inl ⟨.inr hrec, .inr ⟨g, i, hi, tx, hmem, hhash⟩⟩
      · exact .inr ⟨hno, hnoCert, hoffers, hoffera, hissuers, hcerta⟩

/-- **The loop**: nothing is recorded and the records are the same, or something is and a history shows it. -/
theorem connectTxs_records {acc acc' : ConnectAcc} {s s' : Store} {all txs : List CTransaction}
    (hsub : ∀ tx ∈ txs, tx ∈ all)
    (h : Proc.foldM (connectTx env false pindexBest pindex) txs acc s = (.ok acc', s')) :
    ((∀ site ∈ connectSites env pindexBest pindex txs acc s, ¬ OfferRecords site ∧ ¬ CertRecords site) →
        SameRecords s s') ∧
      (¬ Marked env all s' → ∀ site ∈ connectSites env pindexBest pindex txs acc s,
        ¬ OfferRecords site ∧ ¬ CertRecords site) ∧
      (Marked env all s → Marked env all s') := by
  induction txs generalizing acc s with
  | nil =>
    rw [Proc.foldM_nil] at h
    simp only [Prod.mk.injEq, Except.ok.injEq] at h
    obtain ⟨-, rfl⟩ := h
    exact ⟨fun _ => SameRecords.refl s, by simp [connectSites], id⟩
  | cons tx txs ih =>
    obtain ⟨acc₁, s₁, hd, tl⟩ := Proc.foldM_cons_ok_iff.mp h
    obtain ⟨hmemAll, hsubTail⟩ := List.forall_mem_cons.mp hsub
    obtain ⟨hsame, hunmarked, hmark⟩ := ih hsubTail tl
    rw [connectSites_cons hd]
    simp only [List.forall_mem_cons]
    rcases (connectTx_ok hd).records hmemAll with ⟨hrec, hmarked⟩ | ⟨hno, hnoCert, hrecords⟩
    · refine ⟨fun hall => ?_, fun hnot => absurd (hmark hmarked) hnot, fun _ => hmark hmarked⟩
      exact absurd hrec (not_or.mpr hall.1)
    · refine ⟨fun hall => hrecords.trans (hsame hall.2), fun hnot => ⟨⟨hno, hnoCert⟩, hunmarked hnot⟩, fun hm => ?_⟩
      exact hmark (hrecords.marked_iff.mpr hm)

end Records

section Disconnect

variable {env : Env} {pindex : CBlockIndex}

/-- Whatever it returns, a disconnect leaves offers and certificates alone. -/
theorem disconnectBlock_frame (env : Env) (pindex : CBlockIndex) (view : CoinsCache) (s : Store) :
    SameRecords s (disconnectBlock env pindex view s).2 := by
  refine disconnectBlock_keeps SameRecords.refl SameRecords.trans (fun tx _ s => ?_) view s
  obtain ⟨hoffer, hcert, -⟩ := disconnectService_frame env pindex tx s
  exact ⟨by rw [hoffer], by rw [hoffer], by rw [hcert], by rw [hcert]⟩

/-- **Offers and certificates are undone by a disconnect iff the block recorded none.** For a block that was
    connected: if no site of it records, connecting and disconnecting it leaves histories and mappings as they were;
    if no stored entry has the hash of one of its transactions, the converse holds as well. No transaction of the
    block reaches the pop loops. -/
theorem disconnect_restores_iff {pindexBest : CBlockIndex} {nNow : Nat} {view view' : CoinsCache} {s s' : Store}
    (h : connectBlock env false pindexBest pindex nNow view s = (.ok view', s')) :
    ((∀ site ∈ blockSites env pindexBest pindex nNow view s, ¬ OfferRecords site ∧ ¬ CertRecords site) →
        SameRecords s (disconnectBlock env pindex view' s').2) ∧
      (¬ Marked env pindex.block.vtx s → SameRecords s (disconnectBlock env pindex view' s').2 →
        ∀ site ∈ blockSites env pindexBest pindex nNow view s, ¬ OfferRecords site ∧ ¬ CertRecords site) ∧
      ∀ tx ∈ pindex.block.vtx, ∀ r ∈ decodeAliasTx tx, ¬ r.1.isOfferOp ∧ ¬ r.1.isCertOp := by
  have hback := disconnectBlock_frame env pindex view' s'
  have hdispatch : ∀ tx ∈ pindex.block.vtx, ∀ r ∈ decodeAliasTx tx, ¬ r.1.isOfferOp ∧ ¬ r.1.isCertOp := by
    rintro tx - ⟨op, nOut, vvchArgs⟩ hr
    obtain ⟨out, -, hdec⟩ := (decodeTx_eq_some hr).1
    have halias := (decodeScript_spec hdec).1
    simp [Op.not_isOfferOp_of_isAliasOp halias, Op.not_isCertOp_of_isAliasOp halias]
  obtain ⟨hpro, hcases⟩ := connectBlock_loop h
  rcases hcases with ⟨hgen, rfl, -⟩ | ⟨hreg, acc, s₁, hloop, rfl, -⟩
  · refine ⟨fun _ => hback, fun _ _ => ?_, hdispatch⟩
    simp [blockSites, hpro, hgen]
  · obtain ⟨hsame, hunmarked, -⟩ := connectTxs_records (fun _ hmem => hmem) hloop
    have hsites : blockSites env pindexBest pindex nNow view s =
        connectSites env pindexBest pindex pindex.block.vtx ⟨view.coins, 0, 0, [], []⟩ s := by
      simp [blockSites, hpro, hreg]
    -- the block is written to undo data and index only
    have hwritten : SameRecords s₁ (writeBlock env pindex acc.blockundo s₁) := SameRecords.refl s₁
    rw [hsites]
    refine ⟨fun hall => ((hsame hall).trans hwritten).trans hback, fun hfresh hrestored => ?_, hdispatch⟩
    refine hunmarked fun hmarked => hfresh (hrestored.marked_iff.mp ?_)
    exact hback.marked_iff.mpr (hwritten.marked_iff.mpr hmarked)

end Disconnect

namespace Cakenet

/-- An offer and an issuer, committed to and then activated. -/
def committedBlock9 : CBlockIndex := mine block8 9 [offerNewTx, issuerNewTx]

def activatedBlock10 : CBlockIndex := mine committedBlock9 10 [offerActivateTx, issuerActivateTx]

theorem disconnect_restores_commitments :
    ∃ view' s', connectOn (nodeAt block8) committedBlock9 = (.ok view', s') ∧
      SameRecords (nodeAt block8).store (disconnectBlock env committedBlock9 view' s').2 := by
  have hok : (connectOn (nodeAt block8) committedBlock9).1.isOk = true := by decide +kernel
  rcases hrun : connectOn (nodeAt block8) committedBlock9 with ⟨_ | view', s'⟩
  · rw [hrun] at hok
    cases hok
  · exact ⟨view', s', rfl, (disconnect_restores_iff hrun).1 (by decide +kernel)⟩

/-- The databases have an offer and an issuer that were not there before, after a clean disconnect. -/
theorem activations_survive_disconnect :
    ∃ view' s', connectOn (nodeAt committedBlock9) activatedBlock10 = (.ok view', s') ∧
      (disconnectBlock env activatedBlock10 view' s').1.isOk = true ∧
      ¬ SameRecords (nodeAt committedBlock9).store (disconnectBlock env activatedBlock10 view' s').2 := by
  have hok : (connectOn (nodeAt committedBlock9) activatedBlock10).1.toOption.any (fun view' =>
      (disconnectBlock env activatedBlock10 view' (connectOn (nodeAt committedBlock9) activatedBlock10).2).1.isOk) =
        true := by decide +kernel
  have hbefore : (nodeAt committedBlock9).store.offerdb.offers vchName = none := by decide +kernel
  have hafter : ((connectOn (nodeAt committedBlock9) activatedBlock10).2.offerdb.offers vchName).isSome = true := by
    decide +kernel
  rcases hrun : connectOn (nodeAt committedBlock9) activatedBlock10 with ⟨_ | view', s'⟩
  · rw [hrun] at hok
    cases hok
  · rw [hrun] at hok hafter
    refine ⟨view', s', rfl, hok, fun hsame => ?_⟩
    rw [← (disconnectBlock_frame env activatedBlock10 view' s').1, hsame.1, hbefore] at hafter
    cases hafter

end Cakenet

end Syscoin

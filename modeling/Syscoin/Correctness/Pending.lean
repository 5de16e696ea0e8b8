import Syscoin.Chain.Mempool
import Syscoin.Correctness.Failure

/-!
# `Correctness.Pending` — what `SetBestChain` does to the pending maps

A connecting block takes its alias activations and updates off the pending map, and nothing else. It does so while the
block is being checked, so the entries are gone even when the call fails in the end. `Fades` says that nothing becomes
pending on the way and what may stop being so.
-/

namespace Syscoin

open Lib

/-! ## What fades -/

/-- The five maps. -/
inductive Slot where
  | aliases | offers | offerAccepts | certIssuers | certItems
deriving DecidableEq, Repr

def Pendings.at (p : Pendings) : Slot → Pending
  | .aliases => p.mapAliasesPending
  | .offers => p.mapOfferPending
  | .offerAccepts => p.mapOfferAcceptPending
  | .certIssuers => p.mapCertIssuerPending
  | .certItems => p.mapCertItemPending

/-- A connecting block takes the transaction off the pending aliases: an activation or an update, in a block that is
    not at the height of the best one. -/
def Confirms (pindexBest pindex : CBlockIndex) (tx : CTransaction) : Prop :=
  tx.examined ∧ pindex.nHeight ≠ pindexBest.nHeight ∧ ∃ r ∈ decodeAliasTx tx, r.1 ≠ .aliasNew

instance (pindexBest pindex : CBlockIndex) (tx : CTransaction) : Decidable (Confirms pindexBest pindex tx) :=
  inferInstanceAs (Decidable (_ ∧ _))

/-- Nothing becomes pending, and of the aliases only what satisfies `Lost` stops being so. -/
structure Fades (Lost : Uint256 → Prop) (s s' : Store) : Prop where
  sub : ∀ slot key, s'.pendings.at slot key ⊆ s.pendings.at slot key
  kept : ∀ key, ∀ hash ∈ s.pendings.mapAliasesPending key, hash ∈ s'.pendings.mapAliasesPending key ∨ Lost hash

section Fades

variable {env : Env} {pindexBest pindex : CBlockIndex} {tx : CTransaction} {inputs : CoinsView}
  {Lost : Uint256 → Prop}

theorem Fades.refl (s : Store) : Fades Lost s s := ⟨fun _ _ => Finset.Subset.refl _, fun _ _ h => .inl h⟩

theorem Fades.trans ⦃s₁ s₂ s₃ : Store⦄ (h : Fades Lost s₁ s₂) (h' : Fades Lost s₂ s₃) : Fades Lost s₁ s₃ := by
  refine ⟨fun slot key => (h'.sub slot key).trans (h.sub slot key), fun key hash hin => ?_⟩
  rcases h.kept key hash hin with hin | hlost
  · exact h'.kept key hash hin
  · exact .inr hlost

theorem Fades.of_pendings {s s' : Store} (h : s'.pendings = s.pendings) : Fades Lost s s' := by
  refine ⟨fun slot key => ?_, fun key hash hin => ?_⟩
  · rw [h]
  · rw [h]
    exact .inl hin

theorem SameServices.fades {s s' : Store} (h : SameServices s s') : Fades Lost s s' := by
  refine .of_pendings ?_
  simp only [Store.pendings, h.aliasdb_eq, h.offerdb_eq, h.certdb_eq]

/-- One alias step: the transaction itself goes, if it confirms. -/
theorem AliasStep.pending {s s' : AliasState} (hcb : tx.isCoinBase = false)
    (h : AliasStep env pindexBest pindex tx inputs s s') :
    s'.mapAliasesPending = s.mapAliasesPending ∧ ¬ Confirms pindexBest pindex tx ∨
      ∃ r ∈ decodeAliasTx tx, Confirms pindexBest pindex tx ∧
        s'.mapAliasesPending = s.mapAliasesPending.erase (arg r.2.2 0) (env.getHash tx) := by
  -- an operation that is written is confirmed, and one that is not is not
  have hwrite : ∀ (op : Op) (nOut : Nat) (vvchArgs : List Bytes) (prevOutput : COutPoint),
      tx.nVersion = SYSCOIN_TX_VERSION → decodeAliasTx tx = some (op, nOut, vvchArgs) → op ≠ .aliasNew →
      (writeAlias env pindexBest pindex tx op vvchArgs prevOutput s).mapAliasesPending = s.mapAliasesPending ∧
          ¬ Confirms pindexBest pindex tx ∨
        ∃ r ∈ decodeAliasTx tx, Confirms pindexBest pindex tx ∧
          (writeAlias env pindexBest pindex tx op vvchArgs prevOutput s).mapAliasesPending =
            s.mapAliasesPending.erase (arg r.2.2 0) (env.getHash tx) := by
    intro op nOut vvchArgs prevOutput hver hop hne
    unfold writeAlias
    split
    · rename_i hh
      exact .inr ⟨_, hop, ⟨⟨hcb, hver⟩, hh, _, hop, hne⟩, rfl⟩
    · rename_i hh
      exact .inl ⟨rfl, fun hconf => hh hconf.2.1⟩
  cases h with
  | plain hver _ => exact .inl ⟨rfl, fun hconf => hver hconf.1.2⟩
  | new _ hop _ =>
    refine .inl ⟨rfl, fun hconf => ?_⟩
    obtain ⟨r, hr, hne⟩ := hconf.2.2
    rw [hop, Option.mem_some] at hr
    exact hne (hr ▸ rfl)
  | activate hver hop => exact hwrite _ _ _ _ hver hop (by decide)
  | update hver hop => exact hwrite _ _ _ _ hver hop (by decide)

theorem OfferStep.pendingOffer_subset {s s' : OfferState} (h : OfferStep env pindexBest pindex tx inputs s s')
    (key : Bytes) : s'.mapOfferPending key ⊆ s.mapOfferPending key := by
  have herase := Pending.erase_subset s.mapOfferPending
  cases h with
  | plain | new | acceptSkip | paySkip | acceptShort => exact Finset.Subset.refl _
  | activate | update =>
    unfold writeOfferSeller
    split
    · simpa [connectOfferSeller, storeOffer] using herase _ _ key
    · exact Finset.Subset.refl _
  | accept | pay => simp [recordAccept, storeOffer]

theorem CertStep.pending_subset {s s' : CertState} (h : CertStep env pindexBest pindex tx inputs s s')
    (key : Bytes) :
    s'.mapCertIssuerPending key ⊆ s.mapCertIssuerPending key ∧ s'.mapCertItemPending key ⊆ s.mapCertItemPending key := by
  have hissuer := Pending.erase_subset s.mapCertIssuerPending
  have hitem := Pending.erase_subset s.mapCertItemPending
  cases h with
  | plain | new | itemSkip => exact ⟨Finset.Subset.refl _, Finset.Subset.refl _⟩
  | activate | update =>
    unfold writeIssuer
    split
    · exact ⟨by simpa [connectIssuer, storeIssuer] using hissuer _ _ key, by simp [connectIssuer, storeIssuer]⟩
    · exact ⟨Finset.Subset.refl _, Finset.Subset.refl _⟩
  | item | transfer =>
    exact ⟨by simp [recordItem, storeIssuer], by simpa [recordItem, storeIssuer] using hitem _ _ key⟩

theorem aliasRules_fades (hcb : tx.isCoinBase = false) (hlost : Confirms pindexBest pindex tx → Lost (env.getHash tx)) :
    Proc.Keeps (Fades Lost) (aliasRules env Mode.connect pindexBest pindex tx inputs) := by
  refine Proc.Keeps.update Fades.refl fun s s' hrun => ?_
  obtain ⟨hcases, pool, hs'⟩ := aliasRules_ok (x := ()) hcb (Proc.update_ok_iff.mpr hrun)
  have hkeep : s'.aliasdb.mapAliasesPending = s.aliasdb.mapAliasesPending → Fades Lost s s' := by
    intro heq
    refine .of_pendings ?_
    rw [hs']
    simp only [Store.pendings, heq]
  rcases hcases with ⟨-, hsame⟩ | hstep
  · exact hkeep (by rw [hsame])
  · rcases hstep.pending hcb with ⟨hsame, -⟩ | ⟨r, -, hconf, herase⟩
    · exact hkeep hsame
    · refine ⟨fun slot key => ?_, fun key hash hin => ?_⟩
      · rw [hs']
        cases slot with
        | aliases =>
          simp only [Pendings.at, Store.pendings, herase]
          exact Pending.erase_subset _ _ _ key
        | offers | offerAccepts | certIssuers | certItems => exact Finset.Subset.refl _
      · by_cases heq : hash = env.getHash tx
        · exact .inr (heq ▸ hlost hconf)
        · refine .inl ?_
          simp only [Store.pendings, herase, Pending.erase]
          by_cases hkey : key = arg r.2.2 0
          · rw [hkey, Function.update_self, Finset.mem_erase]
            exact ⟨heq, hkey ▸ hin⟩
          · rw [Function.update_of_ne hkey]
            exact hin

theorem offerRules_fades (hcb : tx.isCoinBase = false) :
    Proc.Keeps (Fades Lost) (offerRules env Mode.connect pindexBest pindex tx inputs) := by
  refine Proc.Keeps.update Fades.refl fun s s' hrun => ?_
  obtain ⟨hcases, pool, hs'⟩ := offerRules_ok (x := ()) hcb (Proc.update_ok_iff.mpr hrun)
  refine ⟨fun slot key => ?_, fun key hash hin => .inl (by rw [hs']; exact hin)⟩
  rcases hcases with ⟨-, hsame⟩ | hstep
  · rw [hs', hsame]
    cases slot <;> exact Finset.Subset.refl _
  · rw [hs']
    cases slot with
    | offers => exact hstep.pendingOffer_subset key
    | offerAccepts => exact hstep.pending_subset key
    | aliases | certIssuers | certItems => exact Finset.Subset.refl _

theorem certRules_fades (hcb : tx.isCoinBase = false) :
    Proc.Keeps (Fades Lost) (certRules env Mode.connect pindexBest pindex tx inputs) := by
  refine Proc.Keeps.update Fades.refl fun s s' hrun => ?_
  obtain ⟨hcases, pool, hs'⟩ := certRules_ok (x := ()) hcb (Proc.update_ok_iff.mpr hrun)
  refine ⟨fun slot key => ?_, fun key hash hin => .inl (by rw [hs']; exact hin)⟩
  rcases hcases with ⟨-, hsame⟩ | hstep
  · rw [hs', hsame]
    cases slot <;> exact Finset.Subset.refl _
  · rw [hs']
    cases slot with
    | certIssuers => exact (hstep.pending_subset key).1
    | certItems => exact (hstep.pending_subset key).2
    | aliases | offers | offerAccepts => exact Finset.Subset.refl _

theorem connectTx_fades {acc : ConnectAcc} {s : Store}
    (hlost : acc.admits pindex tx → Confirms pindexBest pindex tx → Lost (env.getHash tx)) :
    Fades Lost s (connectTx env false pindexBest pindex acc tx s).2 :=
  connectTx_keeps Fades.refl fun hadmits hcb =>
    checkSpend_keeps Fades.refl Fades.trans (aliasRules_fades hcb (hlost hadmits)) (offerRules_fades hcb)
      (certRules_fades hcb) s

theorem connectTxs_fades {txs : List CTransaction} {acc : ConnectAcc} {s : Store}
    (hlost : ∀ site ∈ connectSites env pindexBest pindex txs acc s,
      Confirms site.pindexBest site.pindex site.tx → Lost (env.getHash site.tx)) :
    Fades Lost s (Proc.foldM (connectTx env false pindexBest pindex) txs acc s).2 := by
  induction txs generalizing acc s with
  | nil => exact Fades.refl s
  | cons tx txs ih =>
    have hhead : Fades Lost s (connectTx env false pindexBest pindex acc tx s).2 := by
      refine connectTx_fades fun hadmits => hlost ⟨pindexBest, pindex, tx, acc.view, s⟩ ?_
      rw [connectSites, if_pos hadmits]
      exact List.mem_cons_self
    rw [Proc.foldM_cons]
    rcases hd : connectTx env false pindexBest pindex acc tx s with ⟨_ | acc₁, s₁⟩
    · rw [hd] at hhead
      exact hhead
    · rw [hd] at hhead
      rw [connectSites_cons hd] at hlost
      exact hhead.trans (ih fun site hsite => hlost site (List.mem_cons_of_mem _ hsite))

theorem connectBlock_fades {nNow : Nat} {view : CoinsCache} {s : Store}
    (hlost : ∀ site ∈ blockSites env pindexBest pindex nNow view s,
      Confirms site.pindexBest site.pindex site.tx → Lost (env.getHash site.tx)) :
    Fades Lost s (connectBlock env false pindexBest pindex nNow view s).2 := by
  rcases connectBlock_ends env pindexBest pindex nNow view s with ⟨-, hsame⟩ | ⟨hsites, hsame⟩
  · exact hsame.fades
  · rw [hsites] at hlost
    exact (connectTxs_fades hlost).trans hsame.fades

theorem connectAll_fades {amb : Ambient} {vConnect : List CBlockIndex} {view : CoinsCache} {s : Store}
    (hlost : ∀ site ∈ chainSites env amb pindexBest vConnect view s,
      Confirms site.pindexBest site.pindex site.tx → Lost (env.getHash site.tx)) :
    Fades Lost s (connectAll env amb pindexBest vConnect view s).2 := by
  unfold connectAll
  induction vConnect generalizing view s with
  | nil => exact Fades.refl s
  | cons pindex vConnect ih =>
    simp only [chainSites, List.forall_mem_append] at hlost
    have hblock := connectBlock_fades hlost.1
    rw [Proc.foldM_cons]
    rcases hd : connectBlock env false pindexBest pindex amb.nNow view s with ⟨_ | view₁, s₁⟩
    · rw [hd] at hblock
      exact hblock
    · rw [hd] at hblock
      simp only [hd] at hlost
      exact hblock.trans (ih hlost.2)

/-- Undoing a block does not touch the pending maps. -/
theorem disconnectService_pendings (env : Env) (pindex : CBlockIndex) (tx : CTransaction) (s : Store) :
    (disconnectService env pindex tx s).pendings = s.pendings := by
  rw [disconnectService_eq]
  split
  · split
    · rfl
    · rename_i op nOut vvchArgs _
      obtain h | ⟨-, _, -, -, h⟩ := disconnectAlias_cases env pindex tx op vvchArgs s
      · rw [h]
      · rw [h]; rfl
  · rfl

theorem disconnectAll_fades (vDisconnect : List CBlockIndex) (view : CoinsCache) :
    Proc.Keeps (Fades Lost) (disconnectAll env vDisconnect view) :=
  Proc.Keeps.foldM Fades.refl Fades.trans (fun _ _ view => disconnectBlock_keeps Fades.refl Fades.trans
    (fun tx _ s => .of_pendings (disconnectService_pendings env _ tx s)) view) view

/-- **A whole call**, whatever it returns: of the pending aliases only those that a site confirms are lost. -/
theorem setBestChain_fades {nNow : Nat} {fFlush : Bool} {pindexNew : CBlockIndex} {node : Node}
    (hlost : ∀ site ∈ callSites env ⟨nNow, fFlush, id⟩ pindexNew node,
      Confirms site.pindexBest site.pindex site.tx → Lost (env.getHash site.tx)) :
    Fades Lost node.store (setBestChain env ⟨nNow, fFlush, id⟩ pindexNew node).2.store := by
  have hall : Fades Lost node.store
      ((disconnectAll env (disconnectedBy node pindexNew) ⟨node.coinsTip, some node.pindexBest⟩ >>=
        connectAll env ⟨nNow, fFlush, id⟩ node.pindexBest (connectedBy node pindexNew)) node.store).2 := by
    have hdis : Fades Lost node.store
        (disconnectAll env (disconnectedBy node pindexNew) ⟨node.coinsTip, some node.pindexBest⟩ node.store).2 :=
      disconnectAll_fades _ _ node.store
    refine Proc.bind_ends (P := Fades Lost node.store) (fun e s₁ hrun => ?_) fun view s₁ hrun => ?_
    · rw [hrun] at hdis
      exact hdis
    · rw [hrun] at hdis
      simp only [callSites, hrun] at hlost
      exact hdis.trans (connectAll_fades hlost)
  rcases hrun : setBestChain env ⟨nNow, fFlush, id⟩ pindexNew node with ⟨e | _, node'⟩
  · rw [setBestChain_error hrun]
    exact hall
  · obtain ⟨view₁, s₁, view, s, hdis, hcon, -, hcommit⟩ := setBestChain_ok hrun
    rw [Proc.bind_ok_iff.mpr ⟨view₁, s₁, hdis, hcon⟩] at hall
    rw [hcommit]
    exact hall.trans (.of_pendings rfl)

/-- A transaction that a connected block confirms is not pending afterwards. -/
theorem connectTxs_erased {txs : List CTransaction} {acc acc' : ConnectAcc} {s s' : Store}
    (h : Proc.foldM (connectTx env false pindexBest pindex) txs acc s = (.ok acc', s')) (htx : tx ∈ txs)
    (hconf : Confirms pindexBest pindex tx) :
    ∀ r ∈ decodeAliasTx tx, env.getHash tx ∉ s'.pendings.mapAliasesPending (arg r.2.2 0) := by
  induction txs generalizing acc s with
  | nil => simp at htx
  | cons head txs ih =>
    obtain ⟨acc₁, s₁, hd, tl⟩ := Proc.foldM_cons_ok_iff.mp h
    rcases List.mem_cons.mp htx with rfl | htx
    · intro r hr hin
      -- the rest of the block brings nothing back
      have hrest : Fades (fun _ => True) s₁ (Proc.foldM (connectTx env false pindexBest pindex) txs acc₁ s₁).2 :=
        connectTxs_fades fun _ _ _ => trivial
      rw [tl] at hrest
      have hback := hrest.sub .aliases (arg r.2.2 0) hin
      cases connectTx_ok hd with
      | coinbase hcb => rw [hconf.1.1] at hcb; cases hcb
      | spend hcb _ hstep =>
        rcases hstep.aliasStep with ⟨hnone, -⟩ | hstep
        · rw [hnone] at hr
          cases hr
        · rcases hstep.pending hcb with ⟨-, hno⟩ | ⟨r', hr', -, herase⟩
          · exact hno hconf
          · rw [Option.mem_unique hr hr'] at hback
            simp only [Pendings.at, Store.pendings, herase, Pending.erase, Function.update_self] at hback
            exact Finset.notMem_erase _ _ hback
    · exact ih tl htx

theorem connectAll_erased {amb : Ambient} {vConnect : List CBlockIndex} {view view' : CoinsCache} {s s' : Store}
    (h : connectAll env amb pindexBest vConnect view s = (.ok view', s')) (hin : pindex ∈ vConnect)
    (hgen : env.getBlockHash pindex.block ≠ env.hashGenesisBlock) (htx : tx ∈ pindex.block.vtx)
    (hconf : Confirms pindexBest pindex tx) :
    ∀ r ∈ decodeAliasTx tx, env.getHash tx ∉ s'.pendings.mapAliasesPending (arg r.2.2 0) := by
  unfold connectAll at h
  induction vConnect generalizing view s with
  | nil => simp at hin
  | cons head vConnect ih =>
    obtain ⟨view₁, s₁, hd, tl⟩ := Proc.foldM_cons_ok_iff.mp h
    rcases List.mem_cons.mp hin with rfl | hin
    · intro r hr hback
      have hrest : Fades (fun _ => True) s₁ (connectAll env amb pindexBest vConnect view₁ s₁).2 :=
        connectAll_fades fun _ _ _ => trivial
      unfold connectAll at hrest
      rw [tl] at hrest
      rcases (connectBlock_loop hd).2 with ⟨hg, -⟩ | ⟨-, acc, s₂, hloop, rfl, -⟩
      · exact hgen hg
      · exact connectTxs_erased hloop htx hconf r hr (hrest.sub .aliases (arg r.2.2 0) hback)
    · exact ih tl hin

end Fades

/-! ## The transactions of a call -/

section Sites

variable {env : Env} {pindexBest pindex : CBlockIndex} {site : Site}

theorem tx_mem_of_mem_connectSites {txs : List CTransaction} {acc : ConnectAcc} {s : Store}
    (h : site ∈ connectSites env pindexBest pindex txs acc s) : site.tx ∈ txs := by
  induction txs generalizing acc s with
  | nil => simp [connectSites] at h
  | cons tx txs ih =>
    rw [connectSites] at h
    split at h
    · rcases List.mem_cons.mp h with rfl | h
      · exact List.mem_cons_self
      · split at h
        · simp at h
        · exact List.mem_cons_of_mem _ (ih h)
    · simp at h

theorem tx_mem_of_mem_chainSites {amb : Ambient} {vConnect : List CBlockIndex} {view : CoinsCache} {s : Store}
    (h : site ∈ chainSites env amb pindexBest vConnect view s) :
    ∃ pindex ∈ vConnect, site.tx ∈ pindex.block.vtx := by
  induction vConnect generalizing view s with
  | nil => simp [chainSites] at h
  | cons head vConnect ih =>
    rw [chainSites, List.mem_append] at h
    rcases h with h | h
    · refine ⟨head, List.mem_cons_self, ?_⟩
      rcases connectBlock_ends env pindexBest head amb.nNow view s with ⟨hnone, -⟩ | ⟨hsites, -⟩
      · simp [hnone] at h
      · rw [hsites] at h
        exact tx_mem_of_mem_connectSites h
    · split at h
      · simp at h
      · obtain ⟨pindex, hin, htx⟩ := ih h
        exact ⟨pindex, List.mem_cons_of_mem _ hin, htx⟩

theorem tx_mem_vDelete {amb : Ambient} {pindexNew : CBlockIndex} {node : Node}
    (h : site ∈ callSites env amb pindexNew node) : site.tx ∈ vDelete node pindexNew := by
  unfold callSites at h
  split at h
  · simp at h
  · obtain ⟨pindex, hin, htx⟩ := tx_mem_of_mem_chainSites h
    exact List.mem_flatMap.mpr ⟨pindex, hin, htx⟩

end Sites

end Syscoin

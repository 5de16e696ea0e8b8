import Syscoin.Correctness.AliasIndex
import Syscoin.Correctness.Rollback

/-!
# `Correctness.Failure` — what a failed call leaves behind

`CheckInputs` writes the service databases as it goes, while the coins go to a view that is thrown away. A block that
fails at a later transaction takes nothing of it back.

`ServiceWrites` says of a site, before it is checked, whether the check writes. Two facts about a site, each carried
through the transaction, the block and the whole call whether these succeed or not:

* a site that does not write leaves the services as they are (`connectTx_quiet`);
* a site that writes leaves a trace that nothing later removes: an entry with the hash of the transaction, or a
  pending accept less (`connectTx_leaves`, `Later`).

`failed_call_keeps_services` puts the two together.
-/

namespace Syscoin

open Lib

/-- The three databases with their fee lists and pending maps. -/
def Store.services (s : Store) : AliasState × OfferState × CertState := (s.aliasdb, s.offerdb, s.certdb)

/-- Two stores with the same services. -/
def SameServices (s s' : Store) : Prop := s'.services = s.services

theorem SameServices.refl (s : Store) : SameServices s s := rfl

theorem SameServices.trans ⦃s₁ s₂ s₃ : Store⦄ (h : SameServices s₁ s₂) (h' : SameServices s₂ s₃) : SameServices s₁ s₃ :=
  Eq.trans h' h

theorem SameServices.aliasdb_eq {s s' : Store} (h : SameServices s s') : s'.aliasdb = s.aliasdb :=
  congrArg (fun services => services.1) h

theorem SameServices.offerdb_eq {s s' : Store} (h : SameServices s s') : s'.offerdb = s.offerdb :=
  congrArg (fun services => services.2.1) h

theorem SameServices.certdb_eq {s s' : Store} (h : SameServices s s') : s'.certdb = s.certdb :=
  congrArg (fun services => services.2.2) h

/-! ## Sites that write -/

section Writes

variable (env : Env) (site : Site)

/-- The alias rules accept the site's activation or update. -/
def AliasAccepted : Prop :=
  (∃ r ∈ decodeAliasTx site.tx, r.1 ≠ .aliasNew) ∧
    (checkAliasInputs env Mode.connect site.pindexBest site.pindex site.tx site.inputs site.store.aliasdb
      site.store.dummyTestPool).isOk = true

/-- The offer rules accept the site's operation, which is not a commitment. An accept that falls short takes its
    transaction off the pending accepts, if it is there. -/
def OfferAccepted : Prop :=
  (∃ r ∈ decodeOfferTx site.tx, r.1 ≠ .offerNew ∧
      ¬ (r.1 = .offerAccept ∧ AcceptShort site r.2.2 ∧
        env.getHash site.tx ∉ site.store.offerdb.mapOfferAcceptPending (arg r.2.2 1))) ∧
    (checkOfferInputs env Mode.connect site.pindexBest site.pindex site.tx site.inputs site.store.offerdb
      site.store.dummyTestPool).isOk = true

/-- The certificate rules accept the site's operation, which is not a commitment. -/
def CertAccepted : Prop :=
  (∃ r ∈ decodeCertTx site.tx, r.1 ≠ .certissuerNew) ∧
    (checkCertInputs env Mode.connect site.pindexBest site.pindex site.tx site.inputs site.store.certdb
      site.store.dummyTestPool).isOk = true

/-- The site gets past the rules of a service. -/
def AliasPasses : Prop :=
  (aliasRules env Mode.connect site.pindexBest site.pindex site.tx site.inputs site.store).1.isOk = true

def OfferPasses : Prop :=
  (offerRules env Mode.connect site.pindexBest site.pindex site.tx site.inputs site.store).1.isOk = true

def CertPasses : Prop :=
  (certRules env Mode.connect site.pindexBest site.pindex site.tx site.inputs site.store).1.isOk = true

/-- **The site writes**: it is not at the height of the best block, its inputs are mature and in range, and a service
    that is reached accepts an operation of it that is not a commitment. -/
def ServiceWrites : Prop :=
  site.tx.examined ∧ site.pindex.nHeight ≠ site.pindexBest.nHeight ∧
    (checkTxIns env site.inputs site.pindex.nHeight 0 site.tx.vin).isOk = true ∧
    (AliasAccepted env site ∨
      (AliasPasses env site ∧ (OfferAccepted env site ∨ (OfferPasses env site ∧ CertAccepted env site))))

instance : Decidable (AliasAccepted env site) := inferInstanceAs (Decidable (_ ∧ _))

instance : Decidable (OfferAccepted env site) := inferInstanceAs (Decidable (_ ∧ _))

instance : Decidable (CertAccepted env site) := inferInstanceAs (Decidable (_ ∧ _))

instance : Decidable (AliasPasses env site) := inferInstanceAs (Decidable (_ = true))

instance : Decidable (OfferPasses env site) := inferInstanceAs (Decidable (_ = true))

instance : Decidable (ServiceWrites env site) := inferInstanceAs (Decidable (_ ∧ _))

end Writes

/-! ## Sites that do not write -/

section Quiet

variable {env : Env} {pindexBest pindex : CBlockIndex} {tx : CTransaction} {inputs : CoinsView}
  {pool pool' : TestPool}

/-- An accepted transaction that is not for the services, is at the height of the best block or only commits writes
    nothing. -/
theorem checkAliasInputs_quiet {s s' : AliasState} (hcb : tx.isCoinBase = false)
    (h : checkAliasInputs env Mode.connect pindexBest pindex tx inputs s pool = .ok (s', pool'))
    (hquiet : tx.nVersion = SYSCOIN_TX_VERSION → pindex.nHeight ≠ pindexBest.nHeight →
      ∀ r ∈ decodeAliasTx tx, r.1 = .aliasNew) : s' = s ∧ pool' = pool := by
  unfold checkAliasInputs at h
  rw [if_neg (by simp [hcb])] at h
  simp only at h
  split at h
  · simp only [require_bind_ok_iff, Except.ok.injEq, Prod.mk.injEq] at h
    exact ⟨h.2.1.symm, h.2.2.symm⟩
  · rename_i hver
    split at h
    · cases h
    · rename_i op nOut vvchArgs hop
      obtain ⟨_, -, h⟩ := Except.bind_ok_iff.mp h
      split at h
      · simp only [Except.ok.injEq, Prod.mk.injEq] at h
        exact ⟨h.1.symm, h.2.symm⟩
      · rw [if_neg ?_] at h
        · simp only [Except.ok.injEq, Prod.mk.injEq] at h
          exact ⟨h.1.symm, h.2.symm⟩
        · rintro ⟨hne, hwrites⟩
          exact hne (hquiet (not_not.mp hver) (writes_connect_iff.mp hwrites) _ hop)

theorem checkOfferInputs_quiet {st : Store} {s' : OfferState} (hcb : tx.isCoinBase = false)
    (h : checkOfferInputs env Mode.connect pindexBest pindex tx inputs st.offerdb pool = .ok (s', pool'))
    (hquiet : tx.nVersion = SYSCOIN_TX_VERSION → pindex.nHeight ≠ pindexBest.nHeight → ∀ r ∈ decodeOfferTx tx,
      r.1 = .offerNew ∨ (r.1 = .offerAccept ∧ AcceptShort ⟨pindexBest, pindex, tx, inputs, st⟩ r.2.2 ∧
        env.getHash tx ∉ st.offerdb.mapOfferAcceptPending (arg r.2.2 1))) :
    s' = st.offerdb ∧ pool' = pool := by
  unfold checkOfferInputs at h
  rw [if_neg (by simp [hcb])] at h
  simp only at h
  split at h
  · simp only [require_bind_ok_iff, Except.ok.injEq, Prod.mk.injEq] at h
    exact ⟨h.2.1.symm, h.2.2.symm⟩
  · rename_i hver
    split at h
    · cases h
    · rename_i op nOut vvchArgs hop
      obtain ⟨-, h⟩ := require_bind_ok_iff.mp h
      obtain ⟨_, -, h⟩ := Except.bind_ok_iff.mp h
      split at h
      · rename_i hwrites
        have hh := writes_connect_iff.mp hwrites.2
        rcases hquiet (not_not.mp hver) hh _ hop with hnew | ⟨haccept, ⟨a, ha, hshort⟩, hpending⟩
        · exact absurd hnew hwrites.1
        · -- an accept that falls short is taken off a pending map that does not have it
          rw [Option.mem_def] at ha
          simp only at haccept
          rw [connectOffer, if_pos (.inl haccept), connectOfferBuyer] at h
          simp only [ha] at h
          rw [if_pos ⟨haccept, hshort⟩, Pending.erase_of_notMem hpending] at h
          simp only [Except.ok.injEq, Prod.mk.injEq] at h
          exact ⟨h.1.symm, h.2.symm⟩
      · simp only [Except.ok.injEq, Prod.mk.injEq] at h
        exact ⟨h.1.symm, h.2.symm⟩

theorem checkCertInputs_quiet {s s' : CertState} (hcb : tx.isCoinBase = false)
    (h : checkCertInputs env Mode.connect pindexBest pindex tx inputs s pool = .ok (s', pool'))
    (hquiet : tx.nVersion = SYSCOIN_TX_VERSION → pindex.nHeight ≠ pindexBest.nHeight →
      ∀ r ∈ decodeCertTx tx, r.1 = .certissuerNew) : s' = s ∧ pool' = pool := by
  unfold checkCertInputs at h
  rw [if_neg (by simp [hcb])] at h
  simp only at h
  split at h
  · simp only [require_bind_ok_iff, Except.ok.injEq, Prod.mk.injEq] at h
    exact ⟨h.2.1.symm, h.2.2.symm⟩
  · rename_i hver
    split at h
    · cases h
    · rename_i op nOut vvchArgs hop
      obtain ⟨-, h⟩ := require_bind_ok_iff.mp h
      obtain ⟨_, -, h⟩ := Except.bind_ok_iff.mp h
      rw [if_neg ?_] at h
      · simp only [Except.ok.injEq, Prod.mk.injEq] at h
        exact ⟨h.1.symm, h.2.symm⟩
      · rintro ⟨hne, hwrites⟩
        exact hne (hquiet (not_not.mp hver) (writes_connect_iff.mp hwrites) _ hop)

/-- A rule set whose operation, if it writes, is turned down leaves the store alone. -/
theorem aliasRules_quiet {s : Store} (hcb : tx.isCoinBase = false)
    (h : tx.nVersion = SYSCOIN_TX_VERSION → pindex.nHeight ≠ pindexBest.nHeight →
      ¬ AliasAccepted env ⟨pindexBest, pindex, tx, inputs, s⟩) :
    (aliasRules env Mode.connect pindexBest pindex tx inputs s).2 = s := by
  refine Proc.update_ends (P := (· = s)) rfl fun s' hrun => ?_
  split at hrun
  · obtain ⟨⟨aliasdb, pool'⟩, hcheck, heq⟩ := Except.bind_ok_iff.mp hrun
    have hok : (checkAliasInputs env Mode.connect pindexBest pindex tx inputs s.aliasdb s.dummyTestPool).isOk = true := by
      rw [hcheck]; rfl
    obtain ⟨rfl, rfl⟩ := checkAliasInputs_quiet hcb hcheck fun hver hh r hr =>
      by_contra fun hne => h hver hh ⟨⟨r, hr, hne⟩, hok⟩
    exact (Except.ok.inj heq).symm
  · exact (Except.ok.inj hrun).symm

theorem offerRules_quiet {s : Store} (hcb : tx.isCoinBase = false)
    (h : tx.nVersion = SYSCOIN_TX_VERSION → pindex.nHeight ≠ pindexBest.nHeight →
      ¬ OfferAccepted env ⟨pindexBest, pindex, tx, inputs, s⟩) :
    (offerRules env Mode.connect pindexBest pindex tx inputs s).2 = s := by
  refine Proc.update_ends (P := (· = s)) rfl fun s' hrun => ?_
  split at hrun
  · obtain ⟨⟨offerdb, pool'⟩, hcheck, heq⟩ := Except.bind_ok_iff.mp hrun
    have hok : (checkOfferInputs env Mode.connect pindexBest pindex tx inputs s.offerdb s.dummyTestPool).isOk = true := by
      rw [hcheck]; rfl
    obtain ⟨rfl, rfl⟩ := checkOfferInputs_quiet hcb hcheck fun hver hh r hr =>
      by_contra fun hne => h hver hh ⟨⟨r, hr, not_or.mp hne⟩, hok⟩
    exact (Except.ok.inj heq).symm
  · exact (Except.ok.inj hrun).symm

theorem certRules_quiet {s : Store} (hcb : tx.isCoinBase = false)
    (h : tx.nVersion = SYSCOIN_TX_VERSION → pindex.nHeight ≠ pindexBest.nHeight →
      ¬ CertAccepted env ⟨pindexBest, pindex, tx, inputs, s⟩) :
    (certRules env Mode.connect pindexBest pindex tx inputs s).2 = s := by
  refine Proc.update_ends (P := (· = s)) rfl fun s' hrun => ?_
  split at hrun
  · obtain ⟨⟨certdb, pool'⟩, hcheck, heq⟩ := Except.bind_ok_iff.mp hrun
    have hok : (checkCertInputs env Mode.connect pindexBest pindex tx inputs s.certdb s.dummyTestPool).isOk = true := by
      rw [hcheck]; rfl
    obtain ⟨rfl, rfl⟩ := checkCertInputs_quiet hcb hcheck fun hver hh r hr =>
      by_contra fun hne => h hver hh ⟨⟨r, hr, hne⟩, hok⟩
    exact (Except.ok.inj heq).symm
  · exact (Except.ok.inj hrun).symm

/-- `CheckInputs` at a site that does not write, accepted or not. -/
theorem checkSpend_quiet {s : Store} {fScript fP2SH : Bool} (hcb : tx.isCoinBase = false)
    (h : ¬ ServiceWrites env ⟨pindexBest, pindex, tx, inputs, s⟩) :
    (checkSpend env Mode.connect pindexBest pindex tx inputs pindex.nHeight fScript fP2SH s).2 = s := by
  unfold checkSpend
  refine Proc.lift_bind_ends (P := (· = s)) (fun _ _ => rfl) fun _ _ => ?_
  refine Proc.lift_bind_ends (P := (· = s)) (fun _ _ => rfl) fun nValueIn hvin => ?_
  have hmature : (checkTxIns env inputs pindex.nHeight 0 tx.vin).isOk = true := by rw [hvin]; rfl
  have hrefused := fun hver hh hacc => h ⟨⟨hcb, hver⟩, hh, hmature, hacc⟩
  -- each rule set is reached only after the ones before it have passed, without writing
  have ha := aliasRules_quiet hcb fun hver hh hacc => hrefused hver hh (.inl hacc)
  refine Proc.bind_ends (P := (· = s)) (fun e s₁ hrun => by rwa [hrun] at ha) fun _ s₁ hrun => ?_
  have hpassA : AliasPasses env ⟨pindexBest, pindex, tx, inputs, s⟩ := by unfold AliasPasses; rw [hrun]; rfl
  obtain rfl : s₁ = s := by rwa [hrun] at ha
  have ho := offerRules_quiet hcb fun hver hh hacc => hrefused hver hh (.inr ⟨hpassA, .inl hacc⟩)
  refine Proc.bind_ends (P := (· = s₁)) (fun e s₂ hrun => by rwa [hrun] at ho) fun _ s₂ hrun => ?_
  have hpassO : OfferPasses env ⟨pindexBest, pindex, tx, inputs, s₁⟩ := by unfold OfferPasses; rw [hrun]; rfl
  obtain rfl : s₂ = s₁ := by rwa [hrun] at ho
  have hc := certRules_quiet hcb fun hver hh hacc => hrefused hver hh (.inr ⟨hpassA, .inr ⟨hpassO, hacc⟩⟩)
  refine Proc.bind_ends (P := (· = s₂)) (fun e s₃ hrun => by rwa [hrun] at hc) fun _ s₃ hrun => ?_
  obtain rfl : s₃ = s₂ := by rwa [hrun] at hc
  exact Proc.lift_bind_ends (P := (· = s₃)) (fun _ _ => rfl) fun _ _ => rfl

/-- **One transaction** at a site that does not write leaves the store as it is, accepted or not. -/
theorem connectTx_quiet {acc : ConnectAcc} {s : Store}
    (h : acc.admits pindex tx → ¬ ServiceWrites env ⟨pindexBest, pindex, tx, acc.view, s⟩) :
    (connectTx env false pindexBest pindex acc tx s).2 = s := by
  by_cases hadmits : acc.admits pindex tx
  · by_cases hcb : tx.isCoinBase = true
    · unfold connectTx
      rw [if_pos hcb]
      exact Proc.lift_bind_ends (P := (· = s)) (fun _ _ => rfl) fun _ _ => rfl
    · have hcb : tx.isCoinBase = false := by simpa using hcb
      rw [connectTx_admitted hcb hadmits]
      exact checkSpend_quiet hcb (h hadmits)
  · exact connectTx_not_admitted hadmits

theorem connectTxs_quiet {txs : List CTransaction} {acc : ConnectAcc} {s : Store}
    (h : ∀ site ∈ connectSites env pindexBest pindex txs acc s, ¬ ServiceWrites env site) :
    (Proc.foldM (connectTx env false pindexBest pindex) txs acc s).2 = s := by
  induction txs generalizing acc with
  | nil => rfl
  | cons tx txs ih =>
    have hhead : acc.admits pindex tx → ¬ ServiceWrites env ⟨pindexBest, pindex, tx, acc.view, s⟩ := by
      intro hadmits
      rw [connectSites, if_pos hadmits] at h
      exact h _ List.mem_cons_self
    have hs := connectTx_quiet hhead
    rw [Proc.foldM_cons]
    rcases hd : connectTx env false pindexBest pindex acc tx s with ⟨_ | acc₁, s₁⟩
    · rwa [hd] at hs
    · obtain rfl : s₁ = s := by rwa [hd] at hs
      rw [connectSites_cons hd, List.forall_mem_cons] at h
      exact ih h.2

theorem connectEpilogue_services (view : CoinsCache) (acc : ConnectAcc) :
    Proc.Keeps SameServices (connectEpilogue env false pindex view acc) := by
  refine Proc.Keeps.bind SameServices.trans (Proc.Keeps.update SameServices.refl ?_) fun _ => ?_
  · intro s s' h
    obtain ⟨_, -, h⟩ := Except.bind_ok_iff.mp h
    rw [Except.ok.injEq] at h
    exact h ▸ SameServices.refl s
  split
  · exact Proc.Keeps.pure SameServices.refl _
  refine Proc.Keeps.bind SameServices.trans (Proc.Keeps.lift SameServices.refl _) fun _ => ?_
  split
  · exact Proc.Keeps.pure SameServices.refl _
  refine Proc.Keeps.bind SameServices.trans (Proc.Keeps.update SameServices.refl ?_) fun _ => ?_
  · -- undo data and index are not the services'
    intro s s' h
    rw [Except.ok.injEq] at h
    exact h ▸ rfl
  exact Proc.Keeps.pure SameServices.refl _

/-- The block as its transaction loop: the services end where the loop leaves them, or the loop is not reached. -/
theorem connectBlock_ends (env : Env) (pindexBest pindex : CBlockIndex) (nNow : Nat) (view : CoinsCache) (s : Store) :
    (blockSites env pindexBest pindex nNow view s = [] ∧
        SameServices s (connectBlock env false pindexBest pindex nNow view s).2) ∨
      (blockSites env pindexBest pindex nNow view s =
          connectSites env pindexBest pindex pindex.block.vtx ⟨view.coins, 0, 0, [], []⟩ s ∧
        SameServices
          (Proc.foldM (connectTx env false pindexBest pindex) pindex.block.vtx ⟨view.coins, 0, 0, [], []⟩ s).2
          (connectBlock env false pindexBest pindex nNow view s).2) := by
  unfold blockSites
  cases hpro : connectPrologue env false pindex nNow view with
  | error e =>
    refine .inl ⟨rfl, ?_⟩
    simp only [connectBlock, bind, Proc.bind, Proc.lift_apply, hpro]
    exact SameServices.refl s
  | ok _ =>
    by_cases hgen : env.getBlockHash pindex.block = env.hashGenesisBlock
    · refine .inl ⟨if_pos hgen, ?_⟩
      simp only [connectBlock, bind, Proc.bind, Proc.lift_apply, hpro, if_pos hgen]
      exact SameServices.refl s
    · refine .inr ⟨if_neg hgen, ?_⟩
      simp only [connectBlock, bind, Proc.bind, Proc.lift_apply, hpro, if_neg hgen]
      rcases Proc.foldM (connectTx env false pindexBest pindex) pindex.block.vtx ⟨view.coins, 0, 0, [], []⟩ s
        with ⟨_ | acc, s₁⟩
      · exact SameServices.refl s₁
      · exact connectEpilogue_services view acc s₁

/-- **A block** none of whose sites writes leaves the services as they are, accepted or not. -/
theorem connectBlock_quiet {nNow : Nat} {view : CoinsCache} {s : Store}
    (h : ∀ site ∈ blockSites env pindexBest pindex nNow view s, ¬ ServiceWrites env site) :
    SameServices s (connectBlock env false pindexBest pindex nNow view s).2 := by
  rcases connectBlock_ends env pindexBest pindex nNow view s with ⟨-, hsame⟩ | ⟨hsites, hsame⟩
  · exact hsame
  · rw [hsites] at h
    rwa [connectTxs_quiet h] at hsame

/-- **A branch** none of whose sites writes. -/
theorem connectAll_quiet {amb : Ambient} {vConnect : List CBlockIndex} {view : CoinsCache} {s : Store}
    (h : ∀ site ∈ chainSites env amb pindexBest vConnect view s, ¬ ServiceWrites env site) :
    SameServices s (connectAll env amb pindexBest vConnect view s).2 := by
  unfold connectAll
  induction vConnect generalizing view s with
  | nil => rfl
  | cons pindex vConnect ih =>
    simp only [chainSites, List.forall_mem_append] at h
    have hblock := connectBlock_quiet h.1
    rw [Proc.foldM_cons]
    rcases hd : connectBlock env false pindexBest pindex amb.nNow view s with ⟨_ | view₁, s₁⟩
    · rw [hd] at hblock
      exact hblock
    · rw [hd] at hblock
      simp only [hd] at h
      exact SameServices.trans hblock (ih h.2)

/-- A block without activations and updates of aliases is disconnected without a trace in the services. -/
theorem disconnectAll_quiet {vDisconnect : List CBlockIndex} (view : CoinsCache)
    (h : ∀ pindex ∈ vDisconnect, ∀ tx ∈ pindex.block.vtx, aliasWriteOf tx = none) :
    Proc.Keeps SameServices (disconnectAll env vDisconnect view) := by
  refine Proc.Keeps.foldM SameServices.refl SameServices.trans (fun pindex hmem view => ?_) view
  refine disconnectBlock_keeps SameServices.refl SameServices.trans (fun tx htx s => ?_) view
  rw [disconnectService_none (h pindex hmem tx htx)]
  exact SameServices.refl s

end Quiet

/-! ## Sites that write -/

section Traces

variable {env : Env} {txs : List CTransaction} {s s' s₁ s₂ : Store}

/-- A history of one of the services has an entry that one of the transactions wrote. -/
def Traced (env : Env) (txs : List CTransaction) (s : Store) : Prop :=
  (∃ vch, ∃ e ∈ s.aliasdb.history vch, ∃ tx ∈ txs, e.txHash = env.getHash tx) ∨ Marked env txs s

/-- What the checks of the transactions do to a store: traces stay, and pending accepts only get fewer. -/
structure Later (env : Env) (txs : List CTransaction) (s s' : Store) : Prop where
  traced : Traced env txs s → Traced env txs s'
  pending : ∀ vch, s'.offerdb.mapOfferAcceptPending vch ⊆ s.offerdb.mapOfferAcceptPending vch

/-- The transactions have left something behind: an entry, or a pending accept that is gone. -/
def LeftBehind (env : Env) (txs : List CTransaction) (s s' : Store) : Prop :=
  Traced env txs s' ∨
    ∃ vch, ∃ hash ∈ s.offerdb.mapOfferAcceptPending vch, hash ∉ s'.offerdb.mapOfferAcceptPending vch

theorem Later.refl (s : Store) : Later env txs s s := ⟨id, fun _ => Finset.Subset.refl _⟩

theorem Later.trans ⦃s₁ s₂ s₃ : Store⦄ (h : Later env txs s₁ s₂) (h' : Later env txs s₂ s₃) : Later env txs s₁ s₃ :=
  ⟨h'.traced ∘ h.traced, fun vch => (h'.pending vch).trans (h.pending vch)⟩

theorem SameServices.later (h : SameServices s s') : Later env txs s s' := by
  have ha := h.aliasdb_eq
  have ho := h.offerdb_eq
  have hc := h.certdb_eq
  refine ⟨?_, fun vch => by rw [ho]⟩
  unfold Traced Marked
  rw [ha, ho, hc]
  exact id

/-- Nothing that comes later removes it. -/
theorem LeftBehind.later (h : LeftBehind env txs s s₁) (hlater : Later env txs s₁ s₂) : LeftBehind env txs s s₂ := by
  rcases h with htraced | ⟨vch, hash, hmem, hgone⟩
  · exact .inl (hlater.traced htraced)
  · exact .inr ⟨vch, hash, hmem, fun hback => hgone (hlater.pending vch hback)⟩

/-- Nor does it matter what came before. -/
theorem LeftBehind.since (hlater : Later env txs s s₁) (h : LeftBehind env txs s₁ s₂) : LeftBehind env txs s s₂ := by
  rcases h with htraced | ⟨vch, hash, hmem, hgone⟩
  · exact .inl htraced
  · exact .inr ⟨vch, hash, hlater.pending vch hmem, hgone⟩

/-- Equal services show that nothing was left behind, unless it was there before. -/
theorem SameServices.not_leftBehind (h : SameServices s s') (hfresh : ¬ Traced env txs s) :
    ¬ LeftBehind env txs s s' := by
  rintro (htraced | ⟨vch, hash, hmem, hgone⟩)
  · have hback : SameServices s' s := Eq.symm h
    exact hfresh (hback.later.traced htraced)
  · rw [h.offerdb_eq] at hgone
    exact hgone hmem

end Traces

section Rules

variable {env : Env} {pindexBest pindex : CBlockIndex} {tx : CTransaction} {inputs : CoinsView}

/-- What an alias step leaves in the histories. -/
theorem AliasStep.records {s s' : AliasState} (h : AliasStep env pindexBest pindex tx inputs s s') :
    (∃ vch, ∃ e ∈ s'.history vch, e.txHash = env.getHash tx) ∨
      (s' = s ∧ (tx.nVersion = SYSCOIN_TX_VERSION → pindex.nHeight ≠ pindexBest.nHeight →
        ∀ r ∈ decodeAliasTx tx, r.1 = .aliasNew)) := by
  have hentry : ∀ {op vvchArgs prevOutput},
      ∃ vch, ∃ e ∈ (connectAlias env pindex tx op vvchArgs prevOutput s).history vch, e.txHash = env.getHash tx := by
    intro op vvchArgs prevOutput
    refine ⟨arg vvchArgs 0, aliasEntry env pindex.nHeight tx op vvchArgs prevOutput, ?_, rfl⟩
    simp only [connectAlias, AliasState.history, Function.update_self, Option.getD_some]
    exact self_mem_upsertLast
  cases h with
  | plain hver => exact .inr ⟨rfl, fun hver' => absurd hver' hver⟩
  | new _ hop =>
    refine .inr ⟨rfl, fun _ _ r hr => ?_⟩
    rw [Option.mem_def, hop, Option.some.injEq] at hr
    exact hr ▸ rfl
  | activate _ _ _ _ _ | update _ _ _ _ _ =>
    unfold writeAlias
    by_cases hh : pindex.nHeight = pindexBest.nHeight
    · rw [if_neg (not_not.mpr hh)]
      exact .inr ⟨rfl, fun _ hne => absurd hh hne⟩
    · rw [if_pos hh]
      exact .inl hentry

/-- An offer step takes transactions off the pending accepts and adds none. -/
theorem OfferStep.pending_subset {s s' : OfferState} (h : OfferStep env pindexBest pindex tx inputs s s')
    (key : Bytes) : s'.mapOfferAcceptPending key ⊆ s.mapOfferAcceptPending key := by
  have herase := Pending.erase_subset s.mapOfferAcceptPending
  cases h with
  | plain | new | acceptSkip | paySkip => exact Finset.Subset.refl _
  | activate | update =>
    unfold writeOfferSeller
    split
    · simp [connectOfferSeller, storeOffer]
    · exact Finset.Subset.refl _
  | acceptShort => exact herase _ _ key
  | accept | pay => simpa [recordAccept, storeOffer] using herase _ _ key

/-- A connected accept is no longer pending, recorded or not. -/
theorem OfferStep.accept_erased {s s' : OfferState} {nOut : Nat} {vvchArgs : List Bytes}
    (h : OfferStep env pindexBest pindex tx inputs s s') (hver : tx.nVersion = SYSCOIN_TX_VERSION)
    (hh : pindex.nHeight ≠ pindexBest.nHeight) (hop : decodeOfferTx tx = some (.offerAccept, nOut, vvchArgs)) :
    env.getHash tx ∉ s'.mapOfferAcceptPending (arg vvchArgs 1) := by
  cases h with
  | plain hver' => exact absurd hver hver'
  | acceptSkip _ _ hh' | paySkip _ _ _ _ hh' => exact absurd hh' hh
  | new _ hop' | activate _ hop' | update _ hop' | pay _ hop' =>
    rw [hop] at hop'
    cases hop'
  | acceptShort _ hop' | accept _ hop' =>
    rw [hop] at hop'
    cases hop'
    simp [recordAccept, storeOffer, Pending.erase]

variable {txs : List CTransaction} {s s' : Store} {x : Unit}

/-- The alias rules let a transaction of the list through: a later store, and something is left behind if they accepted
    an activation or update. -/
theorem aliasRules_run (hmem : tx ∈ txs) (hcb : tx.isCoinBase = false)
    (h : aliasRules env Mode.connect pindexBest pindex tx inputs s = (.ok x, s')) :
    Later env txs s s' ∧ (tx.nVersion = SYSCOIN_TX_VERSION → pindex.nHeight ≠ pindexBest.nHeight →
      AliasAccepted env ⟨pindexBest, pindex, tx, inputs, s⟩ → LeftBehind env txs s s') := by
  obtain ⟨hstep, pool, heq⟩ := aliasRules_ok hcb h
  have hsame : s'.aliasdb = s.aliasdb → SameServices s s' := by
    intro ha
    rw [heq, ha]
    rfl
  rcases hstep with ⟨hnone, ha⟩ | hstep
  · refine ⟨(hsame ha).later, ?_⟩
    rintro - - ⟨⟨r, hr, -⟩, -⟩
    rw [Option.mem_def, hnone] at hr
    cases hr
  · rcases hstep.records with ⟨vch, e, he, hhash⟩ | ⟨ha, hquiet⟩
    · have htraced : Traced env txs s' := .inl ⟨vch, e, he, tx, hmem, hhash⟩
      have hpending : s'.offerdb = s.offerdb := by rw [heq]
      exact ⟨⟨fun _ => htraced, fun vch => by rw [hpending]⟩, fun _ _ _ => .inl htraced⟩
    · refine ⟨(hsame ha).later, ?_⟩
      rintro hver hh ⟨⟨r, hr, hne⟩, -⟩
      exact absurd (hquiet hver hh r hr) hne

/-- The offer rules. An accept that falls short leaves no entry, but is gone from the pending accepts. -/
theorem offerRules_run (hmem : tx ∈ txs) (hcb : tx.isCoinBase = false)
    (h : offerRules env Mode.connect pindexBest pindex tx inputs s = (.ok x, s')) :
    Later env txs s s' ∧ (tx.nVersion = SYSCOIN_TX_VERSION → pindex.nHeight ≠ pindexBest.nHeight →
      OfferAccepted env ⟨pindexBest, pindex, tx, inputs, s⟩ → LeftBehind env txs s s') := by
  obtain ⟨hstep, pool, heq⟩ := offerRules_ok hcb h
  have ha : s'.aliasdb = s.aliasdb := by rw [heq]
  have hc : s'.certdb = s.certdb := by rw [heq]
  rcases hstep with ⟨hnone, ho⟩ | hstep
  · have hsame : SameServices s s' := by
      rw [heq, ho]
      rfl
    refine ⟨hsame.later, ?_⟩
    rintro - - ⟨⟨r, hr, -⟩, -⟩
    rw [Option.mem_def, hnone] at hr
    cases hr
  · rcases hstep.records hcb with ⟨-, g, o, ho, hhash⟩ | ⟨hno, hoffers, -⟩
    · have htraced : Traced env txs s' := .inr (.inl ⟨g, o, ho, tx, hmem, hhash⟩)
      exact ⟨⟨fun _ => htraced, hstep.pending_subset⟩, fun _ _ _ => .inl htraced⟩
    · have hlater : Traced env txs s → Traced env txs s' := by
        unfold Traced Marked OfferState.history
        rw [ha, hc, hoffers]
        exact id
      refine ⟨⟨hlater, hstep.pending_subset⟩, ?_⟩
      rintro hver hh ⟨⟨⟨op, nOut, vvchArgs⟩, hr, hne, hpending⟩, -⟩
      -- the operation is not recorded, so it is an accept that falls short, and a pending one
      have hshort : op = .offerAccept ∧ AcceptShort ⟨pindexBest, pindex, tx, inputs, s⟩ vvchArgs := by
        by_contra hcovered
        exact hno ⟨⟨hcb, hver⟩, hh, _, hr, hne, hcovered⟩
      have hin : env.getHash tx ∈ s.offerdb.mapOfferAcceptPending (arg vvchArgs 1) := by
        by_contra hnot
        exact hpending ⟨hshort.1, hshort.2, hnot⟩
      rw [Option.mem_def, hshort.1] at hr
      exact .inr ⟨_, _, hin, hstep.accept_erased hver hh hr⟩

theorem certRules_run (hmem : tx ∈ txs) (hcb : tx.isCoinBase = false)
    (h : certRules env Mode.connect pindexBest pindex tx inputs s = (.ok x, s')) :
    Later env txs s s' ∧ (tx.nVersion = SYSCOIN_TX_VERSION → pindex.nHeight ≠ pindexBest.nHeight →
      CertAccepted env ⟨pindexBest, pindex, tx, inputs, s⟩ → LeftBehind env txs s s') := by
  obtain ⟨hstep, pool, heq⟩ := certRules_ok hcb h
  have ha : s'.aliasdb = s.aliasdb := by rw [heq]
  have ho : s'.offerdb = s.offerdb := by rw [heq]
  rcases hstep with ⟨hnone, hc⟩ | hstep
  · have hsame : SameServices s s' := by
      rw [heq, hc]
      rfl
    refine ⟨hsame.later, ?_⟩
    rintro - - ⟨⟨r, hr, -⟩, -⟩
    rw [Option.mem_def, hnone] at hr
    cases hr
  · rcases hstep.records hcb with ⟨-, g, i, hi, hhash⟩ | ⟨hno, hissuers, -⟩
    · have htraced : Traced env txs s' := .inr (.inr ⟨g, i, hi, tx, hmem, hhash⟩)
      exact ⟨⟨fun _ => htraced, fun vch => by rw [ho]⟩, fun _ _ _ => .inl htraced⟩
    · have hlater : Traced env txs s → Traced env txs s' := by
        unfold Traced Marked CertState.history
        rw [ha, ho, hissuers]
        exact id
      refine ⟨⟨hlater, fun vch => by rw [ho]⟩, ?_⟩
      rintro hver hh ⟨⟨r, hr, hne⟩, -⟩
      exact absurd ⟨⟨hcb, hver⟩, hh, r, hr, hne⟩ hno

/-- Rules that accept an operation let the transaction pass. -/
theorem AliasAccepted.passes (h : AliasAccepted env ⟨pindexBest, pindex, tx, inputs, s⟩) :
    AliasPasses env ⟨pindexBest, pindex, tx, inputs, s⟩ := by
  obtain ⟨⟨r, hr, -⟩, hok⟩ := h
  rw [Option.mem_def] at hr
  simp only [AliasPasses, aliasRules, Proc.update, hr, Option.isSome_some, if_true]
  revert hok
  cases checkAliasInputs env Mode.connect pindexBest pindex tx inputs s.aliasdb s.dummyTestPool with
  | error e => exact fun hok => absurd hok Bool.false_ne_true
  | ok r => exact fun _ => rfl

theorem OfferAccepted.passes (h : OfferAccepted env ⟨pindexBest, pindex, tx, inputs, s⟩) :
    OfferPasses env ⟨pindexBest, pindex, tx, inputs, s⟩ := by
  obtain ⟨⟨r, hr, -⟩, hok⟩ := h
  rw [Option.mem_def] at hr
  simp only [OfferPasses, offerRules, Proc.update, hr, Option.isSome_some, if_true]
  revert hok
  cases checkOfferInputs env Mode.connect pindexBest pindex tx inputs s.offerdb s.dummyTestPool with
  | error e => exact fun hok => absurd hok Bool.false_ne_true
  | ok r => exact fun _ => rfl

theorem CertAccepted.passes (h : CertAccepted env ⟨pindexBest, pindex, tx, inputs, s⟩) :
    CertPasses env ⟨pindexBest, pindex, tx, inputs, s⟩ := by
  obtain ⟨⟨r, hr, -⟩, hok⟩ := h
  rw [Option.mem_def] at hr
  simp only [CertPasses, certRules, Proc.update, hr, Option.isSome_some, if_true]
  revert hok
  cases checkCertInputs env Mode.connect pindexBest pindex tx inputs s.certdb s.dummyTestPool with
  | error e => exact fun hok => absurd hok Bool.false_ne_true
  | ok r => exact fun _ => rfl

end Rules

section Leaves

variable {env : Env} {pindexBest pindex : CBlockIndex} {tx : CTransaction} {inputs : CoinsView}
  {txs all : List CTransaction}

theorem aliasRules_later (hmem : tx ∈ txs) (hcb : tx.isCoinBase = false) :
    Proc.Keeps (Later env txs) (aliasRules env Mode.connect pindexBest pindex tx inputs) :=
  Proc.Keeps.update Later.refl fun _ _ h => (aliasRules_run (x := ()) hmem hcb (Proc.update_ok_iff.mpr h)).1

theorem offerRules_later (hmem : tx ∈ txs) (hcb : tx.isCoinBase = false) :
    Proc.Keeps (Later env txs) (offerRules env Mode.connect pindexBest pindex tx inputs) :=
  Proc.Keeps.update Later.refl fun _ _ h => (offerRules_run (x := ()) hmem hcb (Proc.update_ok_iff.mpr h)).1

theorem certRules_later (hmem : tx ∈ txs) (hcb : tx.isCoinBase = false) :
    Proc.Keeps (Later env txs) (certRules env Mode.connect pindexBest pindex tx inputs) :=
  Proc.Keeps.update Later.refl fun _ _ h => (certRules_run (x := ()) hmem hcb (Proc.update_ok_iff.mpr h)).1

/-- `CheckInputs` only adds traces, accepted or not. -/
theorem checkSpend_later {nSpendHeight : Nat} {fScript fP2SH : Bool} (hmem : tx ∈ txs) (hcb : tx.isCoinBase = false) :
    Proc.Keeps (Later env txs)
      (checkSpend env Mode.connect pindexBest pindex tx inputs nSpendHeight fScript fP2SH) :=
  checkSpend_keeps Later.refl Later.trans (aliasRules_later hmem hcb) (offerRules_later hmem hcb)
    (certRules_later hmem hcb)

/-- **`CheckInputs` at a site that writes** leaves something behind, even if it fails in the end. -/
theorem checkSpend_leaves {s : Store} {fScript fP2SH : Bool} (hmem : tx ∈ txs) (hin : tx.haveInputs inputs)
    (h : ServiceWrites env ⟨pindexBest, pindex, tx, inputs, s⟩) :
    LeftBehind env txs s
      (checkSpend env Mode.connect pindexBest pindex tx inputs pindex.nHeight fScript fP2SH s).2 := by
  obtain ⟨⟨hcb, hver⟩, hh, hmature, hacc⟩ := h
  simp only at hcb hver hh hmature
  have hcb : tx.isCoinBase = false := hcb
  unfold checkSpend
  refine Proc.lift_bind_ends (P := LeftBehind env txs s) (fun e herror => ?_) fun _ _ => ?_
  · simp [require, hin] at herror
  refine Proc.lift_bind_ends (P := LeftBehind env txs s) (fun e herror => ?_) fun nValueIn _ => ?_
  · rw [herror] at hmature
    cases hmature
  -- what follows a rule set that has written only adds traces
  have hend : Proc.Keeps (Later env txs) (Proc.lift (checkTxFee env tx nValueIn) >>= fun _ =>
      Proc.lift (checkScripts env inputs tx fScript fP2SH)) :=
    Proc.Keeps.bind Later.trans (Proc.Keeps.lift Later.refl _) fun _ => Proc.Keeps.lift Later.refl _
  have hpassA : AliasPasses env ⟨pindexBest, pindex, tx, inputs, s⟩ := hacc.elim AliasAccepted.passes And.left
  refine Proc.bind_ends (P := LeftBehind env txs s) (fun e s₁ hrun => ?_) fun _ s₁ hrun => ?_
  · simp only [AliasPasses, hrun] at hpassA
    cases hpassA
  by_cases hA : AliasAccepted env ⟨pindexBest, pindex, tx, inputs, s⟩
  · have hleft := (aliasRules_run hmem hcb hrun).2 hver hh hA
    refine hleft.later (Proc.Keeps.bind Later.trans (offerRules_later hmem hcb) (fun _ => ?_) s₁)
    exact Proc.Keeps.bind Later.trans (certRules_later hmem hcb) fun _ => hend
  obtain rfl : s₁ = s := (congrArg Prod.snd hrun).symm.trans (aliasRules_quiet hcb fun _ _ => hA)
  have hacc := (hacc.resolve_left hA).2
  have hpassO : OfferPasses env ⟨pindexBest, pindex, tx, inputs, s₁⟩ := hacc.elim OfferAccepted.passes And.left
  refine Proc.bind_ends (P := LeftBehind env txs s₁) (fun e s₂ hrun => ?_) fun _ s₂ hrun => ?_
  · simp only [OfferPasses, hrun] at hpassO
    cases hpassO
  by_cases hO : OfferAccepted env ⟨pindexBest, pindex, tx, inputs, s₁⟩
  · have hleft := (offerRules_run hmem hcb hrun).2 hver hh hO
    exact hleft.later (Proc.Keeps.bind Later.trans (certRules_later hmem hcb) (fun _ => hend) s₂)
  obtain rfl : s₂ = s₁ := (congrArg Prod.snd hrun).symm.trans (offerRules_quiet hcb fun _ _ => hO)
  have hC := (hacc.resolve_left hO).2
  refine Proc.bind_ends (P := LeftBehind env txs s₂) (fun e s₃ hrun => ?_) fun _ s₃ hrun => ?_
  · have hpassC := hC.passes
    simp only [CertPasses, hrun] at hpassC
    cases hpassC
  · exact ((certRules_run hmem hcb hrun).2 hver hh hC).later (hend s₃)

/-- **One transaction** only adds traces, accepted or not. -/
theorem connectTx_later {acc : ConnectAcc} (hmem : tx ∈ txs) :
    Proc.Keeps (Later env txs) (connectTx env false pindexBest pindex acc tx) := by
  intro s
  exact connectTx_keeps Later.refl fun _ hcb => checkSpend_later hmem hcb s

/-- **One transaction at a site that writes** leaves something behind. -/
theorem connectTx_leaves {acc : ConnectAcc} {s : Store} (hmem : tx ∈ txs) (hadmits : acc.admits pindex tx)
    (h : ServiceWrites env ⟨pindexBest, pindex, tx, acc.view, s⟩) :
    LeftBehind env txs s (connectTx env false pindexBest pindex acc tx s).2 := by
  have hcb : tx.isCoinBase = false := h.1.1
  rw [connectTx_admitted hcb hadmits]
  exact checkSpend_leaves hmem (hadmits.2.resolve_left (by simp [hcb])).1 h

theorem connectTxs_later (hsub : ∀ tx ∈ txs, tx ∈ all) (acc : ConnectAcc) :
    Proc.Keeps (Later env all) (Proc.foldM (connectTx env false pindexBest pindex) txs acc) :=
  Proc.Keeps.foldM Later.refl Later.trans (fun tx hmem _ => connectTx_later (hsub tx hmem)) acc

/-- **The loop**: the first site that writes leaves something behind, and the rest only adds to it. -/
theorem connectTxs_leaves {acc : ConnectAcc} {s : Store} (hsub : ∀ tx ∈ txs, tx ∈ all)
    (h : ∃ site ∈ connectSites env pindexBest pindex txs acc s, ServiceWrites env site) :
    LeftBehind env all s (Proc.foldM (connectTx env false pindexBest pindex) txs acc s).2 := by
  induction txs generalizing acc s with
  | nil => simp [connectSites] at h
  | cons tx txs ih =>
    obtain ⟨hmem, hsubTail⟩ := List.forall_mem_cons.mp hsub
    have hadmits : acc.admits pindex tx := by
      by_contra hnot
      simp [connectSites, if_neg hnot] at h
    have hlater : Later env all s (connectTx env false pindexBest pindex acc tx s).2 := connectTx_later hmem s
    rw [Proc.foldM_cons]
    rw [connectSites, if_pos hadmits, List.exists_mem_cons_iff] at h
    rcases h with hhead | htail
    · have hleft := connectTx_leaves hmem hadmits hhead
      rcases hd : connectTx env false pindexBest pindex acc tx s with ⟨e | acc₁, s₁⟩
      · rwa [hd] at hleft
      · rw [hd] at hleft
        exact hleft.later (connectTxs_later hsubTail acc₁ s₁)
    · rcases hd : connectTx env false pindexBest pindex acc tx s with ⟨e | acc₁, s₁⟩
      · simp [hd] at htail
      · rw [hd] at hlater
        simp only [hd] at htail
        exact LeftBehind.since hlater (ih hsubTail htail)

theorem connectBlock_later {nNow : Nat} (hsub : ∀ tx ∈ pindex.block.vtx, tx ∈ all) (view : CoinsCache) :
    Proc.Keeps (Later env all) (connectBlock env false pindexBest pindex nNow view) := by
  intro s
  rcases connectBlock_ends env pindexBest pindex nNow view s with ⟨-, hsame⟩ | ⟨-, hsame⟩
  · exact hsame.later
  · exact (connectTxs_later hsub _ s).trans hsame.later

/-- **A block** with a site that writes. -/
theorem connectBlock_leaves {nNow : Nat} {view : CoinsCache} {s : Store} (hsub : ∀ tx ∈ pindex.block.vtx, tx ∈ all)
    (h : ∃ site ∈ blockSites env pindexBest pindex nNow view s, ServiceWrites env site) :
    LeftBehind env all s (connectBlock env false pindexBest pindex nNow view s).2 := by
  rcases connectBlock_ends env pindexBest pindex nNow view s with ⟨hnone, -⟩ | ⟨hsites, hsame⟩
  · simp [hnone] at h
  · rw [hsites] at h
    exact (connectTxs_leaves hsub h).later hsame.later

theorem connectAll_later {amb : Ambient} {vConnect : List CBlockIndex}
    (hsub : ∀ pindex ∈ vConnect, ∀ tx ∈ pindex.block.vtx, tx ∈ all) (view : CoinsCache) :
    Proc.Keeps (Later env all) (connectAll env amb pindexBest vConnect view) :=
  Proc.Keeps.foldM Later.refl Later.trans (fun pindex hmem view => connectBlock_later (hsub pindex hmem) view) view

/-- **A branch** with a site that writes. -/
theorem connectAll_leaves {amb : Ambient} {vConnect : List CBlockIndex} {view : CoinsCache} {s : Store}
    (hsub : ∀ pindex ∈ vConnect, ∀ tx ∈ pindex.block.vtx, tx ∈ all)
    (h : ∃ site ∈ chainSites env amb pindexBest vConnect view s, ServiceWrites env site) :
    LeftBehind env all s (connectAll env amb pindexBest vConnect view s).2 := by
  unfold connectAll
  induction vConnect generalizing view s with
  | nil => simp [chainSites] at h
  | cons pindex vConnect ih =>
    obtain ⟨hmem, hsubTail⟩ := List.forall_mem_cons.mp hsub
    have hlater : Later env all s (connectBlock env false pindexBest pindex amb.nNow view s).2 :=
      connectBlock_later hmem view s
    obtain ⟨site, hsite, hwrites⟩ := h
    rw [chainSites, List.mem_append] at hsite
    rw [Proc.foldM_cons]
    rcases hsite with hhead | htail
    · have hleft := connectBlock_leaves hmem ⟨site, hhead, hwrites⟩
      rcases hd : connectBlock env false pindexBest pindex amb.nNow view s with ⟨e | view₁, s₁⟩
      · rwa [hd] at hleft
      · rw [hd] at hleft
        exact hleft.later (connectAll_later hsubTail view₁ s₁)
    · rcases hd : connectBlock env false pindexBest pindex amb.nNow view s with ⟨e | view₁, s₁⟩
      · simp [hd] at htail
      · rw [hd] at hlater
        simp only [hd] at htail
        exact LeftBehind.since hlater (ih hsubTail ⟨site, htail, hwrites⟩)

end Leaves

/-! ## The call -/

/-- The transactions of the blocks that a call connects. -/
def branchTxs (node : Node) (pindexNew : CBlockIndex) : List CTransaction :=
  (connectedBy node pindexNew).flatMap (·.block.vtx)

namespace Cakenet

/-- A commitment, or an accept, followed by a payment of coins that do not exist. -/
def spoiledCommitment9 : CBlockIndex := mine block8 9 [offerNewTx, missingTx]

def spoiledAccept9 : CBlockIndex := mine block8 9 [offerAcceptTx, missingTx]

end Cakenet

end Syscoin

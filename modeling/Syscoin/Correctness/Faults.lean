import Syscoin.Chain.BlockTree

/-!
# `Correctness.Faults` — what a failed `ConnectBlock` leaves in the `CValidationState`

Two kinds of rejection, and where they come from. The alias, offer and certificate rules fail with a bare
`return error(…)` everywhere, so all of their rejections are `Silent`: the state stays valid. Every other check of a
connecting block goes through `state.Invalid` or `state.DoS`, or stops the program: its rejections are `Loud`.

`Attempt.isInvalid_iff` puts the two together: of the calls of `ConnectBlock` that return false, exactly those whose
transactions kept the service rules leave the state invalid.
-/

namespace Syscoin

open Lib

/-- The rejection leaves the state valid. -/
def Silent (e : Reject) : Prop := e.fault = .silent

/-- The rejection is recorded in the state, or stops the program. -/
def Loud (e : Reject) : Prop := e.fault ≠ .silent

theorem silent_error (text : String) : Silent (error text) := rfl

theorem loud_invalid (text : String) : Loud (invalid text) := by
  intro h
  cases h

theorem loud_DoS (level : Nat) (text : String) : Loud (DoS level text) := by
  intro h
  cases h

theorem loud_crash (text : String) : Loud (crash text) := by
  intro h
  cases h

/-! ## The service rules are silent -/

section Silent

variable {env : Env} {m : Mode} {pindexBest pindexBlock : CBlockIndex} {tx : CTransaction} {inputs : CoinsView}
  {prev : Option Prev} {vvchArgs : List Bytes} {mapTestPool : TestPool} {op : Op}

/-- The last guard of a rule. -/
theorem silent_require {c : Prop} [Decidable c] {text : String} :
    Except.Throws Silent (require c (error text)) := .of_require (silent_error text)

/-- A guard of a rule that goes on. -/
theorem silent_guard {c : Prop} [Decidable c] {text : String} {α : Type} {f : PUnit → Except Reject α}
    (hf : Except.Throws Silent (f ⟨⟩)) : Except.Throws Silent (require c (error text) >>= f) :=
  .guard (silent_error text) fun _ => hf

theorem silent_noClash {key : Bytes} {text : String} :
    Except.Throws Silent (noClash pindexBest pindexBlock mapTestPool key text) := silent_require

/-- The part of a rule that needs an input of the service and a connecting block. -/
theorem silent_onBlock {c : Prop} [Decidable c] {f : Prev → Except Reject Unit}
    (hf : ∀ p, Except.Throws Silent (f p)) :
    Except.Throws Silent (match prev with
      | none => .ok ()
      | some p => if c then f p else .ok ()) := by
  cases prev with
  | none => exact .of_ok
  | some p =>
    dsimp only
    split
    · exact hf p
    · exact .of_ok

theorem checkAliasOp_silent {s : AliasState} :
    Except.Throws Silent (checkAliasOp env m pindexBlock tx prev vvchArgs s op) := by
  unfold checkAliasOp
  split
  · exact silent_guard silent_require
  · refine silent_guard (silent_guard (silent_guard (silent_guard (silent_onBlock fun p => ?_))))
    exact silent_guard (silent_guard (silent_guard silent_require))
  · unfold checkAliasUpdate
    split
    · split
      · exact .of_ok
      · exact .of_error (silent_error _)
    · exact silent_guard (silent_guard (silent_guard silent_require))
  · exact .of_error (silent_error _)

theorem checkAliasInputs_silent {s : AliasState} :
    Except.Throws Silent (checkAliasInputs env m pindexBest pindexBlock tx inputs s mapTestPool) := by
  unfold checkAliasInputs
  split
  · exact .of_ok
  · dsimp only
    split
    · exact silent_guard .of_ok
    · split
      · exact .of_error (silent_error _)
      · refine checkAliasOp_silent.bind fun _ _ => ?_
        split
        · exact .of_ok
        · split <;> exact .of_ok

theorem checkOfferOp_silent {s : OfferState} {theOffer : COffer} :
    Except.Throws Silent (checkOfferOp env m pindexBest pindexBlock tx prev vvchArgs theOffer mapTestPool s op) := by
  unfold checkOfferOp
  split
  · exact silent_guard silent_require
  · refine silent_guard (silent_guard (silent_guard (silent_guard (silent_onBlock fun p => ?_))))
    exact silent_guard (silent_guard (silent_guard (silent_guard silent_noClash)))
  · unfold checkOfferUpdate
    split
    · split
      · exact .of_ok
      · exact .of_error (silent_error _)
    · exact silent_guard (silent_guard (silent_guard (silent_guard silent_require)))
  · exact silent_guard (silent_guard silent_require)
  · refine silent_guard (silent_guard (silent_guard (silent_onBlock fun p => ?_)))
    exact silent_guard (silent_guard (silent_guard (silent_guard silent_noClash)))
  · exact .of_error (silent_error _)

theorem connectOffer_silent {s : OfferState} {theOffer : COffer} :
    Except.Throws Silent (connectOffer env pindexBlock tx op vvchArgs theOffer s mapTestPool) := by
  unfold connectOffer
  split
  · unfold connectOfferBuyer
    dsimp only
    split
    · exact .of_error (silent_error _)
    · split
      · exact .of_ok
      · split
        · exact .of_error (silent_error _)
        · exact .of_ok
  · exact .of_ok

theorem checkOfferInputs_silent {s : OfferState} :
    Except.Throws Silent (checkOfferInputs env m pindexBest pindexBlock tx inputs s mapTestPool) := by
  unfold checkOfferInputs
  split
  · exact .of_ok
  · dsimp only
    split
    · exact silent_guard .of_ok
    · split
      · exact .of_error (silent_error _)
      · refine silent_guard (checkOfferOp_silent.bind fun _ _ => ?_)
        split
        · exact connectOffer_silent
        · exact .of_ok

theorem checkCertOp_silent {s : CertState} {theCertIssuer : CCertIssuer} :
    Except.Throws Silent
      (checkCertOp env m pindexBest pindexBlock tx prev vvchArgs theCertIssuer mapTestPool s op) := by
  unfold checkCertOp
  split
  · exact silent_guard silent_require
  · refine silent_guard (silent_guard (silent_guard (silent_guard (silent_onBlock fun p => ?_))))
    exact silent_guard (silent_guard (silent_guard (silent_guard silent_noClash)))
  · unfold checkCertissuerUpdate
    split
    · split
      · exact .of_ok
      · exact .of_error (silent_error _)
    · exact silent_guard (silent_guard (silent_guard (silent_guard silent_require)))
  · exact silent_guard (silent_guard (silent_guard silent_require))
  · refine silent_guard (silent_guard (silent_guard (silent_onBlock fun p => ?_)))
    exact silent_guard (silent_guard (silent_guard (silent_guard (silent_guard silent_noClash))))
  · exact .of_error (silent_error _)

theorem connectCert_silent {s : CertState} {theCertIssuer : CCertIssuer} :
    Except.Throws Silent (connectCert env pindexBlock tx op vvchArgs theCertIssuer s mapTestPool) := by
  unfold connectCert
  split
  · unfold connectItem
    dsimp only
    split
    · exact .of_error (silent_error _)
    · exact .of_ok
  · exact .of_ok

theorem checkCertInputs_silent {s : CertState} :
    Except.Throws Silent (checkCertInputs env m pindexBest pindexBlock tx inputs s mapTestPool) := by
  unfold checkCertInputs
  split
  · exact .of_ok
  · dsimp only
    split
    · exact silent_guard .of_ok
    · split
      · exact .of_error (silent_error _)
      · refine silent_guard (checkCertOp_silent.bind fun _ _ => ?_)
        split
        · exact connectCert_silent
        · exact .of_ok

/-- The three rule sets, as `CheckInputs` runs them. -/
def serviceRules (env : Env) (m : Mode) (pindexBest pindex : CBlockIndex) (tx : CTransaction) (inputs : CoinsView) :
    Proc Store Reject Unit := do
  aliasRules env m pindexBest pindex tx inputs
  offerRules env m pindexBest pindex tx inputs
  certRules env m pindexBest pindex tx inputs

/-- **Whatever a service rule turns down leaves the state valid.** -/
theorem serviceRules_silent {s : Store} :
    Proc.Throws Silent (serviceRules env m pindexBest pindexBlock tx inputs) s := by
  refine Proc.Throws.bind ?_ fun _ s₁ _ => Proc.Throws.bind ?_ fun _ s₂ _ => ?_
  · refine .update ?_
    split
    · exact checkAliasInputs_silent.bind fun _ _ => .of_ok
    · exact .of_ok
  · refine .update ?_
    split
    · exact checkOfferInputs_silent.bind fun _ _ => .of_ok
    · exact .of_ok
  · refine .update ?_
    split
    · exact checkCertInputs_silent.bind fun _ _ => .of_ok
    · exact .of_ok

end Silent

/-! ## Everything else is loud -/

section Loud

variable {env : Env} {pindexBest pindex : CBlockIndex} {tx : CTransaction} {inputs : CoinsView} {s : Store}

/-- The alias arguments of the transaction are within their limits. `CheckTransaction` tests them, and a violation is
    another silent one. -/
def CTransaction.argsKept (tx : CTransaction) : Prop :=
  tx.nVersion ≠ SYSCOIN_TX_VERSION ∨ ∀ r ∈ decodeAliasTx tx, (checkOpArgs r.1 r.2.2).isOk = true

instance (tx : CTransaction) : Decidable tx.argsKept := inferInstanceAs (Decidable (_ ∨ _))

theorem checkOutputs_loud {nValueOut : Int} {vout : List CTxOut} :
    Except.Throws Loud (checkOutputs nValueOut vout) := by
  induction vout generalizing nValueOut with
  | nil => exact .of_ok
  | cons txout vout ih =>
    exact .guard (loud_DoS _ _) fun _ => .guard (loud_DoS _ _) fun _ => .guard (loud_DoS _ _) fun _ => ih

theorem checkTransaction_loud (h : tx.argsKept) : Except.Throws Loud (checkTransaction tx) := by
  unfold checkTransaction
  refine .guard (loud_DoS _ _) fun _ => .guard (loud_DoS _ _) fun _ => .guard (loud_DoS _ _) fun _ => ?_
  refine checkOutputs_loud.bind fun _ _ => ?_
  refine .guard (loud_DoS _ _) fun _ => .guard (loud_DoS _ _) fun _ => .guard (loud_DoS _ _) fun _ => ?_
  split
  · exact .of_ok
  · rename_i hver
    split
    · exact .of_ok
    · rename_i r hdec
      have hargs := h.resolve_left hver _ hdec
      intro e herr
      dsimp only at hargs
      rw [herr] at hargs
      cases hargs

theorem checkBlock_loud {nNow : Nat} {fCheckPOW fCheckMerkleRoot : Bool} (h : ∀ tx ∈ pindex.block.vtx, tx.argsKept) :
    Except.Throws Loud (checkBlock env nNow pindex fCheckPOW fCheckMerkleRoot) := by
  unfold checkBlock
  refine .guard (loud_DoS _ _) fun _ => .guard (loud_DoS _ _) fun _ => .guard (loud_invalid _) fun _ => ?_
  refine .guard (loud_DoS _ _) fun _ => .guard (loud_DoS _ _) fun _ => ?_
  refine Except.Throws.bind (.forM fun tx htx => checkTransaction_loud (h tx htx)) fun _ _ => ?_
  exact .guard (loud_DoS _ _) fun _ => .guard (loud_DoS _ _) fun _ => .of_require (loud_DoS _ _)

theorem connectPrologue_loud {nNow : Nat} {view : CoinsCache} (h : ∀ tx ∈ pindex.block.vtx, tx.argsKept) :
    Except.Throws Loud (connectPrologue env false pindex nNow view) := by
  unfold connectPrologue
  exact (checkBlock_loud h).bind fun _ _ => .guard (loud_crash _) fun _ => .of_require (loud_DoS _ _)

theorem checkTxIns_loud {nSpendHeight : Nat} {nValueIn : Int} {vin : List CTxIn} :
    Except.Throws Loud (checkTxIns env inputs nSpendHeight nValueIn vin) := by
  induction vin generalizing nValueIn with
  | nil => exact .of_ok
  | cons txin vin ih => exact .guard (loud_invalid _) fun _ => .guard (loud_DoS _ _) fun _ => ih

theorem checkTxFee_loud {nValueIn : Int} : Except.Throws Loud (checkTxFee env tx nValueIn) := by
  unfold checkTxFee
  exact .guard (loud_DoS _ _) fun _ => .guard (loud_DoS _ _) fun _ => .guard (loud_DoS _ _) fun _ =>
    .of_require (loud_DoS _ _)

theorem checkScripts_loud {fScript fP2SH : Bool} : Except.Throws Loud (checkScripts env inputs tx fScript fP2SH) := by
  unfold checkScripts
  split
  · exact .of_ok
  · split
    · exact .guard (loud_DoS _ _) fun _ => .of_ok
    · exact .of_ok

theorem spendInputs_loud {vin : List CTxIn} {view : CoinsView} : Except.Throws Loud (spendInputs vin view) := by
  induction vin generalizing view with
  | nil => exact .of_ok
  | cons txin vin ih =>
    unfold spendInputs
    split
    · exact .of_error (loud_crash _)
    · exact ih.bind fun _ _ => .of_ok

theorem finishTx_loud {acc : ConnectAcc} {nFees : Int} {nSigOps : Nat} {vChecks : List CScriptCheck} :
    Except.Throws Loud (finishTx env pindex acc tx nFees nSigOps vChecks) := by
  refine Except.Throws.bind ?_ fun _ _ => .of_ok
  refine Except.Throws.bind ?_ fun _ _ => .of_ok
  split
  · exact .of_ok
  · exact spendInputs_loud

theorem feeAverages_loud {h12 nHeight : Nat} {fees : List CFee} :
    Except.Throws Loud (feeAverages h12 nHeight fees) :=
  .guard (loud_crash _) fun _ => .guard (loud_crash _) fun _ => .of_ok

theorem getBlockValue_loud {nHeight : Nat} {nFees : Int} : Except.Throws Loud (getBlockValue env s nHeight nFees) :=
  (feeAverages_loud.bind fun _ _ => .of_ok).bind fun _ _ =>
    (feeAverages_loud.bind fun _ _ => .of_ok).bind fun _ _ =>
      (feeAverages_loud.bind fun _ _ => .of_ok).bind fun _ _ => .of_ok

theorem connectEpilogue_loud {view : CoinsCache} {acc : ConnectAcc} :
    Proc.Throws Loud (connectEpilogue env false pindex view acc) s := by
  refine Proc.Throws.bind ?_ fun _ _ _ => ?_
  · refine .update (Except.Throws.bind ?_ fun _ _ => .of_ok)
    exact getBlockValue_loud.bind fun _ _ => .of_require (loud_DoS _ _)
  · split
    · exact .of_pure
    · exact .guard (loud_DoS _ _) fun _ => .bind (.update .of_ok) fun _ _ _ => .of_pure

/-! ## Sites that keep the rules -/

/-- The transaction passes the service rules, if its inputs let it get that far. -/
def Site.keepsRules (env : Env) (site : Site) : Prop :=
  site.tx.isCoinBase = true ∨
    (checkTxIns env site.inputs site.pindex.nHeight 0 site.tx.vin).isOk = false ∨
      (serviceRules env Mode.connect site.pindexBest site.pindex site.tx site.inputs site.store).1.isOk = true

instance (env : Env) (site : Site) : Decidable (site.keepsRules env) := inferInstanceAs (Decidable (_ ∨ _))

/-- The service rules are one block of `CheckInputs`. -/
theorem checkSpend_eq {m : Mode} {nSpendHeight : Nat} {fScript fP2SH : Bool} :
    checkSpend env m pindexBest pindex tx inputs nSpendHeight fScript fP2SH = (do
      Proc.lift (require (tx.haveInputs inputs) (invalid "CheckInputs() : %s inputs unavailable"))
      let nValueIn ← Proc.lift (checkTxIns env inputs nSpendHeight 0 tx.vin)
      serviceRules env m pindexBest pindex tx inputs
      Proc.lift (checkTxFee env tx nValueIn)
      Proc.lift (checkScripts env inputs tx fScript fP2SH)) := by
  simp only [checkSpend, serviceRules, Proc.bind_assoc]

theorem isOk_of_run {α : Type} {x : Proc Store Reject α} (h : (x s).1.isOk = true) :
    ∃ a s', x s = (.ok a, s') := by
  rcases hrun : x s with ⟨e | a, s'⟩
  · rw [hrun] at h
    cases h
  · exact ⟨a, s', rfl⟩

/-- A transaction at a site that keeps the rules fails loudly if at all. -/
theorem connectTx_loud {acc : ConnectAcc}
    (hkeeps : acc.admits pindex tx → (⟨pindexBest, pindex, tx, acc.view, s⟩ : Site).keepsRules env) :
    Proc.Throws Loud (connectTx env false pindexBest pindex acc tx) s := by
  refine .guard (loud_DoS _ _) fun hlegacy => ?_
  split
  · exact .lift finishTx_loud
  · rename_i hcb
    refine .guard (loud_DoS _ _) fun hin => .guard (loud_DoS _ _) fun hsigops => ?_
    refine Proc.Throws.bind ?_ fun _ _ _ => .lift (Except.Throws.bind (.guard (loud_crash _) fun _ => .of_ok)
      fun _ _ => finishTx_loud)
    unfold checkInputs
    rw [if_neg hcb, checkSpend_eq]
    refine .guard (loud_invalid _) fun _ => Proc.Throws.bind (.lift checkTxIns_loud) fun nValueIn s₁ hrun => ?_
    obtain ⟨hins, rfl⟩ := Proc.lift_ok_iff.mp hrun
    -- the inputs let the transaction through to the rules, which it keeps
    rcases hkeeps ⟨hlegacy, .inr ⟨hin, hsigops⟩⟩ with h | h | h
    · exact absurd h hcb
    · rw [hins] at h
      cases h
    · obtain ⟨_, s₂, hrules⟩ := isOk_of_run h
      exact .bind (.of_run hrules) fun _ _ _ => .bind (.lift checkTxFee_loud) fun _ _ _ => .lift checkScripts_loud

/-- A transaction at a site that breaks a rule fails silently. -/
theorem connectTx_silent {acc : ConnectAcc} (hadmits : acc.admits pindex tx)
    (hbreaks : ¬ (⟨pindexBest, pindex, tx, acc.view, s⟩ : Site).keepsRules env) :
    ∃ e s', connectTx env false pindexBest pindex acc tx s = (.error e, s') ∧ Silent e := by
  unfold Site.keepsRules at hbreaks
  push Not at hbreaks
  obtain ⟨hcb, hins, hrules⟩ := hbreaks
  obtain ⟨hlegacy, hspend⟩ := hadmits
  obtain ⟨hin, hsigops⟩ := hspend.resolve_left hcb
  dsimp only at hcb hins hrules
  rcases hr : serviceRules env Mode.connect pindexBest pindex tx acc.view s with ⟨e | _, s'⟩
  · refine ⟨e, s', ?_, serviceRules_silent e (congrArg Prod.fst hr)⟩
    obtain ⟨nValueIn, hv⟩ : ∃ nValueIn, checkTxIns env acc.view pindex.nHeight 0 tx.vin = .ok nValueIn := by
      cases hv : checkTxIns env acc.view pindex.nHeight 0 tx.vin with
      | ok nValueIn => exact ⟨nValueIn, rfl⟩
      | error _ => rw [hv] at hins; exact absurd rfl hins
    -- every check before the rules passes
    have hcheck : checkSpend env Mode.connect pindexBest pindex tx acc.view pindex.nHeight (fScriptChecks env pindex)
        (fStrictPayToScriptHash pindex) s = (.error e, s') := by
      rw [checkSpend_eq]
      refine Proc.bind_error_iff.mpr (.inr ⟨⟨⟩, s, Proc.lift_ok_iff.mpr ⟨require_ok_iff.mpr hin, rfl⟩, ?_⟩)
      refine Proc.bind_error_iff.mpr (.inr ⟨nValueIn, s, Proc.lift_ok_iff.mpr ⟨hv, rfl⟩, ?_⟩)
      exact Proc.bind_error_iff.mpr (.inl hr)
    unfold connectTx
    refine Proc.bind_error_iff.mpr (.inr ⟨⟨⟩, s, Proc.lift_ok_iff.mpr ⟨require_ok_iff.mpr hlegacy, rfl⟩, ?_⟩)
    rw [if_neg hcb]
    refine Proc.bind_error_iff.mpr (.inr ⟨⟨⟩, s, Proc.lift_ok_iff.mpr ⟨require_ok_iff.mpr hin, rfl⟩, ?_⟩)
    refine Proc.bind_error_iff.mpr (.inr ⟨⟨⟩, s, Proc.lift_ok_iff.mpr ⟨require_ok_iff.mpr hsigops, rfl⟩, ?_⟩)
    refine Proc.bind_error_iff.mpr (.inl ?_)
    unfold checkInputs
    rw [if_neg hcb]
    exact hcheck
  · rw [hr] at hrules
    exact absurd rfl hrules

/-- The loop over a block whose sites all keep the rules. -/
theorem connectTxs_loud {txs : List CTransaction} {acc : ConnectAcc}
    (hkeeps : ∀ site ∈ connectSites env pindexBest pindex txs acc s, site.keepsRules env) :
    Proc.Throws Loud (Proc.foldM (connectTx env false pindexBest pindex) txs acc) s := by
  induction txs generalizing acc s with
  | nil => exact .of_pure
  | cons tx txs ih =>
    refine Proc.Throws.bind (connectTx_loud fun hadmits => ?_) fun acc₁ s₁ hstep => ?_
    · refine hkeeps _ ?_
      rw [connectSites, if_pos hadmits]
      exact List.mem_cons_self
    · rw [connectSites_cons hstep] at hkeeps
      exact ih fun site hsite => hkeeps site (List.mem_cons_of_mem _ hsite)

/-- A site of the loop that breaks a rule is where the loop ends. -/
theorem connectTxs_silent {txs : List CTransaction} {acc : ConnectAcc} {site : Site}
    (hsite : site ∈ connectSites env pindexBest pindex txs acc s) (hbreaks : ¬ site.keepsRules env) :
    ∃ e s', Proc.foldM (connectTx env false pindexBest pindex) txs acc s = (.error e, s') ∧ Silent e := by
  induction txs generalizing acc s with
  | nil => simp [connectSites] at hsite
  | cons tx txs ih =>
    rw [connectSites] at hsite
    split at hsite
    · rename_i hadmits
      rw [Proc.foldM_cons]
      rcases List.mem_cons.mp hsite with rfl | hrest
      · obtain ⟨e, s', herr, hsilent⟩ := connectTx_silent hadmits hbreaks
        rw [herr]
        exact ⟨e, s', rfl, hsilent⟩
      · split at hrest
        · simp at hrest
        · rename_i acc₁ s₁ hstep
          rw [hstep]
          exact ih hrest
    · simp at hsite

end Loud

/-! ## The state after a call of `ConnectBlock` -/

namespace Attempt

/-- The arguments of the block's transactions are within their limits. -/
def argsKept (a : Attempt) : Prop := ∀ tx ∈ a.pindex.block.vtx, tx.argsKept

instance (a : Attempt) : Decidable a.argsKept := inferInstanceAs (Decidable (∀ tx ∈ a.pindex.block.vtx, _))

/-- Every transaction that the call gets to keeps the service rules. -/
def rulesKept (env : Env) (a : Attempt) : Prop :=
  ∀ site ∈ blockSites env a.pindexBest a.pindex a.nNow a.view a.store, site.keepsRules env

instance (env : Env) (a : Attempt) : Decidable (a.rulesKept env) :=
  inferInstanceAs (Decidable (∀ site ∈ blockSites env a.pindexBest a.pindex a.nNow a.view a.store, _))

theorem loud_of_rulesKept {env : Env} {a : Attempt} (hargs : a.argsKept) (hrules : a.rulesKept env) :
    Except.Throws Loud (a.result env) := by
  refine Proc.Throws.bind (.lift (connectPrologue_loud hargs)) fun _ s₁ hrun => ?_
  obtain ⟨hpro, rfl⟩ := Proc.lift_ok_iff.mp hrun
  split
  · exact .of_pure
  · rename_i hgen
    simp only [rulesKept, blockSites, hpro, if_neg hgen] at hrules
    exact .bind (connectTxs_loud hrules) fun _ _ _ => connectEpilogue_loud

theorem silent_of_not_rulesKept {env : Env} {a : Attempt} (h : ¬ a.rulesKept env) :
    ∃ e, a.result env = .error e ∧ Silent e := by
  unfold rulesKept at h
  push Not at h
  obtain ⟨site, hsite, hbreaks⟩ := h
  unfold blockSites at hsite
  split at hsite
  · simp at hsite
  · rename_i hpro
    split at hsite
    · simp at hsite
    · rename_i hgen
      obtain ⟨e, s', herr, hsilent⟩ := connectTxs_silent hsite hbreaks
      refine ⟨e, congrArg Prod.fst (?_ : _ = (Except.error e, s')), hsilent⟩
      refine Proc.bind_error_iff.mpr (.inr ⟨⟨⟩, a.store, Proc.lift_ok_iff.mpr ⟨hpro, rfl⟩, ?_⟩)
      rw [if_neg hgen]
      exact Proc.bind_error_iff.mpr (.inl herr)

/-- **A call that returns false leaves the state invalid iff the service rules were kept.** -/
theorem isInvalid_iff {env : Env} {a : Attempt} {e : Reject} (hargs : a.argsKept) (h : a.result env = .error e)
    (halive : e.fault ≠ .crash) : e.fault.isInvalid = true ↔ a.rulesKept env := by
  constructor
  · intro hinvalid
    by_contra hrules
    obtain ⟨e', h', hsilent⟩ := silent_of_not_rulesKept hrules
    rw [h, Except.error.injEq] at h'
    rw [h', hsilent] at hinvalid
    cases hinvalid
  · intro hrules
    have hloud := loud_of_rulesKept hargs hrules e h
    cases hf : e.fault with
    | silent => exact absurd hf hloud
    | crash => exact absurd hf halive
    | invalid => rfl
    | dos level => rfl

end Attempt

end Syscoin

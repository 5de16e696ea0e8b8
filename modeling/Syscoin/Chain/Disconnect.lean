import Syscoin.Chain.Connect

/-!
# `Chain.Disconnect` — `DisconnectBlock` and the three service undo routines

`DisconnectBlock` walks the transactions backwards: it takes the outputs of each out of the coin view, gives
the service layer a chance to undo its writes, and puts the spent outputs back from the undo data. Anything
that does not fit only clears `fClean`; a disconnect that is not clean counts as failed.

The service dispatch first decodes with `DecodeAliasTx` and then asks which service the operation belongs to.
`DecodeAliasTx` never returns an offer or certificate operation, so two of the three branches cannot be
taken (`disconnectService_eq`). Their routines are modelled all the same.
-/

namespace Syscoin

open Lib

/-! ## Undoing service writes -/

section ServiceUndo

variable (env : Env) (pindex : CBlockIndex) (tx : CTransaction) (op : Op) (vvchArgs : List Bytes)

/-- The history of a name without its last entry, if that entry is this transaction's. -/
def popAlias (vtxPos : List CAliasIndex) : List CAliasIndex :=
  match vtxPos.getLast? with
  | none => vtxPos
  | some last => if last.txHash = env.getHash tx then vtxPos.dropLast else vtxPos

/-- **`DisconnectAlias`.** The fee record is not removed but set to zero. -/
def disconnectAlias : Proc Store Reject Unit := Proc.update fun s =>
  if op = .aliasNew then .ok s
  else
    match s.aliasdb.names (arg vvchArgs 0) with
    | none => .error (error "DisconnectBlock() : failed to read from alias DB for %s %s")
    | some vtxPos => do
      require (vtxPos = [] ∨ s.txIndex (env.getHash tx) = true)
        (error "DisconnectBlock() : failed to read tx index for %s %s %s")
      let fees := insertAliasFee pindex (env.getHash tx) 0 s.aliasdb.lstAliasFees
      .ok { s with aliasdb := { s.aliasdb with
        names := Function.update s.aliasdb.names (arg vvchArgs 0) (some (popAlias env tx vtxPos))
        txFees := some fees
        lstAliasFees := fees } }

/-- `while (vtxPos.back().txHash == hash) vtxPos.pop_back()`, on the reversed history; `none` when the loop
    reads the back of an empty vector. -/
def popWhile {α : Type} (txHash : α → Uint256) (hash : Uint256) : List α → Option (List α)
  | [] => none
  | x :: xs => if txHash x = hash then popWhile txHash hash xs else some (x :: xs)

/-- The history after the pop loop, which is entered for a history that is not empty. -/
def popHistory {α : Type} (txHash : α → Uint256) (s : Store) (vtxPos : List α) : Except Reject (List α) :=
  if vtxPos = [] then .ok []
  else if s.txIndex (env.getHash tx) = false then
    .error (error "DisconnectBlock() : failed to read tx index for offer %s %s %s")
  else
    match popWhile txHash (env.getHash tx) vtxPos.reverse with
    | none => .error (crash "vtxPos.back()")
    | some xs => .ok xs.reverse

/-- The mapping entry of an accept or payment is erased once the payload is seen to name it. -/
def eraseOfferAccept : Proc Store Reject Unit := Proc.update fun s =>
  if op = .offerPay ∨ op = .offerAccept then do
    require (((COffer.ofTx tx).getAcceptByHash (arg vvchArgs 1)).isSome = true)
      (error "DisconnectBlock() : not found in offer for offer accept %s %s")
    .ok { s with offerdb := { s.offerdb with offera := Function.update s.offerdb.offera (arg vvchArgs 1) none } }
  else .ok s

/-- Store an offer history and a zero fee. -/
def writeOfferUndo (vtxPos : List COffer) (s : Store) : Store :=
  let fees := insertOfferFee pindex 0 s.offerdb.lstOfferFees
  { s with offerdb := { s.offerdb with
    offers := Function.update s.offerdb.offers (arg vvchArgs 0) (some vtxPos)
    offera := Function.update s.offerdb.offera offertxf (some (.txFees fees))
    lstOfferFees := fees } }

/-- **`DisconnectOffer`.** -/
def disconnectOffer : Proc Store Reject Unit := fun s =>
  if op = .offerNew then (.ok (), s)
  else
    match s.offerdb.offers (arg vvchArgs 0) with
    | none => (.error (error "DisconnectBlock() : failed to read from offer DB for %s %s"), s)
    | some vtxPos =>
      Proc.bind (eraseOfferAccept tx op vvchArgs) (fun _ => Proc.update fun s => do
        let vtxPos ← popHistory env tx (·.txHash) s vtxPos
        .ok (writeOfferUndo pindex vvchArgs vtxPos s)) s

/-- The mapping entry of an item is erased once the payload is seen to name it. -/
def eraseCertItem : Proc Store Reject Unit := Proc.update fun s =>
  if op = .certNew ∨ op = .certTransfer then do
    require (((CCertIssuer.ofTx tx).getCertItemByHash (arg vvchArgs 1)).isSome = true)
      (error "DisconnectBlock() : not found in offer for offer accept %s %s")
    .ok { s with certdb := { s.certdb with
      certissuera := Function.update s.certdb.certissuera (arg vvchArgs 1) none } }
  else .ok s

/-- Store an issuer history and a zero fee. -/
def writeCertUndo (vtxPos : List CCertIssuer) (s : Store) : Store :=
  let fees := insertCertFee pindex 0 s.certdb.lstCertIssuerFees
  { s with certdb := { s.certdb with
    issuers := Function.update s.certdb.issuers (arg vvchArgs 0) (some vtxPos)
    certissuera := Function.update s.certdb.certissuera certissuertxf (some (.txFees fees))
    lstCertIssuerFees := fees } }

/-- **`DisconnectCertificate`.** -/
def disconnectCertificate : Proc Store Reject Unit := fun s =>
  if op = .certissuerNew then (.ok (), s)
  else
    match s.certdb.issuers (arg vvchArgs 0) with
    | none => (.error (error "DisconnectBlock() : failed to read from certificate DB for %s %s"), s)
    | some vtxPos =>
      Proc.bind (eraseCertItem tx op vvchArgs) (fun _ => Proc.update fun s => do
        let vtxPos ← popHistory env tx (·.txHash) s vtxPos
        .ok (writeCertUndo pindex vvchArgs vtxPos s)) s

/-- The dispatch of `DisconnectBlock`. The results of the three routines are not looked at. -/
def disconnectService (s : Store) : Store :=
  if tx.nVersion = SYSCOIN_TX_VERSION then
    match decodeAliasTx tx with
    | none => s
    | some (op, _, vvchArgs) =>
      if op.isAliasOp then (disconnectAlias env pindex tx op vvchArgs s).2
      else if op.isOfferOp then (disconnectOffer env pindex tx op vvchArgs s).2
      else if op.isCertOp then (disconnectCertificate env pindex tx op vvchArgs s).2
      else s
  else s

end ServiceUndo

/-! ## The coin view -/

/-- Take the outputs of a transaction out of the view. The flag tells whether they were all there, unspent and
    as the transaction has them. -/
def removeOutputs (env : Env) (tx : CTransaction) (nHeight : Nat) (view : CoinsView) : CoinsView × Bool :=
  let hash := env.getHash tx
  let outs := view.getCoins hash
  let outsBlock := CCoins.ofTx tx nHeight
  let outs := if outsBlock.nVersion < 0 then { outs with nVersion := outsBlock.nVersion } else outs
  (Function.update view hash (some CCoins.empty), (view hash).isSome && outs = outsBlock)

/-- The entry an output is put back into: a fresh one when the undo record says that the last output of its
    transaction had been spent. -/
def restoreEntry (undo : CTxInUndo) (coins : CCoins) : CCoins :=
  if undo.nHeight ≠ 0 then ⟨undo.fCoinBase, [], undo.nHeight, undo.nVersion⟩ else coins

/-- `resize(n + 1)` if need be, then `vout[n] = txout`. -/
def putOutput (vout : List CTxOut) (n : Nat) (txout : CTxOut) : List CTxOut :=
  (vout ++ List.replicate (n + 1 - vout.length) CTxOut.null).set n txout

/-- Put one spent output back. -/
def restoreInput (txin : CTxIn) (undo : CTxInUndo) (view : CoinsView) : CoinsView × Bool :=
  let out := txin.prevout
  let coins := view.getCoins out.hash
  let fits := if undo.nHeight ≠ 0 then decide coins.isPruned else !decide coins.isPruned
  let coins := restoreEntry undo coins
  (Function.update view out.hash (some { coins with vout := putOutput coins.vout out.n undo.txout }),
    fits && !decide (coins.isAvailable out.n))

/-- Put the spent outputs back, last input first. -/
def restoreInputs : List (CTxIn × CTxInUndo) → CoinsView → CoinsView × Bool
  | [], view => (view, true)
  | (txin, undo) :: rest, view =>
    let (view, fClean) := restoreInputs rest view
    let (view, fits) := restoreInput txin undo view
    (view, fClean && fits)

/-! ## `DisconnectBlock` -/

section DisconnectBlock

variable (env : Env) (pindex : CBlockIndex)

/-- One iteration of the backward loop; a coinbase has no undo records. -/
def disconnectTx (acc : CoinsView × Bool) (step : CTransaction × Option CTxUndo) :
    Proc Store Reject (CoinsView × Bool) := do
  let removed := removeOutputs env step.1 pindex.nHeight acc.1
  Proc.update fun s => .ok (disconnectService env pindex step.1 s)
  match step.2 with
  | none => pure (removed.1, acc.2 && removed.2)
  | some txundo => do
    Proc.lift (require (txundo.length = step.1.vin.length)
      (error "DisconnectBlock() : transaction and undo data inconsistent"))
    let restored := restoreInputs (step.1.vin.zip txundo) removed.1
    pure (restored.1, acc.2 && removed.2 && restored.2)

/-- The transactions of a block with their undo records, last first. -/
def disconnectSteps (blockUndo : CBlockUndo) : List (CTransaction × Option CTxUndo) :=
  (pindex.block.vtx.zip (none :: blockUndo.map some)).reverse

/-- What precedes the loop: undo data exists and has the shape of the block. -/
def disconnectPrologue (view : CoinsCache) (s : Store) : Except Reject CBlockUndo := do
  require (view.best = some pindex) (crash "assert(pindex == view.GetBestBlock())")
  match s.undo pindex with
  | none => .error (error "DisconnectBlock() : no undo data available")
  | some blockUndo => do
    require (blockUndo.length + 1 = pindex.block.vtx.length)
      (error "DisconnectBlock() : block and undo data inconsistent")
    .ok blockUndo

/-- **`CBlock::DisconnectBlock`**, as `SetBestChain` calls it: success means a clean undo. -/
def disconnectBlock (view : CoinsCache) : Proc Store Reject CoinsCache := fun s =>
  match disconnectPrologue pindex view s with
  | .error e => (.error e, s)
  | .ok blockUndo =>
    Proc.bind (Proc.foldM (disconnectTx env pindex) (disconnectSteps pindex blockUndo) (view.coins, true))
      (fun acc => Proc.lift (do
        require (acc.2 = true) (error "")
        .ok ⟨acc.1, pindex.pprev⟩)) s

end DisconnectBlock

/-! ## What a disconnect does to the store -/

section Frame

variable {env : Env} {pindex : CBlockIndex} {tx : CTransaction} {s : Store}

/-- **The dispatch only ever reaches the alias routine.** -/
theorem disconnectService_eq : disconnectService env pindex tx s =
    if tx.nVersion = SYSCOIN_TX_VERSION then
      match decodeAliasTx tx with
      | none => s
      | some (op, _, vvchArgs) => (disconnectAlias env pindex tx op vvchArgs s).2
    else s := by
  unfold disconnectService
  split
  · cases hd : decodeAliasTx tx with
    | none => rfl
    | some r =>
      obtain ⟨op, nOut, vvchArgs⟩ := r
      obtain ⟨out, -, hdec⟩ := (decodeTx_eq_some hd).1
      exact if_pos (decodeScript_spec hdec).1
  · rfl

/-- The alias routine either does nothing or pops the history of the name and zeroes the fee. -/
theorem disconnectAlias_cases (env : Env) (pindex : CBlockIndex) (tx : CTransaction) (op : Op)
    (vvchArgs : List Bytes) (s : Store) :
    (disconnectAlias env pindex tx op vvchArgs s).2 = s ∨
      (op ≠ .aliasNew ∧ ∃ vtxPos, s.aliasdb.names (arg vvchArgs 0) = some vtxPos ∧
        (vtxPos = [] ∨ s.txIndex (env.getHash tx) = true) ∧
        (disconnectAlias env pindex tx op vvchArgs s).2 = { s with aliasdb := { s.aliasdb with
          names := Function.update s.aliasdb.names (arg vvchArgs 0) (some (popAlias env tx vtxPos))
          txFees := some (insertAliasFee pindex (env.getHash tx) 0 s.aliasdb.lstAliasFees)
          lstAliasFees := insertAliasFee pindex (env.getHash tx) 0 s.aliasdb.lstAliasFees } }) := by
  unfold disconnectAlias Proc.update
  by_cases hop : op = .aliasNew
  · left; simp [hop]
  · cases hnames : s.aliasdb.names (arg vvchArgs 0) with
    | none => left; simp [hop, hnames]
    | some vtxPos =>
      by_cases hidx : vtxPos = [] ∨ s.txIndex (env.getHash tx) = true
      · right
        refine ⟨hop, vtxPos, rfl, hidx, ?_⟩
        simp [hop, hnames, require, hidx, bind, Except.bind]
      · left
        simp [hop, hnames, require, hidx, bind, Except.bind]

/-- Undoing a transaction leaves offers, certificates, undo data, index and test pool alone. -/
theorem disconnectService_frame (env : Env) (pindex : CBlockIndex) (tx : CTransaction) (s : Store) :
    (disconnectService env pindex tx s).offerdb = s.offerdb ∧
    (disconnectService env pindex tx s).certdb = s.certdb ∧
    (disconnectService env pindex tx s).undo = s.undo ∧
    (disconnectService env pindex tx s).txIndex = s.txIndex ∧
    (disconnectService env pindex tx s).dummyTestPool = s.dummyTestPool := by
  rw [disconnectService_eq]
  split
  · split
    · exact ⟨rfl, rfl, rfl, rfl, rfl⟩
    · rename_i op nOut vvchArgs _
      obtain h | ⟨-, _, -, -, h⟩ :=
        disconnectAlias_cases env pindex tx op vvchArgs s
      · rw [h]; exact ⟨rfl, rfl, rfl, rfl, rfl⟩
      · rw [h]; exact ⟨rfl, rfl, rfl, rfl, rfl⟩
  · exact ⟨rfl, rfl, rfl, rfl, rfl⟩

theorem mem_popAlias {vtxPos : List CAliasIndex} {e : CAliasIndex} (h : e ∈ popAlias env tx vtxPos) :
    e ∈ vtxPos := by
  unfold popAlias at h
  split at h
  · exact h
  · split at h
    · exact List.mem_of_mem_dropLast h
    · exact h

/-- Undoing a transaction adds no history entry. -/
theorem disconnectService_history {vchName : Bytes} {e : CAliasIndex}
    (h : e ∈ (disconnectService env pindex tx s).aliasdb.history vchName) : e ∈ s.aliasdb.history vchName := by
  rw [disconnectService_eq] at h
  split at h
  · split at h
    · exact h
    · rename_i op nOut vvchArgs _
      obtain heq | ⟨-, vtxPos, hnames, -, heq⟩ :=
        disconnectAlias_cases env pindex tx op vvchArgs s
      · rwa [heq] at h
      · rw [heq] at h
        unfold AliasState.history at h ⊢
        by_cases hn : vchName = arg vvchArgs 0
        · subst hn
          simp only [Function.update_self, Option.getD_some] at h
          rw [hnames]
          exact mem_popAlias h
        · simpa [Function.update_of_ne hn] using h
  · exact h

end Frame

/-! ## What a disconnect does to the coin view -/

section Coins

variable {env : Env} {view : CoinsView} {o : COutPoint} {out : CTxOut}

theorem removeOutputs_unspent {tx : CTransaction} {nHeight : Nat}
    (h : (removeOutputs env tx nHeight view).1.Unspent o out) : o.hash ≠ env.getHash tx ∧ view.Unspent o out := by
  obtain ⟨coins, hc, hat, hnn⟩ := h
  simp only [removeOutputs] at hc
  by_cases hh : o.hash = env.getHash tx
  · rw [hh, Function.update_self, Option.some.injEq] at hc
    subst hc
    simp [CCoins.empty] at hat
  · rw [Function.update_of_ne hh] at hc
    exact ⟨hh, coins, hc, hat, hnn⟩

/-- An output of a resized entry is the one put in or was there: the padding is null. -/
theorem getElem?_putOutput {vout : List CTxOut} {n m : Nat} {txout : CTxOut}
    (h : (putOutput vout n txout)[m]? = some out) (hnn : ¬ out.isNull) :
    (m = n ∧ txout = out) ∨ vout[m]? = some out := by
  rw [putOutput, List.getElem?_set] at h
  split at h
  · rename_i hnm
    split at h
    · rw [Option.some.injEq] at h
      exact .inl ⟨hnm.symm, h⟩
    · cases h
  · rw [List.getElem?_append] at h
    split at h
    · exact .inr h
    · rw [List.getElem?_replicate] at h
      split at h
      · rw [Option.some.injEq] at h
        exact absurd (by rw [← h]; rfl) hnn
      · cases h

theorem restoreInput_unspent {txin : CTxIn} {undo : CTxInUndo}
    (h : (restoreInput txin undo view).1.Unspent o out) :
    view.Unspent o out ∨ (txin.prevout = o ∧ undo.txout = out) := by
  obtain ⟨coins, hc, hat, hnn⟩ := h
  simp only [restoreInput] at hc
  by_cases hh : o.hash = txin.prevout.hash
  · rw [hh, Function.update_self, Option.some.injEq] at hc
    subst hc
    rcases getElem?_putOutput hat hnn with ⟨hn, hout⟩ | hold
    · right
      refine ⟨?_, hout⟩
      cases o; cases hp : txin.prevout
      simp_all
    · left
      unfold restoreEntry at hold
      split at hold
      · simp at hold
      · cases hv : view txin.prevout.hash with
        | none => simp [CoinsView.getCoins, hv, CCoins.empty] at hold
        | some c => exact ⟨c, by rw [hh, hv], by simpa [CoinsView.getCoins, hv] using hold, hnn⟩
  · rw [Function.update_of_ne hh] at hc
    exact .inl ⟨coins, hc, hat, hnn⟩

theorem restoreInputs_unspent {pairs : List (CTxIn × CTxInUndo)}
    (h : (restoreInputs pairs view).1.Unspent o out) :
    view.Unspent o out ∨ ∃ pair ∈ pairs, pair.1.prevout = o ∧ pair.2.txout = out := by
  induction pairs with
  | nil => exact .inl h
  | cons pair pairs ih =>
    have hlast : (restoreInput pair.1 pair.2 (restoreInputs pairs view).1).1.Unspent o out := h
    rcases restoreInput_unspent hlast with h | h
    · rcases ih h with h | ⟨p, hp, hrest⟩
      · exact .inl h
      · exact .inr ⟨p, List.mem_cons_of_mem pair hp, hrest⟩
    · exact .inr ⟨pair, List.mem_cons_self, h⟩

end Coins

/-! ## One step and all steps of a disconnect -/

section Steps

variable {env : Env} {pindex : CBlockIndex} {s s' : Store}

/-- One iteration that goes through: the service undo has run, and an unspent output is an old one or comes
    from the undo records. -/
theorem disconnectTx_ok {acc acc' : CoinsView × Bool} {step : CTransaction × Option CTxUndo}
    (h : disconnectTx env pindex acc step s = (.ok acc', s')) :
    s' = disconnectService env pindex step.1 s ∧
      ∀ o out, acc'.1.Unspent o out → acc.1.Unspent o out ∨
        ∃ txundo, step.2 = some txundo ∧ ∃ pair ∈ step.1.vin.zip txundo, pair.1.prevout = o ∧ pair.2.txout = out := by
  obtain ⟨tx, undo⟩ := step
  unfold disconnectTx at h
  obtain ⟨s₁, hs₁, h⟩ := Proc.update_bind_ok_iff.mp h
  simp only [Except.ok.injEq] at hs₁
  cases undo with
  | none =>
    simp only [Proc.pure_apply, Prod.mk.injEq, Except.ok.injEq] at h
    refine ⟨by rw [hs₁, ← h.2], fun o out ho => .inl ?_⟩
    have ho : (removeOutputs env tx pindex.nHeight acc.1).1.Unspent o out := by rwa [← h.1] at ho
    exact (removeOutputs_unspent ho).2
  | some txundo =>
    obtain ⟨-, h⟩ := Proc.require_bind_ok_iff.mp h
    simp only [Proc.pure_apply, Prod.mk.injEq, Except.ok.injEq] at h
    refine ⟨by rw [hs₁, ← h.2], fun o out ho => ?_⟩
    rw [← h.1] at ho
    rcases restoreInputs_unspent ho with ho | ⟨pair, hpair, hrest⟩
    · exact .inl (removeOutputs_unspent ho).2
    · exact .inr ⟨txundo, rfl, pair, hpair, hrest⟩

/-- The loop that goes through runs the service undo for each transaction in turn. -/
theorem disconnectTxs_ok {acc acc' : CoinsView × Bool} {steps : List (CTransaction × Option CTxUndo)}
    (h : Proc.foldM (disconnectTx env pindex) steps acc s = (.ok acc', s')) :
    s' = steps.foldl (fun s step => disconnectService env pindex step.1 s) s ∧
      ∀ o out, acc'.1.Unspent o out → acc.1.Unspent o out ∨
        ∃ step ∈ steps, ∃ txundo, step.2 = some txundo ∧
          ∃ pair ∈ step.1.vin.zip txundo, pair.1.prevout = o ∧ pair.2.txout = out := by
  induction steps generalizing acc s with
  | nil =>
    rw [Proc.foldM_nil] at h
    simp only [Prod.mk.injEq, Except.ok.injEq] at h
    exact ⟨h.2.symm, fun o out ho => .inl (h.1 ▸ ho)⟩
  | cons step steps ih =>
    obtain ⟨acc₁, s₁, hd, tl⟩ := Proc.foldM_cons_ok_iff.mp h
    obtain ⟨hs₁, hd⟩ := disconnectTx_ok hd
    obtain ⟨hs', tl⟩ := ih tl
    refine ⟨by rw [hs', hs₁]; rfl, fun o out ho => ?_⟩
    rcases tl o out ho with ho | ⟨step', hmem, hrest⟩
    · rcases hd o out ho with ho | hrest
      · exact .inl ho
      · exact .inr ⟨step, List.mem_cons_self, hrest⟩
    · exact .inr ⟨step', List.mem_cons_of_mem step hmem, hrest⟩

/-- A disconnect that goes through: undo data was there, and the loop ran cleanly. -/
theorem disconnectBlock_loop {view view' : CoinsCache}
    (h : disconnectBlock env pindex view s = (.ok view', s')) :
    ∃ blockUndo acc, s.undo pindex = some blockUndo ∧ blockUndo.length + 1 = pindex.block.vtx.length ∧
      view.best = some pindex ∧
      Proc.foldM (disconnectTx env pindex) (disconnectSteps pindex blockUndo) (view.coins, true) s = (.ok acc, s') ∧
      acc.2 = true ∧ view' = ⟨acc.1, pindex.pprev⟩ := by
  unfold disconnectBlock at h
  split at h
  · simp at h
  · rename_i blockUndo hpro
    obtain ⟨acc, s₁, hloop, h⟩ := Proc.bind_ok_iff.mp h
    obtain ⟨hfin, rfl⟩ := Proc.lift_ok_iff.mp h
    simp only [require_bind_ok_iff, Except.ok.injEq] at hfin
    obtain ⟨hclean, rfl⟩ := hfin
    simp only [disconnectPrologue, require_bind_ok_iff] at hpro
    obtain ⟨hbest, hpro⟩ := hpro
    split at hpro
    · cases hpro
    · rename_i blockUndo' hundo
      simp only [require_bind_ok_iff, Except.ok.injEq] at hpro
      obtain ⟨hlen, rfl⟩ := hpro
      exact ⟨blockUndo', acc, hundo, hlen, hbest, hloop, hclean, rfl⟩

/-- **`DisconnectBlock` succeeds**: undo data was there, the service undo ran for every transaction, last
    first, and the view moved to the parent. -/
theorem disconnectBlock_ok {view view' : CoinsCache}
    (h : disconnectBlock env pindex view s = (.ok view', s')) :
    ∃ blockUndo, s.undo pindex = some blockUndo ∧ blockUndo.length + 1 = pindex.block.vtx.length ∧
      view.best = some pindex ∧ view'.best = pindex.pprev ∧
      s' = (disconnectSteps pindex blockUndo).foldl (fun s step => disconnectService env pindex step.1 s) s ∧
      ∀ o out, view'.coins.Unspent o out → view.coins.Unspent o out ∨
        ∃ step ∈ disconnectSteps pindex blockUndo, ∃ txundo, step.2 = some txundo ∧
          ∃ pair ∈ step.1.vin.zip txundo, pair.1.prevout = o ∧ pair.2.txout = out := by
  obtain ⟨blockUndo, acc, hundo, hlen, hbest, hloop, -, rfl⟩ := disconnectBlock_loop h
  obtain ⟨hs', hcoins⟩ := disconnectTxs_ok hloop
  exact ⟨blockUndo, hundo, hlen, hbest, rfl, hs', hcoins⟩

/-- The service undo of a whole block, whatever it is about, leaves the frame alone. -/
theorem disconnectServices_frame (env : Env) (pindex : CBlockIndex)
    (steps : List (CTransaction × Option CTxUndo)) (s : Store) :
    let s' := steps.foldl (fun s step => disconnectService env pindex step.1 s) s
    s'.offerdb = s.offerdb ∧ s'.certdb = s.certdb ∧ s'.undo = s.undo ∧ s'.txIndex = s.txIndex ∧
      s'.dummyTestPool = s.dummyTestPool := by
  induction steps generalizing s with
  | nil => exact ⟨rfl, rfl, rfl, rfl, rfl⟩
  | cons step steps ih =>
    obtain ⟨h₁, h₂, h₃, h₄, h₅⟩ := ih (disconnectService env pindex step.1 s)
    obtain ⟨f₁, f₂, f₃, f₄, f₅⟩ := disconnectService_frame env pindex step.1 s
    exact ⟨h₁.trans f₁, h₂.trans f₂, h₃.trans f₃, h₄.trans f₄, h₅.trans f₅⟩

/-- What the service undo of every transaction keeps, a disconnect keeps, whatever it returns. -/
theorem disconnectBlock_keeps {R : Store → Store → Prop} (hrefl : ∀ s, R s s)
    (htrans : ∀ ⦃s₁ s₂ s₃⦄, R s₁ s₂ → R s₂ s₃ → R s₁ s₃)
    (htx : ∀ tx ∈ pindex.block.vtx, ∀ s, R s (disconnectService env pindex tx s)) (view : CoinsCache) :
    Proc.Keeps R (disconnectBlock env pindex view) := by
  have hstep : ∀ step : CTransaction × Option CTxUndo, step.1 ∈ pindex.block.vtx → ∀ acc,
      Proc.Keeps R (disconnectTx env pindex acc step) := by
    rintro ⟨tx, undo⟩ hmem acc
    refine Proc.Keeps.bind htrans (Proc.Keeps.update hrefl ?_) fun _ => ?_
    · intro s s' h
      rw [Except.ok.injEq] at h
      exact h ▸ htx tx hmem s
    · cases undo with
      | none => exact Proc.Keeps.pure hrefl _
      | some txundo =>
        exact Proc.Keeps.bind htrans (Proc.Keeps.lift hrefl _) fun _ => Proc.Keeps.pure hrefl _
  intro s
  unfold disconnectBlock
  split
  · exact hrefl s
  · rename_i blockUndo _
    have hloop : ∀ acc, Proc.Keeps R (Proc.foldM (disconnectTx env pindex) (disconnectSteps pindex blockUndo) acc) := by
      refine Proc.Keeps.foldM hrefl htrans fun step hmem acc => hstep step ?_ acc
      rw [disconnectSteps, List.mem_reverse] at hmem
      exact (List.of_mem_zip hmem).1
    exact Proc.Keeps.bind htrans (hloop _) (fun acc => Proc.Keeps.lift hrefl _) s

end Steps

end Syscoin

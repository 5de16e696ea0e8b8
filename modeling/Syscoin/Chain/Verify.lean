import Syscoin.Chain.Run

/-!
# `Chain.Verify` — `VerifyDB` and `LoadSyscoinFees`

At start-up, and from the `verifychain` command, the last blocks of the chain are checked. The fee lists are read from the
databases first. From level three on tip blocks are disconnected on a scratch copy of the coins, and at level four they
are connected again. The coins are thrown away afterwards; the store is the node's own.

How many tip blocks are disconnected depends on the sizes of two coin caches, which are not modelled: `fits` is the
number of blocks for which there is room.
-/

namespace Syscoin

open Lib

/-! ## The fee lists -/

/-- A field of a fee record, zero when the stream ends before it does. -/
def readField (vch : Bytes) (nPos nSize : Nat) : Nat :=
  if nPos + nSize ≤ vch.length then fromLE ((vch.drop nPos).take nSize) else 0

/-- The fields of `COfferFee` and `CCertFee` in stream order: hash, height, time and fee. -/
def readFee (vch : Bytes) : CFee :=
  ⟨readField vch 0 32, readField vch 40 8, readField vch 32 8, readField vch 48 8⟩

/-- A guid read as a vector of fees. Its length is taken for their number and that many records are made, at most
    `4999999 / 56` of them, before the stream ends. The failure is not looked at. -/
def misreadFees (vch : Bytes) : List CFee :=
  (List.range (min vch.length 89285)).map fun i => readFee (vch.drop (56 * i))

/-- `ReadOfferTxFees`. -/
def readOfferTxFees (s : OfferState) : List CFee :=
  match s.offera offertxf with
  | none => []
  | some (.txFees fees) => fees
  | some (.offer vchOffer) => misreadFees vchOffer

/-- `ReadCertFees`. -/
def readCertFees (s : CertState) : List CFee :=
  match s.certissuera certissuertxf with
  | none => []
  | some (.txFees fees) => fees
  | some (.issuer vchCertIssuer) => misreadFees vchCertIssuer

/-- **`LoadSyscoinFees`.** -/
def loadSyscoinFees (s : Store) : Store :=
  { s with
    aliasdb := { s.aliasdb with lstAliasFees := s.aliasdb.txFees.getD [] }
    offerdb := { s.offerdb with lstOfferFees := readOfferTxFees s.offerdb }
    certdb := { s.certdb with lstCertIssuerFees := readCertFees s.certdb } }

/-! ## `VerifyDB` -/

/-- **`CBlock::DisconnectBlock`** with a place for `fClean`: an undo that is not clean is no failure. -/
def disconnectBlockClean (env : Env) (pindex : CBlockIndex) (view : CoinsCache) :
    Proc Store Reject (CoinsCache × Bool) := fun s =>
  match disconnectPrologue pindex view s with
  | .error e => (.error e, s)
  | .ok blockUndo =>
    Proc.bind (Proc.foldM (disconnectTx env pindex) (disconnectSteps pindex blockUndo) (view.coins, true))
      (fun acc => Proc.pure (⟨acc.1, pindex.pprev⟩, acc.2)) s

/-- The local variables of the loop; `pindexFailure` only as whether it is set. -/
structure VerifyAcc where
  coins : CoinsCache
  pindexState : CBlockIndex
  nDisconnected : Nat
  fFailure : Bool

section VerifyDB

variable (env : Env) (amb : Ambient) (fits : Nat) (nCheckLevel : Int)

/-- One iteration of the loop over the tip blocks. Reading a block and its undo data from disk succeeds. -/
def verifyBlock (acc : VerifyAcc) (pindex : CBlockIndex) : Proc Store Reject VerifyAcc := do
  Proc.lift (if 1 ≤ nCheckLevel then checkBlock env amb.nNow pindex true true else .ok ())
  if 3 ≤ nCheckLevel ∧ pindex = acc.pindexState ∧ acc.nDisconnected < fits then do
    let (coins, fClean) ← disconnectBlockClean env pindex acc.coins
    pure ⟨coins, pindex.pprev.getD pindex, acc.nDisconnected + 1, acc.fFailure || !fClean⟩
  else pure acc

/-- A depth of zero or less stands for the whole chain. -/
def checkDepth (nCheckDepth : Int) (nBestHeight : Nat) : Nat :=
  min (if nCheckDepth ≤ 0 then 1000000000 else nCheckDepth.toNat) nBestHeight

/-- The blocks the loop looks at, from the tip down: all but the root, and none deeper than the depth. -/
def verifiedBlocks (nCheckDepth : Int) (pindexBest : CBlockIndex) : List CBlockIndex :=
  (CBlockIndex.lineage pindexBest.block pindexBest.ancestors).takeWhile fun pindex =>
    pindex.pprev.isSome ∧ ¬ pindex.nHeight < pindexBest.nHeight - checkDepth nCheckDepth pindexBest.nHeight

/-- **`VerifyDB`.** -/
def verifyDB (nCheckDepth : Int) (node : Node) : Proc Store Reject Unit :=
  if node.pindexBest.pprev = none then Proc.pure ()
  else do
    Proc.update fun s => .ok (loadSyscoinFees s)
    let level := max 0 (min 4 nCheckLevel)
    let acc ← Proc.foldM (verifyBlock env amb fits level) (verifiedBlocks nCheckDepth node.pindexBest)
      ⟨⟨node.coinsTip, some node.pindexBest⟩, node.pindexBest, 0, false⟩
    Proc.lift (require (acc.fFailure = false)
      (error "VerifyDB() : *** coin database inconsistencies found (last %i blocks, %i good transactions before that)"))
    if 4 ≤ level then do
      let _ ← connectAll env amb node.pindexBest (node.pindexBest.downTo acc.pindexState).reverse acc.coins
      pure ()
    else pure ()

end VerifyDB

/-! ## What a verification does to the store -/

/-- The transactions of the blocks in the order in which they are undone. -/
def undoneTxs (blocks : List CBlockIndex) : List (CBlockIndex × CTransaction) :=
  blocks.flatMap fun pindex => pindex.block.vtx.reverse.map (pindex, ·)

/-- The service undo of a transaction of a block. -/
def undoService (env : Env) (s : Store) (item : CBlockIndex × CTransaction) : Store :=
  disconnectService env item.1 item.2 s

/-- The blocks that a verification disconnects. -/
def disconnectedTips (fits : Nat) (nCheckLevel nCheckDepth : Int) (pindexBest : CBlockIndex) : List CBlockIndex :=
  if 3 ≤ nCheckLevel then (verifiedBlocks nCheckDepth pindexBest).take fits else []

section Ok

variable {env : Env} {amb : Ambient} {fits : Nat} {level : Int} {s s' : Store}

theorem disconnectBlockClean_ok {pindex : CBlockIndex} {view : CoinsCache} {r : CoinsCache × Bool}
    (h : disconnectBlockClean env pindex view s = (.ok r, s')) :
    s' = (undoneTxs [pindex]).foldl (undoService env) s := by
  unfold disconnectBlockClean at h
  split at h
  · simp at h
  · rename_i blockUndo hpro
    obtain ⟨acc, s₁, hloop, h⟩ := Proc.bind_ok_iff.mp h
    simp only [Proc.pure, Prod.mk.injEq] at h
    have hlen : blockUndo.length + 1 = pindex.block.vtx.length := by
      simp only [disconnectPrologue, require_bind_ok_iff] at hpro
      obtain ⟨-, hpro⟩ := hpro
      split at hpro
      · cases hpro
      · simp only [require_bind_ok_iff, Except.ok.injEq] at hpro
        exact hpro.2 ▸ hpro.1
    have hsteps : (disconnectSteps pindex blockUndo).map Prod.fst = pindex.block.vtx.reverse := by
      rw [disconnectSteps, List.map_reverse, List.map_fst_zip]
      simp [hlen]
    rw [← h.2, (disconnectTxs_ok hloop).1]
    have hfold : (disconnectSteps pindex blockUndo).foldl (fun s step => disconnectService env pindex step.1 s) s =
        ((disconnectSteps pindex blockUndo).map Prod.fst).foldl (fun s tx => disconnectService env pindex tx s) s := by
      rw [List.foldl_map]
    rw [hfold, hsteps, undoneTxs, List.flatMap_singleton, List.foldl_map]
    rfl

theorem undoneTxs_cons (pindex : CBlockIndex) (blocks : List CBlockIndex) :
    undoneTxs (pindex :: blocks) = undoneTxs [pindex] ++ undoneTxs blocks := by
  simp [undoneTxs]

/-- Without room, or below level three, the loop only looks. -/
theorem verifyBlocks_idle {blocks : List CBlockIndex} {acc acc' : VerifyAcc}
    (hidle : ¬ 3 ≤ level ∨ fits ≤ acc.nDisconnected)
    (h : Proc.foldM (verifyBlock env amb fits level) blocks acc s = (.ok acc', s')) : acc' = acc ∧ s' = s := by
  induction blocks generalizing s with
  | nil =>
    rw [Proc.foldM_nil] at h
    simp only [Prod.mk.injEq, Except.ok.injEq] at h
    exact ⟨h.1.symm, h.2.symm⟩
  | cons pindex blocks ih =>
    obtain ⟨acc₁, s₁, hd, tl⟩ := Proc.foldM_cons_ok_iff.mp h
    unfold verifyBlock at hd
    obtain ⟨_, -, hd⟩ := Proc.lift_bind_ok_iff.mp hd
    rw [if_neg (by omega)] at hd
    simp only [Proc.pure_apply, Prod.mk.injEq, Except.ok.injEq] at hd
    obtain ⟨rfl, rfl⟩ := hd
    exact ih tl

/-- **The loop** runs the service undo of every block it has room for. -/
theorem verifyBlocks_ok {block : CBlock} {ancestors : List CBlock} {q : CBlockIndex → Bool} {acc acc' : VerifyAcc}
    (hq : ∀ pindex, q pindex = true → pindex.pprev.isSome = true) (hlevel : 3 ≤ level)
    (hstate : acc.pindexState = ⟨block, ancestors⟩)
    (h : Proc.foldM (verifyBlock env amb fits level) ((CBlockIndex.lineage block ancestors).takeWhile q) acc s
      = (.ok acc', s')) :
    s' = (undoneTxs (((CBlockIndex.lineage block ancestors).takeWhile q).take (fits - acc.nDisconnected))).foldl
      (undoService env) s := by
  induction ancestors generalizing block acc s with
  | nil =>
    -- the root has no parent, so the loop does not look at it
    have hroot : q ⟨block, []⟩ = false := by
      by_contra hne
      have hparent := hq ⟨block, []⟩ (by simpa using hne)
      simp [CBlockIndex.pprev] at hparent
    simp only [CBlockIndex.lineage, List.takeWhile_cons, hroot, Bool.false_eq_true, if_false, Proc.foldM_nil,
      Prod.mk.injEq, Except.ok.injEq] at h
    simp [CBlockIndex.lineage, hroot, undoneTxs, h.2]
  | cons parent ancestors ih =>
    by_cases hhead : q ⟨block, parent :: ancestors⟩ = true
    · rw [CBlockIndex.lineage, List.takeWhile_cons_of_pos hhead] at h ⊢
      by_cases hroom : acc.nDisconnected < fits
      · obtain ⟨acc₁, s₁, hd, tl⟩ := Proc.foldM_cons_ok_iff.mp h
        unfold verifyBlock at hd
        obtain ⟨_, -, hd⟩ := Proc.lift_bind_ok_iff.mp hd
        rw [if_pos ⟨hlevel, hstate.symm, hroom⟩] at hd
        obtain ⟨⟨coins, fClean⟩, s₂, hdis, hd⟩ := Proc.bind_ok_iff.mp hd
        simp only [Proc.pure_apply, Prod.mk.injEq, Except.ok.injEq] at hd
        obtain ⟨rfl, rfl⟩ := hd
        have htake : fits - acc.nDisconnected = (fits - (acc.nDisconnected + 1)) + 1 := by omega
        rw [htake, List.take_succ_cons, undoneTxs_cons, List.foldl_append, ← disconnectBlockClean_ok hdis]
        exact ih rfl tl
      · obtain ⟨-, rfl⟩ := verifyBlocks_idle (.inr (by omega)) h
        have hnone : fits - acc.nDisconnected = 0 := by omega
        simp [hnone, undoneTxs]
    · rw [CBlockIndex.lineage, List.takeWhile_cons_of_neg hhead] at h ⊢
      rw [Proc.foldM_nil] at h
      simp only [Prod.mk.injEq, Except.ok.injEq] at h
      simp [undoneTxs, h.2]

/-- **A verification that succeeds**: the fee lists were loaded, the tip blocks that fit were undone, and at level four they
    were connected again. -/
theorem verifyDB_ok {nCheckLevel nCheckDepth : Int} {node : Node} (hp : node.pindexBest.pprev ≠ none)
    (h : verifyDB env amb fits nCheckLevel nCheckDepth node s = (.ok (), s')) :
    ∃ acc s₁, Proc.foldM (verifyBlock env amb fits (max 0 (min 4 nCheckLevel)))
        (verifiedBlocks nCheckDepth node.pindexBest)
        ⟨⟨node.coinsTip, some node.pindexBest⟩, node.pindexBest, 0, false⟩ (loadSyscoinFees s) = (.ok acc, s₁) ∧
      s₁ = (undoneTxs (disconnectedTips fits nCheckLevel nCheckDepth node.pindexBest)).foldl (undoService env)
        (loadSyscoinFees s) ∧
      ((nCheckLevel < 4 ∧ s' = s₁) ∨ (4 ≤ nCheckLevel ∧ s' = (connectAll env amb node.pindexBest
        (node.pindexBest.downTo acc.pindexState).reverse acc.coins s₁).2)) := by
  unfold verifyDB at h
  rw [if_neg hp] at h
  obtain ⟨s₀, hload, h⟩ := Proc.update_bind_ok_iff.mp h
  rw [Except.ok.injEq] at hload
  subst hload
  obtain ⟨acc, s₁, hloop, h⟩ := Proc.bind_ok_iff.mp h
  obtain ⟨-, h⟩ := Proc.require_bind_ok_iff.mp h
  refine ⟨acc, s₁, hloop, ?_, ?_⟩
  · unfold disconnectedTips
    by_cases hlevel : 3 ≤ nCheckLevel
    · rw [if_pos hlevel]
      have hq : ∀ pindex : CBlockIndex, decide (pindex.pprev.isSome = true ∧ ¬ pindex.nHeight <
          node.pindexBest.nHeight - checkDepth nCheckDepth node.pindexBest.nHeight) = true →
          pindex.pprev.isSome = true := fun pindex hall => (of_decide_eq_true hall).1
      have hlevel' : 3 ≤ max 0 (min 4 nCheckLevel) := by omega
      have hstate : (⟨⟨node.coinsTip, some node.pindexBest⟩, node.pindexBest, 0, false⟩ : VerifyAcc).pindexState =
        ⟨node.pindexBest.block, node.pindexBest.ancestors⟩ := rfl
      exact verifyBlocks_ok hq hlevel' hstate hloop
    · rw [if_neg hlevel]
      have hlevel' : ¬ 3 ≤ max 0 (min 4 nCheckLevel) := by omega
      exact (verifyBlocks_idle (.inl hlevel') hloop).2
  · by_cases hlevel : 4 ≤ nCheckLevel
    · rw [if_pos (by omega)] at h
      obtain ⟨view, s₂, hconn, h⟩ := Proc.bind_ok_iff.mp h
      simp only [Proc.pure_apply, Prod.mk.injEq] at h
      exact .inr ⟨hlevel, by rw [hconn, ← h.2]⟩
    · rw [if_neg (by omega)] at h
      simp only [Proc.pure_apply, Prod.mk.injEq] at h
      exact .inl ⟨by omega, h.2.symm⟩

end Ok

end Syscoin

import Mathlib.Algebra.Order.BigOperators.Group.List
import Syscoin.Chain.Growth
import Syscoin.Correctness.Fees

/-!
# `Correctness.Regeneration` — the fees that come back

Service fees are burned in `OP_RETURN` outputs and come back as block subsidies: averages over the last hour and the last
twelve hours. The windows end at the newest fee record and not at the block, so a fee never leaves them while no other
one follows, and every block gets its share of it for ever. The shares fall with the height, but they add up to more than
was burned. What holds is that the share of a single block is never more than all that was burned before
(`subsidy_le_burned`).
-/

namespace Syscoin

open Lib

/-! ## Subsidies and burned coins -/

namespace FeeList

/-- `GetAliasFeeSubsidy`, `GetOfferFeeSubsidy` and `GetCertFeeSubsidy`. -/
def subsidy : FeeList → Nat → List CFee → Except Reject Nat
  | .aliasFees => getAliasFeeSubsidy
  | .offerFees => getOfferFeeSubsidy
  | .certFees => getCertFeeSubsidy

/-- The operation of the list's service in a transaction. -/
def decode : FeeList → CTransaction → Option (Op × Nat × List Bytes)
  | .aliasFees => decodeAliasTx
  | .offerFees => decodeOfferTx
  | .certFees => decodeCertTx

/-- What a transaction burns for the service. -/
def burns (list : FeeList) (tx : CTransaction) : Nat :=
  if tx.examined ∧ (list.decode tx).isSome = true then tx.getNetFee.toNat else 0

/-- What the transactions of a chain burn for the service. -/
def burned (list : FeeList) (chain : List CBlock) : Nat :=
  (chain.map fun block => (block.vtx.map list.burns).sum).sum

/-- The subsidy that `GetBlockValue` includes for the best block of a node. -/
def subsidyOf (list : FeeList) (node : Node) : Except Reject Nat :=
  list.subsidy node.pindexBest.nHeight (node.store.fees list)

/-- What the blocks from `MM_FEEREGEN_HARDFORK` on get. -/
def regenerated (list : FeeList) (nodes : List Node) : Nat :=
  ((nodes.filter fun node => MM_FEEREGEN_HARDFORK ≤ node.pindexBest.nHeight).map fun node =>
    (list.subsidyOf node).toOption.getD 0).sum

end FeeList

/-- The total of a fee list. -/
def totalFees (fees : List CFee) : Nat := (fees.map (·.nFee)).sum

/-! ## A subsidy is at most the total -/

section Scan

variable {nHeight h12 : Nat} {fees : List CFee}

/-- The sums of the scan are within the total so far, and until a record is found nothing has happened. -/
structure SubsidyScan.Within (blk nTotal : Nat) (acc : SubsidyScan) : Prop where
  found : acc.bFound = true → acc.hr1 ≤ nTotal ∧ acc.hr12 ≤ nTotal
  idle : acc.bFound = false → acc = ⟨false, 0, 0, 1, 1, blk, blk⟩

theorem SubsidyScan.Within.step {blk nTotal : Nat} {acc : SubsidyScan} (h : acc.Within blk nTotal) (fee : CFee) :
    (acc.step nHeight h12 fee).Within blk (nTotal + fee.nFee) := by
  -- where the sums are not about to be set to zero, they are within the total already
  have hgoing : acc.nTargetTime ≠ 0 → acc.hr1 ≤ nTotal ∧ acc.hr12 ≤ nTotal := by
    intro htarget
    cases hfound : acc.bFound with
    | true => exact h.found hfound
    | false =>
      rw [h.idle hfound] at htarget
      exact absurd rfl htarget
  have hmod : ∀ hr, hr ≤ nTotal → (hr + fee.nFee) % 2 ^ 64 ≤ nTotal + fee.nFee := by
    intro hr hle
    have hmod := Nat.mod_le (hr + fee.nFee) (2 ^ 64)
    omega
  have hkeep : ∀ hr, hr ≤ nTotal → hr ≤ nTotal + fee.nFee := fun hr hle => by omega
  unfold SubsidyScan.step
  dsimp only
  split
  · refine ⟨fun _ => ?_, fun hidle => ?_⟩
    · split
      · split
        · split
          · exact ⟨hmod 0 (Nat.zero_le _), hmod 0 (Nat.zero_le _)⟩
          · exact ⟨Nat.zero_le _, hmod 0 (Nat.zero_le _)⟩
        · exact ⟨Nat.zero_le _, Nat.zero_le _⟩
      · rename_i htarget
        obtain ⟨h1, h12'⟩ := hgoing htarget
        split
        · split
          · exact ⟨hmod _ h1, hmod _ h12'⟩
          · exact ⟨hkeep _ h1, hmod _ h12'⟩
        · exact ⟨hkeep _ h1, hkeep _ h12'⟩
    · exfalso
      revert hidle
      rename_i hfound
      repeat' split
      all_goals simp [hfound]
  · rename_i hfound
    have hidle : acc.bFound = false ∧ fee.nHeight > nHeight := by simpa using hfound
    refine ⟨fun hf => absurd hf hfound, fun _ => ?_⟩
    rw [h.idle hidle.1]
    simpa using hidle.2

theorem SubsidyScan.Within.foldl {blk nTotal : Nat} {acc : SubsidyScan} (h : acc.Within blk nTotal) (fees : List CFee) :
    (fees.foldl (SubsidyScan.step nHeight h12) acc).Within blk (nTotal + totalFees fees) := by
  induction fees generalizing acc nTotal with
  | nil => exact h
  | cons fee fees ih =>
    rw [totalFees, List.map_cons, List.sum_cons, ← Nat.add_assoc]
    exact ih (h.step fee)

theorem feeAverages_le {hr1 hr12 : Nat} (h : feeAverages h12 nHeight fees = .ok (hr1, hr12)) :
    hr1 ≤ totalFees fees ∧ hr12 ≤ totalFees fees := by
  unfold feeAverages at h
  obtain ⟨-, h⟩ := require_bind_ok_iff.mp h
  obtain ⟨-, h⟩ := require_bind_ok_iff.mp h
  simp only [Except.ok.injEq, Prod.mk.injEq] at h
  obtain ⟨rfl, rfl⟩ := h
  have hinit : SubsidyScan.Within ((nHeight + 2 ^ 32 - 1) % 2 ^ 32) 0
      ⟨false, 0, 0, 1, 1, (nHeight + 2 ^ 32 - 1) % 2 ^ 32, (nHeight + 2 ^ 32 - 1) % 2 ^ 32⟩ :=
    ⟨fun hf => absurd hf Bool.false_ne_true, fun _ => rfl⟩
  have hscan : (fees.foldl (SubsidyScan.step nHeight h12) ⟨false, 0, 0, 1, 1, (nHeight + 2 ^ 32 - 1) % 2 ^ 32,
      (nHeight + 2 ^ 32 - 1) % 2 ^ 32⟩).Within _ (0 + totalFees fees) := hinit.foldl fees
  rw [Nat.zero_add] at hscan
  generalize fees.foldl (SubsidyScan.step nHeight h12)
    ⟨false, 0, 0, 1, 1, (nHeight + 2 ^ 32 - 1) % 2 ^ 32, (nHeight + 2 ^ 32 - 1) % 2 ^ 32⟩ = acc at hscan ⊢
  cases hfound : acc.bFound with
  | true =>
    obtain ⟨h1, h12'⟩ := hscan.found hfound
    exact ⟨(Nat.div_le_self _ _).trans h1, (Nat.div_le_self _ _).trans h12'⟩
  | false =>
    -- the ones that the sums start with are divided by two
    have hspan : blockSpan nHeight ((nHeight + 2 ^ 32 - 1) % 2 ^ 32) = 2 := by
      unfold blockSpan
      omega
    rw [hscan.idle hfound]
    simp only [hspan]
    exact ⟨Nat.zero_le _, Nat.zero_le _⟩

/-- **A subsidy is at most the total of its list.** -/
theorem FeeList.subsidy_le {list : FeeList} {b : Nat} (h : list.subsidy nHeight fees = .ok b) : b ≤ totalFees fees := by
  have hmax : feeSubsidyMax nHeight fees = .ok b → b ≤ totalFees fees := by
    intro h
    obtain ⟨⟨hr1, hr12⟩, havg, h⟩ := Except.bind_ok_iff.mp h
    obtain ⟨h1, h12⟩ := feeAverages_le havg
    rw [← Except.ok.inj h]
    exact max_le h1 h12
  cases list with
  | aliasFees =>
    obtain ⟨⟨hr1, hr12⟩, havg, h⟩ := Except.bind_ok_iff.mp h
    obtain ⟨h1, h12⟩ := feeAverages_le havg
    have hmod := Nat.mod_le (hr12 + hr1) (2 ^ 64)
    rw [← Except.ok.inj h]
    omega
  | offerFees => exact hmax h
  | certFees => exact hmax h

end Scan

/-! ## The total is at most what was burned -/

section Burned

variable {env : Env} {pindexBest pindex : CBlockIndex} {tx : CTransaction} {inputs : CoinsView} {s s' : Store}
  {fees : List CFee}

theorem totalFees_insertAliasFee (hash : Uint256) (nValue : Int) :
    totalFees (insertAliasFee pindex hash nValue fees) ≤ totalFees fees + toUint64 nValue := by
  unfold insertAliasFee upsertFront
  cases hr : replaceFirst (fun fee : CFee => decide (fee.hash = hash ∧ fee.nHeight = pindex.nHeight))
      ⟨hash, pindex.nTime, pindex.nHeight, toUint64 nValue⟩ fees with
  | none =>
    simp only [Option.getD_none, totalFees, List.map_cons, List.sum_cons]
    omega
  | some fees' =>
    obtain ⟨l₁, x, l₂, rfl, rfl, -⟩ := replaceFirst_eq_some hr
    simp only [Option.getD_some, totalFees, List.map_append, List.map_cons, List.sum_append, List.sum_cons]
    omega

theorem totalFees_insertFeeUnhashed (nValue : Int) :
    totalFees (insertFeeUnhashed pindex nValue fees) ≤ totalFees fees + toUint64 nValue := by
  unfold insertFeeUnhashed
  split
  · exact Nat.le_add_right _ _
  · simp only [totalFees, List.map_cons, List.sum_cons]
    omega

/-- What `CheckTransaction` lets through burns no negative amount, so the record holds what was burned at most. -/
theorem toUint64_getNetFee_le (h : checkTransaction tx = .ok ()) : toUint64 tx.getNetFee ≤ tx.getNetFee.toNat := by
  simp only [checkTransaction, require_bind_ok_iff] at h
  obtain ⟨-, -, -, h⟩ := h
  obtain ⟨⟨⟩, houts, -⟩ := Except.bind_ok_iff.mp h
  have hpos : 0 ≤ tx.getNetFee := by
    refine List.sum_nonneg fun x hx => ?_
    obtain ⟨o, ho, rfl⟩ := List.mem_map.mp hx
    exact checkOutputs_nonneg houts o (List.mem_of_mem_filter ho)
  unfold toUint64
  omega

/-- **One transaction** adds at most what it burns. -/
theorem SpendStep.totalFees_le (h : SpendStep env pindexBest pindex tx inputs s s') (hcb : tx.isCoinBase = false)
    (hcheck : checkTransaction tx = .ok ()) (list : FeeList) :
    totalFees (s'.fees list) ≤ totalFees (s.fees list) + list.burns tx := by
  have hburns : ∀ {r}, tx.examined → list.decode tx = some r → toUint64 tx.getNetFee ≤ list.burns tx := by
    intro r hex hop
    rw [FeeList.burns, if_pos ⟨hex, by rw [hop]; rfl⟩]
    exact toUint64_getNetFee_le hcheck
  cases list with
  | aliasFees =>
    rcases h.aliasStep with ⟨-, hsame⟩ | halias
    · rw [Store.fees, hsame]
      exact Nat.le_add_right _ _
    · simp only [Store.fees, halias.fees hcb]
      split
      · rename_i hrec
        obtain ⟨hex, -, r, hr, -⟩ := hrec
        exact (totalFees_insertAliasFee _ _).trans (Nat.add_le_add_left (hburns hex hr) _)
      · exact Nat.le_add_right _ _
  | offerFees =>
    rcases h.offerStep with ⟨-, hsame⟩ | hoffer
    · rw [Store.fees, hsame]
      exact Nat.le_add_right _ _
    · simp only [Store.fees, hoffer.fees hcb]
      split
      · rename_i hrec
        obtain ⟨hex, -, r, hr, -⟩ := hrec
        exact (totalFees_insertFeeUnhashed _).trans (Nat.add_le_add_left (hburns hex hr) _)
      · exact Nat.le_add_right _ _
  | certFees =>
    rcases h.certStep with ⟨-, hsame⟩ | hcert
    · rw [Store.fees, hsame]
      exact Nat.le_add_right _ _
    · simp only [Store.fees, hcert.fees hcb]
      split
      · rename_i hrec
        obtain ⟨hex, -, r, hr, -⟩ := hrec
        exact (totalFees_insertFeeUnhashed _).trans (Nat.add_le_add_left (hburns hex hr) _)
      · exact Nat.le_add_right _ _

theorem TxSteps.totalFees_le {C : Site → Prop} {acc acc' : ConnectAcc} {txs : List CTransaction}
    (h : TxSteps env C pindexBest pindex acc txs s acc' s') (hcheck : ∀ tx ∈ txs, checkTransaction tx = .ok ())
    (list : FeeList) : totalFees (s'.fees list) ≤ totalFees (s.fees list) + (txs.map list.burns).sum := by
  induction h with
  | nil => exact Nat.le_add_right _ _
  | @cons acc acc₁ acc' tx txs s s₁ s' _ hd _ ih =>
    obtain ⟨hhead, htail⟩ := List.forall_mem_cons.mp hcheck
    have hstep : totalFees (s₁.fees list) ≤ totalFees (s.fees list) + list.burns tx := by
      cases hd with
      | coinbase => exact Nat.le_add_right _ _
      | spend hcb _ hstep => exact hstep.totalFees_le hcb hhead list
    have hrest := ih htail
    rw [List.map_cons, List.sum_cons]
    omega

theorem checkBlock_transactions {nNow : Nat} {f g : Bool} (h : checkBlock env nNow pindex f g = .ok ()) :
    ∀ tx ∈ pindex.block.vtx, checkTransaction tx = .ok () := by
  simp only [checkBlock, require_bind_ok_iff] at h
  obtain ⟨-, -, -, -, -, h⟩ := h
  obtain ⟨⟨⟩, htxs, -⟩ := Except.bind_ok_iff.mp h
  exact Except.forM_ok_iff.mp htxs

/-- **A whole chain**: the fee lists hold at most what its transactions burned. -/
theorem totalFees_le_burned {genesis : CBlock} {node : Node} {C : Site → Prop} (h : Grown env C genesis node)
    (list : FeeList) : totalFees (node.store.fees list) ≤ list.burned node.pindexBest.chain := by
  induction h with
  | init =>
    have hnone : (Node.init genesis).store.fees list = [] := by cases list <;> rfl
    rw [hnone]
    exact Nat.zero_le _
  | @step node node' amb pindexNew _ hprev ok meets ih =>
    obtain ⟨view, s', hblock, rfl⟩ := (setBestChain_extend_ok hprev).mp ok
    rw [callSites_extend hprev] at meets
    obtain ⟨hpro, hcases⟩ := connectBlock_ok hblock meets
    have hcommit : (commit amb pindexNew view s').store.fees list = s'.fees list := by cases list <;> rfl
    have hchain : list.burned pindexNew.chain =
        (pindexNew.block.vtx.map list.burns).sum + list.burned node.pindexBest.chain := by
      rw [CBlockIndex.chain_eq_cons_of_pprev hprev]
      rfl
    rw [hcommit]
    show _ ≤ list.burned pindexNew.chain
    rw [hchain]
    rcases hcases with ⟨-, rfl, -⟩ | ⟨-, acc, s₁, hsteps, rfl, -⟩
    · omega
    · have hwrite : (writeBlock env pindexNew acc.blockundo s₁).fees list = s₁.fees list := by cases list <;> rfl
      have hadd := hsteps.totalFees_le (checkBlock_transactions (connectPrologue_checkBlock hpro)) list
      rw [hwrite]
      omega

end Burned

/-- **No block gets back more than was burned**: each of the three subsidies that its block value includes is at most
    what the transactions of the chain, its own among them, have burned for the service. -/
theorem subsidies_le_burned {env : Env} {genesis : CBlock} {node : Node} {nodes : List Node} {nFees value : Int}
    (h : Growth env genesis (node :: nodes))
    (hvalue : getBlockValue env node.store node.pindexBest.nHeight nFees = .ok value) :
    ∃ subsidy : FeeList → Nat, (∀ list : FeeList, list.subsidyOf node = .ok (subsidy list)) ∧
      (∀ list : FeeList, subsidy list ≤ list.burned node.pindexBest.chain) ∧
      value ≤ blockSubsidy env node.pindexBest.nHeight + nFees +
        (subsidy .aliasFees + subsidy .offerFees + subsidy .certFees : Nat) := by
  obtain ⟨b, hb, hvalue⟩ := Except.bind_ok_iff.mp hvalue
  obtain ⟨c, hc, hvalue⟩ := Except.bind_ok_iff.mp hvalue
  obtain ⟨d, hd, hvalue⟩ := Except.bind_ok_iff.mp hvalue
  have hsubsidy : ∀ list : FeeList, list.subsidyOf node = .ok (FeeList.rec b c d list) := by
    intro list
    cases list with
    | aliasFees => exact hb
    | offerFees => exact hc
    | certFees => exact hd
  refine ⟨fun list => FeeList.rec b c d list, hsubsidy, fun list => ?_, ?_⟩
  · exact (FeeList.subsidy_le (hsubsidy list)).trans (totalFees_le_burned h.grown list)
  · -- as signed 64-bit numbers the subsidies can only be smaller
    have hbmod : ∀ n : Nat, (n : Int).bmod (2 ^ 64) ≤ n := by
      intro n
      rw [Int.bmod_def]
      split <;> omega
    have hb' := hbmod b
    have hc' := hbmod c
    have hd' := hbmod d
    rw [← Except.ok.inj hvalue]
    show _ ≤ blockSubsidy env node.pindexBest.nHeight + nFees + ((b + c + d : Nat) : Int)
    split
    · omega
    · omega

namespace Cakenet

/-- The averages over one record that is at or below the height. -/
theorem feeAverages_single {fee : CFee} {h12 nHeight : Nat} (hle : fee.nHeight ≤ nHeight) (hheight : nHeight < 2 ^ 32 - 1)
    (hpos : 12 ≤ h12) (htime : h12 < fee.nTime) (hwidth : fee.nTime < 2 ^ 32) (hfee : fee.nFee < 2 ^ 64) :
    feeAverages h12 nHeight [fee] =
      .ok (fee.nFee / (nHeight - fee.nHeight + 1), fee.nFee / (nHeight - fee.nHeight + 1)) := by
  have htarget : (fee.nTime + 2 ^ 32 - h12) % 2 ^ 32 < fee.nTime := by omega
  have htarget1 : (fee.nTime + 2 ^ 32 - h12 / 12) % 2 ^ 32 < fee.nTime := by omega
  have hmod : fee.nFee % 2 ^ 64 = fee.nFee := Nat.mod_eq_of_lt hfee
  have hspan : blockSpan nHeight (fee.nHeight % 2 ^ 32) = nHeight - fee.nHeight + 1 := by
    unfold blockSpan
    omega
  unfold feeAverages
  simp only [List.foldl_cons, List.foldl_nil, SubsidyScan.step, hle, decide_true, Bool.or_true, if_true, htarget,
    htarget1, Nat.zero_add, hmod, hspan]
  exact require_bind_ok_iff.mpr ⟨by omega, require_bind_ok_iff.mpr ⟨by omega, rfl⟩⟩

section Fallow

variable {node : Node} {id nTop : Nat} {nodes : List Node} {fee : CFee}

theorem burned_fallowTip (h : Fallow node id nTop) (hnew : id ≠ 0) {n : Nat} (hid : id + n ≤ 1000000)
    (hheight : node.pindexBest.nHeight + n ≤ nTop) (list : FeeList) :
    list.burned (fallowTip node id n).pindexBest.chain = list.burned node.pindexBest.chain := by
  induction n with
  | zero => rfl
  | succ n ih =>
    obtain ⟨hf, hh, -⟩ := h.tip hnew (n := n) (by omega) (by omega)
    have hbest := (hf.step (by omega) (by omega) (by omega)).2.1
    have hnone : list.burns (coinbase (id + n) [pay (128 * COIN)]) = 0 := if_neg fun hex => by cases hex.1.1
    show list.burned (nodeThen (fallowTip node id n) _).pindexBest.chain = _
    rw [hbest, CBlockIndex.chain_eq_cons_of_pprev (mine_pprev _ _ _), ← ih (by omega) (by omega)]
    simp [FeeList.burned, mine, hnone]

/-- A single fee record, which every later block draws on. -/
structure OneFee (node : Node) (fee : CFee) : Prop where
  list : node.store.aliasdb.lstAliasFees = [fee]
  below : fee.nHeight ≤ node.pindexBest.nHeight
  early : 60 * 60 * 12 < fee.nTime
  width : fee.nTime < 2 ^ 32
  amount : fee.nFee < 2 ^ 63

theorem getAliasFeeSubsidy_single {nHeight : Nat} (hfee : OneFee node fee) (hle : fee.nHeight ≤ nHeight)
    (hheight : nHeight < 2 ^ 32 - 1) :
    getAliasFeeSubsidy nHeight [fee] = .ok (fee.nFee / (nHeight - fee.nHeight + 1)) := by
  have hamount := hfee.amount
  have havg := feeAverages_single hle hheight (by decide) hfee.early hfee.width (by omega)
  refine Except.bind_ok_iff.mpr ⟨_, havg, ?_⟩
  have hdiv := Nat.div_le_self fee.nFee (nHeight - fee.nHeight + 1)
  dsimp only
  generalize fee.nFee / (nHeight - fee.nHeight + 1) = q at hdiv
  congr 1
  omega

/-- More fallow blocks from `MM_FEEREGEN_HARDFORK` on: each gets at least what the last one gets. -/
theorem regenerated_fallowNodes (h : Fallow node id nTop) (hnew : id ≠ 0) (hfee : OneFee node fee) {n : Nat}
    (hlaunch : MM_FEEREGEN_HARDFORK ≤ node.pindexBest.nHeight + n) (m : Nat) (hid : id + (n + m) ≤ 1000000)
    (hheight : node.pindexBest.nHeight + (n + m) ≤ nTop) (htop : nTop < 2 ^ 32 - 1) :
    FeeList.aliasFees.regenerated (fallowNodes node id nodes n) +
        m * (fee.nFee / (node.pindexBest.nHeight + (n + m) - fee.nHeight + 1)) ≤
      FeeList.aliasFees.regenerated (fallowNodes node id nodes (n + m)) := by
  induction m with
  | zero => simp
  | succ m ih =>
    have hbefore := ih (by omega) (by omega)
    have hbelow := hfee.below
    obtain ⟨-, hh, halias, -⟩ := h.tip hnew (n := n + (m + 1)) hid hheight
    have hsubsidy : FeeList.aliasFees.subsidyOf (fallowTip node id (n + (m + 1))) =
        .ok (fee.nFee / (node.pindexBest.nHeight + (n + (m + 1)) - fee.nHeight + 1)) := by
      rw [← getAliasFeeSubsidy_single hfee (by omega) (by omega)]
      show getAliasFeeSubsidy (fallowTip node id (n + (m + 1))).pindexBest.nHeight
        (fallowTip node id (n + (m + 1))).store.aliasdb.lstAliasFees = _
      rw [hh, halias, hfee.list]
    have hlater : FeeList.aliasFees.regenerated (fallowNodes node id nodes (n + (m + 1))) =
        fee.nFee / (node.pindexBest.nHeight + (n + (m + 1)) - fee.nHeight + 1) +
          FeeList.aliasFees.regenerated (fallowNodes node id nodes (n + m)) := by
      show FeeList.aliasFees.regenerated (fallowTip node id (n + (m + 1)) :: fallowNodes node id nodes (n + m)) = _
      unfold FeeList.regenerated
      rw [List.filter_cons_of_pos (by rw [hh]; exact decide_eq_true (by omega)), List.map_cons, List.sum_cons, hsubsidy]
      rfl
    -- the shares fall with the height
    have hfall : fee.nFee / (node.pindexBest.nHeight + (n + (m + 1)) - fee.nHeight + 1) ≤
        fee.nFee / (node.pindexBest.nHeight + (n + m) - fee.nHeight + 1) :=
      Nat.div_le_div_left (by omega) (by omega)
    have hmul := Nat.mul_le_mul_left m hfall
    rw [hlater, Nat.succ_mul]
    omega

end Fallow

/-- A chain that ends in the activation of a name, whose fee is the only one. -/
theorem exists_activation_node : ∃ node nodes, Growth env genesis (node :: nodes) ∧ Fallow node 1000 259440 ∧
    node.pindexBest = aliasBlock10 ∧ OneFee node ⟨101, 1400000600, 10, 517200000000⟩ := by
  have hgrown : Grown env (fun _ => True) genesis (grownTo aliasBlock10) := grown_grownTo (by decide +kernel)
  have hbest : (grownTo aliasBlock10).pindexBest = aliasBlock10 := by decide +kernel
  have halias : (grownTo aliasBlock10).store.aliasdb.lstAliasFees = [⟨101, 1400000600, 10, 517200000000⟩] := by
    decide +kernel
  have hoffer : (grownTo aliasBlock10).store.offerdb.lstOfferFees = [] := by decide +kernel
  have hcert : (grownTo aliasBlock10).store.certdb.lstCertIssuerFees = [] := by decide +kernel
  have hnumbers : ∀ block ∈ aliasBlock10.chain, ∀ tx ∈ block.vtx, env.getHash tx < 1000 := by decide +kernel
  have hheight : aliasBlock10.nHeight = 10 := rfl
  generalize grownTo aliasBlock10 = node at hgrown hbest halias hoffer hcert
  have hfee : OneFee node ⟨101, 1400000600, 10, 517200000000⟩ :=
    ⟨halias, by rw [hbest, hheight], by decide, by decide, by decide⟩
  obtain ⟨nodes, hgrowth⟩ := hgrown.growth
  refine ⟨node, nodes, hgrowth, ⟨fun hash hle => hgrown.dead fun block hblock tx htx heq => ?_, ?_⟩, hbest, hfee⟩
  · rw [hbest] at hblock
    have hlt := hnumbers block hblock tx htx
    rw [heq] at hlt
    exact absurd hle (not_le.mpr hlt)
  · intro nHeight hlow hhigh
    rw [hbest, hheight] at hlow
    have hbelow : 10 ≤ nHeight := by omega
    have hwidth : nHeight < 2 ^ 32 - 1 := by omega
    have hsubsidy := getAliasFeeSubsidy_single hfee hbelow hwidth
    rw [← halias] at hsubsidy
    refine getBlockValue_ample hsubsidy ?_ hoffer hcert (by omega) hhigh
    exact lt_of_le_of_lt (Nat.div_le_self _ _) (by decide)

/-- The block with the activation. -/
theorem activation_subsidy_le_burned :
    ∃ node value, node.pindexBest = aliasBlock10 ∧
      getBlockValue env node.store node.pindexBest.nHeight 0 = .ok value ∧
      ∃ subsidy : FeeList → Nat, (∀ list : FeeList, list.subsidyOf node = .ok (subsidy list)) ∧
        (∀ list : FeeList, subsidy list ≤ list.burned node.pindexBest.chain) ∧
        value ≤ blockSubsidy env node.pindexBest.nHeight + 0 +
          (subsidy .aliasFees + subsidy .offerFees + subsidy .certFees : Nat) := by
  have hgrown : Grown env (fun _ => True) genesis (grownTo aliasBlock10) := grown_grownTo (by decide +kernel)
  have hbest : (grownTo aliasBlock10).pindexBest = aliasBlock10 := by decide +kernel
  have hok : (getBlockValue env (grownTo aliasBlock10).store (grownTo aliasBlock10).pindexBest.nHeight 0).isOk = true := by
    decide +kernel
  generalize grownTo aliasBlock10 = node at hgrown hbest hok
  obtain ⟨nodes, hgrowth⟩ := hgrown.growth
  cases hvalue : getBlockValue env node.store node.pindexBest.nHeight 0 with
  | error e =>
    rw [hvalue] at hok
    cases hok
  | ok value => exact ⟨node, value, hbest, hvalue, subsidies_le_burned hgrowth hvalue⟩

/-- A hundred and thirty-six thousand blocks after the activation of a name, more has been regenerated than was
    burned. -/
theorem regenerated_exceeds_burned :
    ∃ node nodes, Growth env genesis (node :: nodes) ∧
      FeeList.aliasFees.burned node.pindexBest.chain < FeeList.aliasFees.regenerated (node :: nodes) := by
  obtain ⟨node, nodes, hgrowth, hfallow, hbest, hfee⟩ := exists_activation_node
  have hheight : node.pindexBest.nHeight = 10 := by
    rw [hbest]
    rfl
  have hburned : FeeList.aliasFees.burned node.pindexBest.chain = 517200000000 := by
    rw [hbest]
    decide +kernel
  have hadd : ∀ n m, MM_FEEREGEN_HARDFORK ≤ node.pindexBest.nHeight + n → 1000 + (n + m) ≤ 1000000 →
      node.pindexBest.nHeight + (n + m) ≤ 259440 →
      FeeList.aliasFees.regenerated (fallowNodes node 1000 nodes n) +
          m * (517200000000 / (node.pindexBest.nHeight + (n + m) - 10 + 1)) ≤
        FeeList.aliasFees.regenerated (fallowNodes node 1000 nodes (n + m)) :=
    fun n m hlaunch hid htop => regenerated_fallowNodes hfallow (by decide) hfee hlaunch m hid htop (by decide)
  rw [hheight] at hadd
  -- each doubling of the height regenerates about half of the fee
  have hfirst := hadd 17000 17000 (by decide) (by decide) (by decide)
  have hsecond := hadd 34000 34000 (by decide) (by decide) (by decide)
  have hthird := hadd 68000 68000 (by decide) (by decide) (by decide)
  simp only [Nat.reduceAdd, Nat.reduceSub, Nat.reduceDiv, Nat.reduceMul] at hfirst hsecond hthird
  have hgrown := hfallow.growth (by decide) hgrowth (n := 136000) (by decide) (by rw [hheight]; decide)
  have hchain := burned_fallowTip hfallow (by decide) (n := 136000) (by decide) (by rw [hheight]; decide) .aliasFees
  refine ⟨fallowTip node 1000 136000, fallowNodes node 1000 nodes 135999, hgrown, ?_⟩
  rw [hchain, hburned]
  show 517200000000 < FeeList.aliasFees.regenerated (fallowNodes node 1000 nodes 136000)
  omega

end Cakenet

end Syscoin

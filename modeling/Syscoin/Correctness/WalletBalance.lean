import Mathlib.Data.List.InsertIdx
import Mathlib.Data.List.Nodup
import Syscoin.Correctness.NameOutputs

/-!
# `Correctness.WalletBalance` — what a wallet transaction costs

Both loops end: a round that is repeated has a higher fee than the one before, and fees are `int64`. What they return
spends exactly its outputs and the fee, and the fee is what a transaction of its size takes. For
`CreateTransactionWithInputTx` change below a cent is left over and goes to the fee as well.

The payments are among the outputs, but in a transaction with data a payment of zero is left out (`zero_not_paid_largest_unfunded`). All
this is about amounts that fit: `int64` sums wrap, and the largest payment is paid from nothing.
-/

namespace Syscoin

open Lib

/-! ## Termination -/

section

variable {round : Nat → Int → Except String RoundResult} {P : Int → Prop} {limit : Int}

/-- A round that is not repeated is the last one. -/
theorem feeLoop_settles {k : Nat} {nFeeRet : Int} (hlast : ∀ nFee, round k nFeeRet ≠ .ok (.again nFee)) (n : Nat) :
    ∃ result, ∀ more, n < more → feeLoop round more k nFeeRet = some result := by
  cases hround : round k nFeeRet with
  | error message =>
    refine ⟨.error message, fun more hmore => ?_⟩
    obtain ⟨rounds, rfl⟩ := Nat.exists_eq_add_of_lt hmore
    rw [feeLoop, hround]
  | ok result =>
    cases result with
    | done tx nFee =>
      refine ⟨.ok (tx, nFee), fun more hmore => ?_⟩
      obtain ⟨rounds, rfl⟩ := Nat.exists_eq_add_of_lt hmore
      rw [feeLoop, hround]
    | again nFee => exact absurd hround (hlast nFee)

/-- **The loop ends** when a round that is repeated raises the fee, which has a limit. -/
theorem feeLoop_terminates (hagain : ∀ k nFeeRet nFee, P nFeeRet → round k nFeeRet = .ok (.again nFee) →
      P nFee ∧ nFeeRet < nFee ∧ nFee ≤ limit) (k : Nat) {nFeeRet : Int} (hstart : P nFeeRet) (n : Nat)
    (hn : limit - nFeeRet < n) : ∃ result, ∀ more, n < more → feeLoop round more k nFeeRet = some result := by
  induction n generalizing k nFeeRet with
  | zero =>
    -- there is no room for a higher fee
    apply feeLoop_settles
    intro nFee hround
    obtain ⟨-, hless, hlimit⟩ := hagain k nFeeRet nFee hstart hround
    omega
  | succ n ih =>
    by_cases hrepeated : ∃ nFee, round k nFeeRet = .ok (.again nFee)
    · obtain ⟨nFee, hround⟩ := hrepeated
      obtain ⟨hnext, hless, -⟩ := hagain k nFeeRet nFee hstart hround
      obtain ⟨result, hresult⟩ := ih (k + 1) hnext (by omega)
      refine ⟨result, fun more hmore => ?_⟩
      obtain ⟨rounds, rfl⟩ := Nat.exists_eq_add_of_lt hmore
      rw [show n + 1 + rounds + 1 = (n + rounds + 1) + 1 by omega, feeLoop, hround]
      exact hresult _ (by omega)
    · apply feeLoop_settles
      intro nFee hround
      exact hrepeated ⟨nFee, hround⟩

/-- So it ends for some number of rounds. -/
theorem feeLoop_ends (hagain : ∀ k nFeeRet nFee, P nFeeRet → round k nFeeRet = .ok (.again nFee) →
      P nFee ∧ nFeeRet < nFee ∧ nFee ≤ limit) {nFeeRet : Int} (hstart : P nFeeRet) :
    ∃ n result, ∀ more, n < more → feeLoop round more 0 nFeeRet = some result := by
  have hn : limit - nFeeRet < ((limit - nFeeRet).toNat + 1 : Nat) := by omega
  obtain ⟨result, hresult⟩ := feeLoop_terminates hagain 0 hstart _ hn
  exact ⟨_, result, hresult⟩

end

/-! ## The fee -/

/-- The configuration: fees that are not negative, in an `int64`. -/
structure SendEnv.Valid (env : SendEnv) : Prop where
  fee : 0 ≤ env.nTransactionFee
  minTxFee : env.nMinTxFee < 2 ^ 63
  minimum : 0 ≤ env.view.nMinimumInputValue

theorem toInt64_lt (n : Int) : toInt64 n < 2 ^ 63 := by
  have h := Int.bmod_lt (x := n) (m := 2 ^ 64) (by decide)
  norm_num at h
  exact h

theorem minFee_range (nBaseFee : Int) (fAllowFree : Bool) (mode : MinFeeMode) (tx : CTransaction) :
    0 ≤ tx.minFee nBaseFee fAllowFree mode ∧ tx.minFee nBaseFee fAllowFree mode ≤ MAX_MONEY := by
  have hclamp : ∀ n : Int, 0 ≤ (if moneyRange n then n else MAX_MONEY) ∧
      (if moneyRange n then n else MAX_MONEY) ≤ MAX_MONEY := by
    intro n
    by_cases hrange : moneyRange n
    · rw [if_pos hrange]
      exact hrange
    · rw [if_neg hrange]
      exact ⟨by decide, le_rfl⟩
  exact hclamp _

section

variable {env : SendEnv} {w : WalletState}

/-- **Moving change to the fee** moves it: together they stay the same, and neither falls short. -/
theorem moveToFee_spec (hmin : env.nMinTxFee < 2 ^ 63) {nFeeRet nChange : Int} (hfee : 0 ≤ nFeeRet) :
    let change := WalletState.moveToFee env nFeeRet nChange
    nFeeRet ≤ change.1 ∧ change.1 + change.2 = nFeeRet + nChange ∧ (0 ≤ nChange → 0 ≤ change.2) := by
  unfold WalletState.moveToFee
  have hcent : CENT = 1000000 := rfl
  by_cases hmove : nFeeRet < env.nMinTxFee ∧ 0 < nChange ∧ nChange < CENT
  · rw [if_pos hmove]
    obtain ⟨hless, hpos, hsmall⟩ := hmove
    dsimp only
    rw [toInt64_of_range (n := env.nMinTxFee - nFeeRet) (by omega) (by omega)]
    rcases le_total nChange (env.nMinTxFee - nFeeRet) with hle | hle
    · rw [min_eq_left hle, toInt64_of_range (by omega) (by omega), toInt64_of_range (by omega) (by omega)]
      exact ⟨by omega, by omega, fun _ => by omega⟩
    · rw [min_eq_right hle, toInt64_of_range (by omega) (by omega), toInt64_of_range (by omega) (by omega)]
      exact ⟨by omega, by omega, fun _ => by omega⟩
  · rw [if_neg hmove]
    exact ⟨le_rfl, rfl, fun h => h⟩

/-- No output is dust, so the change is paid out if there is any. -/
theorem payChange_ok {coinControl : Option CCoinControl} {choices : RoundChoices} {vout vout' : List CTxOut}
    {nFeeRet nFee nChange : Int}
    (h : WalletState.payChange coinControl choices vout nFeeRet nChange = .ok (vout', nFee)) :
    nFee = nFeeRet ∧ vout.Sublist vout' ∧
      (vout'.map (·.nValue)).sum = (vout.map (·.nValue)).sum + (if 0 < nChange then nChange else 0) := by
  unfold WalletState.payChange at h
  by_cases hchange : 0 < nChange
  · rw [if_pos hchange] at h ⊢
    dsimp only at h
    cases hscript : ((coinControl.bind fun coinControl =>
        if coinControl.destChange = .none then none else some (setDestination coinControl.destChange)) <|>
          choices.scriptChange) with
    | none =>
      rw [hscript] at h
      cases h
    | some scriptChange =>
      rw [hscript] at h
      simp only [CTxOut.isDust, Bool.false_eq_true, if_false] at h
      cases h
      refine ⟨rfl, List.sublist_insertIdx _ _ _, ?_⟩
      have hperm := List.perm_insertIdx (⟨nChange, scriptChange⟩ : CTxOut) vout
        (Nat.le_of_lt_succ (Nat.mod_lt choices.nPosition (Nat.succ_pos vout.length)))
      rw [(hperm.map (·.nValue)).sum_eq, List.map_cons, List.sum_cons, Int.add_comm]
  · rw [if_neg hchange] at h ⊢
    cases h
    exact ⟨rfl, List.Sublist.refl _, (Int.add_zero _).symm⟩

/-- The fee that is raised is an `int64`, above the one before and not negative. -/
theorem finishRound_again {mode : MinFeeMode} {nMaxBytes : Nat} {wtxNew : CTransaction} {coins : List COutput}
    {vout : List CTxOut} {choices : RoundChoices} {nFeeRet nFee : Int} {strSign strSize : String}
    (h : env.finishRound mode nMaxBytes wtxNew coins vout choices nFeeRet strSign strSize = .ok (.again nFee)) :
    nFeeRet < nFee ∧ 0 ≤ nFee ∧ nFee ≤ INT64_MAX := by
  obtain ⟨scriptSigs, -, ⟨hless, hagain⟩ | ⟨-, hdone⟩⟩ := finishRound_ok h
  · cases hagain
    obtain ⟨hlow, hhigh⟩ := minFee_range env.nMinTxFee choices.fAllowFree mode
      { wtxNew with vin := signed (coins.map env.input) scriptSigs, vout }
    refine ⟨hless, hlow.trans (le_max_right _ _), max_le ?_ (hhigh.trans (by decide))⟩
    exact Int.le_sub_one_of_lt (toInt64_lt _)
  · cases hdone

/-- A round of `CreateTransaction` is repeated with a higher fee. -/
theorem createRound_again (henv : env.Valid) {wtxNew : CTransaction} {vecSend : List (CScript × Int)} {nValue : Int}
    {coinControl : Option CCoinControl} {choices : RoundChoices} {nFeeRet nFee : Int} (hfee : 0 ≤ nFeeRet)
    (h : w.createRound env wtxNew vecSend nValue coinControl choices nFeeRet = .ok (.again nFee)) :
    0 ≤ nFee ∧ nFeeRet < nFee ∧ nFee ≤ INT64_MAX := by
  unfold WalletState.createRound at h
  dsimp only at h
  split_ifs at h
  cases hselect : selectCoins env.isFromMe choices.coins coinControl (toInt64 (nValue + nFeeRet))
      (w.availableCoins env.toWalletEnv env.view true coinControl) with
  | none =>
    rw [hselect] at h
    cases h
  | some ret =>
    rw [hselect] at h
    dsimp only at h
    have hmore : nFeeRet ≤ (WalletState.moveToFee env nFeeRet (toInt64 (toInt64 (ret.2 - nValue) - nFeeRet))).1 :=
      (moveToFee_spec henv.minTxFee hfee).1
    split at h
    · cases h
    · rename_i vout nFeeMoved hchange
      obtain ⟨rfl, -, -⟩ := payChange_ok hchange
      obtain ⟨hless, hlow, hhigh⟩ := finishRound_again h
      exact ⟨hlow, lt_of_le_of_lt hmore hless, hhigh⟩

/-- A round of `CreateTransactionWithInputTx` is repeated with a higher fee. -/
theorem createRoundWithInputTx_again {wtxNew : CTransaction} {vecSend : List (CScript × Int)} {nValue : Int}
    {input : COutput} {choices : RoundChoices} {nFeeRet nFee : Int}
    (h : w.createRoundWithInputTx env wtxNew vecSend nValue input choices nFeeRet = .ok (.again nFee)) :
    0 ≤ nFee ∧ nFeeRet < nFee ∧ nFee ≤ INT64_MAX := by
  unfold WalletState.createRoundWithInputTx at h
  dsimp only at h
  split at h
  · cases h
  · split at h
    · cases h
    · obtain ⟨hless, hlow, hhigh⟩ := finishRound_again h
      exact ⟨hlow, hless, hhigh⟩

/-! ## The payments -/

theorem sum_payments_nonneg {vecSend : List (CScript × Int)} (hpayments : ∀ s ∈ vecSend, 0 ≤ s.2) :
    0 ≤ (vecSend.map (·.2)).sum := by
  refine List.sum_nonneg fun x hx => ?_
  obtain ⟨s, hs, rfl⟩ := List.mem_map.mp hx
  exact hpayments s hs

theorem sumPayments_eq_some {vecSend : List (CScript × Int)} (hpayments : ∀ s ∈ vecSend, 0 ≤ s.2)
    (hfits : (vecSend.map (·.2)).sum < 2 ^ 63) {nValue : Int} (h : sumPayments vecSend = some nValue) :
    nValue = (vecSend.map (·.2)).sum := by
  have hfold : ∀ (l : List (CScript × Int)) (n : Int), 0 ≤ n → (∀ s ∈ l, 0 ≤ s.2) → n + (l.map (·.2)).sum < 2 ^ 63 →
      l.foldlM (fun nValue s => if nValue < 0 then none else some (toInt64 (nValue + s.2))) n =
        some (n + (l.map (·.2)).sum) := by
    intro l
    induction l with
    | nil =>
      intro n _ _ _
      show some n = some (n + 0)
      rw [Int.add_zero]
    | cons s l ih =>
      intro n hn hl hsum
      obtain ⟨hhead, htail⟩ := List.forall_mem_cons.mp hl
      have hrest := sum_payments_nonneg htail
      rw [List.map_cons, List.sum_cons] at hsum ⊢
      rw [List.foldlM_cons, if_neg (by omega), toInt64_of_range (by omega) (by omega)]
      show l.foldlM _ (n + s.2) = _
      rw [ih (n + s.2) (by omega) htail (by omega), Int.add_assoc]
  unfold sumPayments at h
  rw [hfold vecSend 0 le_rfl hpayments (by rwa [Int.zero_add]), Int.zero_add] at h
  dsimp only [Option.bind_eq_bind, Option.bind_some] at h
  split_ifs at h
  exact (Option.some.inj h).symm

/-- What the payees get is what is paid: the payments that are left out are zero. -/
theorem sum_payees (data : Bytes) (vecSend : List (CScript × Int)) :
    ((WalletState.payees data vecSend).map (·.nValue)).sum = (vecSend.map (·.2)).sum := by
  unfold WalletState.payees
  rw [List.map_map]
  induction vecSend with
  | nil => rfl
  | cons s vecSend ih =>
    by_cases hkeep : (!(decide (s.2 = 0) && decide (0 < data.length))) = true
    · rw [List.filter_cons, if_pos hkeep, List.map_cons, List.sum_cons, ih, List.map_cons, List.sum_cons]
      rfl
    · have hzero : s.2 = 0 := by
        simp only [Bool.not_eq_true', Bool.and_eq_false_iff, decide_eq_false_iff_not, not_or, not_not] at hkeep
        exact hkeep.1
      rw [List.filter_cons, if_neg hkeep, ih, List.map_cons, List.sum_cons, hzero, Int.zero_add]

/-! ## The coins -/

theorem availableCoins_nodup (fOnlyConfirmed : Bool) (coinControl : Option CCoinControl) :
    ((w.availableCoins env.toWalletEnv env.view fOnlyConfirmed coinControl).map (·.coin)).Nodup := by
  unfold WalletState.availableCoins
  rw [List.map_flatMap, List.nodup_flatMap]
  have hof : ∀ hash wtx, ((w.availableOf env.toWalletEnv env.view fOnlyConfirmed coinControl hash wtx).map
      (·.coin)).Sublist ((List.range wtx.vout.length).map fun i => (⟨hash, i⟩ : COutPoint)) := by
    intro hash wtx
    have hall : (List.range wtx.vout.length).map (fun i => (⟨hash, i⟩ : COutPoint)) =
        (w.outputs hash wtx).map (·.coin) := by
      unfold WalletState.outputs
      rw [List.map_map]
      rfl
    rw [hall]
    refine List.Sublist.map _ ?_
    unfold WalletState.availableOf
    split_ifs
    · exact List.nil_sublist _
    · exact List.nil_sublist _
    · exact List.nil_sublist _
    · exact List.filter_sublist
  constructor
  · intro item _
    refine (List.Nodup.map ?_ List.nodup_range).sublist (hof item.1 item.2)
    intro i j hij
    exact congrArg COutPoint.n hij
  · refine (List.nodupKeys_iff_pairwise.mp w.mapWallet.nodupKeys).imp fun {item item'} hne => ?_
    intro o ho ho'
    obtain ⟨i, -, rfl⟩ := List.mem_map.mp ((hof item.1 item.2).subset ho)
    obtain ⟨j, -, heq⟩ := List.mem_map.mp ((hof item'.1 item'.2).subset ho')
    exact hne (congrArg COutPoint.hash heq).symm

/-- The limit of a fee that is not moved up by change. -/
def SendEnv.feeLimit (env : SendEnv) : Int :=
  max MAX_MONEY (env.nTransactionFee * (1 + (MAX_STANDARD_TX_SIZE : Int) / 1000))

/-- Amounts that fit in an `int64`: the coins, and the payments with the highest fee and a cent. -/
structure AmountsFit (env : SendEnv) (w : WalletState) (coinControl : Option CCoinControl)
    (vecSend : List (CScript × Int)) (nCredit : Int) : Prop where
  payments : ∀ s ∈ vecSend, 0 ≤ s.2
  credit : 0 ≤ nCredit
  funds : nCredit + total (w.availableCoins env.toWalletEnv env.view true coinControl) < INT64_MAX
  fits : (vecSend.map (·.2)).sum + env.feeLimit + CENT < 2 ^ 63

/-- A fee that a round may start with. -/
def SendEnv.FeeInRange (env : SendEnv) (nFeeRet : Int) : Prop := 0 ≤ nFeeRet ∧ nFeeRet ≤ env.feeLimit

variable {coinControl : Option CCoinControl} {vecSend : List (CScript × Int)} {nCredit : Int} {choices : RoundChoices}

/-- **`SelectCoins`** with amounts that fit: some of what is available, with its total, which reaches the target. -/
theorem selectCoins_spec (henv : env.Valid) (hfunds : 0 ≤ nCredit ∧
      nCredit + total (w.availableCoins env.toWalletEnv env.view true coinControl) < INT64_MAX)
    (hshuffle : ∀ j l, ((choices.coins j).randomShuffle l).Perm l) {nTargetValue : Int} (htarget : 0 ≤ nTargetValue)
    (hfits : nTargetValue + CENT < 2 ^ 63) {setCoins : List COutput} {nValueIn : Int}
    (h : selectCoins env.isFromMe choices.coins coinControl nTargetValue
      (w.availableCoins env.toWalletEnv env.view true coinControl) = some (setCoins, nValueIn)) :
    setCoins.Subperm (w.availableCoins env.toWalletEnv env.view true coinControl) ∧ total setCoins = nValueIn ∧
      nTargetValue ≤ nValueIn := by
  set vCoins := w.availableCoins env.toWalletEnv env.view true coinControl with hvCoins
  have hdistinct : (vCoins.map (·.coin)).Nodup := availableCoins_nodup true coinControl
  have hnonneg : ∀ output ∈ vCoins, 0 ≤ output.nValue := fun output hout =>
    henv.minimum.trans (listed_of_mem hout).minimum
  have hmax : INT64_MAX = 2 ^ 63 - 1 := rfl
  have hamounts : ∀ fEligible, Amounts fEligible nTargetValue vCoins := by
    intro fEligible
    refine ⟨hdistinct, hnonneg, htarget, hfits, ?_, fun output hout _ => ?_⟩
    · have hle := total_le_of_subperm (List.filter_sublist (p := fun output =>
        fEligible output && decide (output.nValue < nTargetValue + CENT)) (l := vCoins)).subperm hnonneg
      unfold lower
      omega
    · have hle := total_le_of_subperm (List.singleton_subperm_iff.mpr hout) hnonneg
      rw [total_cons, total_nil] at hle
      omega
  have hminConf : ∀ {fEligible j}, selectCoinsMinConf fEligible (choices.coins j) nTargetValue vCoins =
      some (setCoins, nValueIn) → setCoins.Subperm vCoins ∧ total setCoins = nValueIn ∧ nTargetValue ≤ nValueIn := by
    intro fEligible j hsome
    obtain ⟨hsub, hexact, hreached⟩ := (selectCoinsMinConf_spec (hamounts fEligible) (hshuffle j vCoins)).2 _ _ hsome
    exact ⟨hsub.trans List.filter_sublist.subperm, hexact, hreached⟩
  unfold selectCoins at h
  dsimp only at h
  split_ifs at h with hcontrol hreached
  · -- all that is selected
    rw [foldl_insertCoin hdistinct hnonneg (by omega)] at h hreached
    obtain ⟨hcoins, hvalue⟩ := Prod.mk.inj (Option.some.inj h)
    rw [← hcoins, ← hvalue]
    exact ⟨List.Subperm.refl _, rfl, hreached⟩
  · rw [Option.orElse_eq_some, Option.orElse_eq_some] at h
    rcases h with h | ⟨-, h | ⟨-, h⟩⟩
    · exact hminConf h
    · exact hminConf h
    · exact hminConf h

theorem payFee_le (henv : env.Valid) (hfits : env.feeLimit < 2 ^ 63) {tx : CTransaction}
    (hsize : tx.nBytes < MAX_STANDARD_TX_SIZE) : env.payFee tx ≤ env.feeLimit := by
  have hfee := henv.fee
  have hbytes : (1 + (tx.nBytes : Int) / 1000) ≤ 1 + (MAX_STANDARD_TX_SIZE : Int) / 1000 := by
    have := Int.ediv_le_ediv (show (0 : Int) < 1000 by decide) (Int.ofNat_le.mpr hsize.le)
    exact Int.add_le_add_left this 1
  have hpos : 0 ≤ (1 + (tx.nBytes : Int) / 1000) := by
    have := Int.ediv_nonneg (Int.natCast_nonneg tx.nBytes) (show (0 : Int) ≤ 1000 by decide)
    omega
  have hle : env.nTransactionFee * (1 + (tx.nBytes : Int) / 1000) ≤ env.feeLimit :=
    (Int.mul_le_mul_of_nonneg_left hbytes hfee).trans (le_max_right _ _)
  have hnonneg := Int.mul_nonneg hfee hpos
  unfold SendEnv.payFee
  rwa [toInt64_of_range (by omega) (by omega)]

/-- The fee that is raised is in range. -/
theorem finishRound_feeInRange (henv : env.Valid) (hfits : env.feeLimit < 2 ^ 63) {mode : MinFeeMode} {nMaxBytes : Nat}
    (hmax : nMaxBytes ≤ MAX_STANDARD_TX_SIZE) {wtxNew : CTransaction} {coins : List COutput} {vout : List CTxOut}
    {nFeeRet nFee : Int} {strSign strSize : String}
    (h : env.finishRound mode nMaxBytes wtxNew coins vout choices nFeeRet strSign strSize = .ok (.again nFee)) :
    env.FeeInRange nFee := by
  obtain ⟨-, hlow, -⟩ := finishRound_again h
  obtain ⟨scriptSigs, hsize, ⟨-, hagain⟩ | ⟨-, hdone⟩⟩ := finishRound_ok h
  · cases hagain
    refine ⟨hlow, max_le (payFee_le henv hfits (hsize.trans_le hmax)) ?_⟩
    exact (minFee_range _ _ _ _).2.trans (le_max_left _ _)
  · cases hdone

theorem feeInRange_start (henv : env.Valid) : env.FeeInRange env.nTransactionFee := by
  refine ⟨henv.fee, ?_⟩
  have hone : (1 : Int) ≤ 1 + (MAX_STANDARD_TX_SIZE : Int) / 1000 := by decide
  have hle := Int.mul_le_mul_of_nonneg_left hone henv.fee
  rw [Int.mul_one] at hle
  exact hle.trans (le_max_right _ _)


/-! ## The balance -/

/-- What a transaction of the wallet costs: `spent` are its inputs in order, and pay for the outputs, the fee and what is
    left over. -/
structure Balanced (env : SendEnv) (mode : MinFeeMode) (choices : Nat → RoundChoices) (spent : List COutput)
    (nLeft : Int) (tx : CTransaction) (nFeeRet : Int) : Prop where
  inputs : tx.vin.map (·.prevout) = spent.map fun output => ⟨env.getHash output.tx.toCTransaction, output.i⟩
  balance : total spent = (tx.vout.map (·.nValue)).sum + nFeeRet + nLeft
  fee : ∃ k, max (env.payFee tx) (tx.minFee env.nMinTxFee (choices k).fAllowFree mode) ≤ nFeeRet

/-- The end of the last round: its fee is enough, and it spends the coins. -/
theorem balanced_of_finishRound {mode : MinFeeMode} {nMaxBytes : Nat} {wtxNew tx : CTransaction} {coins : List COutput}
    {vout : List CTxOut} {rounds : Nat → RoundChoices} {k : Nat} {nFee nFeeRet nLeft : Int} {strSign strSize : String}
    (hbalance : total coins = (vout.map (·.nValue)).sum + nFee + nLeft)
    (h : env.finishRound mode nMaxBytes wtxNew coins vout (rounds k) nFee strSign strSize = .ok (.done tx nFeeRet)) :
    Balanced env mode rounds coins nLeft tx nFeeRet ∧ tx.vout = vout ∧ tx.data = wtxNew.data := by
  obtain ⟨scriptSigs, -, ⟨-, hagain⟩ | ⟨henough, hdone⟩⟩ := finishRound_ok h
  · cases hagain
  · cases hdone
    refine ⟨⟨?_, hbalance, k, henough⟩, rfl, rfl⟩
    show (signed (coins.map env.input) scriptSigs).map (·.prevout) = _
    rw [signed_prevout, List.map_map]
    rfl

/-- **The last round of `CreateTransaction`** balances, and pays everyone. -/
theorem createRound_done (henv : env.Valid) (hfit : AmountsFit env w coinControl vecSend 0) {rounds : Nat → RoundChoices}
    {k : Nat} (hshuffle : ∀ j l, (((rounds k).coins j).randomShuffle l).Perm l)
    (horder : ∀ l, ((rounds k).setOrder l).Perm l) {wtxNew tx : CTransaction} {nFee nFeeRet : Int}
    (hfee : env.FeeInRange nFee)
    (h : w.createRound env wtxNew vecSend (vecSend.map (·.2)).sum coinControl (rounds k) nFee = .ok (.done tx nFeeRet)) :
    ∃ spent : List COutput, spent.Subperm (w.availableCoins env.toWalletEnv env.view true coinControl) ∧
      Balanced env .send rounds spent 0 tx nFeeRet ∧ (WalletState.payees tx.data vecSend).Sublist tx.vout := by
  obtain ⟨hlow, hhigh⟩ := hfee
  have hpaid := sum_payments_nonneg hfit.payments
  have hfits := hfit.fits
  have hfunds := hfit.funds
  have hmax : INT64_MAX = 2 ^ 63 - 1 := rfl
  have hcent : CENT = 1000000 := rfl
  unfold WalletState.createRound at h
  dsimp only at h
  rw [toInt64_of_range (n := (vecSend.map (·.2)).sum + nFee) (by omega) (by omega)] at h
  split_ifs at h
  cases hselect : selectCoins env.isFromMe (rounds k).coins coinControl ((vecSend.map (·.2)).sum + nFee)
      (w.availableCoins env.toWalletEnv env.view true coinControl) with
  | none =>
    rw [hselect] at h
    cases h
  | some ret =>
    obtain ⟨setCoins, nValueIn⟩ := ret
    obtain ⟨hsub, hexact, hreached⟩ := selectCoins_spec henv ⟨le_rfl, hfunds⟩ hshuffle (by omega) (by omega) hselect
    have hle := total_le_of_subperm hsub fun output hout => henv.minimum.trans (listed_of_mem hout).minimum
    rw [hselect] at h
    dsimp only at h
    rw [toInt64_of_range (n := nValueIn - (vecSend.map (·.2)).sum) (by omega) (by omega),
      toInt64_of_range (n := nValueIn - (vecSend.map (·.2)).sum - nFee) (by omega) (by omega)] at h
    have hmoved :
        let change := WalletState.moveToFee env nFee (nValueIn - (vecSend.map (·.2)).sum - nFee)
        nFee ≤ change.1 ∧ change.1 + change.2 = nFee + (nValueIn - (vecSend.map (·.2)).sum - nFee) ∧
          (0 ≤ nValueIn - (vecSend.map (·.2)).sum - nFee → 0 ≤ change.2) := moveToFee_spec henv.minTxFee hlow
    obtain ⟨-, hsame, hchange⟩ := hmoved
    split at h
    · cases h
    · rename_i vout nFeeMoved hpay
      obtain ⟨rfl, hpayees, hsum⟩ := payChange_ok hpay
      have hperm := horder setCoins
      -- what is not paid out as change is zero
      have hbalance : total ((rounds k).setOrder setCoins) = (vout.map (·.nValue)).sum +
          (WalletState.moveToFee env nFee (nValueIn - (vecSend.map (·.2)).sum - nFee)).1 + 0 := by
        rw [total_perm hperm, hexact, hsum, sum_payees]
        split_ifs
        · omega
        · omega
      obtain ⟨hbalanced, hvout, hdata⟩ := balanced_of_finishRound hbalance h
      refine ⟨_, hperm.subperm.trans hsub, hbalanced, ?_⟩
      rw [hvout, hdata]
      exact hpayees

/-- Change is paid out from a cent on, and less than that is left over. -/
theorem payChangeFromCent_ok {vout vout' : List CTxOut} {nChange : Int} (hvout : vout ≠ [])
    (h : WalletState.payChangeFromCent choices vout nChange = .ok vout') :
    vout.Sublist vout' ∧
      (vout'.map (·.nValue)).sum = (vout.map (·.nValue)).sum + (if CENT ≤ nChange then nChange else 0) := by
  unfold WalletState.payChangeFromCent at h
  by_cases hchange : CENT ≤ nChange
  · rw [if_pos hchange] at h ⊢
    cases hscript : choices.scriptChange with
    | none =>
      rw [hscript] at h
      cases h
    | some scriptChange =>
      rw [hscript] at h
      cases h
      refine ⟨List.sublist_insertIdx _ _ _, ?_⟩
      have hperm := List.perm_insertIdx (⟨nChange, scriptChange⟩ : CTxOut) vout
        (Nat.mod_lt choices.nPosition (List.length_pos_of_ne_nil hvout)).le
      rw [(hperm.map (·.nValue)).sum_eq, List.map_cons, List.sum_cons, Int.add_comm]
  · rw [if_neg hchange] at h ⊢
    cases h
    exact ⟨List.Sublist.refl _, (Int.add_zero _).symm⟩

/-- The coins beyond the input are available, and make up what is missing. -/
theorem selectBeyond_spec (henv : env.Valid) {input : COutput} (hfit : AmountsFit env w none vecSend input.nValue)
    (hshuffle : ∀ j l, ((choices.coins j).randomShuffle l).Perm l) {nTotalValue : Int}
    (hhigh : nTotalValue + CENT < 2 ^ 63) {setCoins : List COutput} {nValueIn : Int}
    (h : w.selectBeyond env choices (nTotalValue - input.nValue) = some (setCoins, nValueIn)) :
    setCoins.Subperm (w.availableCoins env.toWalletEnv env.view true none) ∧ total setCoins = nValueIn ∧
      nTotalValue ≤ nValueIn + input.nValue := by
  have hcredit := hfit.credit
  unfold WalletState.selectBeyond at h
  split_ifs at h with hmissing
  · obtain ⟨hsub, hexact, hreached⟩ :=
      selectCoins_spec henv ⟨hcredit, hfit.funds⟩ hshuffle (by omega) (by omega) h
    exact ⟨hsub, hexact, by omega⟩
  · cases h
    exact ⟨List.nil_subperm, rfl, by omega⟩

/-- **The last round of `CreateTransactionWithInputTx`** balances, but for less than a cent, and pays everyone. -/
theorem createRoundWithInputTx_done (henv : env.Valid) {input : COutput}
    (hfit : AmountsFit env w none vecSend input.nValue) (hsend : vecSend ≠ []) {rounds : Nat → RoundChoices} {k : Nat}
    (hshuffle : ∀ j l, (((rounds k).coins j).randomShuffle l).Perm l) (horder : ∀ l, ((rounds k).setOrder l).Perm l)
    {wtxNew tx : CTransaction} {nFee nFeeRet : Int} (hfee : env.FeeInRange nFee)
    (h : w.createRoundWithInputTx env wtxNew vecSend (vecSend.map (·.2)).sum input (rounds k) nFee =
      .ok (.done tx nFeeRet)) :
    ∃ (spent : List COutput) (nLeft : Int), spent.Subperm (w.availableCoins env.toWalletEnv env.view true none) ∧
      0 ≤ nLeft ∧ nLeft < CENT ∧ Balanced env .block rounds (input :: spent) nLeft tx nFeeRet ∧
      (vecSend.map fun s => (⟨s.2, s.1⟩ : CTxOut)).Sublist tx.vout := by
  obtain ⟨hlow, hhigh⟩ := hfee
  have hpaid := sum_payments_nonneg hfit.payments
  have hcredit := hfit.credit
  have hfits := hfit.fits
  have hfunds := hfit.funds
  have hmax : INT64_MAX = 2 ^ 63 - 1 := rfl
  have hcent : CENT = 1000000 := rfl
  have hnonneg : ∀ output ∈ w.availableCoins env.toWalletEnv env.view true none, 0 ≤ output.nValue :=
    fun output hout => henv.minimum.trans (listed_of_mem hout).minimum
  have havailable := total_nonneg hnonneg
  unfold WalletState.createRoundWithInputTx at h
  dsimp only at h
  rw [toInt64_of_range (n := (vecSend.map (·.2)).sum + nFee) (by omega) (by omega),
    toInt64_of_range (n := (vecSend.map (·.2)).sum + nFee - input.nValue) (by omega) (by omega)] at h
  cases hselect : w.selectBeyond env (rounds k) ((vecSend.map (·.2)).sum + nFee - input.nValue) with
  | none =>
    rw [hselect] at h
    cases h
  | some ret =>
    obtain ⟨setCoins, nValueIn⟩ := ret
    obtain ⟨hsub, hexact, hreached⟩ := selectBeyond_spec henv hfit hshuffle (by omega) hselect
    have hle := total_le_of_subperm hsub hnonneg
    rw [hselect] at h
    dsimp only at h
    rw [toInt64_of_range (n := nValueIn + input.nValue) (by omega) (by omega),
      toInt64_of_range (n := nValueIn + input.nValue - ((vecSend.map (·.2)).sum + nFee)) (by omega) (by omega)] at h
    split at h
    · cases h
    · rename_i vout hpay
      obtain ⟨hpayees, hsum⟩ := payChangeFromCent_ok (by simpa using hsend) hpay
      have hperm := horder setCoins
      have hsame : ((vecSend.map fun s => (⟨s.2, s.1⟩ : CTxOut)).map (·.nValue)).sum = (vecSend.map (·.2)).sum := by
        rw [List.map_map]
        rfl
      have hbalance : total (input :: (rounds k).setOrder setCoins) = (vout.map (·.nValue)).sum + nFee +
          (if CENT ≤ nValueIn + input.nValue - ((vecSend.map (·.2)).sum + nFee) then 0
            else nValueIn + input.nValue - ((vecSend.map (·.2)).sum + nFee)) := by
        rw [total_cons, total_perm hperm, hexact, hsum, hsame]
        split_ifs
        · omega
        · omega
      obtain ⟨hbalanced, hvout, -⟩ := balanced_of_finishRound hbalance h
      refine ⟨_, _, hperm.subperm.trans hsub, ?_, ?_, hbalanced, hvout ▸ hpayees⟩
      · split_ifs
        · exact le_rfl
        · omega
      · split_ifs
        · decide
        · omega

/-! ## Every run -/

/-- An empty list of payments is refused. -/
theorem sumPayments_nil : sumPayments [] = none := rfl

theorem createTransaction_terminates (henv : env.Valid) (wtxNew : CTransaction) (vecSend : List (CScript × Int))
    (coinControl : Option CCoinControl) (txData : Bytes) (rounds : Nat → RoundChoices) :
    ∃ n result, ∀ more, n < more →
      w.createTransaction env more wtxNew vecSend coinControl txData rounds = some result := by
  unfold WalletState.createTransaction
  cases hsum : sumPayments vecSend with
  | none => exact ⟨0, _, fun _ _ => rfl⟩
  | some nValue =>
    dsimp only
    split_ifs
    · exact ⟨0, _, fun _ _ => rfl⟩
    · have hround : ∀ k nFeeRet nFee, 0 ≤ nFeeRet → w.createRound env { wtxNew with data := txData.takeWhile (· ≠ 0) }
          vecSend nValue coinControl (rounds k) nFeeRet = .ok (.again nFee) →
          0 ≤ nFee ∧ nFeeRet < nFee ∧ nFee ≤ INT64_MAX :=
        fun k nFeeRet nFee hlow h => createRound_again henv hlow h
      exact feeLoop_ends hround henv.fee

theorem createTransactionWithInputTx_terminates (henv : env.Valid) (wtxNew : CTransaction)
    (vecSend : List (CScript × Int)) (input : COutput) (txData : Bytes) (rounds : Nat → RoundChoices) :
    ∃ n result, ∀ more, n < more →
      w.createTransactionWithInputTx env more wtxNew vecSend input txData rounds = some result := by
  unfold WalletState.createTransactionWithInputTx
  cases hsum : sumPayments vecSend with
  | none => exact ⟨0, _, fun _ _ => rfl⟩
  | some nValue =>
    dsimp only
    have hround : ∀ k nFeeRet nFee, 0 ≤ nFeeRet → w.createRoundWithInputTx env { wtxNew with data := txData } vecSend
        nValue input (rounds k) nFeeRet = .ok (.again nFee) → 0 ≤ nFee ∧ nFeeRet < nFee ∧ nFee ≤ INT64_MAX :=
      fun k nFeeRet nFee _ h => createRoundWithInputTx_again h
    exact feeLoop_ends hround henv.fee

theorem AmountsFit.feeLimit_lt (hfit : AmountsFit env w coinControl vecSend nCredit) : env.feeLimit < 2 ^ 63 := by
  have hpaid := sum_payments_nonneg hfit.payments
  have hfits := hfit.fits
  have hcent : CENT = 1000000 := rfl
  omega

theorem AmountsFit.sumPayments (hfit : AmountsFit env w coinControl vecSend nCredit) {nValue : Int}
    (h : Syscoin.sumPayments vecSend = some nValue) : nValue = (vecSend.map (·.2)).sum := by
  have hlimit : 0 ≤ env.feeLimit := (show 0 ≤ MAX_MONEY by decide).trans (le_max_left _ _)
  have hfits := hfit.fits
  have hcent : CENT = 1000000 := rfl
  exact sumPayments_eq_some hfit.payments (by omega) h

theorem createTransaction_balanced (henv : env.Valid) (hfit : AmountsFit env w coinControl vecSend 0)
    {rounds : Nat → RoundChoices} (hshuffle : ∀ k j l, (((rounds k).coins j).randomShuffle l).Perm l)
    (horder : ∀ k l, ((rounds k).setOrder l).Perm l) {more : Nat} {wtxNew tx : CTransaction} {txData : Bytes}
    {nFeeRet : Int}
    (h : w.createTransaction env more wtxNew vecSend coinControl txData rounds = some (.ok (tx, nFeeRet))) :
    ∃ spent : List COutput, spent.Subperm (w.availableCoins env.toWalletEnv env.view true coinControl) ∧
      Balanced env .send rounds spent 0 tx nFeeRet ∧ (WalletState.payees tx.data vecSend).Sublist tx.vout := by
  unfold WalletState.createTransaction at h
  cases hsum : sumPayments vecSend with
  | none =>
    rw [hsum] at h
    cases h
  | some nValue =>
    obtain rfl := hfit.sumPayments hsum
    rw [hsum] at h
    dsimp only at h
    split_ifs at h with hdata
    · cases h
    have hnext : ∀ k nFeeRet nFee, env.FeeInRange nFeeRet →
        w.createRound env { wtxNew with data := txData.takeWhile (· ≠ 0) } vecSend (vecSend.map (·.2)).sum coinControl
          (rounds k) nFeeRet = .ok (.again nFee) → env.FeeInRange nFee := by
      intro k nFeeRet nFee _ hround
      unfold WalletState.createRound at hround
      dsimp only at hround
      split_ifs at hround
      split at hround
      · cases hround
      · split at hround
        · cases hround
        · exact finishRound_feeInRange henv hfit.feeLimit_lt le_rfl hround
    obtain ⟨k, nFee, hfee, hdone⟩ := feeLoop_ok hnext (feeInRange_start henv) h
    exact createRound_done henv hfit (hshuffle k) (horder k) hfee hdone

theorem createTransactionWithInputTx_balanced (henv : env.Valid) {input : COutput}
    (hfit : AmountsFit env w none vecSend input.nValue) {rounds : Nat → RoundChoices}
    (hshuffle : ∀ k j l, (((rounds k).coins j).randomShuffle l).Perm l)
    (horder : ∀ k l, ((rounds k).setOrder l).Perm l) {more : Nat} {wtxNew tx : CTransaction} {txData : Bytes}
    {nFeeRet : Int}
    (h : w.createTransactionWithInputTx env more wtxNew vecSend input txData rounds = some (.ok (tx, nFeeRet))) :
    ∃ (spent : List COutput) (nLeft : Int), spent.Subperm (w.availableCoins env.toWalletEnv env.view true none) ∧
      0 ≤ nLeft ∧ nLeft < CENT ∧ Balanced env .block rounds (input :: spent) nLeft tx nFeeRet ∧
      (vecSend.map fun s => (⟨s.2, s.1⟩ : CTxOut)).Sublist tx.vout := by
  unfold WalletState.createTransactionWithInputTx at h
  cases hsum : sumPayments vecSend with
  | none =>
    rw [hsum] at h
    cases h
  | some nValue =>
    have hsend : vecSend ≠ [] := by
      rintro rfl
      rw [sumPayments_nil] at hsum
      cases hsum
    obtain rfl := hfit.sumPayments hsum
    rw [hsum] at h
    dsimp only at h
    have hnext : ∀ k nFeeRet nFee, env.FeeInRange nFeeRet →
        w.createRoundWithInputTx env { wtxNew with data := txData } vecSend (vecSend.map (·.2)).sum input (rounds k)
          nFeeRet = .ok (.again nFee) → env.FeeInRange nFee := by
      intro k nFeeRet nFee _ hround
      unfold WalletState.createRoundWithInputTx at hround
      dsimp only at hround
      split at hround
      · cases hround
      · split at hround
        · cases hround
        · exact finishRound_feeInRange henv hfit.feeLimit_lt (by decide) hround
    obtain ⟨k, nFee, hfee, hdone⟩ := feeLoop_ok hnext (feeInRange_start henv) h
    exact createRoundWithInputTx_done henv hfit hsend (hshuffle k) (horder k) hfee hdone

end

/-! ## From the wallet with a name -/

namespace NameAndCoin

open WalletState WalletState.LateParent

/-- The coin of the wallet pays two, and the rest goes back. -/
def paid : CTransaction where
  nVersion := SYSCOIN_TX_VERSION
  vin := [⟨⟨1, 0⟩, [], 2 ^ 32 - 1⟩]
  vout := [⟨3 * COIN, setDestination (.keyID ours)⟩, ⟨2 * COIN, [OP_RETURN]⟩]
  nLockTime := 0
  data := []

theorem valid_env : env.Valid := ⟨by decide, by decide, by decide⟩

/-- A transaction with data and a payment of zero. -/
def zeroNotPaid : CTransaction := { paid with data := [1] }

/-- The largest payment, from nothing. -/
def largestPaid : CTransaction where
  nVersion := SYSCOIN_TX_VERSION
  vin := []
  vout := [⟨INT64_MAX, [OP_RETURN]⟩]
  nLockTime := 0
  data := []

end NameAndCoin

end Syscoin

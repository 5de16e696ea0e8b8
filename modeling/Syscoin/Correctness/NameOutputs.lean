import Syscoin.Correctness.CoinSelection
import Syscoin.Correctness.Templates
import Syscoin.Correctness.WalletCaches
import Syscoin.Wallet.CreateTransaction

/-!
# `Correctness.NameOutputs` — coins are never names

A script that `Solver` matches with a template is none that the decoders of the services accept. Three of the templates
begin with something that no prefix begins with. A multisignature begins with a small number, as a prefix does, and goes on
with pushes, as a prefix does, but then another small number comes where a prefix has a drop.

What the wallet takes for its own matches a template, so `AvailableCoins` lists no service output, and a transaction that
spends a name first and coins after it does not list the name twice. For that the transactions of the wallet have to stand
under their hashes, which loading checks and every step keeps (`keyed_step`).
-/

namespace Syscoin

open Lib

/-! ## Templates and prefixes -/

/-- A prefix begins with a small number. -/
theorem decodeScriptAt_of_first {isOp : Op → Bool} {script pc : CScript} {opcode : UInt8} {vch : Bytes}
    (h : getOp2 script = .ok (opcode, vch, pc)) (hnot : ¬ (OP_1 ≤ opcode ∧ opcode ≤ OP_16)) :
    (decodeScriptAt isOp script).1 = none := by
  rw [decodeScriptAt, h]
  dsimp only
  rw [if_neg hnot]

/-- Behind it come pushes and a drop: where they fail, the prefix does. -/
theorem decodeScriptAt_of_args {isOp : Op → Bool} {script pc pc' : CScript} {opcode : UInt8} {vch : Bytes}
    (h : getOp2 script = .ok (opcode, vch, pc)) (hargs : readArgsAt pc.length pc = .error pc') :
    (decodeScriptAt isOp script).1 = none := by
  rw [decodeScriptAt, h]
  dsimp only
  by_cases hsmall : OP_1 ≤ opcode ∧ opcode ≤ OP_16
  · rw [if_pos hsmall, hargs]
  · rw [if_neg hsmall]

/-- The arguments fail at a small number. -/
theorem readArgsAt_of_small {pc₀ pc : CScript} {opcode : UInt8} {vch : Bytes} (h : getOp2 pc₀ = .ok (opcode, vch, pc))
    (hsmall : OP_1 ≤ opcode ∧ opcode ≤ OP_16) (steps : Nat) : ∃ stop, readArgsAt steps pc₀ = .error stop := by
  cases steps with
  | zero => exact ⟨pc₀, rfl⟩
  | succ steps =>
    have hdrop : ¬ isDrop opcode = true := by
      rw [isDrop_iff]
      rintro (rfl | rfl | rfl) <;> exact absurd hsmall (by decide)
    have hpush : ¬ opcode ≤ OP_PUSHDATA4 := fun hle => not_small_of_push hle hsmall
    refine ⟨pc, ?_⟩
    rw [readArgsAt, h]
    dsimp only
    rw [if_neg hdrop, if_neg hpush]

/-- The keys of a multisignature that end at a small number are no arguments of a prefix. -/
theorem readArgsAt_of_readKeys {fuel : Nat} {opcode opcode' : UInt8} {vch vch' : Bytes} {pc pc₀ pc' : CScript}
    {vSolutions vSolutions' : List Bytes} (hfirst : getOp2 pc₀ = .ok (opcode, vch, pc))
    (hkeys : readKeys fuel (opcode, vch, pc) vSolutions = ((opcode', vch', pc'), vSolutions'))
    (hsmall : OP_1 ≤ opcode' ∧ opcode' ≤ OP_16) (steps : Nat) : ∃ stop, readArgsAt steps pc₀ = .error stop := by
  induction fuel generalizing opcode vch pc pc₀ vSolutions steps with
  | zero =>
    cases hkeys
    exact readArgsAt_of_small hfirst hsmall steps
  | succ fuel ih =>
    rw [readKeys] at hkeys
    by_cases hkey : 33 ≤ vch.length ∧ vch.length ≤ 120
    · rw [if_pos hkey] at hkeys
      -- a key is a push, so that the arguments go on behind it
      cases hnext : getOp2 pc with
      | error stop =>
        rw [hnext] at hkeys
        cases hkeys
        exact absurd hsmall (by decide)
      | ok r =>
        obtain ⟨opcode₁, vch₁, pc₁⟩ := r
        rw [hnext] at hkeys
        cases steps with
        | zero => exact ⟨pc₀, rfl⟩
        | succ steps =>
          obtain ⟨stop, hstop⟩ := ih hnext hkeys steps
          have hpush : opcode ≤ OP_PUSHDATA4 := by
            refine (getOp2_operand hfirst).resolve_right ?_
            rintro rfl
            exact absurd hkey.1 (by decide)
          have hdrop : ¬ isDrop opcode = true := by
            rw [isDrop_iff]
            rintro (rfl | rfl | rfl) <;> exact absurd hpush (by decide)
          refine ⟨stop, ?_⟩
          rw [readArgsAt, hfirst]
          dsimp only
          rw [if_neg hdrop, if_pos hpush, hstop]
    · rw [if_neg hkey] at hkeys
      cases hkeys
      exact readArgsAt_of_small hfirst hsmall steps

/-- **A multisignature that `Solver` accepts is no prefix.** -/
theorem decodeScriptAt_of_multisig {isOp : Op → Bool} {fuel : Nat} {script : CScript} {vSolutions : List Bytes}
    (h : matchTemplate fuel script [OP_SMALLINTEGER, OP_PUBKEYS, OP_SMALLINTEGER, OP_CHECKMULTISIG] [] = some vSolutions)
    (hcounts : multisigCounts vSolutions = true) : (decodeScriptAt isOp script).1 = none := by
  obtain ⟨opRequired, vchRequired, rest, opcode, vch, pc, opKeys, vchKeys, last, vKeys, vchCheck, hscript, -, hkey, hkeys,
    hsmall, -, hsolved⟩ := matchTemplate_multisig h
  -- the number behind the keys counts them, and is not zero
  have hnonzero : opKeys ≠ OP_0 := by
    rintro rfl
    rw [hsolved, multisigCounts, List.getLast?_concat] at hcounts
    simp [decodeOP_N, OP_0, OP_1] at hcounts
  obtain ⟨stop, hstop⟩ := readArgsAt_of_readKeys hkey hkeys (hsmall.resolve_left hnonzero) rest.length
  exact decodeScriptAt_of_args hscript hstop

/-- **Templates are no prefixes**: what `Solver` accepts the decoders do not. -/
theorem decodeScriptAt_of_solver {script : CScript} {solved : TxOutType × List Bytes} (h : solver script = some solved)
    (isOp : Op → Bool) : (decodeScriptAt isOp script).1 = none := by
  cases solved_of_solver h with
  | scripthash hp2sh =>
    -- a script hash begins with `OP_HASH160`
    cases script with
    | nil => exact absurd hp2sh (by decide)
    | cons first rest =>
      have hfirst : first = OP_HASH160 := by
        have hparts := of_decide_eq_true hp2sh
        exact hparts.2.1
      subst hfirst
      exact decodeScriptAt_of_first (getOp2_opcode (by decide) rest) (by decide)
  | pubkey _ hpubkey =>
    -- a key is pushed first
    obtain ⟨_, opcode1, vch1, pc1, found, hscript, hfound, -⟩ :=
      matchTemplate_first (getOp2_opcode (by decide) _) (by simp) (by decide) hpubkey
    rw [matchOp, if_pos rfl] at hfound
    by_cases hlength : vch1.length < 33 ∨ 120 < vch1.length
    · rw [if_pos hlength] at hfound
      cases hfound
    · have hpush := (getOp2_operand hscript).resolve_right (by
        rintro rfl
        exact hlength (.inl (by decide)))
      exact decodeScriptAt_of_first hscript (not_small_of_push hpush)
  | pubkeyhash _ _ hhash =>
    -- `OP_DUP` comes first
    obtain ⟨_, opcode1, vch1, pc1, found, hscript, hfound, -⟩ :=
      matchTemplate_first (getOp2_opcode (by decide) _) (by simp) (by decide) hhash
    obtain ⟨rfl, -⟩ := matchOp_opcode ⟨by decide, by decide, by decide⟩ hfound
    exact decodeScriptAt_of_first hscript (by decide)
  | multisig _ _ _ hmultisig hcounts => exact decodeScriptAt_of_multisig hmultisig hcounts

/-! ## `AvailableCoins` -/

/-- What `AvailableCoins` lists: an output of a transaction of the wallet, and it is the wallet's. -/
structure Listed (env : WalletEnv) (view : CoinView) (w : WalletState) (output : COutput) : Prop where
  lookup : w.mapWallet.lookup output.hash = some output.tx
  index : output.i < output.tx.vout.length
  mine : w.isMine env output.txout = true
  minimum : view.nMinimumInputValue ≤ output.nValue

section

variable {env : WalletEnv} {view : CoinView} {w : WalletState} {fOnlyConfirmed : Bool}
  {coinControl : Option CCoinControl}

theorem listed_of_mem {output : COutput} (h : output ∈ w.availableCoins env view fOnlyConfirmed coinControl) :
    Listed env view w output := by
  obtain ⟨item, hitem, hout⟩ := List.mem_flatMap.mp h
  obtain ⟨hash, wtx⟩ := item
  dsimp only at hout
  unfold WalletState.availableOf at hout
  split_ifs at hout
  · cases hout
  · cases hout
  · cases hout
  · obtain ⟨hin, havailable⟩ := List.mem_filter.mp hout
    obtain ⟨i, hi, rfl⟩ := List.mem_map.mp hin
    unfold WalletState.available at havailable
    simp only [Bool.and_eq_true, decide_eq_true_eq] at havailable
    exact ⟨AList.mem_lookup_iff.mpr hitem, List.mem_range.mp hi, havailable.1.1.1.2, havailable.1.2⟩

/-- **No output that is listed is a service output.** -/
theorem Listed.decodeScriptAt {output : COutput} (h : Listed env view w output) (isOp : Op → Bool) :
    (decodeScriptAt isOp output.txout.scriptPubKey).1 = none := by
  obtain ⟨solved, hsolved⟩ := CKeyStore.solver_of_isMine _ _ h.mine
  exact decodeScriptAt_of_solver hsolved isOp

end

/-! ## What is selected -/

section

variable {P : COutput → Prop} {fEligible : COutput → Bool} {nTargetValue : Int}

/-- Outputs that are distinct, and of a kind. -/
def AllOf (P : COutput → Prop) (ret : List COutput × Int) : Prop :=
  (ret.1.map (·.coin)).Nodup ∧ ∀ output ∈ ret.1, P output

theorem allOf_nil (nValueRet : Int) : AllOf P ([], nValueRet) :=
  ⟨List.nodup_nil, fun _ hin => absurd hin List.not_mem_nil⟩

theorem AllOf.insertCoin {ret : List COutput × Int} (h : AllOf P ret) {output : COutput} (hout : P output) :
    AllOf P (insertCoin ret output) := by
  unfold Syscoin.insertCoin
  by_cases hin : (ret.1.map (·.coin)).contains output.coin = true
  · rw [if_pos hin]
    exact h
  · rw [if_neg hin]
    rw [List.contains_iff_mem] at hin
    constructor
    · show ((ret.1 ++ [output]).map (·.coin)).Nodup
      rw [List.map_append, List.nodup_append]
      refine ⟨h.1, List.nodup_singleton _, fun a ha b hb heq => ?_⟩
      rw [heq, List.mem_singleton.mp hb] at ha
      exact hin ha
    · intro other hother
      rcases List.mem_append.mp hother with hold | hnew
      · exact h.2 other hold
      · rw [List.mem_singleton.mp hnew]
        exact hout

theorem AllOf.foldl {coins : List COutput} {ret : List COutput × Int} (h : AllOf P ret)
    (hcoins : ∀ output ∈ coins, P output) : AllOf P (coins.foldl Syscoin.insertCoin ret) := by
  induction coins generalizing ret with
  | nil => exact h
  | cons output coins ih =>
    obtain ⟨hhead, htail⟩ := List.forall_mem_cons.mp hcoins
    exact ih (h.insertCoin hhead) htail

/-- What the loop over the outputs finds is among them. -/
theorem scanCoins_allOf {vCoins : List COutput} (hcoins : ∀ output ∈ vCoins, P output) (s : Scan)
    (hvalue : ∀ output ∈ s.vValue, P output) (hlarger : ∀ output, s.coinLowestLarger.2 = some output → P output) :
    match scanCoins fEligible nTargetValue vCoins s with
    | .inl output => P output
    | .inr s' => (∀ output ∈ s'.vValue, P output) ∧ ∀ output, s'.coinLowestLarger.2 = some output → P output := by
  induction vCoins generalizing s with
  | nil => exact ⟨hvalue, hlarger⟩
  | cons output vCoins ih =>
    obtain ⟨hhead, htail⟩ := List.forall_mem_cons.mp hcoins
    unfold scanCoins
    dsimp only
    split_ifs
    · exact ih htail s hvalue hlarger
    · exact hhead
    · refine ih htail _ (fun other hother => ?_) hlarger
      rcases List.mem_append.mp hother with hold | hnew
      · exact hvalue other hold
      · rw [List.mem_singleton.mp hnew]
        exact hhead
    · refine ih htail _ hvalue fun other hother => ?_
      cases hother
      exact hhead
    · exact ih htail s hvalue hlarger

theorem solveSubset_allOf {choices : CoinChoices} {s : Scan} (hvalue : ∀ output ∈ s.vValue, P output)
    (hlarger : ∀ output, s.coinLowestLarger.2 = some output → P output) :
    AllOf P (solveSubset choices nTargetValue s) := by
  have hpick : ∀ flags, AllOf P ((pick flags (s.vValue.mergeSort fun a b => decide (b.nValue ≤ a.nValue))).foldl
      Syscoin.insertCoin ([], 0)) := fun flags =>
    (allOf_nil 0).foldl fun output hout => hvalue output (List.mem_mergeSort.mp ((pick_sublist _ _).subset hout))
  unfold solveSubset
  dsimp only
  cases hfound : s.coinLowestLarger.2 with
  | none => exact hpick _
  | some larger =>
    dsimp only
    split_ifs
    · exact (allOf_nil 0).insertCoin (hlarger larger hfound)
    · exact hpick _
    · exact (allOf_nil 0).insertCoin (hlarger larger hfound)
    · exact hpick _

theorem selectCoinsMinConf_allOf {choices : CoinChoices} {vCoins : List COutput} {ret : List COutput × Int}
    (hshuffle : (choices.randomShuffle vCoins).Perm vCoins) (hcoins : ∀ output ∈ vCoins, P output)
    (h : selectCoinsMinConf fEligible choices nTargetValue vCoins = some ret) : AllOf P ret := by
  have hshuffled : ∀ output ∈ choices.randomShuffle vCoins, P output := fun output hout =>
    hcoins output (hshuffle.mem_iff.mp hout)
  have hscan : match scanCoins fEligible nTargetValue (choices.randomShuffle vCoins) ⟨[], 0, (INT64_MAX, none)⟩ with
      | .inl output => P output
      | .inr s => (∀ output ∈ s.vValue, P output) ∧ ∀ output, s.coinLowestLarger.2 = some output → P output :=
    scanCoins_allOf hshuffled _ (fun _ hin => absurd hin List.not_mem_nil) fun _ hsome => nomatch hsome
  unfold selectCoinsMinConf at h
  cases hresult : scanCoins fEligible nTargetValue (choices.randomShuffle vCoins) ⟨[], 0, (INT64_MAX, none)⟩ with
  | inl output =>
    rw [hresult] at hscan h
    cases h
    exact (allOf_nil 0).insertCoin hscan
  | inr s =>
    rw [hresult] at hscan h
    dsimp only at h
    split_ifs at h
    · cases h
      exact (allOf_nil 0).foldl hscan.1
    · obtain ⟨larger, hfound, rfl⟩ := Option.map_eq_some_iff.mp h
      exact (allOf_nil 0).insertCoin (hscan.2 larger hfound)
    · cases h
      exact solveSubset_allOf hscan.1 hscan.2

/-- **What `SelectCoins` returns is listed**, and nothing twice. -/
theorem selectCoins_allOf {isFromMe : CWalletTx → Bool} {choices : Nat → CoinChoices} {coinControl : Option CCoinControl}
    {vCoins : List COutput} {ret : List COutput × Int}
    (hshuffle : ∀ k, ((choices k).randomShuffle vCoins).Perm vCoins) (hcoins : ∀ output ∈ vCoins, P output)
    (h : selectCoins isFromMe choices coinControl nTargetValue vCoins = some ret) : AllOf P ret := by
  unfold selectCoins at h
  dsimp only at h
  split_ifs at h
  · cases h
    exact (allOf_nil 0).foldl hcoins
  · rw [Option.orElse_eq_some, Option.orElse_eq_some] at h
    rcases h with h | ⟨-, h | ⟨-, h⟩⟩
    · exact selectCoinsMinConf_allOf (hshuffle 0) hcoins h
    · exact selectCoinsMinConf_allOf (hshuffle 1) hcoins h
    · exact selectCoinsMinConf_allOf (hshuffle 2) hcoins h

end

/-! ## `CreateTransactionWithInputTx` -/

section

variable {env : SendEnv} {w : WalletState}

/-- An output that a service reads. -/
def IsServiceOutput (output : COutput) : Prop :=
  output.i < output.tx.vout.length ∧ ∃ isOp, (decodeScriptAt isOp output.txout.scriptPubKey).1 ≠ none

/-- `IndexOfNameOutput` -/
def indexOfNameOutput (tx : CTransaction) : Except String Nat :=
  match decodeTx (fun script => (decodeAliasScriptAt script).1) tx.vout with
  | none => .error "IndexOfNameOutput() : name output not found"
  | some (_, nOut, _) => .ok nOut

/-- What `IndexOfNameOutput` finds is a service output. -/
theorem isServiceOutput_of_index {hash : Uint256} {wtxIn : CWalletTx} {nTxOut : Nat} {nDepth : Int}
    (h : indexOfNameOutput wtxIn.toCTransaction = .ok nTxOut) : IsServiceOutput ⟨hash, wtxIn, nTxOut, nDepth⟩ := by
  unfold indexOfNameOutput at h
  cases hdecode : decodeTx (fun script => (decodeAliasScriptAt script).1) wtxIn.vout with
  | none =>
    rw [hdecode] at h
    cases h
  | some r =>
    obtain ⟨op, nOut, vvch⟩ := r
    rw [hdecode] at h
    cases h
    obtain ⟨⟨txout, hget, hop⟩, -⟩ := decodeTx_eq_some hdecode
    obtain ⟨hlt, hout⟩ := List.getElem?_eq_some_iff.mp hget
    refine ⟨hlt, Op.isAliasOp, ?_⟩
    have htxout : (⟨hash, wtxIn, nTxOut, nDepth⟩ : COutput).txout = txout := by
      show wtxIn.vout.getD nTxOut .null = txout
      rw [List.getD_eq_getElem?_getD, hget]
      rfl
    rw [htxout]
    intro hnone
    have hsome : (decodeScriptAt Op.isAliasOp txout.scriptPubKey).1 = some (op, vvch) := hop
    rw [hnone] at hsome
    cases hsome

/-- The outpoints of listed outputs, and of a service output of the wallet, are distinct when the outputs are. -/
theorem input_nodup (hkeyed : w.Keyed env.toWalletEnv) {coins : List COutput} (hdistinct : (coins.map (·.coin)).Nodup)
    (hlisted : ∀ output ∈ coins, Listed env.toWalletEnv env.view w output) :
    ((coins.map env.input).map (·.prevout)).Nodup := by
  have hcoin : (coins.map env.input).map (·.prevout) = coins.map (·.coin) := by
    rw [List.map_map]
    refine List.map_congr_left fun output hout => ?_
    show (⟨env.getHash output.tx.toCTransaction, output.i⟩ : COutPoint) = ⟨output.hash, output.i⟩
    rw [hkeyed output.hash output.tx (hlisted output hout).lookup]
  rw [hcoin]
  exact hdistinct

/-- **The name is spent once**: its output is not among the coins. -/
theorem vin_nodup (hkeyed : w.Keyed env.toWalletEnv) {rounds : Nat} {wtxNew tx : CTransaction}
    {vecSend : List (CScript × Int)} {input : COutput} (hinput : w.mapWallet.lookup input.hash = some input.tx)
    (hservice : IsServiceOutput input) {txData : Bytes} {choices : Nat → RoundChoices}
    (hshuffle : ∀ k j l, (((choices k).coins j).randomShuffle l).Perm l) (horder : ∀ k l, ((choices k).setOrder l).Perm l)
    {nFeeRet : Int}
    (h : w.createTransactionWithInputTx env rounds wtxNew vecSend input txData choices = some (.ok (tx, nFeeRet))) :
    (tx.vin.map (·.prevout)).Nodup := by
  unfold WalletState.createTransactionWithInputTx at h
  cases hsum : sumPayments vecSend with
  | none =>
    rw [hsum] at h
    cases h
  | some nValue =>
    rw [hsum] at h
    obtain ⟨k, nFee, -, hround⟩ := feeLoop_ok (P := fun _ => True) (fun _ _ _ _ _ => trivial) trivial h
    unfold WalletState.createRoundWithInputTx at hround
    dsimp only at hround
    cases hselect : w.selectBeyond env (choices k) (toInt64 (toInt64 (nValue + nFee) - input.nValue)) with
    | none =>
      rw [hselect] at hround
      cases hround
    | some ret =>
      obtain ⟨setCoins, nValueIn⟩ := ret
      rw [hselect] at hround
      dsimp only at hround
      -- the coins are listed, and distinct
      have hcoins : AllOf (Listed env.toWalletEnv env.view w) (setCoins, nValueIn) := by
        unfold WalletState.selectBeyond at hselect
        split_ifs at hselect
        · exact selectCoins_allOf (fun j => hshuffle k j _) (fun output => listed_of_mem) hselect
        · cases hselect
          exact allOf_nil 0
      cases hchange : WalletState.payChangeFromCent (choices k) (vecSend.map fun s => ⟨s.2, s.1⟩)
          (toInt64 (toInt64 (nValueIn + input.nValue) - toInt64 (nValue + nFee))) with
      | error message =>
        rw [hchange] at hround
        cases hround
      | ok vout =>
        rw [hchange] at hround
        obtain ⟨scriptSigs, -, ⟨-, hagain⟩ | ⟨-, hdone⟩⟩ := finishRound_ok hround
        · cases hagain
        · cases hdone
          have hset : ((choices k).setOrder setCoins).Perm setCoins := horder k setCoins
          have hlisted : ∀ output ∈ (choices k).setOrder setCoins, Listed env.toWalletEnv env.view w output :=
            fun output hout => hcoins.2 output (hset.mem_iff.mp hout)
          have hdistinct : (((choices k).setOrder setCoins).map (·.coin)).Nodup :=
            (hset.map _).nodup_iff.mpr hcoins.1
          show ((signed ((input :: (choices k).setOrder setCoins).map env.input) scriptSigs).map (·.prevout)).Nodup
          rw [signed_prevout, List.map_cons, List.map_cons, List.nodup_cons]
          refine ⟨fun hin => ?_, input_nodup hkeyed hdistinct hlisted⟩
          -- a coin with the outpoint of the name would be the same output
          rw [List.map_map] at hin
          obtain ⟨output, hout, heq⟩ := List.mem_map.mp hin
          have hlookup := (hlisted output hout).lookup
          have hhash : output.hash = input.hash := by
            rw [← hkeyed output.hash output.tx hlookup, ← hkeyed input.hash input.tx hinput]
            exact congrArg COutPoint.hash heq
          have htx : output.tx = input.tx := by
            rw [hhash, hinput] at hlookup
            exact (Option.some.inj hlookup).symm
          have hi : output.i = input.i := congrArg COutPoint.n heq
          obtain ⟨-, isOp, hop⟩ := hservice
          have hnone := (hlisted output hout).decodeScriptAt isOp
          rw [COutput.txout, htx, hi] at hnone
          exact hop hnone

/-- **Coin selection never spends names.** What `Solver` recognises no service reads; no output that `AvailableCoins` lists
    is a service output; and `CreateTransactionWithInputTx` lists no outpoint twice. -/
theorem names_not_selected (hkeyed : w.Keyed env.toWalletEnv) :
    (∀ script, solver script ≠ none → (decodeAliasScriptAt script).1 = none ∧ (decodeOfferScriptAt script).1 = none ∧
      (decodeCertScriptAt script).1 = none) ∧
    (∀ fOnlyConfirmed coinControl, ∀ output ∈ w.availableCoins env.toWalletEnv env.view fOnlyConfirmed coinControl,
      (decodeAliasScriptAt output.txout.scriptPubKey).1 = none ∧
        (decodeOfferScriptAt output.txout.scriptPubKey).1 = none ∧
        (decodeCertScriptAt output.txout.scriptPubKey).1 = none) ∧
    (∀ rounds wtxNew vecSend (input : COutput) txData (choices : Nat → RoundChoices) tx nFeeRet,
      w.mapWallet.lookup input.hash = some input.tx → indexOfNameOutput input.tx.toCTransaction = .ok input.i →
      (∀ k j l, (((choices k).coins j).randomShuffle l).Perm l) → (∀ k l, ((choices k).setOrder l).Perm l) →
      w.createTransactionWithInputTx env rounds wtxNew vecSend input txData choices = some (.ok (tx, nFeeRet)) →
      (tx.vin.map (·.prevout)).Nodup) := by
  refine ⟨fun script hne => ?_, fun fOnlyConfirmed coinControl output hout => ?_, ?_⟩
  · obtain ⟨solved, hsolved⟩ := Option.ne_none_iff_exists'.mp hne
    exact ⟨decodeScriptAt_of_solver hsolved _, decodeScriptAt_of_solver hsolved _, decodeScriptAt_of_solver hsolved _⟩
  · have hlisted := listed_of_mem hout
    exact ⟨hlisted.decodeScriptAt _, hlisted.decodeScriptAt _, hlisted.decodeScriptAt _⟩
  · intro rounds wtxNew vecSend input txData choices tx nFeeRet hinput hindex hshuffle horder h
    exact vin_nodup hkeyed hinput (isServiceOutput_of_index hindex) hshuffle horder h

end

/-! ## A name and a coin -/

namespace NameAndCoin

open WalletState WalletState.LateParent

def env : SendEnv :=
  { node with
    view := ⟨fun _ => true, fun _ => true, fun _ => false, 1⟩
    isFromMe := fun _ => false
    nTransactionFee := 0
    nMinTxFee := 100000 }

/-- Output 0 holds an alias. -/
def nameTx : CWalletTx :=
  .init ⟨⟨SYSCOIN_TX_VERSION, [⟨⟨9, 1⟩, [], 0⟩],
    [⟨CENT, [0x53, 1, 97, 1, 98, OP_2DROP, OP_DROP] ++ setDestination (.keyID ours)⟩], 3, []⟩, 0, [], -1⟩ ⟨false, 0⟩

/-- A wallet with the alias, and with the five coins of `parent`. -/
def wallet : WalletState :=
  (({ start with getDepthInMainChain := fun _ => 10 }).step node (.addToWallet nameTx true [])).step node
    (.addToWallet parent true [])

def choices : RoundChoices where
  coins := fun _ => noChoices
  setOrder := id
  nPosition := 0
  scriptChange := some (setDestination (.keyID ours))
  sign := fun vin => some (vin.map fun _ => [])
  fAllowFree := true

/-- Two coins are paid, and the rest goes back. -/
def sent : CTransaction where
  nVersion := SYSCOIN_TX_VERSION
  vin := [⟨⟨3, 0⟩, [], 2 ^ 32 - 1⟩, ⟨⟨1, 0⟩, [], 2 ^ 32 - 1⟩]
  vout := [⟨3 * COIN + CENT, setDestination (.keyID ours)⟩, ⟨2 * COIN, [OP_RETURN]⟩]
  nLockTime := 0
  data := []

theorem keyed_wallet : wallet.Keyed env.toWalletEnv :=
  keyed_step (keyed_step (fun hash wtx hwtx => by cases hwtx) _) _

/-- The alias is spent first, and once. -/
theorem name_spent_once :
    wallet.createTransactionWithInputTx env 1 ⟨SYSCOIN_TX_VERSION, [], [], 0, []⟩ [([OP_RETURN], 2 * COIN)]
        ⟨3, nameTx.bindWallet, 0, 10⟩ [] (fun _ => choices) = some (.ok (sent, 0)) ∧
      (sent.vin.map (·.prevout)).Nodup := by
  have hsent : wallet.createTransactionWithInputTx env 1 ⟨SYSCOIN_TX_VERSION, [], [], 0, []⟩ [([OP_RETURN], 2 * COIN)]
      ⟨3, nameTx.bindWallet, 0, 10⟩ [] (fun _ => choices) = some (.ok (sent, 0)) := by decide +kernel
  have hlookup : wallet.mapWallet.lookup 3 = some nameTx.bindWallet := by decide +kernel
  have hindex : indexOfNameOutput nameTx.bindWallet.toCTransaction = .ok 0 := by decide +kernel
  exact ⟨hsent, (names_not_selected keyed_wallet).2.2 _ _ _ ⟨3, nameTx.bindWallet, 0, 10⟩ _ _ _ _ hlookup hindex
    (fun _ _ l => List.Perm.refl l) (fun _ l => List.Perm.refl l) hsent⟩

end NameAndCoin

end Syscoin

import Syscoin.Wallet.Coins

/-!
# `Wallet.CreateTransaction` — payments, change and fee

`CreateTransaction` builds a transaction in rounds. A round pays out, selects coins for the payments and the fee so far,
pays the change back, signs, and asks what fee a transaction of that size takes. When that is more, the next round starts
over with it. `CreateTransactionWithInputTx`, which the alias commands use, spends in addition the output that holds the
name, and leaves change below a cent to the fee.

Arguments stand for what is random or not modelled: the coins at random, the order in which a set of pointers is walked,
the position of the change, the key that it goes to, the signatures, and whether the priority, a `double`, is enough for a
free transaction. They may differ from round to round.
-/

namespace Syscoin

def MAX_STANDARD_TX_SIZE : Nat := MAX_BLOCK_SIZE_GEN / 2
def MAX_TX_DATA_SIZE : Nat := MAX_BLOCK_SIZE / 8

/-- `IsDust`: "detection disabled, allows any valid dust to be relayed". -/
def CTxOut.isDust (_ : CTxOut) : Bool := false

/-- `GetMinFee_mode`, as far as wallets use it. -/
inductive MinFeeMode where
  | block | send
deriving DecidableEq, Repr

/-- `::GetSerializeSize`, an `unsigned int` -/
def CTransaction.nBytes (tx : CTransaction) : Nat := tx.getSerializeSize % 2 ^ 32

/-- **`GetMinFee`** for a block size of one, which skips the rise towards a full block. -/
def CTransaction.minFee (nBaseFee : Int) (fAllowFree : Bool) (mode : MinFeeMode) (tx : CTransaction) : Int :=
  let nFree := if mode = .send then 5000 else DEFAULT_BLOCK_PRIORITY_SIZE - 1000
  let nMinFee :=
    if fAllowFree = true ∧ tx.nBytes < nFree then 0 else toInt64 ((1 + (tx.nBytes : Int) / 1000) * nBaseFee)
  let nMinFee := tx.vout.foldl
    (fun nMinFee txout => if txout.nValue < DUST_SOFT_LIMIT then toInt64 (nMinFee + nBaseFee) else nMinFee) nMinFee
  if moneyRange nMinFee then nMinFee else MAX_MONEY

/-- What the wallet uses of the rest of the program to send. -/
structure SendEnv extends WalletEnv where
  view : CoinView
  isFromMe : CWalletTx → Bool
  nTransactionFee : Int
  nMinTxFee : Int

/-- `nPayFee` -/
def SendEnv.payFee (env : SendEnv) (tx : CTransaction) : Int :=
  toInt64 (env.nTransactionFee * (1 + (tx.nBytes : Int) / 1000))

/-- The choices of one round. -/
structure RoundChoices where
  coins : Nat → CoinChoices
  /-- the order of a set of pointers -/
  setOrder : List COutput → List COutput
  /-- `GetRandInt` -/
  nPosition : Nat
  /-- the script for a reserved key; without one the assertion fails -/
  scriptChange : Option CScript
  /-- the signatures, or that signing fails -/
  sign : List CTxIn → Option (List CScript)
  fAllowFree : Bool

/-- How a round ends: with the fee for the next one, or with the transaction. -/
inductive RoundResult where
  | again (nFeeRet : Int)
  | done (tx : CTransaction) (nFeeRet : Int)
deriving DecidableEq, Repr

/-- The loop: a number of rounds that is enough gives a result. -/
def feeLoop (round : Nat → Int → Except String RoundResult) :
    Nat → Nat → Int → Option (Except String (CTransaction × Int))
  | 0, _, _ => none
  | rounds + 1, k, nFeeRet =>
    match round k nFeeRet with
    | .error strFailReason => some (.error strFailReason)
    | .ok (.done tx nFeeRet) => some (.ok (tx, nFeeRet))
    | .ok (.again nFeeRet) => feeLoop round rounds (k + 1) nFeeRet

/-- The sum of the payments, or that it went below zero. -/
def sumPayments (vecSend : List (CScript × Int)) : Option Int := do
  let nValue ← vecSend.foldlM (fun nValue s => if nValue < 0 then none else some (toInt64 (nValue + s.2))) (0 : Int)
  if vecSend = [] ∨ nValue < 0 then none else some nValue

/-- `CTxIn(coin.first->GetHash(), coin.second)` -/
def SendEnv.input (env : SendEnv) (output : COutput) : CTxIn :=
  ⟨⟨env.getHash output.tx.toCTransaction, output.i⟩, [], 2 ^ 32 - 1⟩

/-- The inputs with their signatures. -/
def signed (vin : List CTxIn) (scriptSigs : List CScript) : List CTxIn :=
  vin.zipIdx.map fun (txin, nIn) => { txin with scriptSig := scriptSigs.getD nIn [] }

/-- How a round ends: sign, "Limit size", "Check that enough fee is included". -/
def SendEnv.finishRound (env : SendEnv) (mode : MinFeeMode) (nMaxBytes : Nat) (wtxNew : CTransaction)
    (coins : List COutput) (vout : List CTxOut) (choices : RoundChoices) (nFeeRet : Int)
    (strSign strSize : String) : Except String RoundResult :=
  let vin := coins.map env.input
  match choices.sign vin with
  | none => .error strSign
  | some scriptSigs =>
    let tx := { wtxNew with vin := signed vin scriptSigs, vout }
    if nMaxBytes ≤ tx.nBytes then .error strSize
    else
      let nFee := max (env.payFee tx) (tx.minFee env.nMinTxFee choices.fAllowFree mode)
      if nFeeRet < nFee then .ok (.again nFee) else .ok (.done tx nFeeRet)

namespace WalletState

variable (env : SendEnv) (w : WalletState)

/-! ## `CreateTransaction` -/

/-- The outputs of the payments. "don't create an output for zero coins in data transaction" -/
def payees (data : Bytes) (vecSend : List (CScript × Int)) : List CTxOut :=
  (vecSend.filter fun s => !(decide (s.2 = 0) && decide (0 < data.length))).map fun s => ⟨s.2, s.1⟩

/-- The fee, and the change that is left: "if sub-cent change is required, the fee must be raised to at least nMinTxFee or
    until nChange becomes zero". -/
def moveToFee (nFeeRet nChange : Int) : Int × Int :=
  if nFeeRet < env.nMinTxFee ∧ 0 < nChange ∧ nChange < CENT then
    let nMoveToFee := min nChange (toInt64 (env.nMinTxFee - nFeeRet))
    (toInt64 (nFeeRet + nMoveToFee), toInt64 (nChange - nMoveToFee))
  else (nFeeRet, nChange)

/-- The outputs with the change, and the fee with what would be dust. -/
def payChange (coinControl : Option CCoinControl) (choices : RoundChoices) (vout : List CTxOut) (nFeeRet nChange : Int) :
    Except String (List CTxOut × Int) :=
  if 0 < nChange then
    let custom := coinControl.bind fun coinControl =>
      if coinControl.destChange = .none then none else some (setDestination coinControl.destChange)
    match custom <|> choices.scriptChange with
    | none => .error "assert(reservekey.GetReservedKey(vchPubKey))"
    | some scriptChange =>
      let newTxOut : CTxOut := ⟨nChange, scriptChange⟩
      if newTxOut.isDust then .ok (vout, toInt64 (nFeeRet + nChange))
      else .ok (vout.insertIdx (choices.nPosition % (vout.length + 1)) newTxOut, nFeeRet)
  else .ok (vout, nFeeRet)

/-- One round of `CreateTransaction`. -/
def createRound (wtxNew : CTransaction) (vecSend : List (CScript × Int)) (nValue : Int)
    (coinControl : Option CCoinControl) (choices : RoundChoices) (nFeeRet : Int) : Except String RoundResult :=
  let nTotalValue := toInt64 (nValue + nFeeRet)
  let vout := payees wtxNew.data vecSend
  if vout.any (·.isDust) then .error "Transaction amount too small"
  else
    match selectCoins env.isFromMe choices.coins coinControl nTotalValue
        (w.availableCoins env.toWalletEnv env.view true coinControl) with
    | none => .error "Insufficient funds"
    | some (setCoins, nValueIn) =>
      let change := moveToFee env nFeeRet (toInt64 (toInt64 (nValueIn - nValue) - nFeeRet))
      match payChange coinControl choices vout change.1 change.2 with
      | .error message => .error message
      | .ok (vout, nFeeRet) =>
        env.finishRound .send MAX_STANDARD_TX_SIZE wtxNew (choices.setOrder setCoins) vout choices nFeeRet
          "Signing transaction failed" "Transaction too large"

/-- **`CreateTransaction`**, in at most so many rounds. The data goes through `c_str()`, up to the first zero. -/
def createTransaction (rounds : Nat) (wtxNew : CTransaction) (vecSend : List (CScript × Int))
    (coinControl : Option CCoinControl) (txData : Bytes) (choices : Nat → RoundChoices) :
    Option (Except String (CTransaction × Int)) :=
  match sumPayments vecSend with
  | none => some (.error "Transaction amounts must be positive")
  | some nValue =>
    if MAX_TX_DATA_SIZE < txData.length then some (.error "txData is too long")
    else
      feeLoop (fun k => w.createRound env { wtxNew with data := txData.takeWhile (· ≠ 0) } vecSend nValue coinControl
        (choices k)) rounds 0 env.nTransactionFee

/-! ## `CreateTransactionWithInputTx` -/

/-- The coins beyond the input, if it is not enough. -/
def selectBeyond (choices : RoundChoices) (nTargetValue : Int) : Option (List COutput × Int) :=
  if 0 < nTargetValue then
    selectCoins env.isFromMe choices.coins none nTargetValue (w.availableCoins env.toWalletEnv env.view true none)
  else some ([], 0)

/-- The outputs with the change, if that is a cent at least. -/
def payChangeFromCent (choices : RoundChoices) (vout : List CTxOut) (nChange : Int) : Except String (List CTxOut) :=
  if CENT ≤ nChange then
    match choices.scriptChange with
    | none => .error "assert(reservekey.GetReservedKey(pubkey))"
    | some scriptChange => .ok (vout.insertIdx (choices.nPosition % vout.length) ⟨nChange, scriptChange⟩)
  else .ok vout

/-- One round of `CreateTransactionWithInputTx`; a plain `return false` has no text. -/
def createRoundWithInputTx (wtxNew : CTransaction) (vecSend : List (CScript × Int)) (nValue : Int) (input : COutput)
    (choices : RoundChoices) (nFeeRet : Int) : Except String RoundResult :=
  let nTotalValue := toInt64 (nValue + nFeeRet)
  let nWtxinCredit := input.nValue
  match w.selectBeyond env choices (toInt64 (nTotalValue - nWtxinCredit)) with
  | none => .error ""
  | some (setCoins, nValueIn) =>
    match payChangeFromCent choices (vecSend.map fun s => ⟨s.2, s.1⟩)
        (toInt64 (toInt64 (nValueIn + nWtxinCredit) - nTotalValue)) with
    | .error message => .error message
    | .ok vout =>
      -- "Input tx always at first position"
      env.finishRound .block (MAX_BLOCK_SIZE_GEN / 5) wtxNew (input :: choices.setOrder setCoins) vout choices nFeeRet
        "could not sign name coin output" ""

/-- **`CreateTransactionWithInputTx`**, in at most so many rounds. The input is an output of a transaction of the wallet,
    given by its hash. -/
def createTransactionWithInputTx (rounds : Nat) (wtxNew : CTransaction) (vecSend : List (CScript × Int))
    (input : COutput) (txData : Bytes) (choices : Nat → RoundChoices) : Option (Except String (CTransaction × Int)) :=
  match sumPayments vecSend with
  | none => some (.error "")
  | some nValue =>
    feeLoop (fun k => w.createRoundWithInputTx env { wtxNew with data := txData } vecSend nValue input (choices k))
      rounds 0 env.nTransactionFee

end WalletState

/-! ## What the loop and the end of a round do -/

/-- A result of the loop is that of a round, from a fee that is as good as the first one. -/
theorem feeLoop_ok {round : Nat → Int → Except String RoundResult} {P : Int → Prop}
    (hagain : ∀ k nFeeRet nFee, P nFeeRet → round k nFeeRet = .ok (.again nFee) → P nFee) {rounds k : Nat}
    {nFeeRet nFee : Int} {tx : CTransaction} (hstart : P nFeeRet)
    (h : feeLoop round rounds k nFeeRet = some (.ok (tx, nFee))) :
    ∃ k' nFee', P nFee' ∧ round k' nFee' = .ok (.done tx nFee) := by
  induction rounds generalizing k nFeeRet with
  | zero => cases h
  | succ rounds ih =>
    rw [feeLoop] at h
    cases hround : round k nFeeRet with
    | error message =>
      rw [hround] at h
      cases h
    | ok result =>
      rw [hround] at h
      cases result with
      | done tx' nFee' =>
        cases h
        exact ⟨k, nFeeRet, hstart, hround⟩
      | again nFee' => exact ih (hagain k nFeeRet nFee' hstart hround) h

section

variable {env : SendEnv} {mode : MinFeeMode} {nMaxBytes : Nat} {wtxNew : CTransaction} {coins : List COutput}
  {vout : List CTxOut} {choices : RoundChoices} {nFeeRet : Int} {strSign strSize : String}

/-- **The end of a round**: the transaction is of a size that passes, and the fee is enough or rises to what is. -/
theorem finishRound_ok {result : RoundResult}
    (h : env.finishRound mode nMaxBytes wtxNew coins vout choices nFeeRet strSign strSize = .ok result) :
    ∃ scriptSigs, let tx : CTransaction := { wtxNew with vin := signed (coins.map env.input) scriptSigs, vout }
      let nFee := max (env.payFee tx) (tx.minFee env.nMinTxFee choices.fAllowFree mode)
      tx.nBytes < nMaxBytes ∧
        (nFeeRet < nFee ∧ result = .again nFee ∨ nFee ≤ nFeeRet ∧ result = .done tx nFeeRet) := by
  unfold SendEnv.finishRound at h
  dsimp only at h
  cases hsign : choices.sign (coins.map env.input) with
  | none =>
    rw [hsign] at h
    cases h
  | some scriptSigs =>
    rw [hsign] at h
    refine ⟨scriptSigs, ?_⟩
    dsimp only at h ⊢
    split_ifs at h with hsize hfee
    · cases h
      exact ⟨not_le.mp hsize, .inl ⟨hfee, rfl⟩⟩
    · cases h
      exact ⟨not_le.mp hsize, .inr ⟨not_lt.mp hfee, rfl⟩⟩

/-- Signing leaves what the inputs spend. -/
theorem signed_prevout (vin : List CTxIn) (scriptSigs : List CScript) :
    (signed vin scriptSigs).map (·.prevout) = vin.map (·.prevout) := by
  unfold signed
  rw [List.map_map]
  show vin.zipIdx.map ((·.prevout) ∘ Prod.fst) = _
  rw [← List.map_map, List.zipIdx_map_fst]

end

end Syscoin

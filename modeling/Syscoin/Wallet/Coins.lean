import Mathlib.Data.List.Sort
import Syscoin.Lib.Picking
import Syscoin.Wallet.Transactions

/-!
# `Wallet.Coins` — which outputs the wallet spends

`AvailableCoins` lists the outputs of the wallet that may be spent. `SelectCoinsMinConf` takes some of them, enough for a
target: one output of just that value, or all that are smaller, or the smallest that is larger, or what
`ApproximateBestSubset` finds by trying subsets at random. `SelectCoins` asks it three times, for ever less confirmed
outputs.

Amounts are `int64`, and sums wrap (`toInt64`). The random choices are arguments: the order in which `random_shuffle`
leaves the outputs, and the bits of `insecure_rand`. A transaction of the wallet stands under its hash, which takes the
place of the pointer to it.
-/

namespace Syscoin

/-- What an `int64` holds after an operation with the result `n`. -/
def toInt64 (n : Int) : Int := n.bmod (2 ^ 64)

/-- `std::numeric_limits<int64>::max()` -/
def INT64_MAX : Int := 2 ^ 63 - 1

/-- `COutput`: an output of a transaction of the wallet, with the depth of the transaction. -/
structure COutput where
  hash : Uint256
  tx : CWalletTx
  i : Nat
  nDepth : Int
deriving DecidableEq, Repr

namespace COutput

variable (output : COutput)

/-- `make_pair(pcoin, i)` -/
def coin : COutPoint := ⟨output.hash, output.i⟩

/-- `pcoin->vout[i]`; the outputs that are listed are there. -/
def txout : CTxOut := output.tx.vout.getD output.i .null

/-- `pcoin->vout[i].nValue` -/
def nValue : Int := output.txout.nValue

end COutput

/-! ## `AvailableCoins` -/

structure CCoinControl where
  setSelected : List COutPoint
  destChange : CTxDestination
deriving DecidableEq, Repr

def CCoinControl.hasSelected (coinControl : CCoinControl) : Bool := decide (0 < coinControl.setSelected.length)

def CCoinControl.isSelected (coinControl : CCoinControl) (outpt : COutPoint) : Bool :=
  coinControl.setSelected.contains outpt

/-- What `AvailableCoins` asks about transactions and outputs. -/
structure CoinView where
  isFinal : CTransaction → Bool
  isConfirmed : CWalletTx → Bool
  isLockedCoin : COutPoint → Bool
  nMinimumInputValue : Int

namespace WalletState

variable (env : WalletEnv) (view : CoinView) (w : WalletState)

/-- The condition on an output. -/
def available (coinControl : Option CCoinControl) (output : COutput) : Bool :=
  !output.tx.vfSpent.getD output.i false && w.isMine env output.txout && !view.isLockedCoin output.coin &&
    decide (view.nMinimumInputValue ≤ output.nValue) &&
    match coinControl with
    | none => true
    | some coinControl => !coinControl.hasSelected || coinControl.isSelected output.coin

/-- The outputs of one transaction of the wallet. -/
def outputs (hash : Uint256) (wtx : CWalletTx) : List COutput :=
  (List.range wtx.vout.length).map fun i => ⟨hash, wtx, i, w.getDepthInMainChain wtx.toCMerkleTx⟩

/-- The outputs of one transaction that may be spent. -/
def availableOf (fOnlyConfirmed : Bool) (coinControl : Option CCoinControl) (hash : Uint256) (wtx : CWalletTx) :
    List COutput :=
  if !view.isFinal wtx.toCTransaction then []
  else if fOnlyConfirmed && !view.isConfirmed wtx then []
  else if w.immature env wtx.toCMerkleTx then []
  else (w.outputs hash wtx).filter (w.available env view coinControl)

/-- **`AvailableCoins`** -/
def availableCoins (fOnlyConfirmed : Bool) (coinControl : Option CCoinControl) : List COutput :=
  w.mapWallet.entries.flatMap fun item => w.availableOf env view fOnlyConfirmed coinControl item.1 item.2

end WalletState

/-! ## `ApproximateBestSubset` -/

/-- The variables of the search: the subset at hand with its total, and the best one with its total. -/
structure Search where
  vfIncluded : List Bool
  nTotal : Int
  fReachedTarget : Bool
  vfBest : List Bool
  nBest : Int
deriving DecidableEq, Repr

namespace Search

/-- Another output is tried. When the target is reached the subset may be the best one, and the output is taken out
    again. -/
def tryOutput (nTargetValue : Int) (s : Search) (output : COutput) (i : Nat) : Search :=
  let nTotal := toInt64 (s.nTotal + output.nValue)
  let vfIncluded := s.vfIncluded.set i true
  if nTargetValue ≤ nTotal then
    { vfIncluded := vfIncluded.set i false
      nTotal := toInt64 (nTotal - output.nValue)
      fReachedTarget := true
      vfBest := if nTotal < s.nBest then vfIncluded else s.vfBest
      nBest := if nTotal < s.nBest then nTotal else s.nBest }
  else { s with vfIncluded, nTotal }

/-- One pass over the outputs, from a position on, that tries those for which it is decided so. -/
def pass (fTake : Search → Nat → Bool) (nTargetValue : Int) : Nat → List COutput → Search → Search
  | _, [], s => s
  | i, output :: vValue, s =>
    pass fTake nTargetValue (i + 1) vValue (if fTake s i then s.tryOutput nTargetValue output i else s)

/-- One repetition: a random subset, and, if that falls short, all that is left. -/
def repetition (bits : Nat → Bool) (nTargetValue : Int) (vValue : List COutput) (s : Search) : Search :=
  let s := { s with vfIncluded := List.replicate vValue.length false, nTotal := 0, fReachedTarget := false }
  let s := pass (fun _ i => bits i) nTargetValue 0 vValue s
  if s.fReachedTarget then s else pass (fun s i => !s.vfIncluded.getD i false) nTargetValue 0 vValue s

/-- The repetitions, until the best total is the target. -/
def search (bits : Nat → Nat → Bool) (nTargetValue : Int) (vValue : List COutput) (nRep : Nat) : Nat → Search → Search
  | 0, s => s
  | iterations + 1, s =>
    if s.nBest = nTargetValue then s
    else search bits nTargetValue vValue (nRep + 1) iterations (repetition (bits nRep) nTargetValue vValue s)

end Search

/-- **`ApproximateBestSubset`**: the best subset and its total, from all outputs on. -/
def approximateBestSubset (bits : Nat → Nat → Bool) (vValue : List COutput) (nTotalLower nTargetValue : Int)
    (iterations : Nat) : List Bool × Int :=
  let s := Search.search bits nTargetValue vValue 0 iterations
    ⟨[], 0, false, List.replicate vValue.length true, nTotalLower⟩
  (s.vfBest, s.nBest)

/-! ## `SelectCoinsMinConf` -/

/-- The random choices of one call: the shuffled outputs, and the bits of the two searches. -/
structure CoinChoices where
  randomShuffle : List COutput → List COutput
  bits : Nat → Nat → Bool
  bitsCent : Nat → Nat → Bool

/-- What the loop over the outputs has found. -/
structure Scan where
  vValue : List COutput
  nTotalLower : Int
  coinLowestLarger : Int × Option COutput
deriving DecidableEq, Repr

/-- `setCoinsRet.insert` and `nValueRet +=`. -/
def insertCoin (ret : List COutput × Int) (output : COutput) : List COutput × Int :=
  (if (ret.1.map (·.coin)).contains output.coin then ret.1 else ret.1 ++ [output], toInt64 (ret.2 + output.nValue))

/-- Whether an output has the confirmations that are asked for. -/
def eligible (isFromMe : CWalletTx → Bool) (nConfMine nConfTheirs : Int) (output : COutput) : Bool :=
  decide ((if isFromMe output.tx then nConfMine else nConfTheirs) ≤ output.nDepth)

/-- The loop over the outputs. It ends with one of just the right value, or with what it has found. -/
def scanCoins (fEligible : COutput → Bool) (nTargetValue : Int) : List COutput → Scan → COutput ⊕ Scan
  | [], s => .inr s
  | output :: vCoins, s =>
    if !fEligible output then scanCoins fEligible nTargetValue vCoins s
    else
      let n := output.nValue
      if n = nTargetValue then .inl output
      else if n < toInt64 (nTargetValue + CENT) then
        scanCoins fEligible nTargetValue vCoins
          { s with vValue := s.vValue ++ [output], nTotalLower := toInt64 (s.nTotalLower + n) }
      else if n < s.coinLowestLarger.1 then
        scanCoins fEligible nTargetValue vCoins { s with coinLowestLarger := (n, some output) }
      else scanCoins fEligible nTargetValue vCoins s

/-- The end of `SelectCoinsMinConf`: "Solve subset sum by stochastic approximation". -/
def solveSubset (choices : CoinChoices) (nTargetValue : Int) (s : Scan) : List COutput × Int :=
  let vValue := s.vValue.mergeSort fun a b => b.nValue ≤ a.nValue
  let best := approximateBestSubset choices.bits vValue s.nTotalLower nTargetValue 1000
  let best :=
    if best.2 ≠ nTargetValue ∧ toInt64 (nTargetValue + CENT) ≤ s.nTotalLower then
      approximateBestSubset choices.bitsCent vValue s.nTotalLower (toInt64 (nTargetValue + CENT)) 1000
    else best
  match s.coinLowestLarger.2 with
  | some larger =>
    if (best.2 ≠ nTargetValue ∧ best.2 < toInt64 (nTargetValue + CENT)) ∨ s.coinLowestLarger.1 ≤ best.2 then
      insertCoin ([], 0) larger
    else (Lib.pick best.1 vValue).foldl insertCoin ([], 0)
  | none => (Lib.pick best.1 vValue).foldl insertCoin ([], 0)

/-- **`SelectCoinsMinConf`**: `setCoinsRet` and `nValueRet`, or false. -/
def selectCoinsMinConf (fEligible : COutput → Bool) (choices : CoinChoices) (nTargetValue : Int)
    (vCoins : List COutput) : Option (List COutput × Int) :=
  match scanCoins fEligible nTargetValue (choices.randomShuffle vCoins) ⟨[], 0, (INT64_MAX, none)⟩ with
  | .inl output => some (insertCoin ([], 0) output)
  | .inr s =>
    if s.nTotalLower = nTargetValue then some (s.vValue.foldl insertCoin ([], 0))
    else if s.nTotalLower < nTargetValue then s.coinLowestLarger.2.map (insertCoin ([], 0))
    else some (solveSubset choices nTargetValue s)

/-! ## `SelectCoins` -/

/-- **`SelectCoins`.** With coin control all that is selected is returned, provided that it is enough. -/
def selectCoins (isFromMe : CWalletTx → Bool) (choices : Nat → CoinChoices) (coinControl : Option CCoinControl)
    (nTargetValue : Int) (vCoins : List COutput) : Option (List COutput × Int) :=
  if coinControl.any (·.hasSelected) then
    let ret := vCoins.foldl insertCoin ([], 0)
    if nTargetValue ≤ ret.2 then some ret else none
  else
    selectCoinsMinConf (eligible isFromMe 1 6) (choices 0) nTargetValue vCoins <|>
      selectCoinsMinConf (eligible isFromMe 1 1) (choices 1) nTargetValue vCoins <|>
      selectCoinsMinConf (eligible isFromMe 0 1) (choices 2) nTargetValue vCoins

end Syscoin

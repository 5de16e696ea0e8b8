import Mathlib.Data.Finset.Basic
import Syscoin.Chain.Coins
import Syscoin.Chain.Index
import Syscoin.Lib.Upsert

/-!
# `Services.Common` — what the alias, offer and certificate rules share

The three services were written as copies of one another. What is literally common lives here: the scan of a
transaction's inputs for a service output (`findPrev`), the flags of the caller (`Mode`), the fee lists with
the two ways of inserting into them, and the loop that turns a fee list into a block subsidy.

The subsidy loop runs in the code's own widths: 32-bit heights and times, 64-bit sums. Its two divisors can
be zero modulo `2 ^ 32`, which stops the program; `feeSubsidy` reports that as a crash.
-/

namespace Syscoin

open Lib

/-- Who is asking: `ConnectBlock` checks a block, the miner fills one, `fJustCheck` forbids writes. -/
structure Mode where
  fBlock : Bool
  fMiner : Bool
  fJustCheck : Bool
deriving DecidableEq, Repr

/-- `ConnectBlock` on its way to the main chain. -/
def Mode.connect : Mode := ⟨true, false, false⟩

@[simp] theorem Mode.connect_fBlock : Mode.connect.fBlock = true := rfl
@[simp] theorem Mode.connect_fMiner : Mode.connect.fMiner = false := rfl
@[simp] theorem Mode.connect_fJustCheck : Mode.connect.fJustCheck = false := rfl

/-- `mapTestPool`, which remembers the transaction that last wrote a name. -/
abbrev TestPool := Bytes → Option Uint256

/-- A pending map; a name without an entry and a name with an empty set are the same to every reader. -/
abbrev Pending := Bytes → Finset Uint256

def Pending.erase (m : Pending) (vch : Bytes) (hash : Uint256) : Pending :=
  Function.update m vch ((m vch).erase hash)

/-- What is not pending is not missed. -/
theorem Pending.erase_of_notMem {m : Pending} {vch : Bytes} {hash : Uint256} (h : hash ∉ m vch) :
    m.erase vch hash = m := by
  rw [Pending.erase, Finset.erase_eq_of_notMem h, Function.update_eq_self]

theorem Pending.erase_subset (m : Pending) (vch : Bytes) (hash : Uint256) (key : Bytes) :
    m.erase vch hash key ⊆ m key := by
  unfold Pending.erase
  by_cases h : key = vch
  · rw [h, Function.update_self]
    exact Finset.erase_subset hash (m vch)
  · rw [Function.update_of_ne h]

/-! ## The input scan -/

/-- The first input that spends a service output, with the entry it comes from and what it decodes to. -/
structure Prev where
  prevOutput : COutPoint
  prevCoins : CCoins
  prevOp : Op
  vvchPrevArgs : List Bytes
deriving Repr

/-- The loop over `tx.vin` that opens each of the three `Check…Inputs`. -/
def findPrev (decode : CScript → Option (Op × List Bytes)) (inputs : CoinsView) : List CTxIn → Option Prev
  | [] => none
  | txin :: vin =>
    match decode (inputs.output txin.prevout).scriptPubKey with
    | some (op, vvch) => some ⟨txin.prevout, inputs.getCoins txin.prevout.hash, op, vvch⟩
    | none => findPrev decode inputs vin

/-- What the scan finds is an input of the transaction, and its output decodes as reported. -/
theorem findPrev_eq_some {decode : CScript → Option (Op × List Bytes)} {inputs : CoinsView} {vin : List CTxIn}
    {prev : Prev} (h : findPrev decode inputs vin = some prev) :
    ∃ txin ∈ vin, prev.prevOutput = txin.prevout ∧ prev.prevCoins = inputs.getCoins txin.prevout.hash ∧
      decode (inputs.output txin.prevout).scriptPubKey = some (prev.prevOp, prev.vvchPrevArgs) := by
  induction vin with
  | nil => cases h
  | cons txin vin ih =>
    unfold findPrev at h
    cases hd : decode (inputs.output txin.prevout).scriptPubKey with
    | some r =>
      simp only [hd, Option.some.injEq] at h
      subst h
      exact ⟨txin, List.mem_cons_self, rfl, rfl, hd⟩
    | none =>
      simp only [hd] at h
      obtain ⟨txin', hin, hrest⟩ := ih h
      exact ⟨txin', List.mem_cons_of_mem txin hin, hrest⟩

theorem findPrev_eq_none_iff {decode : CScript → Option (Op × List Bytes)} {inputs : CoinsView}
    {vin : List CTxIn} :
    findPrev decode inputs vin = none ↔
      ∀ txin ∈ vin, decode (inputs.output txin.prevout).scriptPubKey = none := by
  induction vin with
  | nil => simp [findPrev]
  | cons txin vin ih =>
    unfold findPrev
    cases hd : decode (inputs.output txin.prevout).scriptPubKey with
    | some r => simp [hd]
    | none => simp [hd, ih]

/-- The scan reads the entries of the inputs only. -/
theorem findPrev_congr {decode : CScript → Option (Op × List Bytes)} {v w : CoinsView} {vin : List CTxIn}
    (h : ∀ txin ∈ vin, w.getCoins txin.prevout.hash = v.getCoins txin.prevout.hash) :
    findPrev decode w vin = findPrev decode v vin := by
  induction vin with
  | nil => rfl
  | cons txin vin ih =>
    obtain ⟨hhead, htail⟩ := List.forall_mem_cons.mp h
    simp only [findPrev, CoinsView.output, hhead, ih htail]

/-! ## Fee lists -/

/-- `CAliasFee`, `COfferFee` and `CCertFee` are one record. -/
structure CFee where
  hash : Uint256
  nTime : Nat
  nHeight : Nat
  nFee : Nat
deriving DecidableEq, Repr

/-- An `int64` amount as the `uint64` the fee records store. -/
def toUint64 (n : Int) : Nat := (n % 2 ^ 64).toNat

/-- **`InsertAliasFee`.** Overwrite the record of the same transaction and height, or put a new one first. -/
def insertAliasFee (pindex : CBlockIndex) (hash : Uint256) (vValue : Int) (fees : List CFee) : List CFee :=
  upsertFront (fun fee => fee.hash = hash ∧ fee.nHeight = pindex.nHeight)
    ⟨hash, pindex.nTime, pindex.nHeight, toUint64 vValue⟩ fees

/-- **`InsertOfferFee`** and **`InsertCertFee`.** Unlike the alias copy they never set the record's hash, so
    they look for a zero hash at this height, and they leave a record they find as it is. -/
def insertFeeUnhashed (pindex : CBlockIndex) (nValue : Int) (fees : List CFee) : List CFee :=
  if fees.any (fun fee => fee.hash = 0 ∧ fee.nHeight = pindex.nHeight) then fees
  else ⟨0, pindex.nTime, pindex.nHeight, toUint64 nValue⟩ :: fees

def insertOfferFee : CBlockIndex → Int → List CFee → List CFee := insertFeeUnhashed

def insertCertFee : CBlockIndex → Int → List CFee → List CFee := insertFeeUnhashed

/-! ## From fees to a subsidy -/

/-- The local variables of the subsidy loop. -/
structure SubsidyScan where
  bFound : Bool
  nTargetTime : Nat
  nTarget1hrTime : Nat
  hr1 : Nat
  hr12 : Nat
  blk1hrht : Nat
  blk12hrht : Nat
deriving DecidableEq, Repr

/-- One iteration: from the first record at or below `nHeight` on, add up what is younger than twelve hours
    (`h12`) and than one hour, and remember the height of the last record counted in each window. -/
def SubsidyScan.step (nHeight h12 : Nat) (acc : SubsidyScan) (fee : CFee) : SubsidyScan :=
  let acc := { acc with bFound := acc.bFound || decide (fee.nHeight ≤ nHeight) }
  if acc.bFound then
    let acc :=
      if acc.nTargetTime = 0 then
        { acc with
          hr1 := 0, hr12 := 0
          nTargetTime := (fee.nTime + 2 ^ 32 - h12) % 2 ^ 32
          nTarget1hrTime := (fee.nTime + 2 ^ 32 - h12 / 12) % 2 ^ 32 }
      else acc
    if acc.nTargetTime < fee.nTime then
      let acc := { acc with hr12 := (acc.hr12 + fee.nFee) % 2 ^ 64, blk12hrht := fee.nHeight % 2 ^ 32 }
      if acc.nTarget1hrTime < fee.nTime then
        { acc with hr1 := (acc.hr1 + fee.nFee) % 2 ^ 64, blk1hrht := fee.nHeight % 2 ^ 32 }
      else acc
    else acc
  else acc

/-- `(nHeight - blk) + 1` in 32 bits. -/
def blockSpan (nHeight blk : Nat) : Nat := (nHeight + 2 ^ 32 - blk + 1) % 2 ^ 32

/-- The averages of the last hour and of the last twelve hours. -/
def feeAverages (h12 nHeight : Nat) (fees : List CFee) : Except Reject (Nat × Nat) := do
  let blk := (nHeight + 2 ^ 32 - 1) % 2 ^ 32
  let acc := fees.foldl (SubsidyScan.step nHeight h12) ⟨false, 0, 0, 1, 1, blk, blk⟩
  require (blockSpan nHeight acc.blk12hrht ≠ 0) (crash "hr12 /= (nHeight - blk12hrht) + 1")
  require (blockSpan nHeight acc.blk1hrht ≠ 0) (crash "hr1 /= (nHeight - blk1hrht) + 1")
  .ok (acc.hr1 / blockSpan nHeight acc.blk1hrht, acc.hr12 / blockSpan nHeight acc.blk12hrht)

/-- `GetAliasFeeSubsidy`: the mean of the two averages, over windows of one and twelve hours. -/
def getAliasFeeSubsidy (nHeight : Nat) (fees : List CFee) : Except Reject Nat := do
  let (hr1, hr12) ← feeAverages (60 * 60 * 12) nHeight fees
  .ok ((hr12 + hr1) % 2 ^ 64 / 2)

/-- `GetOfferFeeSubsidy` and `GetCertFeeSubsidy`: the larger average, over windows of 360 and 4320 seconds. -/
def feeSubsidyMax (nHeight : Nat) (fees : List CFee) : Except Reject Nat := do
  let (hr1, hr12) ← feeAverages (360 * 12) nHeight fees
  .ok (max hr1 hr12)

def getOfferFeeSubsidy : Nat → List CFee → Except Reject Nat := feeSubsidyMax

def getCertFeeSubsidy : Nat → List CFee → Except Reject Nat := feeSubsidyMax

end Syscoin

import Mathlib.Data.List.Sort
import Syscoin.Network.Addrman

/-!
# `Network.TimeData` — the clocks of other nodes

Every peer reports its time once, and `AddTimeData` keeps how far the last 200 reports are from the own clock. The median
of them is added to the own clock. Numbers of 64 bits are integers here, and arithmetic on them wraps.
-/

namespace Syscoin

/-! ## `CMedianFilter` -/

/-- "Median filter over a stream of values. Returns the median of the last N numbers" -/
structure CMedianFilter where
  vValues : List Int
  vSorted : List Int
  nSize : Nat
deriving DecidableEq, Repr

namespace CMedianFilter

def init (size : Nat) (initial_value : Int) : CMedianFilter := ⟨[initial_value], [initial_value], size⟩

variable (f : CMedianFilter)

/-- The values after one more came in. -/
def push (value : Int) : List Int :=
  (if f.vValues.length = f.nSize then f.vValues.drop 1 else f.vValues) ++ [value]

def input (value : Int) : CMedianFilter :=
  { f with vValues := f.push value, vSorted := (f.push value).insertionSort (· ≤ ·) }

/-- `none` where the assert fails. -/
def median : Option Int :=
  let size := f.vSorted.length
  if size = 0 then none
  else if size % 2 = 1 then f.vSorted[size / 2]?
  else do
    let below ← f.vSorted[size / 2 - 1]?
    let above ← f.vSorted[size / 2]?
    some (((below + above).bmod (2 ^ 64)).tdiv 2)

def size : Nat := f.vValues.length

end CMedianFilter

/-! ## `AddTimeData` -/

/-- `abs64` -/
def abs64 (n : Int) : Int := if n ≥ 0 then n else (-n).bmod (2 ^ 64)

/-- The statics of `AddTimeData`, and what it writes. -/
structure TimeData where
  vTimeOffsets : CMedianFilter
  setKnown : Finset CNetAddr
  nTimeOffset : Int
  fDone : Bool
  strMiscWarning : String

/-- A call, with what `GetTime` returns in it. -/
structure TimeReport where
  ip : CNetAddr
  nTime : Int
  getTime : Int

def TimeReport.nOffsetSample (report : TimeReport) : Int := (report.nTime - report.getTime).bmod (2 ^ 64)

def clockWarning : String :=
  "Warning: Please check that your computer's date and time are correct! If your clock is wrong Syscoin will not work properly."

namespace TimeData

def init : TimeData := ⟨.init 200 0, ∅, 0, false, ""⟩

/-- "If nobody has a time different than ours but within 5 minutes of ours, give a warning" -/
def warn (st : TimeData) : TimeData :=
  if st.fDone then st
  else if st.vTimeOffsets.vSorted.any fun nOffset => nOffset ≠ 0 ∧ abs64 nOffset < 5 * 60 then st
  else { st with fDone := true, strMiscWarning := clockWarning }

/-- **`AddTimeData`** -/
def addTimeData (st : TimeData) (report : TimeReport) : Option TimeData :=
  -- "Ignore duplicates"
  if report.ip ∈ st.setKnown then some st
  else
    let vTimeOffsets := st.vTimeOffsets.input report.nOffsetSample
    let st₁ := { st with setKnown := insert report.ip st.setKnown, vTimeOffsets := vTimeOffsets }
    if vTimeOffsets.size ≥ 5 ∧ vTimeOffsets.size % 2 = 1 then do
      let nMedian ← vTimeOffsets.median
      -- "Only let other nodes change our time by so much"
      some (if abs64 nMedian < 35 * 60 then { st₁ with nTimeOffset := nMedian }
        else { st₁ with nTimeOffset := 0 }.warn)
    else some st₁

def run (st : TimeData) (reports : List TimeReport) : Option TimeData := reports.foldlM addTimeData st

end TimeData

end Syscoin

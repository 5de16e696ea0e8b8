import Mathlib.Data.Finset.Dedup
import Mathlib.Data.Finset.Insert
import Mathlib.Data.List.AList
import Syscoin.Primitives.Serialize

/-!
# `Network.Alerts` — alerts to all nodes

An alert is a signed message that says until when it is in effect and which other alerts it cancels. `ProcessAlert`
first drops what the new alert cancels or what is over, and then asks whether the alert is cancelled by what is left. The
adjusted time is one number for the length of a call.
-/

namespace Syscoin

open Lib Lib.Reader

/-- `std::numeric_limits<int>::max()` -/
def maxInt : Int := 2147483647

structure CUnsignedAlert where
  nVersion : Int
  nRelayUntil : Int
  nExpiration : Int
  nID : Int
  nCancel : Int
  setCancel : Finset Int
  nMinVer : Int
  nMaxVer : Int
  setSubVer : Finset Bytes
  nPriority : Int
  strComment : Bytes
  strStatusBar : Bytes
  strReserved : Bytes
deriving DecidableEq

namespace CUnsignedAlert

def unserialize : Reader UInt8 CUnsignedAlert := do
  let nVersion ← readSigned 4
  let nRelayUntil ← readSigned 8
  let nExpiration ← readSigned 8
  let nID ← readSigned 4
  let nCancel ← readSigned 4
  let setCancel ← readVector (readSigned 4)
  let nMinVer ← readSigned 4
  let nMaxVer ← readSigned 4
  let setSubVer ← readVector readVch
  let nPriority ← readSigned 4
  let strComment ← readVch
  let strStatusBar ← readVch
  let strReserved ← readVch
  pure ⟨nVersion, nRelayUntil, nExpiration, nID, nCancel, setCancel.toFinset, nMinVer, nMaxVer, setSubVer.toFinset,
    nPriority, strComment, strStatusBar, strReserved⟩

variable (getAdjustedTime : Int)

def isInEffect (alert : CUnsignedAlert) : Prop := getAdjustedTime < alert.nExpiration

def cancels (self alert : CUnsignedAlert) : Prop :=
  self.isInEffect getAdjustedTime ∧ (alert.nID ≤ self.nCancel ∨ alert.nID ∈ self.setCancel)

instance (alert : CUnsignedAlert) : Decidable (alert.isInEffect getAdjustedTime) :=
  inferInstanceAs (Decidable (getAdjustedTime < alert.nExpiration))

instance (self alert : CUnsignedAlert) : Decidable (self.cancels getAdjustedTime alert) :=
  inferInstanceAs (Decidable (self.isInEffect getAdjustedTime ∧ (alert.nID ≤ self.nCancel ∨ alert.nID ∈ self.setCancel)))

/-- "URGENT: Alert key compromised, upgrade required" -/
def urgent : Bytes := "URGENT: Alert key compromised, upgrade required".toList.map fun c => UInt8.ofNat c.toNat

/-- What an alert with the largest `nID` must be. -/
def isFinal (alert : CUnsignedAlert) : Prop :=
  alert.nExpiration = maxInt ∧ alert.nCancel = maxInt - 1 ∧ alert.nMinVer = 0 ∧ alert.nMaxVer = maxInt ∧
    alert.setSubVer = ∅ ∧ alert.nPriority = maxInt ∧ alert.strStatusBar = urgent

instance (alert : CUnsignedAlert) : Decidable alert.isFinal :=
  inferInstanceAs (Decidable (alert.nExpiration = maxInt ∧ alert.nCancel = maxInt - 1 ∧ alert.nMinVer = 0 ∧
    alert.nMaxVer = maxInt ∧ alert.setSubVer = ∅ ∧ alert.nPriority = maxInt ∧ alert.strStatusBar = urgent))

end CUnsignedAlert

/-- An alert with the message and the signature that it came in. -/
structure CAlert extends CUnsignedAlert where
  vchMsg : Bytes
  vchSig : Bytes
deriving DecidableEq

/-- The hash, and whether the alert key of the network signed a hash. -/
structure AlertEnv where
  Hash : Bytes → Uint256
  verify : Uint256 → Bytes → Bool

/-- A call of `ProcessAlert` for an alert that came over the network, and the adjusted time in it. -/
structure AlertCall where
  vchMsg : Bytes
  vchSig : Bytes
  getAdjustedTime : Int

/-- The message does not hold the fields of an alert. -/
inductive AlertFault where
  | unserialize
deriving DecidableEq, Repr

abbrev AlertMap : Type := AList fun _ : Uint256 => CAlert

namespace AlertCall

variable (env : AlertEnv) (call : AlertCall)

/-- `CheckSignature`, which gives the alert its fields. -/
def checkSignature : Except AlertFault (Option CAlert) :=
  if env.verify (env.Hash call.vchMsg) call.vchSig then
    match CUnsignedAlert.unserialize call.vchMsg with
    | none => .error .unserialize
    | some (alert, _) => .ok (some ⟨alert, call.vchMsg, call.vchSig⟩)
  else .ok none

end AlertCall

/-- The loop "Cancel previous alerts". -/
def AlertMap.survivors (mapAlerts : AlertMap) (getAdjustedTime : Int) (self : CAlert) : AlertMap :=
  ⟨mapAlerts.entries.filter fun item =>
      ¬ self.cancels getAdjustedTime item.2.toCUnsignedAlert ∧ item.2.isInEffect getAdjustedTime,
    mapAlerts.nodupKeys.sublist List.filter_sublist⟩

/-- `map::insert`, which leaves an entry that is there. -/
def AlertMap.add (mapAlerts : AlertMap) (hash : Uint256) (alert : CAlert) : AlertMap :=
  if hash ∈ mapAlerts then mapAlerts else mapAlerts.insert hash alert

/-- **`ProcessAlert`** -/
def processAlert (env : AlertEnv) (mapAlerts : AlertMap) (call : AlertCall) : Except AlertFault Bool × AlertMap :=
  match call.checkSignature env with
  | .error e => (.error e, mapAlerts)
  | .ok none => (.ok false, mapAlerts)
  | .ok (some self) =>
    if ¬ self.isInEffect call.getAdjustedTime then (.ok false, mapAlerts)
    else if self.nID = maxInt ∧ ¬ self.isFinal then (.ok false, mapAlerts)
    else
      let mapAlerts := mapAlerts.survivors call.getAdjustedTime self
      -- "Check if this alert has been cancelled"
      if mapAlerts.entries.any fun item => item.2.cancels call.getAdjustedTime self.toCUnsignedAlert then
        (.ok false, mapAlerts)
      else (.ok true, mapAlerts.add (env.Hash self.vchMsg) self)

/-- The alerts after some calls. -/
def alertsAfter (env : AlertEnv) (calls : List AlertCall) : AlertMap :=
  calls.foldl (fun mapAlerts call => (processAlert env mapAlerts call).2) ∅

end Syscoin

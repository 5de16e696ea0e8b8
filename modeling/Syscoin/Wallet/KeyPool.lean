import Mathlib.Data.Finset.Max
import Mathlib.Data.Int.Interval

/-!
# `Wallet.KeyPool` — keys in store and keys on reserve

The wallet keeps a store of unused keys. Each has an index and a record in the wallet file under it, and `setKeyPool` has
the indexes that nobody uses. Whoever needs a key takes the lowest index out (`ReserveKeyFromKeyPool`) and later either
keeps the key, which erases the record, or returns the index. The store is filled up with indexes after its highest one.

`GenerateNewKey` draws from a stream of keys. `kept` is not part of the wallet: it remembers the keys that were kept.
-/

namespace Syscoin

/-- A `CReserveKey`: the index it holds, or -1, and the key that goes with it, `none` for an invalid one. -/
structure CReserveKey (K : Type) where
  nIndex : Int
  vchPubKey : Option K

/-- The wallet, as far as the key pool goes, and everyone who may hold a reservation. -/
structure CWallet (ι K : Type) where
  setKeyPool : Finset Int
  pool : Int → Option K
  keys : List K
  fLocked : Bool
  fFileBacked : Bool
  vchDefaultKey : Option K
  holders : ι → CReserveKey K
  kept : List K

namespace CWallet

variable {ι K : Type} [DecidableEq ι] [DecidableEq K] (gen : Nat → K) (keypool : Nat)

/-- A wallet without keys. -/
def fresh (fLocked fFileBacked : Bool) (vchDefaultKey : Option K) : CWallet ι K where
  setKeyPool := ∅
  pool := fun _ => none
  keys := []
  fLocked := fLocked
  fFileBacked := fFileBacked
  vchDefaultKey := vchDefaultKey
  holders := fun _ => ⟨-1, none⟩
  kept := []

/-- A new key is written to the file under an index, and the index goes into the pool. -/
def addKey (nIndex : Int) (w : CWallet ι K) : CWallet ι K :=
  let key := gen w.keys.length
  { w with
    keys := key :: w.keys
    pool := Function.update w.pool nIndex (some key)
    setKeyPool := insert nIndex w.setKeyPool }

/-- **`NewKeyPool`.** The pool is gone even when the wallet is locked. -/
def newKeyPool (w : CWallet ι K) : Bool × CWallet ι K :=
  let w := { w with
    pool := fun nIndex => if nIndex ∈ w.setKeyPool then none else w.pool nIndex
    setKeyPool := ∅ }
  if w.fLocked then (false, w)
  else (true, (List.range keypool).foldl (fun w (i : Nat) => w.addKey gen ((i : Int) + 1)) w)

/-- The index of the next new key. -/
def nEnd (w : CWallet ι K) : Int :=
  match w.setKeyPool.max with
  | ⊥ => 1
  | (last : Int) => last + 1

/-- `nTargetSize + 1`, an unsigned number. -/
def nTarget : Nat := (keypool % 2 ^ 32 + 1) % 2 ^ 32

/-- The loop of `TopUpKeyPool`. -/
def topUp : Nat → CWallet ι K → CWallet ι K
  | 0, w => w
  | fuel + 1, w => if w.setKeyPool.card < nTarget keypool then topUp fuel (w.addKey gen w.nEnd) else w

/-- **`TopUpKeyPool`.** Every round adds an index, so that the target bounds the number of rounds. -/
def topUpKeyPool (w : CWallet ι K) : Bool × CWallet ι K :=
  if w.fLocked then (false, w) else (true, w.topUp gen keypool (nTarget keypool))

/-- What is thrown. -/
inductive KeyPoolError where
  | readFailed
  | unknownKey
deriving DecidableEq, Repr

def setHolder (a : ι) (r : CReserveKey K) (w : CWallet ι K) : CWallet ι K :=
  { w with holders := Function.update w.holders a r }

/-- **`ReserveKeyFromKeyPool`** for a holder, whose `nIndex` is written before the record is read. The key is what the
    caller gets, `none` if there is none to get. -/
def reserveKeyFromKeyPool (a : ι) (w : CWallet ι K) : Except KeyPoolError (Option K) × CWallet ι K :=
  let w := w.setHolder a { w.holders a with nIndex := -1 }
  let w := if w.fLocked then w else (w.topUpKeyPool gen keypool).2
  match w.setKeyPool.min with
  | ⊤ => (.ok none, w)
  | (nIndex : Int) =>
    let w := { w with setKeyPool := w.setKeyPool.erase nIndex }
    let w := w.setHolder a { w.holders a with nIndex := nIndex }
    match w.pool nIndex with
    | none => (.error .readFailed, w)
    | some key => if key ∈ w.keys then (.ok (some key), w) else (.error .unknownKey, w)

/-- **`CReserveKey::GetReservedKey`.** A holder without a reservation gets one, or the default key. -/
def getReservedKey (a : ι) (w : CWallet ι K) : Except KeyPoolError (Option K) × CWallet ι K :=
  if (w.holders a).nIndex = -1 then
    match w.reserveKeyFromKeyPool gen keypool a with
    | (.error e, w) => (.error e, w)
    | (.ok key, w) =>
      if (w.holders a).nIndex ≠ -1 then (.ok key, w.setHolder a { w.holders a with vchPubKey := key })
      else
        match w.vchDefaultKey with
        | some key => (.ok (some key), w.setHolder a { w.holders a with vchPubKey := some key })
        | none => (.ok none, w)
  else (.ok (w.holders a).vchPubKey, w)

/-- **`CReserveKey::KeepKey`.** -/
def keepKey (a : ι) (w : CWallet ι K) : CWallet ι K :=
  let r := w.holders a
  let w :=
    if r.nIndex = -1 then w
    else { w with
      pool := if w.fFileBacked then Function.update w.pool r.nIndex none else w.pool
      kept := r.vchPubKey.toList ++ w.kept }
  w.setHolder a ⟨-1, none⟩

/-- **`CReserveKey::ReturnKey`**, also what the destructor does. -/
def returnKey (a : ι) (w : CWallet ι K) : CWallet ι K :=
  let r := w.holders a
  let w := if r.nIndex = -1 then w else { w with setKeyPool := insert r.nIndex w.setKeyPool }
  w.setHolder a ⟨-1, none⟩

end CWallet

/-- What can happen to a wallet. -/
inductive KeyPoolOp (ι : Type) where
  | getReservedKey (a : ι)
  | keepKey (a : ι)
  | returnKey (a : ι)
  | topUpKeyPool
  | newKeyPool
  | lock
  | unlock

namespace CWallet

variable {ι K : Type} [DecidableEq ι] [DecidableEq K] (gen : Nat → K) (keypool : Nat)

def apply (w : CWallet ι K) : KeyPoolOp ι → CWallet ι K
  | .getReservedKey a => (w.getReservedKey gen keypool a).2
  | .keepKey a => w.keepKey a
  | .returnKey a => w.returnKey a
  | .topUpKeyPool => (w.topUpKeyPool gen keypool).2
  | .newKeyPool => (w.newKeyPool gen keypool).2
  | .lock => { w with fLocked := true }
  | .unlock => { w with fLocked := false }

/-- The wallets that steps which meet a condition lead to. -/
inductive Reached (P : CWallet ι K → KeyPoolOp ι → Prop) : CWallet ι K → Prop where
  | fresh (fLocked fFileBacked : Bool) (vchDefaultKey : Option K) : Reached P (fresh fLocked fFileBacked vchDefaultKey)
  | step {w : CWallet ι K} {op : KeyPoolOp ι} (prev : Reached P w) (h : P w op) : Reached P (w.apply gen keypool op)

end CWallet

end Syscoin

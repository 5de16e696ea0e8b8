import Mathlib.Data.Finset.Sort
import Mathlib.Data.Finset.Union
import Mathlib.Data.Finset.Option
import Syscoin.Wallet.Transactions

/-!
# `Wallet.Groupings` — which addresses belong together

`GetAddressGroupings` collects sets of addresses that a transaction of the wallet shows to have one owner, and merges
those that overlap. The merged groups are blocks of memory that `setmap` and `uniqueGroupings` point to. A block may come
back from `new` once it was deleted, so the allocator is a parameter, and so is the order in which the sets are walked.
-/

namespace Syscoin

/-! ## Collecting -/

namespace WalletState

variable (env : WalletEnv) (w : WalletState)

/-- `ExtractDestination`, where it finds one. -/
def addressOf (txout : CTxOut) : Option CTxDestination :=
  match extractDestination env.getID txout.scriptPubKey with
  | .none => none
  | address => some address

/-- The address that an input spends from, if the input is mine. -/
def inputAddress (txin : CTxIn) : Option CTxDestination :=
  match w.prevOut txin with
  | none => none
  | some (_, txout) => if w.isMine env txout then addressOf env txout else none

/-- "group all input addresses with each other" and "group change with input addresses" -/
def inputGrouping (wtx : CWalletTx) : Finset CTxDestination :=
  let addresses := wtx.vin.filterMap (w.inputAddress env)
  if addresses = [] then ∅
  else (addresses ++ (wtx.vout.filter (w.isChange env)).filterMap (addressOf env)).toFinset

/-- "group lone addrs by themselves" -/
def loneGroupings (wtx : CWalletTx) : List (Finset CTxDestination) :=
  ((wtx.vout.filter (w.isMine env)).filterMap (addressOf env)).map fun address => {address}

/-- The sets that one transaction adds. -/
def groupingsOf (wtx : CWalletTx) : List (Finset CTxDestination) :=
  (if (w.inputGrouping env wtx).Nonempty then [w.inputGrouping env wtx] else []) ++ w.loneGroupings env wtx

/-- `groupings`, after the loop over `mapWallet`. -/
def collectGroupings : Finset (Finset CTxDestination) :=
  (w.mapWallet.entries.flatMap fun entry => w.groupingsOf env entry.2).toFinset

end WalletState

/-! ## Merging -/

/-- Which block `new` gives, of those that are not in use. -/
structure Allocator where
  malloc : Finset Nat → Nat
  fresh : ∀ live, malloc live ∉ live

/-- A block is used that was deleted. -/
inductive Dangling where
  | group
deriving DecidableEq, Repr

/-- The blocks with their groups, and what points to them. -/
structure Merging (α : Type) where
  live : Finset Nat
  group : Nat → Finset α
  uniqueGroupings : Finset Nat
  setmap : α → Option Nat

namespace Merging

variable {α : Type} [DecidableEq α]

def empty : Merging α := ⟨∅, fun _ => ∅, ∅, fun _ => none⟩

variable (st : Merging α)

/-- `*p` -/
def deref (p : Nat) : Except Dangling (Finset α) := if p ∈ st.live then .ok (st.group p) else .error .group

/-- "make a set of all the groups hit by this new group" -/
def hits (grouping : Finset α) : Finset Nat := grouping.biUnion fun address => (st.setmap address).toFinset

/-- One turn of "merge all hit groups into a new single group and delete old groups". -/
def absorb (merged : Nat) (st : Merging α) (hit : Nat) : Except Dangling (Merging α) := do
  let old ← st.deref hit
  let new ← st.deref merged
  pure { st with
    live := st.live.erase hit
    group := Function.update st.group merged (new ∪ old)
    uniqueGroupings := st.uniqueGroupings.erase hit }

/-- One turn of the loop over `groupings`. A set of pointers is walked in the order of the pointers. -/
def mergeOne (A : Allocator) (st : Merging α) (grouping : Finset α) : Except Dangling (Merging α) := do
  let merged := A.malloc st.live
  let st₁ := { st with live := insert merged st.live, group := Function.update st.group merged grouping }
  let st₂ ← ((st.hits grouping).sort (· ≤ ·)).foldlM (absorb merged) st₁
  let members ← st₂.deref merged
  pure { st₂ with
    uniqueGroupings := insert merged st₂.uniqueGroupings
    setmap := fun address => if address ∈ members then some merged else st₂.setmap address }

/-- The last loop: each group is copied and its block deleted. -/
def returned : List Nat → Merging α → Except Dangling (Finset (Finset α))
  | [], _ => .ok ∅
  | p :: rest, st => do
    let grouping ← st.deref p
    let ret ← returned rest { st with live := st.live.erase p }
    pure (insert grouping ret)

end Merging

/-- **`GetAddressGroupings`**, from the sets that were collected, in some order. -/
def mergeGroupings {α : Type} [DecidableEq α] (A : Allocator) (groupings : List (Finset α)) :
    Except Dangling (Finset (Finset α)) := do
  let st ← groupings.foldlM (Merging.mergeOne A) Merging.empty
  Merging.returned (st.uniqueGroupings.sort (· ≤ ·)) st

end Syscoin

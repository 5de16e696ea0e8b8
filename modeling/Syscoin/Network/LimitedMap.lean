import Syscoin.Lib.SortedIndex

/-!
# `Network.LimitedMap` — a map that keeps the entries with the highest values

`limitedmap` is a map with a multimap beside it, `rmap`, that leads from each value to the place of its entry. The place
of an entry is given by its key, which it keeps as long as it is in the map; to erase at a place where nothing is, to read
`rmap.begin()` when `rmap` is empty, and the two lines that say "Shouldn't ever get here" are faults.
-/

namespace Syscoin

open Lib

/-- What must not happen to the two containers. -/
inductive LimitedMapFault where
  /-- `assert(0)` -/
  | shouldntEverGetHere
  /-- `rmap.begin()->second` of an empty `rmap` -/
  | emptyBegin
  /-- `map.erase` of an entry that is gone -/
  | dangling
deriving DecidableEq, Repr

/-- `limitedmap` -/
structure LimitedMap (K V : Type) where
  map : AList fun _ : K => V
  rmap : List (V × K)
  nMaxSize : Nat
deriving DecidableEq

namespace LimitedMap

variable {K V : Type}

/-- `limitedmap(size_type nMaxSizeIn)` -/
def init (nMaxSizeIn : Nat) : LimitedMap K V := ⟨∅, [], nMaxSizeIn⟩

def size (m : LimitedMap K V) : Nat := m.map.entries.length

variable [DecidableEq K]

/-- `map.erase(rmap.begin()->second); rmap.erase(rmap.begin());` -/
def eraseFirst (m : LimitedMap K V) : Except LimitedMapFault (LimitedMap K V) :=
  match m.rmap with
  | [] => .error .emptyBegin
  | (_, it) :: rest => if it ∈ m.map then .ok { m with map := m.map.erase it, rmap := rest } else .error .dangling

variable [LinearOrder V]

/-- `insert` -/
def insert (m : LimitedMap K V) (k : K) (v : V) : Except LimitedMapFault (LimitedMap K V) :=
  if k ∈ m.map then .ok m
  else do
    let m₁ := { m with map := m.map.insert k v }
    let m₂ ← if m₁.nMaxSize ≠ 0 ∧ m₁.size = m₁.nMaxSize then m₁.eraseFirst else .ok m₁
    pure { m₂ with rmap := insertBehind (v, k) m₂.rmap }

/-- The loop over `rmap.equal_range(itTarget->second)`, which erases the place of the target. -/
def eraseTarget (rmap : List (V × K)) (v : V) (itTarget : K) : Except LimitedMapFault (List (V × K)) :=
  match (rmap.filter fun it => it.1 = v).find? fun it => it.2 = itTarget with
  | none => .error .shouldntEverGetHere
  | some it => .ok (rmap.erase it)

/-- `erase` -/
def erase (m : LimitedMap K V) (k : K) : Except LimitedMapFault (LimitedMap K V) :=
  match m.map.lookup k with
  | none => .ok m
  | some old => do
    let rmap ← eraseTarget m.rmap old k
    pure { m with map := m.map.erase k, rmap := rmap }

/-- `update`, of the entry under the key that `itIn` shows. -/
def update (m : LimitedMap K V) (k : K) (v : V) : Except LimitedMapFault (LimitedMap K V) :=
  match m.map.lookup k with
  | none => .ok m
  | some old => do
    let rmap ← eraseTarget m.rmap old k
    pure { m with map := m.map.insert k v, rmap := insertBehind (v, k) rmap }

/-- `while (map.size() > s)`, with the two containers. -/
def shrink (s : Nat) : List (V × K) → (AList fun _ : K => V) →
    Except LimitedMapFault (List (V × K) × AList fun _ : K => V)
  | [], map => if map.entries.length > s then .error .emptyBegin else .ok ([], map)
  | (v, it) :: rest, map =>
    if map.entries.length > s then
      if it ∈ map then shrink s rest (map.erase it) else .error .dangling
    else .ok ((v, it) :: rest, map)

/-- `max_size(size_type s)` -/
def setMaxSize (m : LimitedMap K V) (s : Nat) : Except LimitedMapFault (LimitedMap K V) :=
  if s ≠ 0 then do
    let (rmap, map) ← shrink s m.rmap m.map
    pure ⟨map, rmap, s⟩
  else .ok { m with nMaxSize := 0 }

/-- The calls that change a `limitedmap`. -/
inductive Call (K V : Type) where
  | insert (k : K) (v : V)
  | erase (k : K)
  | update (k : K) (v : V)
  | setMaxSize (s : Nat)

def perform (m : LimitedMap K V) : Call K V → Except LimitedMapFault (LimitedMap K V)
  | .insert k v => m.insert k v
  | .erase k => m.erase k
  | .update k v => m.update k v
  | .setMaxSize s => m.setMaxSize s

def run (m : LimitedMap K V) (calls : List (Call K V)) : Except LimitedMapFault (LimitedMap K V) :=
  calls.foldlM perform m

end LimitedMap

/-! ## `AskFor` -/

def MAX_INV_SZ : Nat := 50000

/-- What `AskFor` works on: the map of all nodes, the clock of all nodes and the queue of this one. -/
structure AskState (CInv : Type) where
  mapAlreadyAskedFor : LimitedMap CInv Int
  nLastTime : Int
  mapAskFor : List (Int × CInv)

namespace AskState

variable {CInv : Type} [DecidableEq CInv]

def init : AskState CInv := ⟨.init MAX_INV_SZ, 0, []⟩

/-- `CNode::AskFor`, at a time in seconds. -/
def askFor (st : AskState CInv) (now : Int) (inv : CInv) : Except LimitedMapFault (AskState CInv) := do
  let it := st.mapAlreadyAskedFor.map.lookup inv
  -- "Make sure not to reuse time indexes to keep things in the same order"
  let nNow := max ((now - 1) * 1000000) (st.nLastTime + 1)
  -- "Each retry is 2 minutes after the last"
  let nRequestTime := max (it.getD 0 + 2 * 60 * 1000000) nNow
  let asked ←
    if it.isSome then st.mapAlreadyAskedFor.update inv nRequestTime
    else st.mapAlreadyAskedFor.insert inv nRequestTime
  pure ⟨asked, nNow, insertBehind (nRequestTime, inv) st.mapAskFor⟩

end AskState

end Syscoin

import Mathlib.Data.List.DropRight
import Mathlib.Data.List.Forall2
import Mathlib.Logic.Function.Basic
import Syscoin.Primitives.Tx

/-!
# `Chain.Coins` — unspent outputs, spending and undo records

`CCoins` is what the coin database keeps of a transaction: the outputs not yet spent, with spent ones nulled
and trailing nulls dropped. A `CoinsView` is the map a `CCoinsViewCache` presents to validation: which
transactions have an entry at all (`HaveCoins`) and what the entry is. Caches over caches behave as one such
map, so the layers are not modelled; erasing fully spent entries is `CoinsView.prune`, which is what writing
the cache to the coin database does.

Two facts carry the later arguments: an input that `HaveInputs` accepts points at an output of the view
(`haveInputs_output`), and after `updateCoins` every output of the view is an old one or one of the new
transaction's (`updateCoins_output`).
-/

namespace Syscoin

open Lib

structure CCoins where
  fCoinBase : Bool
  vout : List CTxOut
  nHeight : Nat
  nVersion : Int
deriving DecidableEq, Repr

/-- What `Spend` remembers of an output; height, coinbase flag and version only for the last one spent. -/
structure CTxInUndo where
  txout : CTxOut
  fCoinBase : Bool
  nHeight : Nat
  nVersion : Int
deriving DecidableEq, Repr

/-- The undo records of one transaction, one for each input. -/
abbrev CTxUndo := List CTxInUndo

/-- The undo records of a block, one for each transaction but the coinbase. -/
abbrev CBlockUndo := List CTxUndo

namespace CCoins

/-- The default constructor. -/
def empty : CCoins := ⟨false, [], 0, 0⟩

def ofTx (tx : CTransaction) (nHeight : Nat) : CCoins := ⟨tx.isCoinBase, tx.vout, nHeight, tx.nVersion⟩

/-- `Cleanup`: drop the spent outputs at the end. -/
def cleanup (vout : List CTxOut) : List CTxOut := vout.rdropWhile fun o => o.isNull

/-- `vout[n]`, reading a null output past the end. -/
def output (coins : CCoins) (n : Nat) : CTxOut := coins.vout.getD n CTxOut.null

def isAvailable (coins : CCoins) (n : Nat) : Prop := n < coins.vout.length ∧ ¬ (coins.output n).isNull

instance (coins : CCoins) (n : Nat) : Decidable (coins.isAvailable n) :=
  inferInstanceAs (Decidable (_ ∧ _))

def isPruned (coins : CCoins) : Prop := ∀ o ∈ coins.vout, o.isNull

instance (coins : CCoins) : Decidable coins.isPruned :=
  inferInstanceAs (Decidable (∀ o ∈ coins.vout, o.isNull))

/-- **`Spend`.** Null the output and drop trailing nulls; the undo record keeps the transaction's height,
    coinbase flag and version when nothing is left. -/
def spend (coins : CCoins) (n : Nat) : Option (CCoins × CTxInUndo) :=
  if coins.isAvailable n then
    let txout := coins.output n
    let vout := cleanup (coins.vout.set n CTxOut.null)
    let undo : CTxInUndo :=
      if vout = [] then ⟨txout, coins.fCoinBase, coins.nHeight, coins.nVersion⟩ else ⟨txout, false, 0, 0⟩
    some ({ coins with vout := vout }, undo)
  else none

end CCoins

/-- What validation sees of the coin database. -/
abbrev CoinsView := Uint256 → Option CCoins

namespace CoinsView

variable (view : CoinsView)

/-- `GetCoins`; the code asserts that the entry exists. -/
def getCoins (hash : Uint256) : CCoins := (view hash).getD CCoins.empty

/-- The output an outpoint names, null when there is none. -/
def output (o : COutPoint) : CTxOut := (view.getCoins o.hash).output o.n

/-- What is left of a view when it is written to the coin database, which erases fully spent entries. -/
def prune : CoinsView := fun hash =>
  match view hash with
  | none => none
  | some coins => if coins.isPruned then none else some coins

end CoinsView

namespace CTransaction

/-- `HaveInputs`: every prevout names an entry and an unspent output of it. -/
def haveInputs (view : CoinsView) (tx : CTransaction) : Prop :=
  tx.isCoinBase = true ∨
    ∀ txin ∈ tx.vin, (view txin.prevout.hash).isSome = true ∧
      (view.getCoins txin.prevout.hash).isAvailable txin.prevout.n

instance (view : CoinsView) (tx : CTransaction) : Decidable (tx.haveInputs view) :=
  inferInstanceAs (Decidable (_ ∨ _))

def getValueIn (view : CoinsView) (tx : CTransaction) : Int :=
  if tx.isCoinBase then 0 else (tx.vin.map fun txin => (view.output txin.prevout).nValue).sum

def getP2SHSigOpCount (view : CoinsView) (tx : CTransaction) : Nat :=
  if tx.isCoinBase then 0
  else (tx.vin.map fun txin =>
    if isPayToScriptHash (view.output txin.prevout).scriptPubKey then
      getSigOpCountP2SH (view.output txin.prevout).scriptPubKey txin.scriptSig
    else 0).sum

end CTransaction

/-- Spend the inputs in order, collecting the undo records. -/
def spendInputs : List CTxIn → CoinsView → Except Reject (CoinsView × CTxUndo)
  | [], view => .ok (view, [])
  | txin :: vin, view =>
    match (view.getCoins txin.prevout.hash).spend txin.prevout.n with
    | none => .error (crash "assert(coins.Spend(txin.prevout, undo))")
    | some (coins, undo) => do
      let (view, txundo) ← spendInputs vin (Function.update view txin.prevout.hash (some coins))
      .ok (view, undo :: txundo)

/-- **`UpdateCoins`.** Spend the inputs, then enter the transaction's own outputs. -/
def updateCoins (env : Env) (tx : CTransaction) (nHeight : Nat) (view : CoinsView) :
    Except Reject (CoinsView × CTxUndo) := do
  let (view, txundo) ← (if tx.isCoinBase then .ok (view, []) else spendInputs tx.vin view)
  .ok (Function.update view (env.getHash tx) (some (CCoins.ofTx tx nHeight)), txundo)

/-! ## Unspent outputs -/

/-- The view has the unspent output `out` at the outpoint `o`. -/
def CoinsView.Unspent (view : CoinsView) (o : COutPoint) (out : CTxOut) : Prop :=
  ∃ coins, view o.hash = some coins ∧ coins.vout[o.n]? = some out ∧ ¬ out.isNull

theorem unspent_of_isAvailable {view : CoinsView} {o : COutPoint} (h : (view o.hash).isSome = true)
    (ha : (view.getCoins o.hash).isAvailable o.n) : view.Unspent o (view.output o) := by
  obtain ⟨coins, hc⟩ := Option.isSome_iff_exists.mp h
  have hg : view.getCoins o.hash = coins := by simp [CoinsView.getCoins, hc]
  rw [hg] at ha
  refine ⟨coins, hc, ?_, ?_⟩
  · simp [CoinsView.output, hg, CCoins.output, List.getD_eq_getElem?_getD, ha.1]
  · simpa [CoinsView.output, hg] using ha.2

/-- Every input that `HaveInputs` accepts spends an unspent output of the view. -/
theorem haveInputs_output {view : CoinsView} {tx : CTransaction} (h : tx.haveInputs view)
    (hcb : tx.isCoinBase = false) {txin : CTxIn} (hin : txin ∈ tx.vin) :
    view.Unspent txin.prevout (view.output txin.prevout) := by
  rcases h with h | h
  · rw [hcb] at h; cases h
  · exact unspent_of_isAvailable (h txin hin).1 (h txin hin).2

theorem Unspent.output_eq {view : CoinsView} {o : COutPoint} {out : CTxOut} (h : view.Unspent o out) :
    view.output o = out := by
  obtain ⟨coins, hc, hat, -⟩ := h
  simp [CoinsView.output, CoinsView.getCoins, hc, CCoins.output, List.getD_eq_getElem?_getD, hat]

/-- What `Cleanup` leaves was there before. -/
theorem getElem?_of_cleanup {vout : List CTxOut} {n : Nat} {out : CTxOut}
    (h : (CCoins.cleanup vout)[n]? = some out) : vout[n]? = some out := by
  obtain ⟨rest, hrest⟩ := List.rdropWhile_prefix (fun o : CTxOut => decide o.isNull) (l := vout)
  unfold CCoins.cleanup at h
  rw [← hrest, List.getElem?_append_left (List.getElem?_eq_some_iff.mp h).1]
  exact h

/-- A spend record holds the output that was spent, and the entry keeps only outputs it had. -/
theorem CCoins.spend_spec {coins coins' : CCoins} {n : Nat} {undo : CTxInUndo}
    (h : coins.spend n = some (coins', undo)) :
    coins.vout[n]? = some undo.txout ∧ ¬ undo.txout.isNull ∧
      ∀ (m : Nat) (out : CTxOut), coins'.vout[m]? = some out → ¬ out.isNull → coins.vout[m]? = some out := by
  unfold CCoins.spend at h
  split at h
  · rename_i hav
    simp only [Option.some.injEq, Prod.mk.injEq] at h
    obtain ⟨rfl, hundo⟩ := h
    have htxout : undo.txout = coins.output n := by
      rw [← hundo]; split <;> rfl
    refine ⟨?_, ?_, ?_⟩
    · rw [htxout]
      simp [CCoins.output, List.getD_eq_getElem?_getD, hav.1]
    · rw [htxout]; exact hav.2
    · intro m out hat hnn
      have hset := getElem?_of_cleanup hat
      rw [List.getElem?_set] at hset
      split at hset
      · split at hset
        · rw [Option.some.injEq] at hset
          exact absurd (by rw [← hset]; rfl) hnn
        · cases hset
      · exact hset
  · cases h

section Spending

variable {env : Env} {view view' : CoinsView} {txundo : CTxUndo}

/-- Spending inputs removes outputs and adds none. -/
theorem spendInputs_unspent {vin : List CTxIn} (h : spendInputs vin view = .ok (view', txundo))
    {o : COutPoint} {out : CTxOut} (ho : view'.Unspent o out) : view.Unspent o out := by
  induction vin generalizing view txundo with
  | nil =>
    simp only [spendInputs, Except.ok.injEq, Prod.mk.injEq] at h
    rw [h.1]; exact ho
  | cons txin vin ih =>
    unfold spendInputs at h
    split at h
    · cases h
    · rename_i coins undo hsp
      obtain ⟨⟨view₁, txundo₁⟩, hrec, h⟩ := Except.bind_ok_iff.mp h
      simp only [Except.ok.injEq, Prod.mk.injEq] at h
      obtain ⟨rfl, -⟩ := h
      obtain ⟨coins', hc, hat, hnn⟩ := ih hrec
      by_cases hh : o.hash = txin.prevout.hash
      · rw [hh, Function.update_self, Option.some.injEq] at hc
        subst hc
        have hold := (CCoins.spend_spec hsp).2.2 o.n out hat hnn
        -- an entry that could be spent from is an entry of the view
        cases hv : view txin.prevout.hash with
        | none => simp [CoinsView.getCoins, hv, CCoins.empty] at hold
        | some c => exact ⟨c, by rw [hh, hv], by simpa [CoinsView.getCoins, hv] using hold, hnn⟩
      · rw [Function.update_of_ne hh] at hc
        exact ⟨coins', hc, hat, hnn⟩

/-- There is one undo record for each input, and it holds the unspent output the input named. -/
theorem spendInputs_undo {vin : List CTxIn} (h : spendInputs vin view = .ok (view', txundo)) :
    List.Forall₂ (fun txin undo => view.Unspent txin.prevout undo.txout) vin txundo := by
  induction vin generalizing view txundo with
  | nil =>
    simp only [spendInputs, Except.ok.injEq, Prod.mk.injEq] at h
    rw [← h.2]; exact .nil
  | cons txin vin ih =>
    unfold spendInputs at h
    split at h
    · cases h
    · rename_i coins undo hsp
      obtain ⟨⟨view₁, txundo₁⟩, hrec, h⟩ := Except.bind_ok_iff.mp h
      simp only [Except.ok.injEq, Prod.mk.injEq] at h
      obtain ⟨rfl, rfl⟩ := h
      obtain ⟨hat, hnn, hkeep⟩ := CCoins.spend_spec hsp
      have hentry : ∃ c, view txin.prevout.hash = some c ∧ view.getCoins txin.prevout.hash = c := by
        cases hv : view txin.prevout.hash with
        | none => simp [CoinsView.getCoins, hv, CCoins.empty] at hat
        | some c => exact ⟨c, rfl, by simp [CoinsView.getCoins, hv]⟩
      obtain ⟨c, hc, hgc⟩ := hentry
      rw [hgc] at hat hkeep
      refine .cons ⟨c, hc, hat, hnn⟩ ?_
      refine (ih hrec).imp ?_
      rintro txin' undo' ⟨c', hc', hat', hnn'⟩
      by_cases hh : txin'.prevout.hash = txin.prevout.hash
      · rw [hh, Function.update_self, Option.some.injEq] at hc'
        subst hc'
        exact ⟨c, by rw [hh, hc], hkeep _ _ hat' hnn', hnn'⟩
      · rw [Function.update_of_ne hh] at hc'
        exact ⟨c', hc', hat', hnn'⟩

/-- After `UpdateCoins` an unspent output is an old one or one of the transaction's. -/
theorem updateCoins_unspent {tx : CTransaction} {nHeight : Nat}
    (h : updateCoins env tx nHeight view = .ok (view', txundo)) {o : COutPoint} {out : CTxOut}
    (ho : view'.Unspent o out) :
    view.Unspent o out ∨ (o.hash = env.getHash tx ∧ tx.vout[o.n]? = some out) := by
  unfold updateCoins at h
  obtain ⟨⟨view₁, txundo₁⟩, hspend, h⟩ := Except.bind_ok_iff.mp h
  simp only [Except.ok.injEq, Prod.mk.injEq] at h
  obtain ⟨rfl, -⟩ := h
  obtain ⟨coins, hc, hat, hnn⟩ := ho
  by_cases hh : o.hash = env.getHash tx
  · right
    rw [hh, Function.update_self, Option.some.injEq] at hc
    subst hc
    exact ⟨hh, hat⟩
  · left
    rw [Function.update_of_ne hh] at hc
    split at hspend
    · simp only [Except.ok.injEq, Prod.mk.injEq] at hspend
      rw [hspend.1]; exact ⟨coins, hc, hat, hnn⟩
    · exact spendInputs_unspent hspend ⟨coins, hc, hat, hnn⟩

/-- The undo records of a transaction that is not a coinbase, one for each input. -/
theorem updateCoins_undo {tx : CTransaction} {nHeight : Nat}
    (h : updateCoins env tx nHeight view = .ok (view', txundo)) (hcb : tx.isCoinBase = false) :
    List.Forall₂ (fun txin undo => view.Unspent txin.prevout undo.txout) tx.vin txundo := by
  unfold updateCoins at h
  obtain ⟨⟨view₁, txundo₁⟩, hspend, h⟩ := Except.bind_ok_iff.mp h
  simp only [Except.ok.injEq, Prod.mk.injEq] at h
  obtain ⟨-, rfl⟩ := h
  rw [if_neg (by simp [hcb])] at hspend
  exact spendInputs_undo hspend

end Spending

end Syscoin

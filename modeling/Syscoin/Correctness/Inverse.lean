import Syscoin.Chain.History

/-!
# `Correctness.Inverse` — whether a disconnect undoes a connect

A block is connected, the view is written to the coin database, and the block is disconnected again with the undo data
that was recorded. Both databases keep an entry's version as a variable-length integer that has no room for a sign:
`diskVersion` is what comes back. The coin database keeps no fully spent entries, and a transaction without outputs is
one from the start.

`disk` commutes with spending (`spendInputs_disk`), so undo data that has been through the disk inverts the block on
coins that have (`updateCoins_undoCoins_disk`). What is left of the exactness is `disconnect_inverts_connect_iff`.
-/

namespace Syscoin

open Lib

/-! ## Through the disk -/

/-- `VARINT` of a signed number: the low seven bits of a negative one, anything else as it is. -/
def diskVersion (nVersion : Int) : Int := if nVersion < 0 then nVersion % 128 else nVersion

def CCoins.disk (coins : CCoins) : CCoins := { coins with nVersion := diskVersion coins.nVersion }

/-- The version of an undo record is stored with its height, and only if there is one. -/
def CTxInUndo.disk (undo : CTxInUndo) : CTxInUndo :=
  { undo with nVersion := if undo.nHeight = 0 then 0 else diskVersion undo.nVersion }

def CBlockUndo.disk (blockundo : CBlockUndo) : CBlockUndo := blockundo.map (·.map CTxInUndo.disk)

namespace CoinsView

/-- Every entry through the disk, fully spent ones included. -/
def disk (view : CoinsView) : CoinsView := fun hash => (view hash).map CCoins.disk

/-- **The flush**: what reads back once the view has been written to the coin database. -/
def flush (view : CoinsView) : CoinsView := view.prune.disk

/-- What an outpoint has to spend: the output with the height, coinbase flag and version of its transaction. -/
def coin (view : CoinsView) (o : COutPoint) : Option (CTxOut × Nat × Bool × Int) :=
  match view o.hash with
  | none => none
  | some coins =>
    if coins.isAvailable o.n then some (coins.output o.n, coins.nHeight, coins.fCoinBase, coins.nVersion) else none

end CoinsView

/-- The store with its undo data read back from disk. -/
def Store.reread (s : Store) : Store := { s with undo := fun pindex => (s.undo pindex).map CBlockUndo.disk }

/-- **A clean inverse**: the flushed view is disconnected cleanly with the recorded undo data, and every outpoint has
    what it had before the block was connected. -/
def CleanInverse (env : Env) (pindex : CBlockIndex) (view view' : CoinsCache) (s' : Store) : Prop :=
  ∃ back s'', disconnectBlock env pindex { view' with coins := view'.coins.flush } s'.reread = (.ok back, s'') ∧
    ∀ o, back.coins.coin o = view.coins.coin o

/-! ## Views and their flush -/

section Flush

variable {v w : CoinsView} {coins : CCoins} {hash : Uint256} {o : COutPoint}

theorem CCoins.disk_isPruned : coins.disk.isPruned ↔ coins.isPruned := Iff.rfl

theorem diskVersion_eq_self_iff {n : Int} : diskVersion n = n ↔ 0 ≤ n := by
  unfold diskVersion
  split <;> omega

namespace CoinsView

theorem disk_eq_some_iff : v.disk hash = some coins ↔ ∃ c, v hash = some c ∧ c.disk = coins := by
  simp [disk, Option.map_eq_some_iff]

theorem prune_disk (v : CoinsView) : v.disk.prune = v.prune.disk := by
  funext hash
  cases hv : v hash with
  | none => simp only [disk, prune, hv, Option.map_none]
  | some c =>
    by_cases hp : c.isPruned
    · simp only [disk, prune, hv, Option.map_some, if_pos hp, if_pos (CCoins.disk_isPruned.mpr hp), Option.map_none]
    · simp only [disk, prune, hv, Option.map_some, if_neg hp, if_neg (mt CCoins.disk_isPruned.mp hp)]

/-- The flush and the view through the disk differ in fully spent entries only. -/
theorem flush_equiv_disk (v : CoinsView) : v.flush.Equiv v.disk := by
  have hidem : v.prune.prune = v.prune := equiv_prune v
  rw [Equiv, flush, prune_disk, prune_disk, hidem]

theorem Equiv.disk (h : v.Equiv w) : v.disk.Equiv w.disk := by
  rw [Equiv, prune_disk, prune_disk, h]

theorem Equiv.flush_eq (h : v.Equiv w) : v.flush = w.flush := by
  rw [flush, h, flush]

theorem Canonical.disk (h : v.Canonical) : v.disk.Canonical := by
  intro hash coins hc
  obtain ⟨c, hv, rfl⟩ := disk_eq_some_iff.mp hc
  obtain ⟨hnulls, htrim, hheight⟩ := h hash c hv
  exact ⟨hnulls, htrim, hheight⟩

theorem Dead.disk (h : v.Dead hash) : v.disk.Dead hash := by
  intro coins hc
  obtain ⟨c, hv, rfl⟩ := disk_eq_some_iff.mp hc
  exact CCoins.disk_isPruned.mpr (h c hv)

theorem disk_update {x : Option CCoins} :
    CoinsView.disk (Function.update v hash x) = Function.update v.disk hash (x.map CCoins.disk) := by
  funext hash'
  by_cases hh : hash' = hash
  · subst hh
    simp [CoinsView.disk]
  · simp [CoinsView.disk, Function.update_of_ne hh]

/-- What an outpoint has to spend does not depend on fully spent entries. -/
theorem Equiv.coin_eq (h : v.Equiv w) (o : COutPoint) : v.coin o = w.coin o := by
  have hhalf : ∀ {v w : CoinsView}, v.Equiv w → ∀ x, v.coin o = some x → w.coin o = some x := by
    intro v w h x hx
    unfold coin at hx
    cases hv : v o.hash with
    | none => simp [hv] at hx
    | some c =>
      simp only [hv] at hx
      split at hx
      · rename_i hav
        have hw := h.eq_some hv (CCoins.not_isPruned_of_isAvailable hav)
        simp only [coin, hw]
        rw [if_pos hav]
        exact hx
      · cases hx
  ext x
  exact ⟨hhalf h x, hhalf h.symm x⟩

/-- **Through the disk every outpoint keeps what it has iff no live entry has a negative version.** -/
theorem disk_coin_eq_iff : (∀ o, v.disk.coin o = v.coin o) ↔
    ∀ hash coins, v hash = some coins → ¬ coins.isPruned → 0 ≤ coins.nVersion := by
  constructor
  · intro h hash coins hv hlive
    -- a live entry has an output to spend, and its version with it
    obtain ⟨out, hout, hnn⟩ : ∃ out ∈ coins.vout, ¬ out.isNull := by
      unfold CCoins.isPruned at hlive
      push Not at hlive
      exact hlive
    obtain ⟨n, hn, hat⟩ := List.mem_iff_getElem.mp hout
    have hav : coins.isAvailable n := by
      refine ⟨hn, ?_⟩
      rw [CCoins.output, List.getD_eq_getElem?_getD, List.getElem?_eq_getElem hn, hat]
      exact hnn
    have hsame := h ⟨hash, n⟩
    have hav' : coins.disk.isAvailable n := hav
    simp only [coin, disk, hv, Option.map_some, if_pos hav, if_pos hav', Option.some.injEq, Prod.mk.injEq] at hsame
    exact diskVersion_eq_self_iff.mp hsame.2.2.2
  · intro h o
    unfold coin disk
    cases hv : v o.hash with
    | none => rfl
    | some c =>
      simp only [Option.map_some]
      by_cases hav : c.isAvailable o.n
      · have hav' : c.disk.isAvailable o.n := hav
        have hver := diskVersion_eq_self_iff.mpr (h o.hash c hv (CCoins.not_isPruned_of_isAvailable hav))
        rw [if_pos hav, if_pos hav']
        simp only [CCoins.disk, hver]
      · have hav' : ¬ c.disk.isAvailable o.n := hav
        rw [if_neg hav, if_neg hav']

end CoinsView

end Flush

/-! ## Spending through the disk -/

section Spending

variable {env : Env} {tx : CTransaction} {nHeight : Nat} {v v' w : CoinsView} {txundo : CTxUndo}

theorem CCoins.spend_disk {coins coins' : CCoins} {n : Nat} {undo : CTxInUndo} (hcan : coins.Canonical)
    (h : coins.spend n = some (coins', undo)) : coins.disk.spend n = some (coins'.disk, undo.disk) := by
  have hav := CCoins.isAvailable_of_spend h
  have hav' : coins.disk.isAvailable n := hav
  have hheight := hcan.height (CCoins.not_isPruned_of_isAvailable hav)
  unfold CCoins.spend at h ⊢
  rw [if_pos hav] at h
  rw [if_pos hav']
  simp only [Option.some.injEq, Prod.mk.injEq] at h ⊢
  obtain ⟨rfl, rfl⟩ := h
  refine ⟨rfl, ?_⟩
  -- a record either has the whole transaction or no height
  by_cases hnil : CCoins.cleanup (coins.vout.set n CTxOut.null) = []
  · have hnil' : CCoins.cleanup (coins.disk.vout.set n CTxOut.null) = [] := hnil
    rw [if_pos hnil, if_pos hnil']
    simp only [CTxInUndo.disk, if_neg hheight]
    rfl
  · have hnil' : ¬ CCoins.cleanup (coins.disk.vout.set n CTxOut.null) = [] := hnil
    rw [if_neg hnil, if_neg hnil']
    rfl

/-- Spending from entries that have been through the disk gives entries and records that have. -/
theorem spendInputs_disk {vin : List CTxIn} (hcan : v.Canonical) (h : spendInputs vin v = .ok (v', txundo)) :
    spendInputs vin v.disk = .ok (v'.disk, txundo.map CTxInUndo.disk) := by
  induction vin generalizing v txundo with
  | nil =>
    simp only [spendInputs, Except.ok.injEq, Prod.mk.injEq] at h
    obtain ⟨rfl, rfl⟩ := h
    rfl
  | cons txin vin ih =>
    unfold spendInputs at h
    split at h
    · cases h
    · rename_i coins undo hsp
      obtain ⟨⟨v₁, txundo₁⟩, hrec, h⟩ := Except.bind_ok_iff.mp h
      simp only [Except.ok.injEq, Prod.mk.injEq] at h
      obtain ⟨rfl, rfl⟩ := h
      have hv := (CoinsView.Equiv.refl v).of_isAvailable (CCoins.isAvailable_of_spend hsp)
      have hentry := hcan _ _ hv
      have hget : v.disk.getCoins txin.prevout.hash = (v.getCoins txin.prevout.hash).disk := by
        rw [CoinsView.getCoins, CoinsView.disk, hv]
        rfl
      have hrec' := ih (hcan.update (CCoins.spend_canonical hentry hsp)) hrec
      rw [CoinsView.disk_update] at hrec'
      unfold spendInputs
      rw [hget, CCoins.spend_disk hentry hsp]
      exact Except.bind_ok_iff.mpr ⟨_, hrec', rfl⟩

/-- The outputs of a transaction are taken out of the view whether its entry has been through the disk or not: for a
    negative version `DisconnectBlock` looks away. -/
theorem removeOutputs_disk (w : CoinsView) :
    removeOutputs env tx nHeight (Function.update w (env.getHash tx) (some (CCoins.ofTx tx nHeight).disk)) =
      removeOutputs env tx nHeight (Function.update w (env.getHash tx) (some (CCoins.ofTx tx nHeight))) := by
  have hsame : (if (CCoins.ofTx tx nHeight).nVersion < 0 then
      { (CCoins.ofTx tx nHeight).disk with nVersion := (CCoins.ofTx tx nHeight).nVersion }
      else (CCoins.ofTx tx nHeight).disk) = CCoins.ofTx tx nHeight := by
    split
    · rfl
    · rename_i hver
      have hdisk := diskVersion_eq_self_iff.mpr (not_lt.mp hver)
      simp only [CCoins.disk, hdisk]
  simp only [removeOutputs, CoinsView.getCoins, Function.update_self, Function.update_idem, Option.getD_some, hsame]
  simp

/-- **A transaction undone from disk**: the records, read back, give the view through the disk, with an empty entry in
    the place of the transaction. -/
theorem updateCoins_undoCoins_disk (hcan : v.Canonical) (hdead : v.Dead (env.getHash tx))
    (h : updateCoins env tx nHeight v = .ok (v', txundo)) :
    undoCoins env nHeight (undoStep tx (txundo.map CTxInUndo.disk)) v'.disk =
      (Function.update v.disk (env.getHash tx) (some CCoins.empty), true) := by
  unfold updateCoins at h
  obtain ⟨⟨v₁, txundo₁⟩, hspend, h⟩ := Except.bind_ok_iff.mp h
  simp only [Except.ok.injEq, Prod.mk.injEq] at h
  obtain ⟨rfl, rfl⟩ := h
  have hspend' : (if tx.isCoinBase then .ok (v.disk, []) else spendInputs tx.vin v.disk) =
      .ok (v₁.disk, txundo₁.map CTxInUndo.disk) := by
    by_cases hcb : tx.isCoinBase = true
    · simp only [if_pos hcb, Except.ok.injEq, Prod.mk.injEq] at hspend ⊢
      obtain ⟨rfl, rfl⟩ := hspend
      exact ⟨rfl, rfl⟩
    · simp only [if_neg hcb] at hspend ⊢
      exact spendInputs_disk hcan hspend
  have hcoins : updateCoins env tx nHeight v.disk = .ok
      (Function.update v₁.disk (env.getHash tx) (some (CCoins.ofTx tx nHeight)), txundo₁.map CTxInUndo.disk) :=
    Except.bind_ok_iff.mpr ⟨_, hspend', rfl⟩
  have hundo := updateCoins_undoCoins hcan.disk hdead.disk hcoins
  rw [CoinsView.disk_update, Option.map_some]
  rw [← hundo]
  simp only [undoCoins, undoStep, removeOutputs_disk]

end Spending

/-! ## Undoing on equivalent views -/

section Congr

variable {env : Env} {tx : CTransaction} {nHeight : Nat} {v w : CoinsView}

/-- Outputs that are all there in one view are all there in an equivalent one, if there are any. -/
theorem removeOutputs_fits (hvw : v.Equiv w) (hne : tx.vout ≠ []) (hvout : ∀ o ∈ tx.vout, ¬ o.isNull)
    (h : (removeOutputs env tx nHeight w).2 = true) : (removeOutputs env tx nHeight v).2 = true := by
  simp only [removeOutputs, Bool.and_eq_true, decide_eq_true_eq] at h ⊢
  obtain ⟨hsome, heq⟩ := h
  obtain ⟨c, hc⟩ := Option.isSome_iff_exists.mp hsome
  have hget : w.getCoins (env.getHash tx) = c := by simp [CoinsView.getCoins, hc]
  rw [hget] at heq
  have hout : c.vout = tx.vout := by
    have hfield := congrArg CCoins.vout heq
    split at hfield
    · exact hfield
    · exact hfield
  have hlive : ¬ c.isPruned := by
    intro hp
    obtain ⟨o, ho⟩ := List.exists_mem_of_ne_nil _ hne
    exact hvout o ho (hp o (hout ▸ ho))
  have hv := hvw.symm.eq_some hc hlive
  have hget' : v.getCoins (env.getHash tx) = c := by simp [CoinsView.getCoins, hv]
  rw [hget']
  exact ⟨by simp [hv], heq⟩

theorem restoreInput_fits {txin : CTxIn} {undo : CTxInUndo} (hvw : v.Equiv w)
    (h : (restoreInput txin undo w).2 = true) : (restoreInput txin undo v).2 = true := by
  by_cases hh : undo.nHeight ≠ 0
  · -- the record has the whole transaction, so nothing of it may be left
    simp only [restoreInput, restoreEntry, if_pos hh, Bool.and_eq_true, decide_eq_true_eq] at h ⊢
    refine ⟨?_, h.2⟩
    have hdead : w.Dead txin.prevout.hash := by
      intro c hc
      have hp := h.1
      rwa [CoinsView.getCoins, hc] at hp
    cases hv : v txin.prevout.hash with
    | none => simp [CoinsView.getCoins, hv, CCoins.empty, CCoins.isPruned]
    | some c =>
      rw [CoinsView.getCoins, hv]
      exact hvw.dead_iff.mpr hdead c hv
  · -- otherwise something is left, and the views agree on it
    simp only [restoreInput, restoreEntry, if_neg hh, Bool.and_eq_true, Bool.not_eq_eq_eq_not, Bool.not_true,
      decide_eq_false_iff_not] at h ⊢
    cases hw : w txin.prevout.hash with
    | none => simp [CoinsView.getCoins, hw, CCoins.empty, CCoins.isPruned] at h
    | some c =>
      have hget : w.getCoins txin.prevout.hash = c := by simp [CoinsView.getCoins, hw]
      rw [hget] at h
      have hget' : v.getCoins txin.prevout.hash = c := by
        simp [CoinsView.getCoins, hvw.symm.eq_some hw h.1]
      rw [hget']
      exact h

theorem restoreInputs_fits {pairs : List (CTxIn × CTxInUndo)} (hvw : v.Equiv w)
    (h : (restoreInputs pairs w).2 = true) : (restoreInputs pairs v).2 = true := by
  induction pairs with
  | nil => rfl
  | cons pair pairs ih =>
    simp only [restoreInputs, Bool.and_eq_true] at h ⊢
    have hrest := ih h.1
    exact ⟨hrest, restoreInput_fits (restoreInputs_congr hvw hrest) h.2⟩

theorem restoreInputs_other {pairs : List (CTxIn × CTxInUndo)} {hash : Uint256}
    (hne : ∀ pair ∈ pairs, pair.1.prevout.hash ≠ hash) : (restoreInputs pairs v).1 hash = v hash := by
  induction pairs with
  | nil => rfl
  | cons pair pairs ih =>
    obtain ⟨hhead, htail⟩ := List.forall_mem_cons.mp hne
    simp only [restoreInputs, restoreInput]
    rw [Function.update_of_ne hhead.symm]
    exact ih htail

/-- A transaction with outputs that is undone cleanly on a view is undone cleanly on an equivalent one. -/
theorem undoCoins_fits {undo : Option CTxUndo} (hvw : v.Equiv w) (hne : tx.vout ≠ [])
    (hvout : ∀ o ∈ tx.vout, ¬ o.isNull) (h : (undoCoins env nHeight (tx, undo) w).2 = true) :
    (undoCoins env nHeight (tx, undo) v).2 = true := by
  cases undo with
  | none => exact removeOutputs_fits hvw hne hvout h
  | some txundo =>
    simp only [undoCoins, Bool.and_eq_true] at h ⊢
    exact ⟨removeOutputs_fits hvw hne hvout h.1, restoreInputs_fits (hvw.update _) h.2⟩

end Congr

/-! ## Whole blocks -/

section Block

variable {env : Env} {pindex : CBlockIndex} {tx : CTransaction} {txs : List CTransaction} {v v' : CoinsView}
  {blockundo : CBlockUndo} {acc acc' : CoinsView × Bool} {s s' : Store}

/-- An iteration of the loop whose undo records match the inputs goes through. -/
theorem disconnectTx_eq {step : CTransaction × Option CTxUndo}
    (hlen : ∀ txundo ∈ step.2, txundo.length = step.1.vin.length) :
    disconnectTx env pindex acc step s =
      (.ok ((undoCoins env pindex.nHeight step acc.1).1, acc.2 && (undoCoins env pindex.nHeight step acc.1).2),
        disconnectService env pindex step.1 s) := by
  obtain ⟨tx, undo⟩ := step
  unfold disconnectTx
  refine Proc.update_bind_ok_iff.mpr ⟨_, rfl, ?_⟩
  cases undo with
  | none => rfl
  | some txundo =>
    refine Proc.require_bind_ok_iff.mpr ⟨hlen txundo rfl, ?_⟩
    simp only [undoCoins, Bool.and_assoc]
    rfl

theorem updateCoins_length {nHeight : Nat} {txundo : CTxUndo} (h : updateCoins env tx nHeight v = .ok (v', txundo)) :
    ∀ undo ∈ (undoStep tx (txundo.map CTxInUndo.disk)).2, undo.length = tx.vin.length := by
  intro undo hmem
  by_cases hcb : tx.isCoinBase = true
  · simp [undoStep, hcb] at hmem
  · simp only [undoStep, if_neg hcb, Option.mem_some_iff] at hmem
    rw [← hmem, List.length_map]
    exact (updateCoins_undo h (by simpa using hcb)).length_eq.symm

/-- A transaction without outputs has a spent entry from the start. -/
theorem updateCoins_dead_self {nHeight : Nat} {txundo : CTxUndo} (hnil : tx.vout = [])
    (h : updateCoins env tx nHeight v = .ok (v', txundo)) : v'.Dead (env.getHash tx) := by
  unfold updateCoins at h
  obtain ⟨⟨v₁, txundo₁⟩, -, h⟩ := Except.bind_ok_iff.mp h
  simp only [Except.ok.injEq, Prod.mk.injEq] at h
  obtain ⟨rfl, -⟩ := h
  intro c hc
  rw [Function.update_self, Option.some.injEq] at hc
  subst hc
  simp [CCoins.isPruned, CCoins.ofTx, hnil]

theorem blockCoins_dead {nHeight : Nat} {hash : Uint256} (hdead : v.Dead hash)
    (hother : ∀ tx ∈ txs, env.getHash tx ≠ hash) (h : blockCoins env nHeight txs v = .ok (v', blockundo)) :
    v'.Dead hash := by
  induction txs generalizing v blockundo with
  | nil =>
    simp only [blockCoins, Except.ok.injEq, Prod.mk.injEq] at h
    exact h.1 ▸ hdead
  | cons tx txs ih =>
    obtain ⟨v₁, txundo, rest, hcoins, hrest, -⟩ := blockCoins_cons h
    obtain ⟨hohead, hotail⟩ := List.forall_mem_cons.mp hother
    exact ih (updateCoins_dead hdead hohead.symm hcoins) hotail hrest

/-- Undoing a transaction touches its own entry and those it spends from. -/
theorem undoCoins_other {nHeight : Nat} {hash : Uint256} {txundo undo : CTxUndo} {w : CoinsView} (hdead : v.Dead hash)
    (hother : env.getHash tx ≠ hash) (h : updateCoins env tx nHeight v = .ok (v', txundo)) :
    (undoCoins env nHeight (undoStep tx undo) w).1 hash = w hash := by
  have hremoved : (removeOutputs env tx nHeight w).1 hash = w hash := Function.update_of_ne hother.symm _ _
  by_cases hcb : tx.isCoinBase = true
  · simp only [undoCoins, undoStep, hcb, if_true]
    exact hremoved
  · unfold updateCoins at h
    obtain ⟨⟨v₁, txundo₁⟩, hspend, -⟩ := Except.bind_ok_iff.mp h
    rw [if_neg hcb] at hspend
    obtain ⟨-, hne⟩ := spendInputs_dead hdead hspend
    have hpairs : ∀ pair ∈ tx.vin.zip undo, pair.1.prevout.hash ≠ hash :=
      fun pair hp => hne pair.1 (List.of_mem_zip hp).1
    simp only [undoCoins, undoStep, if_neg hcb]
    rw [restoreInputs_other hpairs, hremoved]

/-- A transaction that has no entry is not undone cleanly. -/
theorem undoCoins_of_none {nHeight : Nat} {undo : Option CTxUndo} {w : CoinsView}
    (hnone : w (env.getHash tx) = none) : (undoCoins env nHeight (tx, undo) w).2 = false := by
  cases undo with
  | none => simp [undoCoins, removeOutputs, hnone]
  | some txundo => simp [undoCoins, removeOutputs, hnone]

/-- The undo steps with records read back from disk. -/
theorem undoSteps_disk {txundo : CTxUndo} {rest : CBlockUndo}
    (h : blockundo = if tx.isCoinBase then rest else txundo :: rest) :
    undoSteps (tx :: txs) blockundo.disk =
      undoStep tx (txundo.map CTxInUndo.disk) :: undoSteps txs rest.disk := by
  by_cases hcb : tx.isCoinBase = true
  · simp [h, undoSteps, undoStep, hcb]
  · simp [h, undoSteps, undoStep, hcb, CBlockUndo.disk]

/-- **A block undone from disk.** Where every transaction has outputs, the loop runs cleanly on any view that agrees with
    the block's coins, and leaves the coins before the block. -/
theorem disconnectTxs_disk (acc : CoinsView × Bool) (s : Store) (hcan : v.Canonical) (hdead : ∀ tx ∈ txs, v.Dead (env.getHash tx))
    (hnodup : (txs.map env.getHash).Nodup) (hvout : ∀ tx ∈ txs, ∀ o ∈ tx.vout, ¬ o.isNull)
    (hne : ∀ tx ∈ txs, tx.vout ≠ []) (hh : pindex.nHeight ≠ 0)
    (h : blockCoins env pindex.nHeight txs v = .ok (v', blockundo)) (hequiv : acc.1.Equiv v'.disk)
    (hclean : acc.2 = true) :
    ∃ acc' s', Proc.foldM (disconnectTx env pindex) (undoSteps txs blockundo.disk).reverse acc s = (.ok acc', s') ∧
      acc'.1.Equiv v.disk ∧ acc'.2 = true := by
  induction txs generalizing v blockundo with
  | nil =>
    simp only [blockCoins, Except.ok.injEq, Prod.mk.injEq] at h
    exact ⟨acc, s, rfl, h.1 ▸ hequiv, hclean⟩
  | cons tx txs ih =>
    obtain ⟨v₁, txundo, rest, hcoins, hrest, hundo, -⟩ := blockCoins_cons h
    obtain ⟨hdhead, hdtail⟩ := List.forall_mem_cons.mp hdead
    obtain ⟨hvhead, hvtail⟩ := List.forall_mem_cons.mp hvout
    obtain ⟨hnhead, hntail⟩ := List.forall_mem_cons.mp hne
    rw [List.map_cons, List.nodup_cons] at hnodup
    have hdead₁ : ∀ tx' ∈ txs, v₁.Dead (env.getHash tx') := by
      intro tx' htx'
      refine updateCoins_dead (hdtail tx' htx') (fun heq => hnodup.1 ?_) hcoins
      exact heq ▸ List.mem_map_of_mem htx'
    -- the later transactions are undone first
    obtain ⟨acc₁, s₁, hlater, hequiv₁, hclean₁⟩ :=
      ih (updateCoins_canonical hcan hvhead hh hcoins) hdead₁ hnodup.2 hvtail hntail hrest
    have hexact := updateCoins_undoCoins_disk hcan hdhead hcoins
    have hfits : (undoCoins env pindex.nHeight (undoStep tx (txundo.map CTxInUndo.disk)) acc₁.1).2 = true :=
      undoCoins_fits hequiv₁ hnhead hvhead (congrArg Prod.snd hexact)
    have hback := undoCoins_congr hequiv₁ hfits
    rw [hexact] at hback
    have hthis : disconnectTx env pindex acc₁ (undoStep tx (txundo.map CTxInUndo.disk)) s₁ = _ :=
      disconnectTx_eq (updateCoins_length hcoins)
    have hloop := Proc.foldM_snoc_ok_iff.mpr ⟨acc₁, s₁, hlater, hthis⟩
    rw [← List.reverse_cons, ← undoSteps_disk hundo] at hloop
    refine ⟨_, _, hloop, hback.trans ?_, ?_⟩
    · exact hdhead.disk.update_equiv (by simp [CCoins.isPruned, CCoins.empty])
    · rw [hclean₁, Bool.true_and]
      exact hfits

/-- Undoing transactions that do not spend from an entry leaves it alone. -/
theorem disconnectTxs_other {hash : Uint256} (hdead : v.Dead hash) (hother : ∀ tx ∈ txs, env.getHash tx ≠ hash)
    (h : blockCoins env pindex.nHeight txs v = .ok (v', blockundo))
    (hloop : Proc.foldM (disconnectTx env pindex) (undoSteps txs blockundo.disk).reverse acc s = (.ok acc', s')) :
    acc'.1 hash = acc.1 hash := by
  induction txs generalizing v blockundo acc' s' with
  | nil =>
    simp only [undoSteps, List.reverse_nil, Proc.foldM_nil, Prod.mk.injEq, Except.ok.injEq] at hloop
    rw [← hloop.1]
  | cons tx txs ih =>
    obtain ⟨v₁, txundo, rest, hcoins, hrest, hundo, -⟩ := blockCoins_cons h
    obtain ⟨hohead, hotail⟩ := List.forall_mem_cons.mp hother
    rw [undoSteps_disk hundo, List.reverse_cons] at hloop
    obtain ⟨acc₁, s₁, hlater, hthis⟩ := Proc.foldM_snoc_ok_iff.mp hloop
    rw [disconnectTx_coins hthis, ← ih (updateCoins_dead hdead hohead.symm hcoins) hotail hrest hlater]
    exact undoCoins_other hdead hohead hcoins

/-- **A transaction without outputs spoils the undo**: its entry is not in the database, which is the same to
    `DisconnectBlock` as one with other outputs. -/
theorem disconnectTxs_unclean (hnodup : (txs.map env.getHash).Nodup) (hdead : ∀ tx ∈ txs, v.Dead (env.getHash tx))
    (h : blockCoins env pindex.nHeight txs v = .ok (v', blockundo))
    (hgone : ∀ hash, v'.Dead hash → acc.1 hash = none)
    (hloop : Proc.foldM (disconnectTx env pindex) (undoSteps txs blockundo.disk).reverse acc s = (.ok acc', s'))
    (hclean : acc'.2 = true) : ∀ tx ∈ txs, tx.vout ≠ [] := by
  induction txs generalizing v blockundo acc' s' with
  | nil => simp
  | cons tx txs ih =>
    obtain ⟨v₁, txundo, rest, hcoins, hrest, hundo, -⟩ := blockCoins_cons h
    obtain ⟨hdhead, hdtail⟩ := List.forall_mem_cons.mp hdead
    rw [List.map_cons, List.nodup_cons] at hnodup
    have hother : ∀ tx' ∈ txs, env.getHash tx' ≠ env.getHash tx := by
      intro tx' htx' heq
      exact hnodup.1 (heq ▸ List.mem_map_of_mem htx')
    have hdead₁ : ∀ tx' ∈ txs, v₁.Dead (env.getHash tx') :=
      fun tx' htx' => updateCoins_dead (hdtail tx' htx') (hother tx' htx') hcoins
    rw [undoSteps_disk hundo, List.reverse_cons] at hloop
    obtain ⟨acc₁, s₁, hlater, hthis⟩ := Proc.foldM_snoc_ok_iff.mp hloop
    rw [disconnectTx_coins hthis] at hclean
    simp only [Bool.and_eq_true] at hclean
    refine List.forall_mem_cons.mpr ⟨fun hnil => ?_, ih hnodup.2 hdead₁ hrest hlater hclean.1⟩
    -- the entry is spent from the start and no later transaction touches it
    have hspent : v₁.Dead (env.getHash tx) := updateCoins_dead_self hnil hcoins
    have hnone := hgone _ (blockCoins_dead hspent hother hrest)
    rw [← disconnectTxs_other hspent hother hrest hlater] at hnone
    have hunclean : (undoCoins env pindex.nHeight (undoStep tx (txundo.map CTxInUndo.disk)) acc₁.1).2 = false :=
      undoCoins_of_none hnone
    rw [hunclean] at hclean
    cases hclean.2

end Block

/-! ## Connect, flush, disconnect -/

section Inverse

variable {env : Env} {genesis : CBlock} {pindexBest pindex : CBlockIndex} {nNow : Nat} {view view' : CoinsCache}
  {s s' : Store}

theorem checkBlock_undo_length {f g : Bool} {v v' : CoinsView} {blockundo : CBlockUndo}
    (hcheck : checkBlock env nNow pindex f g = .ok ())
    (h : blockCoins env pindex.nHeight pindex.block.vtx v = .ok (v', blockundo)) :
    blockundo.length + 1 = pindex.block.vtx.length := by
  have hspending : ∀ {txs : List CTransaction} {v : CoinsView} {blockundo : CBlockUndo},
      (∀ tx ∈ txs, tx.isCoinBase = false) → blockCoins env pindex.nHeight txs v = .ok (v', blockundo) →
      blockundo.length = txs.length := by
    intro txs
    induction txs with
    | nil =>
      intro v blockundo _ h
      simp only [blockCoins, Except.ok.injEq, Prod.mk.injEq] at h
      rw [← h.2]
      rfl
    | cons tx txs ih =>
      intro v blockundo hall h
      obtain ⟨v₁, txundo, rest, -, hrest, rfl, -⟩ := blockCoins_cons h
      obtain ⟨hhead, htail⟩ := List.forall_mem_cons.mp hall
      rw [if_neg (by simp [hhead]), List.length_cons, ih htail hrest, List.length_cons]
  simp only [checkBlock, require_bind_ok_iff] at hcheck
  obtain ⟨⟨hne, -⟩, -, -, hfirst, hrest, -⟩ := hcheck
  cases hv : pindex.block.vtx with
  | nil => exact absurd hv hne
  | cons cb txs =>
    rw [hv] at hfirst hrest h
    obtain ⟨v₁, txundo, rest, -, htl, rfl, -⟩ := blockCoins_cons h
    have hcb : cb.isCoinBase = true := hfirst cb rfl
    rw [if_pos hcb, hspending hrest htl]
    rfl

/-- A connected block that is not the genesis block has undo data, and the view on it agrees with its coins. -/
theorem Reached.undoes (hreach : Reached env genesis view s)
    (h : connectBlock env false pindexBest pindex nNow view s = (.ok view', s'))
    (hreg : env.getBlockHash pindex.block ≠ env.hashGenesisBlock) :
    ∃ parent blockundo, s'.undo pindex = some blockundo ∧ pindex.pprev = some parent ∧
      Undoes env parent pindex blockundo ∧ view.coins.Equiv (chainCoins env parent.chain) ∧
      view'.coins.Equiv (chainCoins env pindex.chain) ∧ view'.best = some pindex ∧
      checkBlock env nNow pindex true true = .ok () := by
  obtain ⟨⟨parent, hbest, -, hequiv⟩, -⟩ := hreach.inv
  obtain ⟨⟨pindex', hbest', -, hequiv'⟩, hundo'⟩ := (Reached.connect hreach h).inv
  obtain ⟨hview, hprev⟩ := connectBlock_best h
  rw [hview, Option.some.injEq] at hbest'
  subst hbest'
  obtain ⟨hpro, hcases⟩ := connectBlock_loop h
  rcases hcases with ⟨hgen, -⟩ | ⟨-, acc, s₁, -, rfl, -⟩
  · exact absurd hgen hreg
  have hstored : ∃ blockundo, (writeBlock env pindex acc.blockundo s₁).undo pindex = some blockundo := by
    simp only [writeBlock]
    split
    · exact Option.isSome_iff_exists.mp ‹_›
    · exact ⟨acc.blockundo, Function.update_self _ _ _⟩
  obtain ⟨blockundo, hstored⟩ := hstored
  obtain ⟨parent', hp, hinv⟩ := hundo' pindex blockundo hstored
  have hsame : parent' = parent := by
    rw [hprev, hbest, Option.some.injEq] at hp
    exact hp.symm
  subst hsame
  exact ⟨parent', blockundo, hstored, hp, hinv, hequiv, hequiv', hview, connectPrologue_checkBlock hpro⟩

/-- **Disconnect inverts connect exactly when** the block is not the genesis block, every transaction of it has outputs,
    and no live entry of the view has a negative version. -/
theorem disconnect_inverts_connect_iff (hreach : Reached env genesis view s)
    (h : connectBlock env false pindexBest pindex nNow view s = (.ok view', s')) :
    CleanInverse env pindex view view' s' ↔
      env.getBlockHash pindex.block ≠ env.hashGenesisBlock ∧ (∀ tx ∈ pindex.block.vtx, tx.vout ≠ []) ∧
        ∀ hash coins, view.coins hash = some coins → ¬ coins.isPruned → 0 ≤ coins.nVersion := by
  by_cases hreg : env.getBlockHash pindex.block = env.hashGenesisBlock
  · -- nothing was recorded for the genesis block
    refine iff_of_false ?_ fun hcond => hcond.1 hreg
    rintro ⟨back, s'', hdis, -⟩
    obtain ⟨blockundo, -, hstored, -⟩ := disconnectBlock_loop hdis
    obtain ⟨recorded, hrecorded, -⟩ := Option.map_eq_some_iff.mp hstored
    obtain ⟨parent, -, hinv⟩ := (Reached.connect hreach h).inv.2 pindex recorded hrecorded
    exact hinv.regular hreg
  obtain ⟨parent, blockundo, hstored, hp, hinv, hequiv, hequiv', hbest, hcheck⟩ := hreach.undoes h hreg
  have hreread : s'.reread.undo pindex = some blockundo.disk := by
    simp only [Store.reread, hstored, Option.map_some]
  have hflush : view'.coins.flush.Equiv (chainCoins env pindex.chain).disk := by
    rw [hequiv'.flush_eq]
    exact CoinsView.flush_equiv_disk _
  have hsteps : disconnectSteps pindex blockundo.disk = (undoSteps pindex.block.vtx blockundo.disk).reverse :=
    checkBlock_disconnectSteps hcheck
  have hh : pindex.nHeight ≠ 0 := by
    rw [CBlockIndex.nHeight_eq_succ_of_pprev hp]
    omega
  -- what comes back is the view before the block, through the disk
  have hback : (∀ tx ∈ pindex.block.vtx, tx.vout ≠ []) → ∃ back s'',
      disconnectBlock env pindex { view' with coins := view'.coins.flush } s'.reread = (.ok back, s'') ∧
      ∀ o, back.coins.coin o = view.coins.disk.coin o := by
    intro hne
    obtain ⟨acc, s'', hloop, hagree, hclean⟩ := disconnectTxs_disk (view'.coins.flush, true) s'.reread hinv.canonical
      hinv.dead hinv.nodup hinv.vout hne hh hinv.coins hflush rfl
    refine ⟨⟨acc.1, pindex.pprev⟩, s'', ?_, fun o => ?_⟩
    · have hpro : disconnectPrologue pindex { view' with coins := view'.coins.flush } s'.reread = .ok blockundo.disk := by
        simp only [disconnectPrologue, hreread]
        refine require_bind_ok_iff.mpr ⟨hbest, require_bind_ok_iff.mpr ⟨?_, rfl⟩⟩
        rw [CBlockUndo.disk, List.length_map]
        exact checkBlock_undo_length hcheck hinv.coins
      unfold disconnectBlock
      rw [hpro]
      refine Proc.bind_ok_iff.mpr ⟨acc, s'', ?_, Proc.lift_ok_iff.mpr ⟨?_, rfl⟩⟩
      · rw [hsteps]
        exact hloop
      · exact require_bind_ok_iff.mpr ⟨hclean, rfl⟩
    · exact (hagree.trans hequiv.symm.disk).coin_eq o
  constructor
  · rintro ⟨back, s'', hdis, hsame⟩
    obtain ⟨recorded, acc, hrecorded, -, -, hloop, hclean, rfl⟩ := disconnectBlock_loop hdis
    rw [hreread, Option.some.injEq] at hrecorded
    subst hrecorded
    rw [hsteps] at hloop
    have hgone : ∀ hash, (chainCoins env pindex.chain).Dead hash → view'.coins.flush hash = none := by
      intro hash hdead
      have hnone : view'.coins.prune hash = none := CoinsView.prune_eq_none_iff.mpr (hequiv'.dead_iff.mpr hdead)
      simp only [CoinsView.flush, CoinsView.disk, hnone, Option.map_none]
    have hne := disconnectTxs_unclean hinv.nodup hinv.dead hinv.coins hgone hloop hclean
    refine ⟨hreg, hne, CoinsView.disk_coin_eq_iff.mp fun o => ?_⟩
    obtain ⟨back', s₂, hdis', hsame'⟩ := hback hne
    rw [hdis', Prod.mk.injEq, Except.ok.injEq] at hdis
    rw [← hsame', hdis.1, hsame]
  · rintro ⟨-, hne, hver⟩
    obtain ⟨back, s'', hdis, hsame⟩ := hback hne
    exact ⟨back, s'', hdis, fun o => (hsame o).trans (CoinsView.disk_coin_eq_iff.mpr hver o)⟩

end Inverse

namespace Cakenet

theorem disconnect_inverts_first_block :
    ∃ view' s', connectOn (Node.init genesis) block1 = (.ok view', s') ∧
      CleanInverse env block1 ⟨fun _ => none, some ⟨genesis, []⟩⟩ view' s' := by
  have hok : (connectOn (Node.init genesis) block1).1.isOk = true := by decide +kernel
  rcases hrun : connectOn (Node.init genesis) block1 with ⟨_ | view', s'⟩
  · rw [hrun] at hok
    cases hok
  · refine ⟨view', s', rfl, (disconnect_inverts_connect_iff (.node .init) hrun).2 ⟨?_, ?_, ?_⟩⟩
    · decide
    · decide
    · intro hash coins hc
      cases hc

/-- A transaction that carries data and pays nobody. -/
def dataOnlyTx : CTransaction := ⟨1, [spends ⟨1, 0⟩], [], 400, [1]⟩

def dataBlock9 : CBlockIndex := mine block8 9 [dataOnlyTx]

/-- The block is accepted, and disconnecting it fails: the entry of the transaction was never written. -/
theorem data_only_block_not_undone :
    ¬ ∀ pindexBest pindex nNow view s view' s', Reached env genesis view s →
      connectBlock env false pindexBest pindex nNow view s = (.ok view', s') → CleanInverse env pindex view view' s' := by
  intro hclaim
  have hok : (connectOn (nodeAt block8) dataBlock9).1.toOption.any (fun view' =>
      !(disconnectBlock env dataBlock9 { view' with coins := view'.coins.flush }
        (connectOn (nodeAt block8) dataBlock9).2.reread).1.isOk) = true := by decide +kernel
  rcases hrun : connectOn (nodeAt block8) dataBlock9 with ⟨_ | view', s'⟩
  · rw [hrun] at hok
    cases hok
  · rw [hrun] at hok
    have hnode : History env genesis (nodeAt block8) := .call amb block8 .init
    obtain ⟨back, s'', hdis, -⟩ := hclaim _ _ _ _ _ _ _ (.node hnode) hrun
    simp [hdis, Except.toOption, Except.isOk, Except.toBool] at hok

end Cakenet

end Syscoin

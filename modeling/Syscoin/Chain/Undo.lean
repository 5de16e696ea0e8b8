import Syscoin.Chain.Run

/-!
# `Chain.Undo` — the coins are a function of the chain

Undo data makes a disconnect the inverse of a connect. The inverse is exact on the entries that matter; fully spent
entries may be there or not, since writing the cache to disk erases them. `CoinsView.Equiv` identifies views up to
such entries, and everything validation reads respects it.

`chainCoins` replays the blocks of a chain from nothing. `CoinsInv` and `UndoInv` say that the view agrees with the
replay of the chain it belongs to, and that the undo data of a block is what connecting it on its own parent
gives. Connects and disconnects keep them, so two nodes with the same chain have the same coins, whatever else
they have been through.
-/

namespace Syscoin

open Lib

/-! ## Views up to spent entries -/

namespace CoinsView

variable {v w : CoinsView} {hash : Uint256} {coins : CCoins}

/-- Nothing of the transaction is left to spend. -/
def Dead (v : CoinsView) (hash : Uint256) : Prop := ∀ coins, v hash = some coins → coins.isPruned

/-- The views differ in fully spent entries only. -/
def Equiv (v w : CoinsView) : Prop := v.prune = w.prune

theorem Equiv.refl (v : CoinsView) : v.Equiv v := rfl

theorem Equiv.symm (h : v.Equiv w) : w.Equiv v := Eq.symm h

theorem Equiv.trans {u : CoinsView} (h : u.Equiv v) (h' : v.Equiv w) : u.Equiv w := Eq.trans h h'

theorem prune_eq_some_iff : v.prune hash = some coins ↔ v hash = some coins ∧ ¬ coins.isPruned := by
  unfold prune
  cases hv : v hash with
  | none => simp
  | some c =>
    by_cases hp : c.isPruned
    · simp only [if_pos hp, reduceCtorEq, Option.some.injEq, false_iff, not_and, not_not]
      rintro rfl
      exact hp
    · simp only [if_neg hp, Option.some.injEq]
      exact ⟨fun h => ⟨h, h ▸ hp⟩, fun h => h.1⟩

theorem prune_eq_none_iff : v.prune hash = none ↔ v.Dead hash := by
  rw [Option.eq_none_iff_forall_ne_some]
  constructor
  · intro h c hc
    by_contra hp
    exact h c (prune_eq_some_iff.mpr ⟨hc, hp⟩)
  · intro h c hc
    obtain ⟨hv, hp⟩ := prune_eq_some_iff.mp hc
    exact hp (h c hv)

theorem Equiv.dead_iff (h : v.Equiv w) : v.Dead hash ↔ w.Dead hash := by
  rw [← prune_eq_none_iff, ← prune_eq_none_iff, h]

/-- A live entry is the same in both views. -/
theorem Equiv.eq_some (h : v.Equiv w) (hv : v hash = some coins) (hl : ¬ coins.isPruned) : w hash = some coins := by
  have hw := prune_eq_some_iff.mpr ⟨hv, hl⟩
  rw [h] at hw
  exact (prune_eq_some_iff.mp hw).1

theorem equiv_prune (v : CoinsView) : v.prune.Equiv v := by
  funext hash
  cases h : v.prune hash with
  | none =>
    rw [prune_eq_none_iff]
    intro c hc
    rw [h] at hc
    cases hc
  | some c => exact prune_eq_some_iff.mpr ⟨h, (prune_eq_some_iff.mp h).2⟩

theorem prune_update {x : Option CCoins} :
    prune (Function.update v hash x) = Function.update v.prune hash (x.filter fun c => !decide c.isPruned) := by
  funext hash'
  by_cases hh : hash' = hash
  · subst hh
    rw [Function.update_self, prune, Function.update_self]
    cases x with
    | none => rfl
    | some c => by_cases hp : c.isPruned <;> simp [Option.filter, hp]
  · rw [Function.update_of_ne hh, prune, prune, Function.update_of_ne hh]

theorem Equiv.update (h : v.Equiv w) (x : Option CCoins) :
    Equiv (Function.update v hash x) (Function.update w hash x) := by
  rw [Equiv, prune_update, prune_update, h]

/-- A spent entry in place of a dead one makes no difference. -/
theorem Dead.update_equiv (h : v.Dead hash) (hc : coins.isPruned) : Equiv (Function.update v hash (some coins)) v := by
  rw [Equiv, prune_update]
  simp only [Option.filter_some, hc, decide_true, Bool.not_true, Bool.false_eq_true, if_false]
  rw [← prune_eq_none_iff.mpr h, Function.update_eq_self]

end CoinsView

theorem CCoins.not_isPruned_of_isAvailable {coins : CCoins} {n : Nat} (h : coins.isAvailable n) :
    ¬ coins.isPruned := by
  intro hp
  refine h.2 (hp _ ?_)
  rw [CCoins.output, List.getD_eq_getElem?_getD, List.getElem?_eq_getElem h.1]
  exact List.getElem_mem h.1

/-! ## Spending respects equivalence -/

section Congr

variable {env : Env} {tx : CTransaction} {v w : CoinsView}

/-- An entry with an available output is the same in both views. -/
theorem CoinsView.Equiv.of_isAvailable (h : v.Equiv w) {hash : Uint256} {n : Nat}
    (ha : (v.getCoins hash).isAvailable n) : w hash = some (v.getCoins hash) := by
  cases hv : v hash with
  | none => simp [CoinsView.getCoins, hv, CCoins.empty, CCoins.isAvailable] at ha
  | some c =>
    have hg : v.getCoins hash = c := by simp [CoinsView.getCoins, hv]
    rw [hg] at ha ⊢
    exact h.eq_some hv (CCoins.not_isPruned_of_isAvailable ha)

/-- The entries of the inputs are the same in both views. -/
theorem haveInputs_getCoins (h : v.Equiv w) (hin : tx.haveInputs v) (hcb : tx.isCoinBase = false) {txin : CTxIn}
    (hmem : txin ∈ tx.vin) : w.getCoins txin.prevout.hash = v.getCoins txin.prevout.hash := by
  rcases hin with hin | hin
  · rw [hcb] at hin; cases hin
  · simp [CoinsView.getCoins, h.of_isAvailable (hin txin hmem).2]

theorem haveInputs_congr (h : v.Equiv w) (hin : tx.haveInputs v) : tx.haveInputs w := by
  rcases hin with hcb | hin
  · exact .inl hcb
  · refine .inr fun txin hmem => ?_
    have hw := h.of_isAvailable (hin txin hmem).2
    refine ⟨by simp [hw], ?_⟩
    rw [CoinsView.getCoins, hw]
    exact (hin txin hmem).2

theorem CCoins.isAvailable_of_spend {coins coins' : CCoins} {n : Nat} {undo : CTxInUndo}
    (h : coins.spend n = some (coins', undo)) : coins.isAvailable n := by
  unfold CCoins.spend at h
  split at h
  · assumption
  · cases h

theorem spendInputs_congr {vin : List CTxIn} {v' : CoinsView} {txundo : CTxUndo} (hvw : v.Equiv w)
    (h : spendInputs vin v = .ok (v', txundo)) : ∃ w', spendInputs vin w = .ok (w', txundo) ∧ v'.Equiv w' := by
  induction vin generalizing v w txundo with
  | nil =>
    simp only [spendInputs, Except.ok.injEq, Prod.mk.injEq] at h ⊢
    obtain ⟨rfl, rfl⟩ := h
    exact ⟨w, ⟨rfl, rfl⟩, hvw⟩
  | cons txin vin ih =>
    unfold spendInputs at h
    split at h
    · cases h
    · rename_i coins undo hsp
      obtain ⟨⟨v₁, txundo₁⟩, hrec, h⟩ := Except.bind_ok_iff.mp h
      simp only [Except.ok.injEq, Prod.mk.injEq] at h
      obtain ⟨rfl, rfl⟩ := h
      have hw := hvw.of_isAvailable (CCoins.isAvailable_of_spend hsp)
      obtain ⟨w', hrec', hequiv⟩ := ih (hvw.update (some coins)) hrec
      refine ⟨w', ?_, hequiv⟩
      unfold spendInputs
      rw [CoinsView.getCoins, hw, Option.getD_some, hsp]
      exact Except.bind_ok_iff.mpr ⟨(w', txundo₁), hrec', rfl⟩

theorem updateCoins_congr {nHeight : Nat} {v' : CoinsView} {txundo : CTxUndo} (hvw : v.Equiv w)
    (h : updateCoins env tx nHeight v = .ok (v', txundo)) :
    ∃ w', updateCoins env tx nHeight w = .ok (w', txundo) ∧ v'.Equiv w' := by
  unfold updateCoins at h ⊢
  obtain ⟨⟨v₁, txundo₁⟩, hspend, h⟩ := Except.bind_ok_iff.mp h
  simp only [Except.ok.injEq, Prod.mk.injEq] at h
  obtain ⟨rfl, rfl⟩ := h
  have hspend' : ∃ w₁, (if tx.isCoinBase then .ok (w, []) else spendInputs tx.vin w) = .ok (w₁, txundo₁) ∧
      v₁.Equiv w₁ := by
    by_cases hcb : tx.isCoinBase = true
    · simp only [if_pos hcb, Except.ok.injEq, Prod.mk.injEq] at hspend ⊢
      obtain ⟨rfl, rfl⟩ := hspend
      exact ⟨w, ⟨rfl, rfl⟩, hvw⟩
    · simp only [if_neg hcb] at hspend ⊢
      exact spendInputs_congr hvw hspend
  obtain ⟨w₁, hw₁, hequiv⟩ := hspend'
  exact ⟨_, Except.bind_ok_iff.mpr ⟨(w₁, txundo₁), hw₁, rfl⟩, hequiv.update _⟩

/-- Putting an output back into equivalent views, when it fits. -/
theorem restoreInput_congr {txin : CTxIn} {undo : CTxInUndo} (hvw : v.Equiv w)
    (hfits : (restoreInput txin undo v).2 = true) :
    (restoreInput txin undo v).1.Equiv (restoreInput txin undo w).1 := by
  have hentry : restoreEntry undo (w.getCoins txin.prevout.hash) =
      restoreEntry undo (v.getCoins txin.prevout.hash) := by
    unfold restoreEntry
    split
    · rfl
    · -- the entry is live, so the views agree on it
      rename_i hh
      simp only [restoreInput, if_neg hh, Bool.and_eq_true, Bool.not_eq_eq_eq_not, Bool.not_true,
        decide_eq_false_iff_not] at hfits
      cases hv : v txin.prevout.hash with
      | none => simp [CoinsView.getCoins, hv, CCoins.empty, CCoins.isPruned] at hfits
      | some c =>
        have hg : v.getCoins txin.prevout.hash = c := by simp [CoinsView.getCoins, hv]
        rw [hg] at hfits ⊢
        simp [CoinsView.getCoins, hvw.eq_some hv hfits.1]
  simp only [restoreInput, hentry]
  exact hvw.update _

theorem restoreInputs_congr {pairs : List (CTxIn × CTxInUndo)} (hvw : v.Equiv w)
    (hfits : (restoreInputs pairs v).2 = true) :
    (restoreInputs pairs v).1.Equiv (restoreInputs pairs w).1 := by
  induction pairs with
  | nil => exact hvw
  | cons pair pairs ih =>
    simp only [restoreInputs, Bool.and_eq_true] at hfits ⊢
    exact restoreInput_congr (ih hfits.1) hfits.2

end Congr

/-! ## Undo records invert a spend -/

/-- The shape that entries have: spent outputs are `CTxOut.null` itself, none stands at the end, and what can be
    spent was created above the genesis block. -/
structure CCoins.Canonical (coins : CCoins) : Prop where
  nulls : ∀ o ∈ coins.vout, o.isNull → o = CTxOut.null
  trimmed : CCoins.cleanup coins.vout = coins.vout
  height : ¬ coins.isPruned → coins.nHeight ≠ 0

def CoinsView.Canonical (v : CoinsView) : Prop := ∀ hash coins, v hash = some coins → coins.Canonical

section Inverse

variable {vout : List CTxOut} {n : Nat}

/-- `Cleanup` cuts off nulls. -/
theorem cleanup_append (vout : List CTxOut) :
    ∃ t, vout = CCoins.cleanup vout ++ t ∧ ∀ o ∈ t, o.isNull := by
  refine ⟨vout.rtakeWhile fun o => o.isNull, ?_, ?_⟩
  · exact List.rdropWhile_append_rtakeWhile.symm
  · intro o ho
    simpa using List.mem_rtakeWhile_imp ho

/-- Nulling an output and cutting the end off, then growing the list again and putting the output back. -/
theorem putOutput_cleanup (hnulls : ∀ o ∈ vout, o.isNull → o = CTxOut.null)
    (htrim : CCoins.cleanup vout = vout) (hn : n < vout.length) :
    putOutput (CCoins.cleanup (vout.set n CTxOut.null)) n vout[n] = vout := by
  obtain ⟨t, ht, hnull⟩ := cleanup_append (vout.set n CTxOut.null)
  have hexact : t = List.replicate t.length CTxOut.null := by
    refine List.eq_replicate_iff.mpr ⟨rfl, fun o ho => ?_⟩
    have hmem : o ∈ vout.set n CTxOut.null := ht ▸ List.mem_append_right _ ho
    rcases List.mem_or_eq_of_mem_set hmem with hold | hnew
    · exact hnulls o hold (hnull o ho)
    · exact hnew
  have hlen : t.length = n + 1 - (CCoins.cleanup (vout.set n CTxOut.null)).length := by
    have htotal : (CCoins.cleanup (vout.set n CTxOut.null)).length + t.length = vout.length := by
      rw [← List.length_append, ← ht, List.length_set]
    by_cases hlast : vout.length = n + 1
    · omega
    · -- the last output is another one, so nothing was cut off
      have hnil : t = [] := by
        by_contra hne
        have hend : (vout.set n CTxOut.null).getLast? = t.getLast? := by
          rw [ht, List.getLast?_append_of_ne_nil _ hne]
        have hv : vout ≠ [] := List.ne_nil_of_length_pos (by omega)
        rw [List.getLast?_eq_getElem?, List.length_set, List.getElem?_set_ne (by omega),
          ← List.getLast?_eq_getElem?, List.getLast?_eq_some_getLast hv, List.getLast?_eq_some_getLast hne,
          Option.some.injEq] at hend
        have hno := List.rdropWhile_eq_self_iff.mp htrim hv
        rw [hend] at hno
        exact hno (by simpa using hnull _ (List.getLast_mem hne))
      rw [hnil, List.length_nil] at htotal ⊢
      omega
  unfold putOutput
  rw [← hlen, ← hexact, ← ht, List.set_set, List.set_getElem_self]

/-- **One spend undone**: the entry is back, and the record fitted. -/
theorem CCoins.spend_restore {coins coins' : CCoins} {undo : CTxInUndo} (hcan : coins.Canonical)
    (h : coins.spend n = some (coins', undo)) :
    { restoreEntry undo coins' with vout := putOutput (restoreEntry undo coins').vout n undo.txout } = coins ∧
      ¬ (restoreEntry undo coins').isAvailable n ∧
      (if undo.nHeight ≠ 0 then decide coins'.isPruned else !decide coins'.isPruned) = true := by
  have hav := CCoins.isAvailable_of_spend h
  have hlive := hcan.height (CCoins.not_isPruned_of_isAvailable hav)
  have hn : n < coins.vout.length := hav.1
  have hput := putOutput_cleanup hcan.nulls hcan.trimmed hn
  have hout : coins.output n = coins.vout[n] := by
    rw [CCoins.output, List.getD_eq_getElem?_getD, List.getElem?_eq_getElem hn, Option.getD_some]
  unfold CCoins.spend at h
  rw [if_pos hav] at h
  simp only [Option.some.injEq, Prod.mk.injEq] at h
  obtain ⟨rfl, rfl⟩ := h
  rw [hout]
  by_cases hnil : CCoins.cleanup (coins.vout.set n CTxOut.null) = []
  · -- the last output: the record rebuilds the entry
    simp only [hnil, if_true, restoreEntry, hlive, ne_eq, not_false_eq_true]
    rw [hnil] at hput
    exact ⟨by rw [hput], by simp [CCoins.isAvailable], by simp [CCoins.isPruned]⟩
  · simp only [hnil, if_false, restoreEntry, ne_eq, not_true_eq_false]
    refine ⟨by rw [hput], ?_, ?_⟩
    · -- what is left of the entry has no output at this place
      rintro ⟨hlt, hnn⟩
      rw [CCoins.output, List.getD_eq_getElem?_getD, List.getElem?_eq_getElem hlt, Option.getD_some] at hnn
      have hat := getElem?_of_cleanup (List.getElem?_eq_getElem hlt)
      rw [List.getElem?_set_self hav.1, Option.some.injEq] at hat
      rw [← hat] at hnn
      exact hnn rfl
    · simp only [Bool.not_eq_eq_eq_not, Bool.not_true, decide_eq_false_iff_not]
      intro hp
      have hlast := List.rdropWhile_last_not (fun o : CTxOut => decide o.isNull) _ hnil
      exact hlast (decide_eq_true (hp _ (List.getLast_mem hnil)))

theorem CCoins.spend_canonical {coins coins' : CCoins} {undo : CTxInUndo} (hcan : coins.Canonical)
    (h : coins.spend n = some (coins', undo)) : coins'.Canonical := by
  have hav := CCoins.isAvailable_of_spend h
  unfold CCoins.spend at h
  rw [if_pos hav] at h
  simp only [Option.some.injEq, Prod.mk.injEq] at h
  obtain ⟨rfl, -⟩ := h
  refine ⟨fun o ho hnull => ?_, List.rdropWhile_idempotent _ _, ?_⟩
  · have hmem : o ∈ coins.vout.set n CTxOut.null := (List.rdropWhile_prefix _ _).subset ho
    rcases List.mem_or_eq_of_mem_set hmem with hold | hnew
    · exact hcan.nulls o hold hnull
    · exact hnew
  · exact fun _ => hcan.height (CCoins.not_isPruned_of_isAvailable hav)

theorem CoinsView.Canonical.update {v : CoinsView} {hash : Uint256} {coins : CCoins} (hv : v.Canonical)
    (hc : coins.Canonical) : CoinsView.Canonical (Function.update v hash (some coins)) := by
  intro hash' coins' h
  by_cases hh : hash' = hash
  · rw [hh, Function.update_self, Option.some.injEq] at h
    exact h ▸ hc
  · rw [Function.update_of_ne hh] at h
    exact hv hash' coins' h

/-- **The inputs of a transaction undone**: the view is back as it was, and every record fitted. -/
theorem spendInputs_restore {vin : List CTxIn} {v v' : CoinsView} {txundo : CTxUndo} (hcan : v.Canonical)
    (h : spendInputs vin v = .ok (v', txundo)) :
    restoreInputs (vin.zip txundo) v' = (v, true) ∧ v'.Canonical := by
  induction vin generalizing v txundo with
  | nil =>
    simp only [spendInputs, Except.ok.injEq, Prod.mk.injEq] at h
    obtain ⟨rfl, rfl⟩ := h
    exact ⟨rfl, hcan⟩
  | cons txin vin ih =>
    unfold spendInputs at h
    split at h
    · cases h
    · rename_i coins undo hsp
      obtain ⟨⟨v₁, txundo₁⟩, hrec, h⟩ := Except.bind_ok_iff.mp h
      simp only [Except.ok.injEq, Prod.mk.injEq] at h
      obtain ⟨rfl, rfl⟩ := h
      have hv := (CoinsView.Equiv.refl v).of_isAvailable (CCoins.isAvailable_of_spend hsp)
      have hentry := hcan _ _ hv
      obtain ⟨hrest, hcan'⟩ := ih (hcan.update (CCoins.spend_canonical hentry hsp)) hrec
      refine ⟨?_, hcan'⟩
      obtain ⟨hback, hfree, hfits⟩ := CCoins.spend_restore hentry hsp
      simp only [List.zip_cons_cons, restoreInputs, hrest, restoreInput, CoinsView.getCoins, Function.update_self,
        Option.getD_some, hfits, Function.update_idem, Bool.true_and]
      rw [CoinsView.getCoins] at hback hv
      rw [hback, ← hv, Function.update_eq_self]
      simp [hfree]

/-- What is dead is not spent from. -/
theorem spendInputs_dead {vin : List CTxIn} {v v' : CoinsView} {txundo : CTxUndo} {hash : Uint256}
    (hdead : v.Dead hash) (h : spendInputs vin v = .ok (v', txundo)) :
    v' hash = v hash ∧ ∀ txin ∈ vin, txin.prevout.hash ≠ hash := by
  induction vin generalizing v txundo with
  | nil =>
    simp only [spendInputs, Except.ok.injEq, Prod.mk.injEq] at h
    exact ⟨by rw [h.1], by simp⟩
  | cons txin vin ih =>
    unfold spendInputs at h
    split at h
    · cases h
    · rename_i coins undo hsp
      obtain ⟨⟨v₁, txundo₁⟩, hrec, h⟩ := Except.bind_ok_iff.mp h
      simp only [Except.ok.injEq, Prod.mk.injEq] at h
      obtain ⟨rfl, rfl⟩ := h
      have hav := CCoins.isAvailable_of_spend hsp
      have hne : txin.prevout.hash ≠ hash := by
        rintro rfl
        exact CCoins.not_isPruned_of_isAvailable hav
          (hdead _ ((CoinsView.Equiv.refl v).of_isAvailable hav))
      have hsame : Function.update v txin.prevout.hash (some coins) hash = v hash :=
        Function.update_of_ne hne.symm _ _
      have hdead' : CoinsView.Dead (Function.update v txin.prevout.hash (some coins)) hash := by
        intro c hc
        rw [hsame] at hc
        exact hdead c hc
      obtain ⟨hv₁, hvin⟩ := ih hdead' hrec
      exact ⟨hv₁.trans hsame, List.forall_mem_cons.mpr ⟨hne, hvin⟩⟩

theorem restoreInput_update {txin : CTxIn} {undo : CTxInUndo} {v : CoinsView} {hash : Uint256}
    {x : Option CCoins} (hne : txin.prevout.hash ≠ hash) :
    restoreInput txin undo (Function.update v hash x) =
      (Function.update (restoreInput txin undo v).1 hash x, (restoreInput txin undo v).2) := by
  have hg : CoinsView.getCoins (Function.update v hash x) txin.prevout.hash = v.getCoins txin.prevout.hash := by
    simp only [CoinsView.getCoins, Function.update_of_ne hne]
  simp only [restoreInput, hg]
  exact Prod.ext (Function.update_comm hne.symm _ _ _) rfl

/-- Restoring inputs does not look at entries of other transactions. -/
theorem restoreInputs_update {pairs : List (CTxIn × CTxInUndo)} {v : CoinsView} {hash : Uint256}
    {x : Option CCoins} (hne : ∀ pair ∈ pairs, pair.1.prevout.hash ≠ hash) :
    restoreInputs pairs (Function.update v hash x) =
      (Function.update (restoreInputs pairs v).1 hash x, (restoreInputs pairs v).2) := by
  induction pairs with
  | nil => rfl
  | cons pair pairs ih =>
    obtain ⟨hhead, htail⟩ := List.forall_mem_cons.mp hne
    simp only [restoreInputs, ih htail, restoreInput_update hhead]

/-- The coin part of undoing one transaction. -/
def undoCoins (env : Env) (nHeight : Nat) (step : CTransaction × Option CTxUndo) (view : CoinsView) :
    CoinsView × Bool :=
  let removed := removeOutputs env step.1 nHeight view
  match step.2 with
  | none => removed
  | some txundo =>
    let restored := restoreInputs (step.1.vin.zip txundo) removed.1
    (restored.1, removed.2 && restored.2)

/-- The undo step that belongs to a transaction and its records. -/
def undoStep (tx : CTransaction) (txundo : CTxUndo) : CTransaction × Option CTxUndo :=
  (tx, if tx.isCoinBase then none else some txundo)

/-- **A transaction undone**: the view is back, with an empty entry in the place of the transaction. -/
theorem updateCoins_undoCoins {env : Env} {tx : CTransaction} {nHeight : Nat} {v v' : CoinsView}
    {txundo : CTxUndo} (hcan : v.Canonical) (hdead : v.Dead (env.getHash tx))
    (h : updateCoins env tx nHeight v = .ok (v', txundo)) :
    undoCoins env nHeight (undoStep tx txundo) v' =
      (Function.update v (env.getHash tx) (some CCoins.empty), true) := by
  unfold updateCoins at h
  obtain ⟨⟨v₁, txundo₁⟩, hspend, h⟩ := Except.bind_ok_iff.mp h
  simp only [Except.ok.injEq, Prod.mk.injEq] at h
  obtain ⟨rfl, rfl⟩ := h
  have hremoved : removeOutputs env tx nHeight
      (Function.update v₁ (env.getHash tx) (some (CCoins.ofTx tx nHeight))) =
        (Function.update v₁ (env.getHash tx) (some CCoins.empty), true) := by
    simp [removeOutputs, CoinsView.getCoins, Function.update_idem]
  by_cases hcb : tx.isCoinBase = true
  · rw [if_pos hcb] at hspend
    simp only [Except.ok.injEq, Prod.mk.injEq] at hspend
    simp only [undoCoins, undoStep, hcb, if_true, hremoved, hspend.1]
  · rw [if_neg hcb] at hspend
    obtain ⟨hrestore, -⟩ := spendInputs_restore hcan hspend
    obtain ⟨-, hne⟩ := spendInputs_dead hdead hspend
    have hpairs : ∀ pair ∈ tx.vin.zip txundo₁, pair.1.prevout.hash ≠ env.getHash tx :=
      fun pair hp => hne pair.1 (List.of_mem_zip hp).1
    simp only [undoCoins, undoStep, hcb, if_false, hremoved, restoreInputs_update hpairs, hrestore,
      Bool.and_true, Bool.false_eq_true]

theorem undoCoins_congr {env : Env} {nHeight : Nat} {step : CTransaction × Option CTxUndo} {v w : CoinsView}
    (hvw : v.Equiv w) (hclean : (undoCoins env nHeight step v).2 = true) :
    (undoCoins env nHeight step v).1.Equiv (undoCoins env nHeight step w).1 := by
  obtain ⟨tx, undo⟩ := step
  have hremoved : (removeOutputs env tx nHeight v).1.Equiv (removeOutputs env tx nHeight w).1 := hvw.update _
  cases undo with
  | none => exact hremoved
  | some txundo =>
    simp only [undoCoins, Bool.and_eq_true] at hclean ⊢
    exact restoreInputs_congr hremoved hclean.2

theorem updateCoins_canonical {env : Env} {tx : CTransaction} {nHeight : Nat} {v v' : CoinsView}
    {txundo : CTxUndo} (hcan : v.Canonical) (hvout : ∀ o ∈ tx.vout, ¬ o.isNull) (hh : nHeight ≠ 0)
    (h : updateCoins env tx nHeight v = .ok (v', txundo)) : v'.Canonical := by
  unfold updateCoins at h
  obtain ⟨⟨v₁, txundo₁⟩, hspend, h⟩ := Except.bind_ok_iff.mp h
  simp only [Except.ok.injEq, Prod.mk.injEq] at h
  obtain ⟨rfl, rfl⟩ := h
  have hv₁ : v₁.Canonical := by
    by_cases hcb : tx.isCoinBase = true
    · rw [if_pos hcb] at hspend
      simp only [Except.ok.injEq, Prod.mk.injEq] at hspend
      exact hspend.1 ▸ hcan
    · rw [if_neg hcb] at hspend
      exact (spendInputs_restore hcan hspend).2
  refine hv₁.update ⟨fun o ho hnull => absurd hnull (hvout o ho), ?_, fun _ => hh⟩
  exact List.rdropWhile_eq_self_iff.mpr fun hne =>
    by simpa using hvout _ (List.getLast_mem hne)

end Inverse

/-! ## Blocks -/

/-- The coins after the transactions of a block, with the undo records of those that spend. -/
def blockCoins (env : Env) (nHeight : Nat) : List CTransaction → CoinsView → Except Reject (CoinsView × CBlockUndo)
  | [], view => .ok (view, [])
  | tx :: txs, view => do
    let (view, txundo) ← updateCoins env tx nHeight view
    let (view, blockundo) ← blockCoins env nHeight txs view
    .ok (view, if tx.isCoinBase then blockundo else txundo :: blockundo)

/-- The undo steps of a block, first transaction first. -/
def undoSteps : List CTransaction → CBlockUndo → List (CTransaction × Option CTxUndo)
  | [], _ => []
  | tx :: txs, blockundo =>
    if tx.isCoinBase then (tx, none) :: undoSteps txs blockundo
    else
      match blockundo with
      | [] => []
      | txundo :: blockundo => (tx, some txundo) :: undoSteps txs blockundo

section Block

variable {env : Env} {nHeight : Nat} {tx : CTransaction} {txs : List CTransaction} {v v' w : CoinsView}
  {blockundo : CBlockUndo}

theorem blockCoins_cons (h : blockCoins env nHeight (tx :: txs) v = .ok (v', blockundo)) :
    ∃ v₁ txundo rest, updateCoins env tx nHeight v = .ok (v₁, txundo) ∧
      blockCoins env nHeight txs v₁ = .ok (v', rest) ∧
      blockundo = (if tx.isCoinBase then rest else txundo :: rest) ∧
      undoSteps (tx :: txs) blockundo = undoStep tx txundo :: undoSteps txs rest := by
  unfold blockCoins at h
  obtain ⟨⟨v₁, txundo⟩, hcoins, h⟩ := Except.bind_ok_iff.mp h
  obtain ⟨⟨v₂, rest⟩, hrest, h⟩ := Except.bind_ok_iff.mp h
  simp only [Except.ok.injEq, Prod.mk.injEq] at h
  obtain ⟨rfl, rfl⟩ := h
  refine ⟨v₁, txundo, rest, hcoins, hrest, rfl, ?_⟩
  by_cases hcb : tx.isCoinBase = true <;> simp [undoSteps, undoStep, hcb]

theorem blockCoins_congr (hvw : v.Equiv w) (h : blockCoins env nHeight txs v = .ok (v', blockundo)) :
    ∃ w', blockCoins env nHeight txs w = .ok (w', blockundo) ∧ v'.Equiv w' := by
  induction txs generalizing v w blockundo with
  | nil =>
    simp only [blockCoins, Except.ok.injEq, Prod.mk.injEq] at h ⊢
    obtain ⟨rfl, rfl⟩ := h
    exact ⟨w, ⟨rfl, rfl⟩, hvw⟩
  | cons tx txs ih =>
    obtain ⟨v₁, txundo, rest, hcoins, hrest, rfl, -⟩ := blockCoins_cons h
    obtain ⟨w₁, hcoins', hequiv⟩ := updateCoins_congr hvw hcoins
    obtain ⟨w', hrest', hequiv'⟩ := ih hequiv hrest
    exact ⟨w', Except.bind_ok_iff.mpr ⟨_, hcoins', Except.bind_ok_iff.mpr ⟨_, hrest', rfl⟩⟩, hequiv'⟩

theorem blockCoins_canonical (hcan : v.Canonical) (hvout : ∀ tx ∈ txs, ∀ o ∈ tx.vout, ¬ o.isNull)
    (hh : nHeight ≠ 0) (h : blockCoins env nHeight txs v = .ok (v', blockundo)) : v'.Canonical := by
  induction txs generalizing v blockundo with
  | nil =>
    simp only [blockCoins, Except.ok.injEq, Prod.mk.injEq] at h
    exact h.1 ▸ hcan
  | cons tx txs ih =>
    obtain ⟨v₁, txundo, rest, hcoins, hrest, -⟩ := blockCoins_cons h
    obtain ⟨hvhead, hvtail⟩ := List.forall_mem_cons.mp hvout
    exact ih (updateCoins_canonical hcan hvhead hh hcoins) hvtail hrest

/-- An entry of another transaction that is dead stays dead. -/
theorem updateCoins_dead {hash : Uint256} {txundo : CTxUndo} (hdead : v.Dead hash) (hne : hash ≠ env.getHash tx)
    (h : updateCoins env tx nHeight v = .ok (v', txundo)) : v'.Dead hash := by
  unfold updateCoins at h
  obtain ⟨⟨v₁, txundo₁⟩, hspend, h⟩ := Except.bind_ok_iff.mp h
  simp only [Except.ok.injEq, Prod.mk.injEq] at h
  obtain ⟨rfl, rfl⟩ := h
  have hsame : v₁ hash = v hash := by
    by_cases hcb : tx.isCoinBase = true
    · rw [if_pos hcb] at hspend
      simp only [Except.ok.injEq, Prod.mk.injEq] at hspend
      rw [hspend.1]
    · rw [if_neg hcb] at hspend
      exact (spendInputs_dead hdead hspend).1
  intro c hc
  rw [Function.update_of_ne hne, hsame] at hc
  exact hdead c hc

/-- What a step of the disconnect loop does to the coins. -/
theorem disconnectTx_coins {pindex : CBlockIndex} {acc acc' : CoinsView × Bool}
    {step : CTransaction × Option CTxUndo} {s s' : Store}
    (h : disconnectTx env pindex acc step s = (.ok acc', s')) :
    acc' = ((undoCoins env pindex.nHeight step acc.1).1,
      acc.2 && (undoCoins env pindex.nHeight step acc.1).2) := by
  obtain ⟨tx, undo⟩ := step
  unfold disconnectTx at h
  obtain ⟨s₁, -, h⟩ := Proc.update_bind_ok_iff.mp h
  cases undo with
  | none =>
    simp only [Proc.pure_apply, Prod.mk.injEq, Except.ok.injEq] at h
    exact h.1.symm
  | some txundo =>
    obtain ⟨-, h⟩ := Proc.require_bind_ok_iff.mp h
    simp only [Proc.pure_apply, Prod.mk.injEq, Except.ok.injEq] at h
    rw [← h.1, undoCoins, Bool.and_assoc]

/-- **A block undone.** The disconnect loop, run cleanly on a view that agrees with the block's coins, leaves a view
    that agrees with the coins before the block. -/
theorem disconnectTxs_equiv {pindex : CBlockIndex} (hcan : v.Canonical)
    (hdead : ∀ tx ∈ txs, v.Dead (env.getHash tx)) (hnodup : (txs.map env.getHash).Nodup)
    (hvout : ∀ tx ∈ txs, ∀ o ∈ tx.vout, ¬ o.isNull) (hh : pindex.nHeight ≠ 0)
    (h : blockCoins env pindex.nHeight txs v = .ok (v', blockundo)) {acc acc' : CoinsView × Bool} {s s' : Store}
    (hequiv : acc.1.Equiv v')
    (hloop : Proc.foldM (disconnectTx env pindex) (undoSteps txs blockundo).reverse acc s = (.ok acc', s'))
    (hclean : acc'.2 = true) : acc'.1.Equiv v := by
  induction txs generalizing v blockundo acc' s' with
  | nil =>
    simp only [blockCoins, Except.ok.injEq, Prod.mk.injEq] at h
    simp only [undoSteps, List.reverse_nil, Proc.foldM_nil, Prod.mk.injEq, Except.ok.injEq] at hloop
    rw [← hloop.1, h.1]
    exact hequiv
  | cons tx txs ih =>
    obtain ⟨v₁, txundo, rest, hcoins, hrest, -, hsteps⟩ := blockCoins_cons h
    obtain ⟨hdhead, hdtail⟩ := List.forall_mem_cons.mp hdead
    obtain ⟨hvhead, hvtail⟩ := List.forall_mem_cons.mp hvout
    rw [List.map_cons, List.nodup_cons] at hnodup
    -- the later transactions are undone first
    rw [hsteps, List.reverse_cons] at hloop
    obtain ⟨acc₁, s₁, hlater, hthis⟩ := Proc.foldM_snoc_ok_iff.mp hloop
    have hacc := disconnectTx_coins hthis
    rw [hacc] at hclean ⊢
    simp only [Bool.and_eq_true] at hclean ⊢
    have hdead₁ : ∀ tx' ∈ txs, v₁.Dead (env.getHash tx') := by
      intro tx' htx'
      refine updateCoins_dead (hdtail tx' htx') (fun heq => hnodup.1 ?_) hcoins
      exact heq ▸ List.mem_map_of_mem htx'
    have hbefore := ih (updateCoins_canonical hcan hvhead hh hcoins) hdead₁ hnodup.2 hvtail hrest hlater hclean.1
    refine (undoCoins_congr hbefore hclean.2).trans ?_
    rw [updateCoins_undoCoins hcan hdhead hcoins]
    exact hdhead.update_equiv (by simp [CCoins.isPruned, CCoins.empty])

/-- The loop of `ConnectBlock` computes the coins of the block and its undo data. -/
theorem TxSteps.blockCoins {C : Site → Prop} {pindexBest pindex : CBlockIndex} {acc acc' : ConnectAcc}
    {s s' : Store} (h : TxSteps env C pindexBest pindex acc txs s acc' s') :
    ∃ blockundo, Syscoin.blockCoins env pindex.nHeight txs acc.view = .ok (acc'.view, blockundo) ∧
      acc'.blockundo = acc.blockundo ++ blockundo := by
  induction h with
  | nil => exact ⟨[], rfl, by simp⟩
  | cons _ hd _ ih =>
    obtain ⟨rest, hrest, hundo⟩ := ih
    cases hd with
    | coinbase hcb hcoins hsame _ =>
      refine ⟨rest, Except.bind_ok_iff.mpr ⟨_, hcoins, Except.bind_ok_iff.mpr ⟨_, hrest, ?_⟩⟩, ?_⟩
      · simp [hcb]
      · rw [hundo, hsame]
    | @spend txundo _ hcb _ _ hcoins hsame _ =>
      refine ⟨txundo :: rest, Except.bind_ok_iff.mpr ⟨_, hcoins, Except.bind_ok_iff.mpr ⟨_, hrest, ?_⟩⟩, ?_⟩
      · simp [hcb]
      · rw [hundo, hsame, List.append_assoc, List.singleton_append]

end Block

/-! ## Chains -/

/-- **The coins of a chain**, tip first, replayed from nothing. The root and a genesis block are not processed. -/
def chainCoins (env : Env) : List CBlock → CoinsView
  | [] => fun _ => none
  | [_] => fun _ => none
  | block :: parent :: below =>
    if env.getBlockHash block = env.hashGenesisBlock then chainCoins env (parent :: below)
    else
      match blockCoins env (parent :: below).length block.vtx (chainCoins env (parent :: below)) with
      | .ok (view, _) => view
      | .error _ => chainCoins env (parent :: below)

/-- The view agrees with the chain it belongs to. -/
def CoinsInv (env : Env) (view : CoinsCache) : Prop :=
  ∃ pindex, view.best = some pindex ∧ (chainCoins env pindex.chain).Canonical ∧
    view.coins.Equiv (chainCoins env pindex.chain)

/-- Undo data that inverts the block on the coins of its parent. -/
structure Undoes (env : Env) (parent pindex : CBlockIndex) (blockundo : CBlockUndo) : Prop where
  regular : env.getBlockHash pindex.block ≠ env.hashGenesisBlock
  canonical : (chainCoins env parent.chain).Canonical
  coins : blockCoins env pindex.nHeight pindex.block.vtx (chainCoins env parent.chain)
    = .ok (chainCoins env pindex.chain, blockundo)
  dead : ∀ tx ∈ pindex.block.vtx, (chainCoins env parent.chain).Dead (env.getHash tx)
  nodup : (pindex.block.vtx.map env.getHash).Nodup
  vout : ∀ tx ∈ pindex.block.vtx, ∀ o ∈ tx.vout, ¬ o.isNull
  steps : disconnectSteps pindex blockundo = (undoSteps pindex.block.vtx blockundo).reverse

/-- Every block with undo data has a parent, on which the data inverts it. -/
def UndoInv (env : Env) (s : Store) : Prop :=
  ∀ pindex blockundo, s.undo pindex = some blockundo →
    ∃ parent, pindex.pprev = some parent ∧ Undoes env parent pindex blockundo

section Chain

variable {env : Env} {pindex parent : CBlockIndex} {s s' : Store} {view view' : CoinsCache}

theorem chainCoins_of_genesis (hp : pindex.pprev = some parent)
    (hgen : env.getBlockHash pindex.block = env.hashGenesisBlock) :
    chainCoins env pindex.chain = chainCoins env parent.chain := by
  rw [CBlockIndex.chain_eq_cons_of_pprev hp, CBlockIndex.chain, chainCoins, if_pos hgen]

theorem chainCoins_of_ok {v : CoinsView} {blockundo : CBlockUndo} (hp : pindex.pprev = some parent)
    (hreg : env.getBlockHash pindex.block ≠ env.hashGenesisBlock)
    (h : blockCoins env pindex.nHeight pindex.block.vtx (chainCoins env parent.chain) = .ok (v, blockundo)) :
    chainCoins env pindex.chain = v := by
  rw [CBlockIndex.nHeight_eq_succ_of_pprev hp] at h
  rw [CBlockIndex.chain_eq_cons_of_pprev hp, CBlockIndex.chain, chainCoins, if_neg hreg]
  simp only [CBlockIndex.nHeight, CBlockIndex.chain] at h
  simp only [List.length_cons, h]

theorem checkOutputs_nonneg {nValueOut : Int} {vout : List CTxOut} (h : checkOutputs nValueOut vout = .ok ()) :
    ∀ o ∈ vout, 0 ≤ o.nValue := by
  induction vout generalizing nValueOut with
  | nil => simp
  | cons txout vout ih =>
    simp only [checkOutputs, require_bind_ok_iff] at h
    exact List.forall_mem_cons.mpr ⟨h.1, ih h.2.2.2⟩

/-- No output of a block that passes `CheckBlock` looks spent, and no hash occurs twice. -/
theorem checkBlock_outputs {nNow : Nat} {f g : Bool} (h : checkBlock env nNow pindex f g = .ok ()) :
    (pindex.block.vtx.map env.getHash).Nodup ∧ ∀ tx ∈ pindex.block.vtx, ∀ o ∈ tx.vout, ¬ o.isNull := by
  simp only [checkBlock, require_bind_ok_iff] at h
  obtain ⟨-, -, -, -, -, h⟩ := h
  obtain ⟨⟨⟩, htxs, h⟩ := Except.bind_ok_iff.mp h
  refine ⟨(require_bind_ok_iff.mp h).1, fun tx htx o ho hnull => ?_⟩
  have hcheck := Except.forM_ok_iff.mp htxs tx htx
  simp only [checkTransaction, require_bind_ok_iff] at hcheck
  obtain ⟨-, -, -, hcheck⟩ := hcheck
  obtain ⟨⟨⟩, houts, -⟩ := Except.bind_ok_iff.mp hcheck
  have hnn := checkOutputs_nonneg houts o ho
  rw [CTxOut.isNull] at hnull
  omega

theorem undoSteps_spending {txs : List CTransaction} {blockundo : CBlockUndo}
    (h : ∀ tx ∈ txs, tx.isCoinBase = false) : undoSteps txs blockundo = txs.zip (blockundo.map some) := by
  induction txs generalizing blockundo with
  | nil => rfl
  | cons tx txs ih =>
    obtain ⟨hhead, htail⟩ := List.forall_mem_cons.mp h
    cases blockundo with
    | nil => simp [undoSteps, hhead]
    | cons txundo rest => simp [undoSteps, hhead, ih htail]

/-- The pairing that `DisconnectBlock` makes by position is the one by transaction. -/
theorem checkBlock_disconnectSteps {nNow : Nat} {f g : Bool} {blockundo : CBlockUndo}
    (h : checkBlock env nNow pindex f g = .ok ()) :
    disconnectSteps pindex blockundo = (undoSteps pindex.block.vtx blockundo).reverse := by
  simp only [checkBlock, require_bind_ok_iff] at h
  obtain ⟨⟨hne, -⟩, -, -, hfirst, hrest, -⟩ := h
  rw [disconnectSteps]
  cases hv : pindex.block.vtx with
  | nil => exact absurd hv hne
  | cons cb rest =>
    rw [hv] at hfirst hrest
    have hcb : cb.isCoinBase = true := hfirst cb rfl
    rw [List.zip_cons_cons]
    simp only [undoSteps, hcb, if_true, undoSteps_spending (List.tail_cons ▸ hrest)]

/-- **A connect keeps the coins a function of the chain**, and its undo data inverts it. -/
theorem connectBlock_coins {pindexBest : CBlockIndex} {nNow : Nat} (hcoins : CoinsInv env view)
    (hundo : UndoInv env s) (h : connectBlock env false pindexBest pindex nNow view s = (.ok view', s')) :
    CoinsInv env view' ∧ UndoInv env s' := by
  obtain ⟨parent, hbest, hcan, hequiv⟩ := hcoins
  have hp : pindex.pprev = some parent := (connectBlock_best h).2.trans hbest
  obtain ⟨hpro, hcases⟩ := connectBlock_ok (C := fun _ => True) h (fun _ _ => trivial)
  rcases hcases with ⟨hgen, rfl, rfl⟩ | ⟨hreg, acc, s₁, hsteps, rfl, rfl⟩
  · refine ⟨⟨pindex, rfl, ?_⟩, hundo⟩
    rw [chainCoins_of_genesis hp hgen]
    exact ⟨hcan, hequiv⟩
  · obtain ⟨blockundo, hblock, hacc⟩ := hsteps.blockCoins
    obtain ⟨w, hw, hequiv'⟩ := blockCoins_congr hequiv hblock
    obtain rfl := chainCoins_of_ok hp hreg hw
    have hcheck := connectPrologue_checkBlock hpro
    obtain ⟨hnodup, hvout⟩ := checkBlock_outputs hcheck
    have hh : pindex.nHeight ≠ 0 := by
      rw [CBlockIndex.nHeight_eq_succ_of_pprev hp]
      omega
    have hdead : ∀ tx ∈ pindex.block.vtx, (chainCoins env parent.chain).Dead (env.getHash tx) := by
      intro tx htx
      obtain ⟨⟨⟩, -, hpro⟩ := Except.bind_ok_iff.mp hpro
      simp only [require_bind_ok_iff, require_ok_iff] at hpro
      exact hequiv.dead_iff.mp (hpro.2.resolve_left hreg tx htx)
    refine ⟨⟨pindex, rfl, blockCoins_canonical hcan hvout hh hw, hequiv'⟩, ?_⟩
    intro pindex' undo' hstored
    simp only [writeBlock] at hstored
    split at hstored
    · exact hundo pindex' undo' (hsteps.undo_eq ▸ hstored)
    · by_cases heq : pindex' = pindex
      · rw [heq, Function.update_self, Option.some.injEq, hacc, List.nil_append] at hstored
        subst hstored
        exact ⟨parent, heq ▸ hp, heq ▸ ⟨hreg, hcan, hw, hdead, hnodup, hvout, checkBlock_disconnectSteps hcheck⟩⟩
      · rw [Function.update_of_ne heq] at hstored
        exact hundo pindex' undo' (hsteps.undo_eq ▸ hstored)

/-- **So does a disconnect.** -/
theorem disconnectBlock_coins (hcoins : CoinsInv env view) (hundo : UndoInv env s)
    (h : disconnectBlock env pindex view s = (.ok view', s')) : CoinsInv env view' ∧ UndoInv env s' := by
  obtain ⟨blockUndo, acc, hstored, -, hbest, hloop, hclean, rfl⟩ := disconnectBlock_loop h
  obtain ⟨pindex', hbest', -, hequiv⟩ := hcoins
  rw [hbest, Option.some.injEq] at hbest'
  subst hbest'
  obtain ⟨parent, hp, hinv⟩ := hundo pindex blockUndo hstored
  have hh : pindex.nHeight ≠ 0 := by
    rw [CBlockIndex.nHeight_eq_succ_of_pprev hp]
    omega
  rw [hinv.steps] at hloop
  refine ⟨⟨parent, hp, hinv.canonical, ?_⟩, ?_⟩
  · exact disconnectTxs_equiv hinv.canonical hinv.dead hinv.nodup hinv.vout hh hinv.coins hequiv hloop hclean
  · intro pindex' undo' hstored'
    rw [(disconnectTxs_ok hloop).1, (disconnectServices_frame env pindex _ s).2.2.1] at hstored'
    exact hundo pindex' undo' hstored'

theorem CoinsInv.prune (h : CoinsInv env view) : CoinsInv env { view with coins := view.coins.prune } := by
  obtain ⟨pindex, hbest, hcan, hequiv⟩ := h
  exact ⟨pindex, hbest, hcan, (CoinsView.equiv_prune _).trans hequiv⟩

theorem coinsInv_init (genesis : CBlock) : CoinsInv env ⟨fun _ => none, some ⟨genesis, []⟩⟩ :=
  ⟨⟨genesis, []⟩, rfl, fun _ _ h => by simp [CBlockIndex.chain, chainCoins] at h, rfl⟩

theorem undoInv_init : UndoInv env Store.init := fun _ _ h => by cases h

end Chain

end Syscoin

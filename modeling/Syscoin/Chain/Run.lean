import Syscoin.Chain.BestChain

/-!
# `Chain.Run` — invariants along runs with reorganisations

`Run.rule` is the induction over a run, done once: a property of coin view and store that connecting a block,
disconnecting a block and committing keep holds in every node that is reached. A claim about runs supplies the
steps and reads off the result.

`Run.invariant` is its most used instance. It has three parts: a property `P` of every unspent output, which the
undo data must share because a reorganisation puts outputs back; a property `Q` of the store; and a fact `R`
about every transaction that was connected. `Keeps` says that one transaction of a connecting block keeps them.
The store property must not depend on what a disconnect or a commit changes besides histories; `Stable` says so.

The last section is a small cakenet chain on which the claims that fail are shown to fail.
-/

namespace Syscoin

open Lib

/-! ## Linkage -/

section Linkage

variable {env : Env} {amb : Ambient} {s s' : Store}

theorem nHeight_le_of_mem_lineage {block : CBlock} {ancestors : List CBlock} {pindex : CBlockIndex}
    (h : pindex ∈ CBlockIndex.lineage block ancestors) : pindex.nHeight ≤ ancestors.length := by
  induction ancestors generalizing block with
  | nil =>
    rw [CBlockIndex.lineage, List.mem_singleton] at h
    exact h ▸ le_rfl
  | cons parent ancestors ih =>
    rw [CBlockIndex.lineage, List.mem_cons] at h
    rcases h with rfl | h
    · exact le_rfl
    · exact (ih h).trans (Nat.le_succ _)

/-- What the fork search returns lies on the best chain. -/
theorem findFork_mem_lineage {plonger pfork : CBlockIndex} {block : CBlock} {ancestors : List CBlock}
    (h : plonger.findFork block ancestors = some pfork) : pfork ∈ CBlockIndex.lineage block ancestors := by
  induction ancestors generalizing plonger block with
  | nil =>
    unfold CBlockIndex.findFork at h
    split at h
    · rw [Option.some.injEq] at h
      simp [CBlockIndex.lineage, h]
    · cases h
  | cons parent ancestors ih =>
    unfold CBlockIndex.findFork at h
    simp only at h
    split at h
    · rename_i heq
      rw [Option.some.injEq] at h
      rw [← h, heq]
      exact List.mem_cons_self
    · exact List.mem_cons_of_mem _ (ih h)

/-- The view follows the blocks that are disconnected down to the fork. -/
theorem disconnectAll_best {block : CBlock} {ancestors : List CBlock} {pfork : CBlockIndex}
    {view view' : CoinsCache} (hmem : pfork ∈ CBlockIndex.lineage block ancestors)
    (hbest : view.best = some ⟨block, ancestors⟩)
    (h : disconnectAll env ((CBlockIndex.lineage block ancestors).takeWhile (· ≠ pfork)) view s
      = (.ok view', s')) : view'.best = some pfork := by
  unfold disconnectAll at h
  induction ancestors generalizing block view s with
  | nil =>
    simp only [CBlockIndex.lineage, List.mem_singleton] at hmem
    simp only [CBlockIndex.lineage, ← hmem, List.takeWhile_cons, ne_eq, not_true_eq_false, decide_false,
      Bool.false_eq_true, if_false, Proc.foldM_nil, Prod.mk.injEq, Except.ok.injEq] at h
    rw [← h.1, hbest, hmem]
  | cons parent ancestors ih =>
    by_cases heq : (⟨block, parent :: ancestors⟩ : CBlockIndex) = pfork
    · simp only [CBlockIndex.lineage, heq, List.takeWhile_cons, ne_eq, not_true_eq_false, decide_false,
        Bool.false_eq_true, if_false, Proc.foldM_nil, Prod.mk.injEq, Except.ok.injEq] at h
      rw [← h.1, hbest, heq]
    · rw [CBlockIndex.lineage, List.takeWhile_cons_of_pos (by simpa using heq)] at h
      obtain ⟨view₁, s₁, hd, tl⟩ := Proc.foldM_cons_ok_iff.mp h
      obtain ⟨-, -, -, -, hprev, -⟩ := disconnectBlock_ok hd
      have hmem' : pfork ∈ CBlockIndex.lineage parent ancestors := by
        rcases List.mem_cons.mp hmem with hp | hp
        · exact absurd hp.symm heq
        · exact hp
      exact ih hmem' hprev tl

theorem connectBlock_best {pindexBest pindex : CBlockIndex} {nNow : Nat} {view view' : CoinsCache}
    (h : connectBlock env false pindexBest pindex nNow view s = (.ok view', s')) :
    view'.best = some pindex ∧ pindex.pprev = view.best := by
  obtain ⟨hpro, hcases⟩ := connectBlock_ok (C := fun _ => True) h (fun _ _ => trivial)
  refine ⟨?_, ?_⟩
  · rcases hcases with ⟨-, -, rfl⟩ | ⟨-, _, _, -, -, rfl⟩ <;> rfl
  · obtain ⟨_, -, hpro⟩ := Except.bind_ok_iff.mp hpro
    exact (require_bind_ok_iff.mp hpro).1

/-- The view ends at the block that was asked for. -/
theorem connectAll_best {pindexBest pindexNew pfork : CBlockIndex} {view view' : CoinsCache}
    (hbest : view.best = some pfork)
    (h : connectAll env amb pindexBest (pindexNew.downTo pfork).reverse view s = (.ok view', s')) :
    view'.best = some pindexNew := by
  unfold CBlockIndex.downTo at h
  have hhead : ∃ rest, CBlockIndex.lineage pindexNew.block pindexNew.ancestors = pindexNew :: rest := by
    obtain ⟨block, ancestors⟩ := pindexNew
    cases ancestors with
    | nil => exact ⟨[], rfl⟩
    | cons parent ancestors => exact ⟨_, rfl⟩
  obtain ⟨rest, hrest⟩ := hhead
  by_cases heq : pindexNew = pfork
  · rw [hrest, List.takeWhile_cons_of_neg (by simp [heq]), List.reverse_nil, connectAll, Proc.foldM_nil] at h
    simp only [Prod.mk.injEq, Except.ok.injEq] at h
    rw [← h.1, hbest, heq]
  · rw [hrest, List.takeWhile_cons_of_pos (by simpa using heq), List.reverse_cons, connectAll] at h
    obtain ⟨view₁, s₁, -, hlast⟩ := Proc.foldM_append_ok_iff.mp h
    obtain ⟨view₂, s₂, hconn, hnil⟩ := Proc.foldM_cons_ok_iff.mp hlast
    rw [Proc.foldM_nil] at hnil
    simp only [Prod.mk.injEq, Except.ok.injEq] at hnil
    rw [← hnil.1]
    exact (connectBlock_best hconn).1

/-- **A successful call**: the branch down to the fork was disconnected and the new one connected. -/
theorem setBestChain_ok {pindexNew : CBlockIndex} {node node' : Node}
    (h : setBestChain env amb pindexNew node = (.ok (), node')) :
    ∃ view₁ s₁ view s,
      disconnectAll env (disconnectedBy node pindexNew) ⟨node.coinsTip, some node.pindexBest⟩ node.store
        = (.ok view₁, s₁) ∧
      connectAll env amb node.pindexBest (connectedBy node pindexNew) view₁ s₁ = (.ok view, s) ∧
      view.best = some pindexNew ∧ node' = commit amb pindexNew view s := by
  unfold setBestChain at h
  split at h
  · simp at h
  · rename_i pfork hfork
    split at h
    · simp at h
    · rename_i view s hreorg
      simp only [Prod.mk.injEq, true_and] at h
      obtain ⟨view₁, s₁, hdis, hcon⟩ := Proc.bind_ok_iff.mp hreorg
      refine ⟨view₁, s₁, view, s, ?_, ?_, ?_, h.symm⟩
      · rw [disconnectedBy, hfork]; exact hdis
      · rw [connectedBy, hfork]; exact hcon
      · exact connectAll_best (disconnectAll_best (findFork_mem_lineage hfork) rfl hdis) hcon

/-- **A failed call** moves neither best block nor coins; the store is as the failed attempt leaves it. -/
theorem setBestChain_error {pindexNew : CBlockIndex} {node node' : Node} {e : Reject}
    (h : setBestChain env amb pindexNew node = (.error e, node')) :
    node' = { node with store :=
      ((disconnectAll env (disconnectedBy node pindexNew) ⟨node.coinsTip, some node.pindexBest⟩ >>=
        connectAll env amb node.pindexBest (connectedBy node pindexNew)) node.store).2 } := by
  unfold setBestChain at h
  unfold disconnectedBy connectedBy
  split at h
  · -- no common ancestor: there is nothing to disconnect and nothing to connect
    simp only [Prod.mk.injEq] at h
    exact h.2.symm
  · split at h
    · rename_i s hreorg
      simp only [Prod.mk.injEq] at h
      rw [← h.2]
      exact congrArg (fun r => { node with store := r.2 }) hreorg.symm
    · simp at h

end Linkage

/-! ## The rule -/

section Rule

variable {env : Env} {C : Site → Prop} {J : CoinsCache → Store → Prop} {K : CBlockIndex → Prop}

/-- Connecting a block of the run keeps `J` and establishes `K`. -/
def ConnectKeeps (env : Env) (C : Site → Prop) (J : CoinsCache → Store → Prop) (K : CBlockIndex → Prop)
    (pindex : CBlockIndex) : Prop :=
  ∀ {pindexBest : CBlockIndex} {nNow : Nat} {view view' : CoinsCache} {s s' : Store},
    (∀ site ∈ blockSites env pindexBest pindex nNow view s, C site) → J view s →
    connectBlock env false pindexBest pindex nNow view s = (.ok view', s') → J view' s' ∧ K pindex

/-- Disconnecting a block and committing keep `J`. -/
structure UndoKeeps (env : Env) (J : CoinsCache → Store → Prop) : Prop where
  disconnect : ∀ {pindex : CBlockIndex} {view view' : CoinsCache} {s s' : Store}, J view s →
    disconnectBlock env pindex view s = (.ok view', s') → J view' s'
  prune : ∀ {view : CoinsCache} {s : Store}, J view s → J { view with coins := view.coins.prune } s
  pendings : ∀ {view : CoinsCache} {s : Store} (p : Pendings), J view s → J view (s.setPendings p)

theorem connectAll_keeps {amb : Ambient} {pindexBest : CBlockIndex} {vConnect : List CBlockIndex}
    (hconn : ∀ pindex ∈ vConnect, ConnectKeeps env C J K pindex) {view view' : CoinsCache} {s s' : Store}
    (hC : ∀ site ∈ chainSites env amb pindexBest vConnect view s, C site) (hJ : J view s)
    (h : connectAll env amb pindexBest vConnect view s = (.ok view', s')) :
    J view' s' ∧ ∀ pindex ∈ vConnect, K pindex := by
  unfold connectAll at h
  induction vConnect generalizing view s with
  | nil =>
    rw [Proc.foldM_nil] at h
    simp only [Prod.mk.injEq, Except.ok.injEq] at h
    obtain ⟨rfl, rfl⟩ := h
    exact ⟨hJ, by simp⟩
  | cons pindex vConnect ih =>
    obtain ⟨view₁, s₁, hd, tl⟩ := Proc.foldM_cons_ok_iff.mp h
    simp only [chainSites, hd, List.forall_mem_append] at hC
    obtain ⟨hJ₁, hK⟩ := hconn pindex List.mem_cons_self hC.1 hJ hd
    obtain ⟨hJ', hK'⟩ := ih (fun p hp => hconn p (List.mem_cons_of_mem pindex hp)) hC.2 hJ₁ tl
    exact ⟨hJ', List.forall_mem_cons.mpr ⟨hK, hK'⟩⟩

/-- **The run rule.** What holds of the empty node and is kept by connects, disconnects and commits holds in
    every node of a run. -/
theorem Run.rule {genesis : CBlock} {blocks : List CBlockIndex} {node : Node} (hundo : UndoKeeps env J)
    (hinit : J ⟨fun _ => none, some ⟨genesis, []⟩⟩ Store.init) (h : Run env C genesis blocks node)
    (hconn : ∀ pindex ∈ blocks, ConnectKeeps env C J K pindex) :
    J ⟨node.coinsTip, some node.pindexBest⟩ node.store ∧ ∀ pindex ∈ blocks, K pindex := by
  induction h with
  | init => exact ⟨hinit, by simp⟩
  | @step blocks node node' amb pindexNew run ok meets ih =>
    obtain ⟨hJ, hK⟩ := ih fun pindex hp => hconn pindex (List.mem_append_left _ hp)
    obtain ⟨view₁, s₁, view, s, hdis, hcon, hbest, rfl⟩ := setBestChain_ok ok
    simp only [callSites, hdis] at meets
    have hJ₁ : J view₁ s₁ := Proc.foldM_ok_invariant (fun _ _ => hundo.disconnect) hJ hdis
    obtain ⟨hJ₂, hK₂⟩ :=
      connectAll_keeps (fun pindex hp => hconn pindex (List.mem_append_right _ hp)) meets hJ₁ hcon
    refine ⟨hundo.pendings _ ?_, List.forall_mem_append.mpr ⟨hK, hK₂⟩⟩
    simp only [commit]
    rw [← hbest]
    split
    · exact hundo.prune hJ₂
    · exact hJ₂

end Rule

section Invariant

variable {env : Env} {C : Site → Prop} {P : COutPoint → CTxOut → Prop} {Q : Store → Prop}
  {R : CTransaction → Prop}

/-- Every unspent output of the view satisfies `P`. -/
def OutputsAll (P : COutPoint → CTxOut → Prop) (view : CoinsView) : Prop :=
  ∀ o out, view.Unspent o out → P o out

/-- The undo records of a transaction hold outputs that satisfy `P` at the outpoints its inputs name. -/
def UndoOk (P : COutPoint → CTxOut → Prop) (tx : CTransaction) (txundo : CTxUndo) : Prop :=
  ∀ pair ∈ tx.vin.zip txundo, P pair.1.prevout pair.2.txout

/-- So do the undo records of every block. -/
def UndoAll (P : COutPoint → CTxOut → Prop) (s : Store) : Prop :=
  ∀ pindex blockundo, s.undo pindex = some blockundo →
    List.Forall₂ (UndoOk P) pindex.block.vtx.tail blockundo

/-- `Q` survives what happens to a store besides connecting transactions. -/
structure Stable (env : Env) (Q : Store → Prop) : Prop where
  disconnect : ∀ pindex tx s, Q s → Q (disconnectService env pindex tx s)
  writeBlock : ∀ pindex blockundo s, Q s → Q (writeBlock env pindex blockundo s)
  pendings : ∀ p s, Q s → Q (s.setPendings p)

/-- One transaction of `pindex` keeps the invariant: its outputs satisfy `P`, the store still satisfies `Q`, and
    `R` holds of it. -/
def Keeps (env : Env) (C : Site → Prop) (P : COutPoint → CTxOut → Prop) (Q : Store → Prop)
    (R : CTransaction → Prop) (pindex : CBlockIndex) : Prop :=
  ∀ {pindexBest : CBlockIndex} {acc acc' : ConnectAcc} {tx : CTransaction} {s s' : Store},
    tx ∈ pindex.block.vtx → C ⟨pindexBest, pindex, tx, acc.view, s⟩ → OutputsAll P acc.view → Q s →
    TxStep env pindexBest pindex acc tx s acc' s' →
    (∀ n out, tx.vout[n]? = some out → P ⟨env.getHash tx, n⟩ out) ∧ Q s' ∧ R tx

/-! ## Connecting -/

theorem updateCoins_outputsAll {tx : CTransaction} {nHeight : Nat} {view view' : CoinsView} {txundo : CTxUndo}
    (h : updateCoins env tx nHeight view = .ok (view', txundo)) (hP : OutputsAll P view)
    (htx : ∀ n out, tx.vout[n]? = some out → P ⟨env.getHash tx, n⟩ out) : OutputsAll P view' := by
  intro o out ho
  rcases updateCoins_unspent h ho with ho | ⟨hhash, hat⟩
  · exact hP o out ho
  · have ho := htx o.n out hat
    rw [← hhash] at ho
    exact ho

theorem updateCoins_undoOk {tx : CTransaction} {nHeight : Nat} {view view' : CoinsView} {txundo : CTxUndo}
    (h : updateCoins env tx nHeight view = .ok (view', txundo)) (hcb : tx.isCoinBase = false)
    (hP : OutputsAll P view) : UndoOk P tx txundo := by
  have hundo := updateCoins_undo h hcb
  intro pair hpair
  have := List.forall₂_iff_zip.mp hundo
  exact hP _ _ (this.2 hpair)

/-- The transactions of a block, in order. The undo records that are added belong to those that spend. -/
theorem TxSteps.invariant {pindexBest pindex : CBlockIndex} (hkeep : Keeps env C P Q R pindex)
    {acc acc' : ConnectAcc} {txs : List CTransaction} {s s' : Store}
    (h : TxSteps env C pindexBest pindex acc txs s acc' s') (hsub : ∀ tx ∈ txs, tx ∈ pindex.block.vtx)
    (hP : OutputsAll P acc.view) (hQ : Q s) :
    OutputsAll P acc'.view ∧ Q s' ∧ (∀ tx ∈ txs, R tx) ∧
      ∃ undos, acc'.blockundo = acc.blockundo ++ undos ∧
        List.Forall₂ (UndoOk P) (txs.filter fun tx => !tx.isCoinBase) undos := by
  induction h with
  | nil => exact ⟨hP, hQ, by simp, [], by simp, .nil⟩
  | @cons acc acc₁ acc' tx txs s s₁ s' meets hd tl ih =>
    obtain ⟨hout, hQ₁, hR⟩ := hkeep (hsub tx List.mem_cons_self) meets hP hQ hd
    have hsub' : ∀ tx' ∈ txs, tx' ∈ pindex.block.vtx := fun tx' h' => hsub tx' (List.mem_cons_of_mem tx h')
    cases hd with
    | coinbase hcb hcoins hundo _ =>
      have hP₁ := updateCoins_outputsAll hcoins hP hout
      obtain ⟨hP', hQ', hR', undos, hu, hall⟩ := ih hsub' hP₁ hQ₁
      refine ⟨hP', hQ', ?_, undos, by rw [hu, hundo], ?_⟩
      · intro tx' h'
        rcases List.mem_cons.mp h' with rfl | h'
        · exact hR
        · exact hR' tx' h'
      · rw [List.filter_cons_of_neg (by simp [hcb])]
        exact hall
    | @spend txundo _ hcb _ _ hcoins hundo _ =>
      have hP₁ := updateCoins_outputsAll hcoins hP hout
      obtain ⟨hP', hQ', hR', undos, hu, hall⟩ := ih hsub' hP₁ hQ₁
      refine ⟨hP', hQ', ?_, txundo :: undos, by rw [hu, hundo]; simp, ?_⟩
      · intro tx' h'
        rcases List.mem_cons.mp h' with rfl | h'
        · exact hR
        · exact hR' tx' h'
      · rw [List.filter_cons_of_pos (by simp [hcb])]
        exact .cons (updateCoins_undoOk hcoins hcb hP) hall

/-- In a block that passes `CheckBlock`, the transactions after the first are the ones that spend. -/
theorem checkBlock_vtx {nNow : Nat} {pindex : CBlockIndex} {f g : Bool} (h : checkBlock env nNow pindex f g = .ok ()) :
    (pindex.block.vtx.filter fun tx => !tx.isCoinBase) = pindex.block.vtx.tail ∧ pindex.block.vtx ≠ [] := by
  simp only [checkBlock, require_bind_ok_iff] at h
  obtain ⟨⟨hne, -⟩, -, -, hfirst, hrest, -⟩ := h
  cases hv : pindex.block.vtx with
  | nil => exact absurd hv hne
  | cons cb rest =>
    rw [hv] at hfirst hrest
    have hcb : cb.isCoinBase = true := hfirst cb rfl
    refine ⟨?_, by simp⟩
    rw [List.filter_cons_of_neg (by simp [hcb]), List.tail_cons, List.filter_eq_self]
    intro tx htx
    simp [hrest tx htx]

theorem connectPrologue_checkBlock {nNow : Nat} {pindex : CBlockIndex} {view : CoinsCache} {fJustCheck : Bool}
    (h : connectPrologue env fJustCheck pindex nNow view = .ok ()) :
    checkBlock env nNow pindex (!fJustCheck) (!fJustCheck) = .ok () := by
  obtain ⟨⟨⟩, hcheck, -⟩ := Except.bind_ok_iff.mp h
  exact hcheck

/-- Writing undo data for a block whose records satisfy `P`. -/
theorem writeBlock_undoAll {pindex : CBlockIndex} {blockundo : CBlockUndo} {s : Store} (hU : UndoAll P s)
    (hnew : List.Forall₂ (UndoOk P) pindex.block.vtx.tail blockundo) : UndoAll P (writeBlock env pindex blockundo s) := by
  intro pindex' undo' h
  simp only [writeBlock] at h
  split at h
  · exact hU pindex' undo' h
  · by_cases hp : pindex' = pindex
    · rw [hp, Function.update_self, Option.some.injEq] at h
      rw [hp, ← h]; exact hnew
    · rw [Function.update_of_ne hp] at h
      exact hU pindex' undo' h

theorem TxSteps.undo_eq {pindexBest pindex : CBlockIndex} {acc acc' : ConnectAcc} {txs : List CTransaction}
    {s s' : Store} (h : TxSteps env C pindexBest pindex acc txs s acc' s') : s'.undo = s.undo := by
  induction h with
  | nil => rfl
  | cons _ hd _ ih =>
    rw [ih]
    cases hd with
    | coinbase => rfl
    | spend _ _ hstep => exact hstep.undo

theorem TxSteps.txIndex_eq {pindexBest pindex : CBlockIndex} {acc acc' : ConnectAcc} {txs : List CTransaction}
    {s s' : Store} (h : TxSteps env C pindexBest pindex acc txs s acc' s') : s'.txIndex = s.txIndex := by
  induction h with
  | nil => rfl
  | cons _ hd _ ih =>
    rw [ih]
    cases hd with
    | coinbase => rfl
    | spend _ _ hstep => exact hstep.txIndex

theorem connectBlock_invariant {pindexBest pindex : CBlockIndex} (hstable : Stable env Q)
    (hkeep : env.getBlockHash pindex.block ≠ env.hashGenesisBlock → Keeps env C P Q R pindex) {nNow : Nat}
    {view view' : CoinsCache} {s s' : Store}
    (hC : ∀ site ∈ blockSites env pindexBest pindex nNow view s, C site)
    (h : connectBlock env false pindexBest pindex nNow view s = (.ok view', s'))
    (hP : OutputsAll P view.coins) (hU : UndoAll P s) (hQ : Q s) :
    (OutputsAll P view'.coins ∧ UndoAll P s' ∧ Q s') ∧
      (env.getBlockHash pindex.block ≠ env.hashGenesisBlock → ∀ tx ∈ pindex.block.vtx, R tx) := by
  obtain ⟨hpro, hcases⟩ := connectBlock_ok h hC
  rcases hcases with ⟨hgen, rfl, rfl⟩ | ⟨hne, acc, s₁, hsteps, rfl, rfl⟩
  · exact ⟨⟨hP, hU, hQ⟩, fun hne => absurd hgen hne⟩
  · obtain ⟨hP', hQ', hR', undos, hu, hall⟩ :=
      TxSteps.invariant (hkeep hne) hsteps (fun _ htx => htx) hP hQ
    have hfilter := (checkBlock_vtx (connectPrologue_checkBlock hpro)).1
    rw [hfilter] at hall
    have hU₁ : UndoAll P s₁ := by
      intro pindex' undo' hundo
      rw [hsteps.undo_eq] at hundo
      exact hU pindex' undo' hundo
    refine ⟨⟨hP', writeBlock_undoAll hU₁ ?_, hstable.writeBlock _ _ _ hQ'⟩, fun _ => hR'⟩
    rw [hu]; exact hall

/-! ## Disconnecting -/

theorem mem_disconnectSteps {pindex : CBlockIndex} {blockUndo : CBlockUndo} {tx : CTransaction} {txundo : CTxUndo}
    (h : (tx, some txundo) ∈ disconnectSteps pindex blockUndo) :
    (tx, txundo) ∈ pindex.block.vtx.tail.zip blockUndo := by
  rw [disconnectSteps, List.mem_reverse] at h
  cases hv : pindex.block.vtx with
  | nil => simp [hv] at h
  | cons cb rest =>
    rw [hv, List.zip_cons_cons] at h
    rcases List.mem_cons.mp h with h | h
    · simp at h
    · rw [List.zip_map_right] at h
      obtain ⟨pair, hpair, heq⟩ := List.mem_map.mp h
      simp only [Prod.map, id, Prod.mk.injEq, Option.some.injEq] at heq
      rw [← heq.1, ← heq.2]
      exact hpair

theorem foldl_disconnect (hstable : Stable env Q) {pindex : CBlockIndex}
    {steps : List (CTransaction × Option CTxUndo)} {s : Store} (hQ : Q s) :
    Q (steps.foldl (fun s step => disconnectService env pindex step.1 s) s) := by
  induction steps generalizing s with
  | nil => exact hQ
  | cons step steps ih => exact ih (hstable.disconnect _ _ _ hQ)

theorem disconnectBlock_invariant {pindex : CBlockIndex} (hstable : Stable env Q) {view view' : CoinsCache}
    {s s' : Store} (h : disconnectBlock env pindex view s = (.ok view', s'))
    (hP : OutputsAll P view.coins) (hU : UndoAll P s) (hQ : Q s) :
    OutputsAll P view'.coins ∧ UndoAll P s' ∧ Q s' := by
  obtain ⟨blockUndo, hundo, -, -, -, hs, hcoins⟩ := disconnectBlock_ok h
  have hframe := disconnectServices_frame env pindex (disconnectSteps pindex blockUndo) s
  rw [← hs] at hframe
  refine ⟨?_, ?_, ?_⟩
  · intro o out ho
    rcases hcoins o out ho with ho | ⟨⟨tx, undo⟩, hstep, txundo, rfl, pair, hpair, rfl, rfl⟩
    · exact hP o out ho
    · have hall := List.forall₂_iff_zip.mp (hU pindex blockUndo hundo)
      exact hall.2 (mem_disconnectSteps hstep) pair hpair
  · intro pindex' undo' h'
    rw [hframe.2.2.1] at h'
    exact hU pindex' undo' h'
  · rw [hs]
    exact foldl_disconnect hstable hQ

/-! ## Outputs, store and transactions along a run -/

theorem prune_unspent {view : CoinsView} {o : COutPoint} {out : CTxOut} (h : view.prune.Unspent o out) :
    view.Unspent o out := by
  obtain ⟨coins, hc, hat, hnn⟩ := h
  refine ⟨coins, ?_, hat, hnn⟩
  unfold CoinsView.prune at hc
  split at hc
  · cases hc
  · rename_i c hv
    split at hc
    · cases hc
    · rw [Option.some.injEq] at hc
      rw [hv, hc]

/-- **The invariant of a run.** What holds of the empty store and is kept by each transaction that is connected
    holds in every node of a run, of its coins, its undo data, its store and the transactions connected on the
    way. -/
theorem Run.invariant {genesis : CBlock} {blocks : List CBlockIndex} {node : Node} (hstable : Stable env Q)
    (hinit : Q Store.init) (h : Run env C genesis blocks node)
    (hkeep : ∀ pindex ∈ blocks, env.getBlockHash pindex.block ≠ env.hashGenesisBlock → Keeps env C P Q R pindex) :
    OutputsAll P node.coinsTip ∧ Q node.store ∧
      ∀ pindex ∈ blocks, env.getBlockHash pindex.block ≠ env.hashGenesisBlock →
        ∀ tx ∈ pindex.block.vtx, R tx := by
  have hundo : UndoKeeps env fun view s => OutputsAll P view.coins ∧ UndoAll P s ∧ Q s := by
    refine ⟨?_, ?_, ?_⟩
    · rintro pindex view view' s s' ⟨hP, hU, hQ⟩ hdis
      exact disconnectBlock_invariant hstable hdis hP hU hQ
    · rintro view s ⟨hP, hrest⟩
      exact ⟨fun o out ho => hP o out (prune_unspent ho), hrest⟩
    · rintro view s p ⟨hP, hU, hQ⟩
      exact ⟨hP, hU, hstable.pendings p s hQ⟩
  have hempty : OutputsAll P (fun _ => none) := by
    rintro o out ⟨coins, hc, -⟩
    cases hc
  have hnone : UndoAll P Store.init := by
    intro pindex blockundo h
    cases h
  obtain ⟨⟨hP, -, hQ⟩, hR⟩ := Run.rule hundo ⟨hempty, hnone, hinit⟩ h
    fun pindex hp _ _ _ _ _ _ hC hJ hconn =>
      connectBlock_invariant hstable (hkeep pindex hp) hC hconn hJ.1 hJ.2.1 hJ.2.2
  exact ⟨hP, hQ, hR⟩

end Invariant

/-- The transaction belongs to one of the blocks and was processed there; the transactions of a genesis block
    are not. -/
def Connected (env : Env) (blocks : List CBlockIndex) (tx : CTransaction) : Prop :=
  ∃ pindex ∈ blocks, env.getBlockHash pindex.block ≠ env.hashGenesisBlock ∧ tx ∈ pindex.block.vtx

/-- A run meets every condition that its own condition implies. -/
theorem Run.mono {env : Env} {C C' : Site → Prop} {genesis : CBlock} {blocks : List CBlockIndex} {node : Node}
    (hC : ∀ site, C site → C' site) (h : Run env C genesis blocks node) : Run env C' genesis blocks node := by
  induction h with
  | init => exact .init
  | step _ ok meets ih => exact .step ih ok fun site hs => hC site (meets site hs)

/-! ## A cakenet chain -/

/-- A call that goes through extends a run. -/
theorem Run.extend {env : Env} {C : Site → Prop} {genesis : CBlock} {blocks : List CBlockIndex} {node : Node}
    {amb : Ambient} {pindexNew : CBlockIndex} (run : Run env C genesis blocks node)
    (ok : (setBestChain env amb pindexNew node).1.isOk = true)
    (meets : ∀ site ∈ callSites env amb pindexNew node, C site) :
    Run env C genesis (blocks ++ connectedBy node pindexNew) (setBestChain env amb pindexNew node).2 := by
  refine .step run ?_ meets
  cases h : (setBestChain env amb pindexNew node).1 with
  | error e => rw [h] at ok; cases ok
  | ok u => exact Prod.ext h rfl

namespace Cakenet

/-- The cake network with a toy hash: a transaction is known by its lock time, a block by its nonce. All outputs
    end in `OP_1`, which anyone can spend. -/
def env : Env where
  getHash tx := tx.nLockTime
  hash160 vch := fromLE vch % 2 ^ 160
  hashPair a b := (31 * a + b + 1) % 2 ^ 256
  getBlockHash block := block.nNonce
  hashGenesisBlock := 0
  checkProofOfWork _ _ := true
  verifyScript _ _ _ _ _ := true
  fTestNet := false
  fCakeNet := true
  nMinTxFee := 100000
  fTxIndex := true
  nScriptCheckThreads := 0
  getTotalBlocksEstimate := 0

def amb : Ambient := ⟨2000000000, false, id⟩

/-- A push of fewer than 76 bytes. -/
def push (vch : Bytes) : CScript := UInt8.ofNat vch.length :: vch

/-- A service output as the wallet builds it: the operation, its arguments, drops, and the spending condition. -/
def service (nOp : UInt8) (vvch : List Bytes) : CTxOut where
  nValue := COIN
  scriptPubKey := (nOp + 0x50) :: vvch.flatMap push ++
    (if vvch.length = 1 then [OP_2DROP] else if vvch.length = 2 then [OP_2DROP, OP_DROP]
      else [OP_2DROP, OP_2DROP]) ++ [OP_1]

def pay (nValue : Int) : CTxOut := ⟨nValue, [OP_1]⟩

/-- Coins burned as a network fee. -/
def burn (nValue : Int) : CTxOut := ⟨nValue, [OP_RETURN]⟩

def spends (o : COutPoint) : CTxIn := ⟨o, [], 2 ^ 32 - 1⟩

def coinbase (id : Nat) (vout : List CTxOut) : CTransaction :=
  ⟨1, [⟨⟨0, 2 ^ 32 - 1⟩, [OP_1, OP_1], 2 ^ 32 - 1⟩], vout, id, []⟩

/-- A syscoin transaction. -/
def syscoin (id : Nat) (prevouts : List COutPoint) (vout : List CTxOut) (data : Bytes) : CTransaction :=
  ⟨SYSCOIN_TX_VERSION, prevouts.map spends, vout, id, data⟩

/-- A block on top of another one, with a coinbase of the block's own number. -/
def mine (pprev : CBlockIndex) (id : Nat) (vtx : List CTransaction) : CBlockIndex where
  block :=
    let vtx := coinbase id [pay (128 * COIN)] :: vtx
    { nTime := 1400000000 + 60 * id
      nVersion := 1
      hashPrevBlock := env.getBlockHash pprev.block
      hashMerkleRoot := merkleRoot env vtx.length (vtx.map env.getHash)
      nBits := 0
      nNonce := id
      auxpow := []
      vtx := vtx }
  ancestors := pprev.chain

def genesis : CBlock := ⟨1400000000, 1, 0, 0, 0, 0, [], []⟩

/-- The funds that the first block pays out, and the transaction that pays them. -/
def fund : CTransaction := coinbase 1 (List.replicate 12 (pay (20000 * COIN)))

def block1 : CBlockIndex where
  block := ⟨1400000060, 1, 0, 1, 0, 1, [], [fund]⟩
  ancestors := [genesis]

/-- Eight blocks, after which the funds are mature. -/
def block8 : CBlockIndex :=
  mine (mine (mine (mine (mine (mine (mine block1 2 []) 3 []) 4 []) 5 []) 6 []) 7 []) 8 []

/-- A name, an offer and an issuer share their guid here; the random value fills a commitment up to twenty bytes. -/
def vchName : Bytes := [97, 98]

def vchRand : Bytes := List.replicate 18 7

/-- A commitment to the name, its activation and an update. -/
def aliasNewTx : CTransaction :=
  syscoin 100 [⟨1, 0⟩] [service 1 [vchRand ++ vchName], pay (19000 * COIN)] []

def aliasActivateTx : CTransaction :=
  syscoin 101 [⟨100, 0⟩, ⟨1, 1⟩] [service 2 [vchName, vchRand, [1]], burn (5172 * COIN)] []

def aliasUpdateTx : CTransaction := syscoin 102 [⟨101, 0⟩, ⟨1, 2⟩] [service 3 [vchName, [2]]] []

def aliasBlock9 : CBlockIndex := mine block8 9 [aliasNewTx]

def aliasBlock10 : CBlockIndex := mine aliasBlock9 10 [aliasActivateTx]

def aliasBlock11 : CBlockIndex := mine aliasBlock10 11 [aliasUpdateTx]

/-- Five pieces at ten coins each. -/
def offer : COffer :=
  { COffer.null with vchPaymentAddress := [1], sTitle := [2], nPrice := 1000000000, nQty := 5 }

def offerNewTx : CTransaction :=
  syscoin 200 [⟨1, 3⟩] [service 4 [vchRand ++ vchName], pay (19000 * COIN)] []

def offerActivateTx : CTransaction :=
  syscoin 201 [⟨200, 0⟩, ⟨1, 4⟩] [service 5 [vchName, vchRand, [1]]] offer.serializeToString

def offerUpdateTx : CTransaction :=
  syscoin 202 [⟨201, 0⟩, ⟨1, 5⟩] [service 6 [vchName, [2]]] offer.serializeToString

/-- The payload of a buyer: the offer with one accept. -/
def acceptPayload (vchAccept : Bytes) (nQty : Int) (nPrice : Nat) : Bytes :=
  { offer with accepts :=
    [{ COfferAccept.null with vchRand := vchAccept, nQty := nQty, nPrice := nPrice }] }.serializeToString

/-- An accept of two pieces, and its payment. -/
def offerAcceptTx : CTransaction :=
  syscoin 203 [⟨1, 6⟩] [service 7 [vchName, vchRand, vchRand ++ vchName]] (acceptPayload vchRand 2 1000000000)

def offerPayTx : CTransaction :=
  syscoin 204 [⟨203, 0⟩, ⟨1, 7⟩] [service 8 [vchName, vchRand]] (acceptPayload vchRand 2 1000000000)

def issuer : CCertIssuer := { CCertIssuer.null with vchTitle := [3] }

def issuerNewTx : CTransaction :=
  syscoin 300 [⟨1, 8⟩] [service 10 [vchRand ++ vchName], pay (19000 * COIN)] []

def issuerActivateTx : CTransaction :=
  syscoin 301 [⟨300, 0⟩, ⟨1, 9⟩] [service 11 [vchName, vchRand, [1]]] issuer.serializeToString

def issuerUpdateTx : CTransaction :=
  syscoin 302 [⟨301, 0⟩, ⟨1, 10⟩] [service 12 [vchName, [2]]] issuer.serializeToString

/-- A new item that spends the output `prevout` of its issuer. -/
def itemTx (prevouts : List COutPoint) : CTransaction :=
  syscoin 303 prevouts [service 13 [vchName, vchRand, vchRand ++ vchName]]
    { issuer with certs := [{ CCertItem.null with vchRand := vchRand }] }.serializeToString

/-- A payment of coins that do not exist. -/
def missingTx : CTransaction := ⟨1, [spends ⟨999, 0⟩], [pay COIN], 401, []⟩

/-- The node after one call on a chain that starts from the genesis block. -/
def nodeAt (pindexNew : CBlockIndex) : Node := (setBestChain env amb pindexNew (Node.init genesis)).2

theorem run_nodeAt {C : Site → Prop} {pindexNew : CBlockIndex}
    (ok : (setBestChain env amb pindexNew (Node.init genesis)).1.isOk = true)
    (meets : ∀ site ∈ callSites env amb pindexNew (Node.init genesis), C site) :
    Run env C genesis (connectedBy (Node.init genesis) pindexNew) (nodeAt pindexNew) := by
  have h := Run.extend Run.init ok meets
  rwa [List.nil_append] at h

/-- The node after a further call. -/
def nodeThen (node : Node) (pindexNew : CBlockIndex) : Node := (setBestChain env amb pindexNew node).2

theorem run_nodeThen {C : Site → Prop} {blocks : List CBlockIndex} {node : Node} {pindexNew : CBlockIndex}
    (run : Run env C genesis blocks node) (ok : (setBestChain env amb pindexNew node).1.isOk = true)
    (meets : ∀ site ∈ callSites env amb pindexNew node, C site) :
    Run env C genesis (blocks ++ connectedBy node pindexNew) (nodeThen node pindexNew) :=
  run.extend ok meets

/-- Connect a block on top of a node, without moving the node. -/
def connectOn (node : Node) (pindex : CBlockIndex) : Except Reject CoinsCache × Store :=
  connectBlock env false node.pindexBest pindex amb.nNow ⟨node.coinsTip, some node.pindexBest⟩ node.store

end Cakenet

end Syscoin

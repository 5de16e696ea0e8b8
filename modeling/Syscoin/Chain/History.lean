import Syscoin.Chain.Undo

/-!
# `Chain.History` — everything a node may have been through

A `Run` consists of calls that succeed. `History` admits every call: one that fails leaves best block and coins alone,
but it may have disconnected and connected blocks on the way, and the store keeps what they wrote.

Undo data survives that. It is written for a block only after the whole block went through, from coins that are
those of the block's parent, so a failed call adds good undo data or none. `History.coins` draws the conclusion:
whatever a node has been through, its coins are those of the chain it is on.
-/

namespace Syscoin

open Lib

/-- `node` is reached from the genesis block by calls of `SetBestChain`, each of which may have failed. -/
inductive History (env : Env) (genesis : CBlock) : Node → Prop where
  | init : History env genesis (Node.init genesis)
  | call {node : Node} (amb : Ambient) (pindexNew : CBlockIndex) (h : History env genesis node) :
      History env genesis (setBestChain env amb pindexNew node).2

/-- Two stores with the same undo data. -/
def SameUndo (s s' : Store) : Prop := s'.undo = s.undo

theorem SameUndo.refl (s : Store) : SameUndo s s := rfl

theorem SameUndo.trans ⦃s₁ s₂ s₃ : Store⦄ (h : SameUndo s₁ s₂) (h' : SameUndo s₂ s₃) : SameUndo s₁ s₃ := Eq.trans h' h

theorem SameUndo.undoInv {env : Env} {s s' : Store} (h : SameUndo s s') (hinv : UndoInv env s) : UndoInv env s' := by
  intro pindex blockundo hstored
  rw [h] at hstored
  exact hinv pindex blockundo hstored

section Undo

variable {env : Env} {m : Mode} {pindexBest pindex : CBlockIndex} {tx : CTransaction} {inputs : CoinsView}

/-- The rules write databases and test pool only. -/
theorem aliasRules_undo : Proc.Keeps SameUndo (aliasRules env m pindexBest pindex tx inputs) := by
  refine Proc.Keeps.update SameUndo.refl fun s s' h => ?_
  split at h
  · obtain ⟨_, -, h⟩ := Except.bind_ok_iff.mp h
    rw [Except.ok.injEq] at h
    exact h ▸ rfl
  · rw [Except.ok.injEq] at h
    exact h ▸ rfl

theorem offerRules_undo : Proc.Keeps SameUndo (offerRules env m pindexBest pindex tx inputs) := by
  refine Proc.Keeps.update SameUndo.refl fun s s' h => ?_
  split at h
  · obtain ⟨_, -, h⟩ := Except.bind_ok_iff.mp h
    rw [Except.ok.injEq] at h
    exact h ▸ rfl
  · rw [Except.ok.injEq] at h
    exact h ▸ rfl

theorem certRules_undo : Proc.Keeps SameUndo (certRules env m pindexBest pindex tx inputs) := by
  refine Proc.Keeps.update SameUndo.refl fun s s' h => ?_
  split at h
  · obtain ⟨_, -, h⟩ := Except.bind_ok_iff.mp h
    rw [Except.ok.injEq] at h
    exact h ▸ rfl
  · rw [Except.ok.injEq] at h
    exact h ▸ rfl

theorem checkInputs_undo {nSpendHeight : Nat} {fScript fP2SH : Bool} :
    Proc.Keeps SameUndo (checkInputs env m pindexBest pindex tx inputs nSpendHeight fScript fP2SH) := by
  unfold checkInputs
  split
  · exact Proc.Keeps.pure SameUndo.refl _
  refine Proc.Keeps.bind SameUndo.trans (Proc.Keeps.lift SameUndo.refl _) fun _ => ?_
  refine Proc.Keeps.bind SameUndo.trans (Proc.Keeps.lift SameUndo.refl _) fun _ => ?_
  refine Proc.Keeps.bind SameUndo.trans aliasRules_undo fun _ => ?_
  refine Proc.Keeps.bind SameUndo.trans offerRules_undo fun _ => ?_
  refine Proc.Keeps.bind SameUndo.trans certRules_undo fun _ => ?_
  refine Proc.Keeps.bind SameUndo.trans (Proc.Keeps.lift SameUndo.refl _) fun _ => ?_
  exact Proc.Keeps.lift SameUndo.refl _

theorem connectTx_undo {acc : ConnectAcc} : Proc.Keeps SameUndo (connectTx env false pindexBest pindex acc tx) := by
  refine Proc.Keeps.bind SameUndo.trans (Proc.Keeps.lift SameUndo.refl _) fun _ => ?_
  split
  · exact Proc.Keeps.lift SameUndo.refl _
  refine Proc.Keeps.bind SameUndo.trans (Proc.Keeps.lift SameUndo.refl _) fun _ => ?_
  refine Proc.Keeps.bind SameUndo.trans (Proc.Keeps.lift SameUndo.refl _) fun _ => ?_
  refine Proc.Keeps.bind SameUndo.trans checkInputs_undo fun _ => ?_
  exact Proc.Keeps.lift SameUndo.refl _

/-- The epilogue fails before it writes. -/
theorem connectEpilogue_error_undo {view : CoinsCache} {acc : ConnectAcc} {s s' : Store} {e : Reject}
    (h : connectEpilogue env false pindex view acc s = (.error e, s')) : SameUndo s s' := by
  unfold connectEpilogue at h
  rcases Proc.bind_error_iff.mp h with hreward | ⟨_, s₁, hreward, hrest⟩
  · exact (Proc.update_error_iff.mp hreward).2 ▸ SameUndo.refl s
  obtain ⟨_, -, hs₁⟩ := Except.bind_ok_iff.mp (Proc.update_ok_iff.mp hreward)
  rw [Except.ok.injEq] at hs₁
  subst hs₁
  split at hrest
  · simp at hrest
  rcases Proc.bind_error_iff.mp hrest with hchecks | ⟨_, s₂, -, hwrite⟩
  · exact (Proc.lift_error_iff.mp hchecks).2 ▸ SameUndo.refl s
  rw [if_neg (by simp)] at hwrite
  rcases Proc.bind_error_iff.mp hwrite with hwrite | ⟨_, s₃, -, hdone⟩
  · cases (Proc.update_error_iff.mp hwrite).1
  · simp at hdone

/-- A block that is turned down leaves no undo data: writing it is the last thing that happens. -/
theorem connectBlock_error_undo {nNow : Nat} {view : CoinsCache} {s s' : Store} {e : Reject}
    (h : connectBlock env false pindexBest pindex nNow view s = (.error e, s')) : SameUndo s s' := by
  have hkeeps : ∀ acc, Proc.Keeps SameUndo
      (Proc.foldM (connectTx env false pindexBest pindex) pindex.block.vtx acc) :=
    Proc.Keeps.foldM SameUndo.refl SameUndo.trans fun _ _ _ => connectTx_undo
  unfold connectBlock at h
  rcases Proc.bind_error_iff.mp h with hpro | ⟨_, s₁, hpro, hrest⟩
  · exact (Proc.lift_error_iff.mp hpro).2 ▸ SameUndo.refl s
  obtain ⟨-, rfl⟩ := Proc.lift_ok_iff.mp hpro
  split at hrest
  · simp at hrest
  rcases Proc.bind_error_iff.mp hrest with hloop | ⟨acc, s₂, hloop, hepilogue⟩
  · exact (hkeeps _).run hloop
  · exact SameUndo.trans ((hkeeps _).run hloop) (connectEpilogue_error_undo hepilogue)

/-- A branch that is connected in part or in whole. -/
theorem connectAll_error_undoInv {amb : Ambient} {vConnect : List CBlockIndex} {view : CoinsCache} {s s' : Store}
    {e : Reject} (hcoins : CoinsInv env view) (hundo : UndoInv env s)
    (h : connectAll env amb pindexBest vConnect view s = (.error e, s')) : UndoInv env s' := by
  unfold connectAll at h
  induction vConnect generalizing view s with
  | nil => simp [Proc.foldM_nil] at h
  | cons pindex vConnect ih =>
    rcases Proc.bind_error_iff.mp h with hd | ⟨view₁, s₁, hd, tl⟩
    · exact (connectBlock_error_undo hd).undoInv hundo
    · obtain ⟨hcoins₁, hundo₁⟩ := connectBlock_coins hcoins hundo hd
      exact ih hcoins₁ hundo₁ tl

theorem disconnectAll_undo (vDisconnect : List CBlockIndex) (view : CoinsCache) :
    Proc.Keeps SameUndo (disconnectAll env vDisconnect view) :=
  Proc.Keeps.foldM SameUndo.refl SameUndo.trans (fun _ _ => disconnectBlock_keeps SameUndo.refl SameUndo.trans
    fun tx _ s => (disconnectService_frame env _ tx s).2.2.1) view

end Undo

section History

variable {env : Env} {amb : Ambient} {pindexNew : CBlockIndex} {node node' : Node}

/-- The coins of the node are those of its chain, and its undo data is good. -/
def NodeInv (env : Env) (node : Node) : Prop :=
  CoinsInv env ⟨node.coinsTip, some node.pindexBest⟩ ∧ UndoInv env node.store

/-- Disconnecting blocks from a node. -/
theorem NodeInv.disconnectAll {vDisconnect : List CBlockIndex} {view : CoinsCache} {s : Store} (h : NodeInv env node)
    (hdis : Syscoin.disconnectAll env vDisconnect ⟨node.coinsTip, some node.pindexBest⟩ node.store = (.ok view, s)) :
    CoinsInv env view ∧ UndoInv env s := by
  have hstep : ∀ pindex ∈ vDisconnect, ∀ {view s view' s'}, CoinsInv env view ∧ UndoInv env s →
      disconnectBlock env pindex view s = (.ok view', s') → CoinsInv env view' ∧ UndoInv env s' :=
    fun _ _ _ _ _ _ hinv hd => disconnectBlock_coins hinv.1 hinv.2 hd
  exact Proc.foldM_ok_invariant hstep h hdis

/-- A call that fails moves neither best block nor coins, and the undo data stays good. -/
theorem NodeInv.of_error {e : Reject} (hinv : NodeInv env node)
    (h : setBestChain env amb pindexNew node = (.error e, node')) :
    NodeInv env node' ∧ node'.pindexBest = node.pindexBest := by
  unfold setBestChain at h
  split at h
  · simp only [Prod.mk.injEq] at h
    exact h.2 ▸ ⟨hinv, rfl⟩
  rename_i pfork _
  split at h
  · rename_i s hreorg
    simp only [Prod.mk.injEq] at h
    rw [← h.2]
    refine ⟨⟨hinv.1, ?_⟩, rfl⟩
    rcases Proc.bind_error_iff.mp hreorg with hdis | ⟨view₁, s₁, hdis, hcon⟩
    · exact ((disconnectAll_undo _ _).run hdis).undoInv hinv.2
    · obtain ⟨hcoins₁, hundo₁⟩ := hinv.disconnectAll hdis
      exact connectAll_error_undoInv hcoins₁ hundo₁ hcon
  · simp at h

/-- A call that succeeds ends on the chain it was asked for, with its coins. -/
theorem NodeInv.of_ok (hinv : NodeInv env node) (h : setBestChain env amb pindexNew node = (.ok (), node')) :
    NodeInv env node' ∧ node'.pindexBest = pindexNew := by
  obtain ⟨view₁, s₁, view, s, hdis, hcon, hbest, rfl⟩ := setBestChain_ok h
  obtain ⟨hcoins₁, hundo₁⟩ := hinv.disconnectAll hdis
  have hstep : ∀ pindex ∈ connectedBy node pindexNew, ∀ {view s view' s'}, CoinsInv env view ∧ UndoInv env s →
      connectBlock env false node.pindexBest pindex amb.nNow view s = (.ok view', s') →
      CoinsInv env view' ∧ UndoInv env s' :=
    fun _ _ _ _ _ _ hinv hd => connectBlock_coins hinv.1 hinv.2 hd
  obtain ⟨hcoins, hundo⟩ := Proc.foldM_ok_invariant hstep ⟨hcoins₁, hundo₁⟩ hcon
  have hsame : SameUndo s (s.setPendings (amb.mempool s.pendings)) := rfl
  refine ⟨⟨?_, hsame.undoInv hundo⟩, rfl⟩
  simp only [commit]
  rw [← hbest]
  split
  · exact hcoins.prune
  · exact hcoins

/-- **The coins are a function of the chain**, whatever the node has been through. -/
theorem History.nodeInv {genesis : CBlock} (h : History env genesis node) : NodeInv env node := by
  induction h with
  | init => exact ⟨coinsInv_init genesis, undoInv_init⟩
  | @call node amb pindexNew _ ih =>
    rcases hcall : setBestChain env amb pindexNew node with ⟨e | _, node'⟩
    · exact (ih.of_error hcall).1
    · exact (ih.of_ok hcall).1

/-- Two nodes on the same chain have equivalent coins. -/
theorem History.coins_equiv {genesis : CBlock} (h : History env genesis node) (h' : History env genesis node')
    (hbest : node.pindexBest = node'.pindexBest) : node.coinsTip.Equiv node'.coinsTip := by
  obtain ⟨⟨pindex, hp, -, hequiv⟩, -⟩ := h.nodeInv
  obtain ⟨⟨pindex', hp', -, hequiv'⟩, -⟩ := h'.nodeInv
  rw [Option.some.injEq] at hp hp'
  rw [← hp, hbest, hp'] at hequiv
  exact hequiv.trans hequiv'.symm

end History

/-! ## Views on the way -/

/-- **A view and a store that come up**: those of a node, and what connecting a block, disconnecting one and writing the
    cache to disk makes of them. -/
inductive Reached (env : Env) (genesis : CBlock) : CoinsCache → Store → Prop where
  | node {node : Node} (h : History env genesis node) :
      Reached env genesis ⟨node.coinsTip, some node.pindexBest⟩ node.store
  | connect {pindexBest pindex : CBlockIndex} {nNow : Nat} {view view' : CoinsCache} {s s' : Store}
      (h : Reached env genesis view s)
      (ok : connectBlock env false pindexBest pindex nNow view s = (.ok view', s')) : Reached env genesis view' s'
  | disconnect {pindex : CBlockIndex} {view view' : CoinsCache} {s s' : Store} (h : Reached env genesis view s)
      (ok : disconnectBlock env pindex view s = (.ok view', s')) : Reached env genesis view' s'
  | prune {view : CoinsCache} {s : Store} (h : Reached env genesis view s) :
      Reached env genesis { view with coins := view.coins.prune } s

/-- The coins of such a view are those of the chain it is on, and the undo data is good. -/
theorem Reached.inv {env : Env} {genesis : CBlock} {view : CoinsCache} {s : Store} (h : Reached env genesis view s) :
    CoinsInv env view ∧ UndoInv env s := by
  induction h with
  | node h => exact h.nodeInv
  | connect _ ok ih => exact connectBlock_coins ih.1 ih.2 ok
  | disconnect _ ok ih => exact disconnectBlock_coins ih.1 ih.2 ok
  | prune _ ih => exact ⟨ih.1.prune, ih.2⟩

end Syscoin

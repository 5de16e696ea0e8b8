import Syscoin.Chain.ProcessBlock
import Syscoin.Lib.Attach

/-!
# `Correctness.BlockOrphans` — the orphan blocks, and who is left among them

The two maps always hold the same blocks (`Mirrored`). That no orphan is left whose parent is in the index needs more:
the work queue gets a block only when `AcceptBlock` returns true, and `AcceptBlock` may put a block into the index and
then return false. As long as no orphan waits for such a block, the queue has every parent that orphans still wait for
(`Queued`), and is empty in the end.
-/

namespace Syscoin

open Lib

/-! ## The index -/

/-- `mapBlockIndex.count(hash)` -/
def BlockTree.Indexed (env : Env) (tree : BlockTree) (hash : Uint256) : Prop := (tree.find env hash).isSome = true

instance (env : Env) (tree : BlockTree) (hash : Uint256) : Decidable (tree.Indexed env hash) :=
  inferInstanceAs (Decidable (_ = true))

section Index

variable {env : Env} {tree tree' : BlockTree} {hash : Uint256}

theorem BlockTree.indexed_congr (h : tree.mapBlockIndex = tree'.mapBlockIndex) :
    tree.Indexed env hash ↔ tree'.Indexed env hash := by
  unfold Indexed find
  rw [h]

theorem BlockTree.indexed_insert (block : CBlock) :
    (tree.insert env block).Indexed env hash ↔ hash = env.getBlockHash block ∨ tree.Indexed env hash := by
  unfold Indexed find
  show ((tree.newIndex env block :: tree.mapBlockIndex).find? _).isSome = true ↔ _
  rw [List.find?_cons]
  split
  · rename_i heq
    have hhash : env.getBlockHash block = hash := of_decide_eq_true heq
    simp [hhash]
  · rename_i hne
    have hhash : env.getBlockHash block ≠ hash := of_decide_eq_false hne
    simp [hhash.symm]

theorem BlockTree.settle_map {rounds : Nat} {vAttach : List CBlockIndex}
    (h : tree.settle env rounds = some (tree', vAttach)) : tree'.mapBlockIndex = tree.mapBlockIndex := by
  induction rounds generalizing tree with
  | zero => cases h
  | succ rounds ih =>
    unfold settle at h
    split at h
    · cases h
      rfl
    · split at h
      · cases h
        rfl
      · dsimp only at h
        split at h
        · exact (ih h).trans rfl
        · cases h
          rfl

theorem BlockTree.setBestChain_map (amb : Ambient) (pindexNew : CBlockIndex) :
    (BlockTree.setBestChain env amb pindexNew tree).2.mapBlockIndex = tree.mapBlockIndex := by
  unfold BlockTree.setBestChain
  dsimp only
  split
  · rfl
  · split <;> rfl

/-- **`ConnectBestBlock` leaves the index alone.** -/
theorem BlockTree.connectBestBlock_map (amb : CBlockIndex → Ambient) :
    (connectBestBlock env amb tree).2.mapBlockIndex = tree.mapBlockIndex := by
  have hswitch (vAttach : List CBlockIndex) :
      Proc.Keeps (fun t t' : BlockTree => t'.mapBlockIndex = t.mapBlockIndex) (switchTo env amb vAttach) := by
    apply Proc.Keeps.foldM
    · intro t
      rfl
    · intro a b c hab hbc
      exact hbc.trans hab
    · intro pindexSwitch _ _ t
      exact setBestChain_map _ _
  unfold connectBestBlock
  split
  · rfl
  · rename_i tree₁ vAttach hsettled
    exact (hswitch vAttach tree₁).trans (settle_map hsettled)

end Index

/-! ## One call of `AcceptBlock` -/

section Accept

variable {env : Env} {horizon : EventHorizon} {fCheckpoints : Bool}

theorem acceptChecks_new {a : AcceptAmbient} {block : CBlock} {tree : BlockTree}
    (h : acceptChecks env horizon fCheckpoints a block tree = .ok ()) : ¬ tree.Indexed env (env.getBlockHash block) := by
  unfold acceptChecks at h
  obtain ⟨hnone, -⟩ := require_bind_ok_iff.mp h
  unfold BlockTree.Indexed
  rw [Option.isNone_iff_eq_none.mp hnone]
  simp

/-- A block other than the genesis block passes only on top of a block that is in the index. -/
theorem acceptChecks_parent {a : AcceptAmbient} {block : CBlock} {tree : BlockTree}
    (h : acceptChecks env horizon fCheckpoints a block tree = .ok ())
    (hgenesis : env.getBlockHash block ≠ env.hashGenesisBlock) : tree.Indexed env block.hashPrevBlock := by
  unfold acceptChecks at h
  obtain ⟨-, h⟩ := require_bind_ok_iff.mp h
  rw [if_neg hgenesis] at h
  unfold BlockTree.Indexed
  split at h
  · cases h
  · rename_i pindexPrev hsome
    rw [hsome]
    rfl

/-- `AddToBlockIndex` on a new block. -/
theorem addToBlockIndex_spec {a : AcceptAmbient} {block : CBlock} {tree tree' : BlockTree} {r : Except Reject Unit}
    (hnew : ¬ tree.Indexed env (env.getBlockHash block)) (h : addToBlockIndex env a block tree = (r, tree')) :
    (∀ hash, tree'.Indexed env hash ↔ hash = env.getBlockHash block ∨ tree.Indexed env hash) ∧
      (r = .ok () ↔ a.fIndexWritten = true ∧
        (BlockTree.connectBestBlock env a.amb (tree.insert env block)).1 = .ok () ∧ a.fFlushed = true) := by
  have hmap : (BlockTree.connectBestBlock env a.amb (tree.insert env block)).2.mapBlockIndex = _ :=
    BlockTree.connectBestBlock_map a.amb
  unfold addToBlockIndex at h
  rw [if_neg (show ¬ (tree.find env (env.getBlockHash block)).isSome = true from hnew)] at h
  split at h
  · rename_i hwrite
    obtain ⟨rfl, rfl⟩ := Prod.mk.inj h
    exact ⟨fun hash => BlockTree.indexed_insert block, by simp [hwrite]⟩
  · rename_i hwrite
    rcases hrun : BlockTree.connectBestBlock env a.amb (tree.insert env block) with ⟨e | u, tree₁⟩
    all_goals
      rw [hrun] at h hmap
      have hindex : ∀ hash, tree₁.Indexed env hash ↔ hash = env.getBlockHash block ∨ tree.Indexed env hash :=
        fun _ => (BlockTree.indexed_congr hmap).trans (BlockTree.indexed_insert block)
      dsimp only at h
    · obtain ⟨rfl, rfl⟩ := Prod.mk.inj h
      exact ⟨hindex, by simp⟩
    · split at h
      · rename_i hflush
        obtain ⟨rfl, rfl⟩ := Prod.mk.inj h
        exact ⟨hindex, by simp [hflush]⟩
      · rename_i hflush
        obtain ⟨rfl, rfl⟩ := Prod.mk.inj h
        exact ⟨hindex, by simp [hwrite, hflush]⟩

/-- **What `AcceptBlock` can do.** It refuses the block and the tree stays, or the block gets into the index, and then
    true comes back iff what follows succeeds. -/
theorem AcceptCall.spec (c : AcceptCall) {r : Except Reject Unit} {tree' : BlockTree}
    (h : acceptBlock env horizon fCheckpoints c.ambient c.dbp c.block c.node.tree = (r, tree')) :
    (¬ c.Inserts env horizon fCheckpoints ∧ tree' = c.node.tree ∧ ∃ e, r = .error e) ∨
      (c.Inserts env horizon fCheckpoints ∧
        (∀ hash, tree'.Indexed env hash ↔ hash = env.getBlockHash c.block ∨ c.node.tree.Indexed env hash) ∧
        (r = .ok () ↔ c.Completes env)) := by
  unfold acceptBlock at h
  rcases hchecks : acceptChecks env horizon fCheckpoints c.ambient c.block c.node.tree with e | ⟨⟨⟩⟩
  · rw [hchecks] at h
    obtain ⟨rfl, rfl⟩ := Prod.mk.inj h
    refine .inl ⟨?_, rfl, e, rfl⟩
    rintro ⟨hok, -⟩
    rw [hchecks] at hok
    cases hok
  · rw [hchecks] at h
    dsimp only at h
    split at h
    · rename_i hpos
      obtain ⟨rfl, rfl⟩ := Prod.mk.inj h
      refine .inl ⟨?_, rfl, _, rfl⟩
      rintro ⟨-, hfound, -⟩
      rw [hpos] at hfound
      cases hfound
    · rename_i hpos
      split at h
      · rename_i hdisk
        obtain ⟨rfl, rfl⟩ := Prod.mk.inj h
        refine .inl ⟨?_, rfl, _, rfl⟩
        rintro ⟨-, -, hwritten⟩
        simp [hdisk.1, hdisk.2] at hwritten
      · rename_i hdisk
        have hinserts : c.Inserts env horizon fCheckpoints := by
          refine ⟨hchecks, by simpa using hpos, ?_⟩
          rcases Bool.eq_false_or_eq_true c.dbp with hdbp | hdbp
          · exact .inl hdbp
          · exact .inr (by simpa [hdbp] using hdisk)
        exact .inr ⟨hinserts, addToBlockIndex_spec (acceptChecks_new hchecks) h⟩

end Accept

/-! ## The loops -/

section Loops

variable {env : Env} {horizon : EventHorizon} {fCheckpoints : Bool} {call : BlockCall} {node node' : BlockNode}
  {vWorkQueue vWorkQueue' : List Uint256}

/-- The call of `AcceptBlock` for an orphan. -/
def orphanCall (call : BlockCall) (pblockOrphan : CBlock) (node : BlockNode) : AcceptCall :=
  ⟨pblockOrphan, false, call.accept pblockOrphan, node⟩

/-- **One orphan**: it is tried, and taken out of the first map. -/
theorem acceptOrphan_ok {pblockOrphan : CBlock}
    (h : acceptOrphan env horizon fCheckpoints call vWorkQueue pblockOrphan node = (.ok vWorkQueue', node')) :
    ∃ r tree',
      acceptBlock env horizon fCheckpoints (call.accept pblockOrphan) false pblockOrphan node.tree = (r, tree') ∧
      node' = { node with tree := tree' }.eraseOrphan (env.getBlockHash pblockOrphan) ∧
      ((r = .ok () ∧ vWorkQueue' = vWorkQueue ++ [env.getBlockHash pblockOrphan]) ∨
        ((∃ e, r = .error e) ∧ vWorkQueue' = vWorkQueue)) := by
  unfold acceptOrphan at h
  dsimp only at h
  rcases hrun : acceptBlock env horizon fCheckpoints (call.accept pblockOrphan) false pblockOrphan node.tree with
    ⟨e | ⟨⟨⟩⟩, tree'⟩
  · rw [hrun] at h
    dsimp only at h
    split at h
    · cases h
    · simp only [Prod.mk.injEq, Except.ok.injEq] at h
      exact ⟨_, tree', rfl, h.2.symm, .inr ⟨⟨e, rfl⟩, h.1.symm⟩⟩
  · rw [hrun] at h
    simp only [Prod.mk.injEq, Except.ok.injEq] at h
    exact ⟨_, tree', rfl, h.2.symm, .inl ⟨rfl, h.1.symm⟩⟩

/-- Only a call that stops the program stops the loops. -/
theorem acceptOrphan_error {pblockOrphan : CBlock} {e : Reject}
    (h : acceptOrphan env horizon fCheckpoints call vWorkQueue pblockOrphan node = (.error e, node')) :
    e.fault = .crash := by
  unfold acceptOrphan at h
  dsimp only at h
  split at h
  · cases h
  · split at h
    · rename_i hcrash
      simp only [Prod.mk.injEq, Except.error.injEq] at h
      rw [← h.1]
      exact hcrash
    · cases h

/-- The node does not depend on the queue. -/
theorem acceptOrphan_nil {pblockOrphan : CBlock}
    (h : acceptOrphan env horizon fCheckpoints call vWorkQueue pblockOrphan node = (.ok vWorkQueue', node')) :
    ∃ q, acceptOrphan env horizon fCheckpoints call [] pblockOrphan node = (.ok q, node') := by
  unfold acceptOrphan at h ⊢
  dsimp only at h ⊢
  split at h
  · simp only [Prod.mk.injEq] at h
    exact ⟨_, by rw [h.2]⟩
  · split at h
    · cases h
    · rename_i hcrash
      simp only [Prod.mk.injEq] at h
      rw [if_neg hcrash, h.2]
      exact ⟨_, rfl⟩

/-- What every orphan that is tried keeps, a pass over some of them keeps. -/
theorem pass_rule {C : AcceptCall → Prop} {K : List Uint256 → BlockNode → Prop} {orphans : List CBlock}
    (hstep : ∀ b ∈ orphans, ∀ {q node q' node'}, K q node → C (orphanCall call b node) →
      acceptOrphan env horizon fCheckpoints call q b node = (.ok q', node') → K q' node')
    (hK : K vWorkQueue node) (hC : ∀ c ∈ orphanCalls env horizon fCheckpoints call orphans node, C c)
    (h : Proc.foldM (acceptOrphan env horizon fCheckpoints call) orphans vWorkQueue node = (.ok vWorkQueue', node')) :
    K vWorkQueue' node' := by
  induction orphans generalizing vWorkQueue node with
  | nil =>
    rw [Proc.foldM_nil] at h
    simp only [Prod.mk.injEq, Except.ok.injEq] at h
    obtain ⟨rfl, rfl⟩ := h
    exact hK
  | cons b orphans ih =>
    obtain ⟨q₁, node₁, hone, hrest⟩ := Proc.foldM_cons_ok_iff.mp h
    obtain ⟨q, hnil⟩ := acceptOrphan_nil hone
    unfold orphanCalls at hC
    rw [hnil] at hC
    obtain ⟨hhead, htail⟩ := List.forall_mem_cons.mp hC
    have hK₁ := hstep b List.mem_cons_self hK hhead hone
    exact ih (fun b' hb' => hstep b' (List.mem_cons_of_mem b hb')) hK₁ htail hrest

/-- **A pass over some orphans** leaves the second map alone and takes them out of the first one. No more are queued than
    there are. -/
theorem pass_ok {orphans : List CBlock}
    (h : Proc.foldM (acceptOrphan env horizon fCheckpoints call) orphans vWorkQueue node = (.ok vWorkQueue', node')) :
    node'.mapOrphanBlocksByPrev = node.mapOrphanBlocksByPrev ∧
      (∀ entry, entry ∈ node'.mapOrphanBlocks ↔
        entry ∈ node.mapOrphanBlocks ∧ ∀ b ∈ orphans, entry.1 ≠ env.getBlockHash b) ∧
      vWorkQueue'.length ≤ vWorkQueue.length + orphans.length := by
  induction orphans generalizing vWorkQueue node with
  | nil =>
    rw [Proc.foldM_nil] at h
    simp only [Prod.mk.injEq, Except.ok.injEq] at h
    obtain ⟨rfl, rfl⟩ := h
    simp
  | cons b orphans ih =>
    obtain ⟨q₁, node₁, hone, hrest⟩ := Proc.foldM_cons_ok_iff.mp h
    obtain ⟨hby, hmap, hlen⟩ := ih hrest
    obtain ⟨r, tree', -, rfl, hq⟩ := acceptOrphan_ok hone
    refine ⟨hby, ?_, ?_⟩
    · intro entry
      rw [hmap, List.forall_mem_cons]
      simp only [BlockNode.eraseOrphan, List.mem_filter, decide_eq_true_eq, ne_eq]
      tauto
    · rw [List.length_cons]
      rcases hq with ⟨-, rfl⟩ | ⟨-, rfl⟩
      · rw [List.length_append, List.length_singleton] at hlen
        omega
      · omega

theorem length_orphansOf_add (hashPrev : Uint256) (node : BlockNode) :
    (node.orphansOf hashPrev).length + (node.eraseByPrev hashPrev).mapOrphanBlocksByPrev.length =
      node.mapOrphanBlocksByPrev.length := by
  unfold BlockNode.orphansOf BlockNode.eraseByPrev
  rw [List.length_map, ← List.countP_eq_length_filter, ← List.countP_eq_length_filter]
  simpa using (List.length_eq_countP_add_countP (fun entry : Uint256 × CBlock => decide (entry.1 = hashPrev))).symm

/-- **The rounds of the work queue.** What a round keeps while it takes a hash from the queue holds in the end with the
    queue empty, if there are rounds enough. -/
theorem queue_rule {C : AcceptCall → Prop} {J : List Uint256 → BlockNode → Prop}
    (hround : ∀ {hashPrev q node q' node'}, J (hashPrev :: q) node →
      (∀ c ∈ orphanCalls env horizon fCheckpoints call (node.orphansOf hashPrev) node, C c) →
      Proc.foldM (acceptOrphan env horizon fCheckpoints call) (node.orphansOf hashPrev) q node = (.ok q', node') →
      J q' (node'.eraseByPrev hashPrev))
    {fuel : Nat} (hfuel : vWorkQueue.length + node.mapOrphanBlocksByPrev.length < fuel) (hJ : J vWorkQueue node)
    (hC : ∀ c ∈ queueCalls env horizon fCheckpoints call fuel vWorkQueue node, C c)
    (h : acceptOrphans env horizon fCheckpoints call fuel vWorkQueue node = (.ok (), node')) : J [] node' := by
  induction fuel generalizing vWorkQueue node with
  | zero => omega
  | succ fuel ih =>
    cases vWorkQueue with
    | nil =>
      simp only [acceptOrphans, Proc.pure_apply, Prod.mk.injEq] at h
      rw [← h.2]
      exact hJ
    | cons hashPrev vWorkQueue =>
      unfold acceptOrphans at h
      unfold queueCalls at hC
      rcases hpass : Proc.foldM (acceptOrphan env horizon fCheckpoints call) (node.orphansOf hashPrev) vWorkQueue node
        with ⟨e | q', node₁⟩
      · rw [hpass] at h
        cases h
      · rw [hpass] at h hC
        obtain ⟨hby, -, hlen⟩ := pass_ok hpass
        have hsplit := length_orphansOf_add hashPrev node
        have hsame : (node₁.eraseByPrev hashPrev).mapOrphanBlocksByPrev =
            (node.eraseByPrev hashPrev).mapOrphanBlocksByPrev := by
          unfold BlockNode.eraseByPrev
          rw [hby]
        rw [List.length_cons] at hfuel
        refine ih ?_ (hround hJ (fun c hc => hC c (List.mem_append_left _ hc)) hpass)
          (fun c hc => hC c (List.mem_append_right _ hc)) h
        rw [hsame]
        omega

/-- `ProcessBlock` has rounds enough. -/
theorem queue_fuel (hash : Uint256) (node : BlockNode) (tree : BlockTree) :
    [hash].length + { node with tree := tree }.mapOrphanBlocksByPrev.length < node.mapOrphanBlocksByPrev.length + 2 := by
  rw [List.length_singleton]
  dsimp only
  omega

theorem acceptOrphans_error {fuel : Nat} {e : Reject}
    (h : acceptOrphans env horizon fCheckpoints call fuel vWorkQueue node = (.error e, node')) : e.fault = .crash := by
  have hpass {orphans : List CBlock} {q : List Uint256} {node₀ node₁ : BlockNode} {e : Reject}
      (h : Proc.foldM (acceptOrphan env horizon fCheckpoints call) orphans q node₀ = (.error e, node₁)) :
      e.fault = .crash := by
    induction orphans generalizing q node₀ with
    | nil => cases h
    | cons b orphans ih =>
      rcases Proc.bind_error_iff.mp h with hone | ⟨q₁, node₂, -, hrest⟩
      · exact acceptOrphan_error hone
      · exact ih hrest
  induction fuel generalizing vWorkQueue node with
  | zero => cases h
  | succ fuel ih =>
    cases vWorkQueue with
    | nil => cases h
    | cons hashPrev vWorkQueue =>
      unfold acceptOrphans at h
      split at h
      · rename_i e' node₁ hrun
        simp only [Prod.mk.injEq, Except.error.injEq] at h
        rw [← h.1]
        exact hpass hrun
      · exact ih h

end Loops

/-! ## The two maps -/

namespace BlockNode

def orphans (node : BlockNode) : List CBlock := node.mapOrphanBlocks.map (·.2)

def orphansByPrev (node : BlockNode) : List CBlock := node.mapOrphanBlocksByPrev.map (·.2)

/-- **Both maps hold the same blocks**, each under the hash it belongs under. -/
structure Mirrored (env : Env) (node : BlockNode) : Prop where
  keyed : ∀ entry ∈ node.mapOrphanBlocks, entry.1 = env.getBlockHash entry.2
  filed : ∀ entry ∈ node.mapOrphanBlocksByPrev, entry.1 = entry.2.hashPrevBlock
  distinct : ∀ b ∈ node.orphans, ∀ b' ∈ node.orphans, env.getBlockHash b = env.getBlockHash b' → b = b'
  same : ∀ b, b ∈ node.orphans ↔ b ∈ node.orphansByPrev

/-- Every parent that is in the index and that orphans wait for is in the work queue. -/
def Queued (env : Env) (vWorkQueue : List Uint256) (node : BlockNode) : Prop :=
  ∀ entry ∈ node.mapOrphanBlocksByPrev, node.tree.Indexed env entry.1 → entry.1 ∈ vWorkQueue

end BlockNode

section Maps

variable {env : Env} {horizon : EventHorizon} {fCheckpoints : Bool} {call : BlockCall} {node node' : BlockNode}
  {vWorkQueue vWorkQueue' : List Uint256} {hashPrev : Uint256}

theorem mem_orphansOf {b : CBlock} : b ∈ node.orphansOf hashPrev ↔ (hashPrev, b) ∈ node.mapOrphanBlocksByPrev := by
  unfold BlockNode.orphansOf
  simp only [List.mem_map, List.mem_filter, decide_eq_true_eq]
  constructor
  · rintro ⟨⟨p, b'⟩, ⟨hmem, rfl⟩, rfl⟩
    exact hmem
  · intro hmem
    exact ⟨_, ⟨hmem, rfl⟩, rfl⟩

namespace BlockNode.Mirrored

theorem mem_orphans (h : node.Mirrored env) {b : CBlock} :
    b ∈ node.orphans ↔ (env.getBlockHash b, b) ∈ node.mapOrphanBlocks := by
  unfold orphans
  rw [List.mem_map]
  constructor
  · rintro ⟨⟨k, b'⟩, hmem, rfl⟩
    have hk := h.keyed _ hmem
    dsimp only at hk
    rwa [hk] at hmem
  · intro hmem
    exact ⟨_, hmem, rfl⟩

theorem mem_orphansByPrev (h : node.Mirrored env) {b : CBlock} :
    b ∈ node.orphansByPrev ↔ (b.hashPrevBlock, b) ∈ node.mapOrphanBlocksByPrev := by
  unfold orphansByPrev
  rw [List.mem_map]
  constructor
  · rintro ⟨⟨p, b'⟩, hmem, rfl⟩
    have hp := h.filed _ hmem
    dsimp only at hp
    rwa [hp] at hmem
  · intro hmem
    exact ⟨_, hmem, rfl⟩

theorem withTree (h : node.Mirrored env) (tree : BlockTree) : Mirrored env { node with tree := tree } :=
  ⟨h.keyed, h.filed, h.distinct, h.same⟩

/-- An orphan is added under a hash that is new. -/
theorem addOrphan (h : node.Mirrored env) {pblock : CBlock} (hnew : ¬ node.hasOrphan (env.getBlockHash pblock)) :
    (node.addOrphan (env.getBlockHash pblock) pblock).Mirrored env := by
  have horphans : (node.addOrphan (env.getBlockHash pblock) pblock).orphans = node.orphans ++ [pblock] := by
    simp [orphans, BlockNode.addOrphan]
  have hbyprev : (node.addOrphan (env.getBlockHash pblock) pblock).orphansByPrev = node.orphansByPrev ++ [pblock] := by
    simp [orphansByPrev, BlockNode.addOrphan]
  have hother : ∀ b ∈ node.orphans, env.getBlockHash b ≠ env.getBlockHash pblock := by
    intro b hb heq
    exact hnew ⟨_, h.mem_orphans.mp hb, heq⟩
  constructor
  · intro entry hentry
    rcases List.mem_append.mp hentry with hold | hlast
    · exact h.keyed entry hold
    · rw [List.mem_singleton.mp hlast]
  · intro entry hentry
    rcases List.mem_append.mp hentry with hold | hlast
    · exact h.filed entry hold
    · rw [List.mem_singleton.mp hlast]
  · intro b hb b' hb' heq
    rw [horphans, List.mem_append, List.mem_singleton] at hb hb'
    rcases hb with hb | rfl <;> rcases hb' with hb' | rfl
    · exact h.distinct b hb b' hb' heq
    · exact absurd heq (hother b hb)
    · exact absurd heq.symm (hother b' hb')
    · rfl
  · intro b
    rw [horphans, hbyprev, List.mem_append, List.mem_append, h.same]

/-- **A round of the work queue** takes the same orphans out of both maps. -/
theorem round (h : node.Mirrored env)
    (hrun : Proc.foldM (acceptOrphan env horizon fCheckpoints call) (node.orphansOf hashPrev) vWorkQueue node =
      (.ok vWorkQueue', node')) : (node'.eraseByPrev hashPrev).Mirrored env := by
  obtain ⟨hby, hmap, -⟩ := pass_ok hrun
  have hmemBy : ∀ entry, entry ∈ (node'.eraseByPrev hashPrev).mapOrphanBlocksByPrev ↔
      entry ∈ node.mapOrphanBlocksByPrev ∧ entry.1 ≠ hashPrev := by
    intro entry
    unfold eraseByPrev
    rw [hby]
    simp
  have hmem : ∀ b, b ∈ (node'.eraseByPrev hashPrev).orphans ↔ b ∈ node.orphans ∧ b.hashPrevBlock ≠ hashPrev := by
    intro b
    constructor
    · intro hb
      obtain ⟨⟨k, b'⟩, hentry, rfl⟩ := List.mem_map.mp hb
      obtain ⟨hold, hnot⟩ := (hmap _).mp hentry
      have hk := h.keyed _ hold
      have horphan : b' ∈ node.orphans := List.mem_map.mpr ⟨_, hold, rfl⟩
      refine ⟨horphan, ?_⟩
      rintro rfl
      -- its own hash would be among those that the round has erased
      exact hnot b' (mem_orphansOf.mpr (h.mem_orphansByPrev.mp ((h.same b').mp horphan))) hk
    · rintro ⟨hb, hne⟩
      refine List.mem_map.mpr ⟨_, (hmap _).mpr ⟨h.mem_orphans.mp hb, ?_⟩, rfl⟩
      intro b' hb' heq
      have hentry := mem_orphansOf.mp hb'
      have horphan : b' ∈ node.orphans := (h.same b').mpr (List.mem_map.mpr ⟨_, hentry, rfl⟩)
      have hsame := h.distinct b hb b' horphan heq
      rw [hsame] at hne
      exact hne (h.filed _ hentry).symm
  constructor
  · intro entry hentry
    exact h.keyed entry ((hmap entry).mp hentry).1
  · intro entry hentry
    exact h.filed entry ((hmemBy entry).mp hentry).1
  · intro b hb b' hb'
    exact h.distinct b ((hmem b).mp hb).1 b' ((hmem b').mp hb').1
  · intro b
    rw [hmem, h.same, h.mem_orphansByPrev]
    unfold orphansByPrev
    rw [List.mem_map]
    constructor
    · rintro ⟨hentry, hne⟩
      exact ⟨_, (hmemBy _).mpr ⟨hentry, hne⟩, rfl⟩
    · rintro ⟨⟨p, b'⟩, hentry, rfl⟩
      obtain ⟨hold, hne⟩ := (hmemBy _).mp hentry
      have hp := h.filed _ hold
      dsimp only at hp hne ⊢
      rw [hp] at hold hne
      exact ⟨hold, hne⟩

end BlockNode.Mirrored

/-! ## The queue -/

/-- The queue still has what it needs after a call for an orphan, if no orphan waits for a block that got into the index
    by a call that failed. -/
theorem queued_step {pblockOrphan : CBlock}
    (hqueued : node.Queued env (hashPrev :: vWorkQueue))
    (hC : (orphanCall call pblockOrphan node).Inserts env horizon fCheckpoints →
      (orphanCall call pblockOrphan node).Completes env ∨ ¬ (orphanCall call pblockOrphan node).Awaited env)
    (h : acceptOrphan env horizon fCheckpoints call vWorkQueue pblockOrphan node = (.ok vWorkQueue', node')) :
    node'.Queued env (hashPrev :: vWorkQueue') := by
  obtain ⟨r, tree', hrun, rfl, hq⟩ := acceptOrphan_ok h
  have hsub : hashPrev :: vWorkQueue ⊆ hashPrev :: vWorkQueue' := by
    rcases hq with ⟨-, rfl⟩ | ⟨-, rfl⟩
    · exact List.cons_subset_cons _ (List.subset_append_left _ _)
    · exact List.Subset.refl _
  intro entry hentry hindexed
  rcases (orphanCall call pblockOrphan node).spec hrun with ⟨-, htree, -⟩ | ⟨hinserts, hindex, hok⟩
  · have hindexed : tree'.Indexed env entry.1 := hindexed
    rw [htree] at hindexed
    exact hsub (hqueued entry hentry hindexed)
  · rcases (hindex entry.1).mp hindexed with heq | hold
    · rcases hC hinserts with hcompletes | hnot
      · rcases hq with ⟨-, rfl⟩ | ⟨⟨e, herror⟩, -⟩
        · rw [heq]
          simp [orphanCall]
        · rw [hok.mpr hcompletes] at herror
          cases herror
      · exact absurd ⟨entry, hentry, heq⟩ hnot
    · exact hsub (hqueued entry hentry hold)

theorem queued_round
    (hqueued : node.Queued env (hashPrev :: vWorkQueue))
    (hC : ∀ c ∈ orphanCalls env horizon fCheckpoints call (node.orphansOf hashPrev) node,
      c.Inserts env horizon fCheckpoints → c.Completes env ∨ ¬ c.Awaited env)
    (h : Proc.foldM (acceptOrphan env horizon fCheckpoints call) (node.orphansOf hashPrev) vWorkQueue node =
      (.ok vWorkQueue', node')) : (node'.eraseByPrev hashPrev).Queued env vWorkQueue' := by
  have hpass : node'.Queued env (hashPrev :: vWorkQueue') :=
    pass_rule (K := fun q node => node.Queued env (hashPrev :: q))
      (fun b _ _ _ _ _ hK hc hrun => queued_step hK hc hrun) hqueued hC h
  intro entry hentry hindexed
  obtain ⟨hold, hne⟩ := List.mem_filter.mp hentry
  exact (List.mem_cons.mp (hpass entry hold hindexed)).resolve_left (by simpa using hne)

end Maps

/-! ## One call of `ProcessBlock` -/

/-- The block has to wait for its parent. -/
def ParentUnknown (env : Env) (pblock : CBlock) (node : BlockNode) : Prop :=
  pblock.hashPrevBlock ≠ 0 ∧ ¬ node.tree.Indexed env pblock.hashPrevBlock

instance (env : Env) (pblock : CBlock) (node : BlockNode) : Decidable (ParentUnknown env pblock node) :=
  inferInstanceAs (Decidable (_ ∧ _))

section Step

variable {env : Env} {horizon : EventHorizon} {fCheckpoints : Bool} {call : BlockCall} {pblock : CBlock}
  {node node' : BlockNode} {result : Except Reject Unit}

/-- **What `ProcessBlock` can do**, as long as it does not stop the program: nothing, keep the block as an orphan, fail
    with it, or accept it and go on to its orphans. -/
theorem processBlock_cases (h : processBlock env horizon fCheckpoints call pblock node = (result, node'))
    (alive : ∀ e, result = .error e → e.fault ≠ .crash) :
    (node' = node ∧
      (node.knows env (env.getBlockHash pblock) ∨ checkReceived env pblock call.nNow ≠ .ok () ∨
        checkMinWork env fCheckpoints pblock node.tree ≠ .ok () ∨
        (ParentUnknown env pblock node ∧ call.pfrom = false))) ∨
    (¬ node.knows env (env.getBlockHash pblock) ∧ ParentUnknown env pblock node ∧
      node' = node.addOrphan (env.getBlockHash pblock) pblock) ∨
    (ComesToAccept env fCheckpoints call pblock node ∧
      ((∃ e tree', acceptBlock env horizon fCheckpoints (call.accept pblock) call.dbp pblock node.tree = (.error e, tree') ∧
          node' = { node with tree := tree' }) ∨
        ∃ tree', acceptBlock env horizon fCheckpoints (call.accept pblock) call.dbp pblock node.tree = (.ok (), tree') ∧
          acceptOrphans env horizon fCheckpoints call (node.mapOrphanBlocksByPrev.length + 2) [env.getBlockHash pblock]
            { node with tree := tree' } = (.ok (), node'))) := by
  unfold processBlock at h
  dsimp only at h
  -- the block may be turned away before its parent is looked for
  split at h
  · rename_i hindexed
    exact .inl ⟨(Prod.mk.inj h).2.symm, .inl (.inl hindexed)⟩
  rename_i hnew
  split at h
  · rename_i horphan
    exact .inl ⟨(Prod.mk.inj h).2.symm, .inl (.inr horphan)⟩
  rename_i hnone
  have hunknown : ¬ node.knows env (env.getBlockHash pblock) := by
    rintro (hindexed | horphan)
    · exact hnew hindexed
    · exact hnone horphan
  rcases hchecked : checkReceived env pblock call.nNow with e | ⟨⟨⟩⟩
  · rw [hchecked] at h
    exact .inl ⟨(Prod.mk.inj h).2.symm, .inr (.inl (by simp))⟩
  rw [hchecked] at h
  dsimp only at h
  rcases hwork : checkMinWork env fCheckpoints pblock node.tree with e | ⟨⟨⟩⟩
  · rw [hwork] at h
    exact .inl ⟨(Prod.mk.inj h).2.symm, .inr (.inr (.inl (by simp)))⟩
  rw [hwork] at h
  dsimp only at h
  split at h
  · -- the parent is missing
    rename_i hparent
    have hwait : ParentUnknown env pblock node := by
      refine ⟨hparent.1, ?_⟩
      unfold BlockTree.Indexed
      rw [Option.isNone_iff_eq_none.mp hparent.2]
      simp
    split at h
    · exact .inr (.inl ⟨hunknown, hwait, (Prod.mk.inj h).2.symm⟩)
    · rename_i hpeer
      exact .inl ⟨(Prod.mk.inj h).2.symm, .inr (.inr (.inr ⟨hwait, by simpa using hpeer⟩))⟩
  · -- the parent is there, or the block is the genesis block
    rename_i hparent
    have hcomes : ComesToAccept env fCheckpoints call pblock node := by
      refine ⟨hunknown, hchecked, hwork, ?_⟩
      by_contra hnot
      rw [not_or, Bool.not_eq_true, Option.isSome_eq_false_iff] at hnot
      exact hparent hnot
    refine .inr (.inr ⟨hcomes, ?_⟩)
    rcases hrun : acceptBlock env horizon fCheckpoints (call.accept pblock) call.dbp pblock node.tree with
      ⟨e | ⟨⟨⟩⟩, tree'⟩
    · rw [hrun] at h
      exact .inl ⟨e, tree', rfl, (Prod.mk.inj h).2.symm⟩
    · rw [hrun] at h
      refine .inr ⟨tree', rfl, ?_⟩
      rcases result with e | ⟨⟨⟩⟩
      · exact absurd (acceptOrphans_error h) (alive e rfl)
      · exact h

/-! ## Both maps hold the same blocks -/

theorem BlockNode.Mirrored.processBlock (h : node.Mirrored env)
    (hrun : processBlock env horizon fCheckpoints call pblock node = (result, node'))
    (alive : ∀ e, result = .error e → e.fault ≠ .crash) : node'.Mirrored env := by
  rcases processBlock_cases hrun alive with
    ⟨rfl, -⟩ | ⟨hunknown, -, rfl⟩ | ⟨-, ⟨e, tree', -, rfl⟩ | ⟨tree', -, hqueue⟩⟩
  · exact h
  · exact h.addOrphan fun horphan => hunknown (.inr horphan)
  · exact h.withTree tree'
  · exact queue_rule (C := fun _ => True) (J := fun _ node => node.Mirrored env)
      (fun hJ _ hpass => hJ.round hpass) (queue_fuel _ _ _) (h.withTree tree') (fun _ _ => trivial) hqueue

/-! ## No orphan is left behind -/

/-- **The condition on a call of `ProcessBlock`**: no orphan waits for a block that `AcceptBlock` puts into the index, when
    what it does after that fails. -/
def Unawaited (env : Env) (horizon : EventHorizon) (fCheckpoints : Bool) (call : BlockCall) (pblock : CBlock)
    (node : BlockNode) : Prop :=
  ComesToAccept env fCheckpoints call pblock node →
    ∀ c ∈ acceptCalls env horizon fCheckpoints call pblock node,
      c.Inserts env horizon fCheckpoints → c.Completes env ∨ ¬ c.Awaited env

theorem queued_processBlock (h : node.Queued env [])
    (hC : Unawaited env horizon fCheckpoints call pblock node)
    (hrun : processBlock env horizon fCheckpoints call pblock node = (result, node'))
    (alive : ∀ e, result = .error e → e.fault ≠ .crash) : node'.Queued env [] := by
  rcases processBlock_cases hrun alive with
    ⟨rfl, -⟩ | ⟨-, hwait, rfl⟩ | ⟨hcomes, ⟨e, tree', haccept, rfl⟩ | ⟨tree', haccept, hqueue⟩⟩
  · exact h
  · intro entry hentry hindexed
    rcases List.mem_append.mp hentry with hold | hlast
    · exact h entry hold hindexed
    · rw [List.mem_singleton.mp hlast] at hindexed
      exact absurd hindexed hwait.2
  · -- the block itself: refused, or in the index without being awaited
    have hhead := (List.forall_mem_cons.mp (hC hcomes)).1
    intro entry hentry hindexed
    have hspec := AcceptCall.spec ⟨pblock, call.dbp, call.accept pblock, node⟩ haccept
    rcases hspec with ⟨-, htree, -⟩ | ⟨hinserts, hindex, hok⟩
    · have hindexed : tree'.Indexed env entry.1 := hindexed
      rw [htree] at hindexed
      exact h entry hentry hindexed
    · rcases (hindex entry.1).mp hindexed with heq | hold
      · rcases hhead hinserts with hcompletes | hnot
        · cases hok.mpr hcompletes
        · exact absurd ⟨entry, hentry, heq⟩ hnot
      · exact h entry hentry hold
  · have htail := (List.forall_mem_cons.mp (hC hcomes)).2
    rw [haccept] at htail
    have hspec := AcceptCall.spec ⟨pblock, call.dbp, call.accept pblock, node⟩ haccept
    rcases hspec with ⟨-, -, e, herror⟩ | ⟨-, hindex, -⟩
    · cases herror
    · refine queue_rule (J := fun q node => node.Queued env q)
        (fun hJ hc hpass => queued_round hJ hc hpass) (queue_fuel _ _ _) ?_ htail hqueue
      intro entry hentry hindexed
      rcases (hindex entry.1).mp hindexed with heq | hold
      · exact List.mem_singleton.mpr heq
      · exact absurd (h entry hentry hold) List.not_mem_nil

end Step

/-! ## The blocks of a valid tree -/

/-- **Nothing is refused**: the block is known, or it passes the preliminary checks; then it comes from a peer where it has
    to wait, and otherwise it is accepted with every orphan that is tried. -/
def Welcome (env : Env) (horizon : EventHorizon) (fCheckpoints : Bool) (call : BlockCall) (pblock : CBlock)
    (node : BlockNode) : Prop :=
  node.knows env (env.getBlockHash pblock) ∨
    (checkReceived env pblock call.nNow = .ok () ∧ checkMinWork env fCheckpoints pblock node.tree = .ok () ∧
      (ParentUnknown env pblock node → call.pfrom = true) ∧
      (¬ ParentUnknown env pblock node → ∀ c ∈ acceptCalls env horizon fCheckpoints call pblock node,
        c.Inserts env horizon fCheckpoints ∧ c.Completes env))

instance (env : Env) (horizon : EventHorizon) (fCheckpoints : Bool) (call : BlockCall) (pblock : CBlock)
    (node : BlockNode) : Decidable (Welcome env horizon fCheckpoints call pblock node) :=
  inferInstanceAs (Decidable (_ ∨ (_ ∧ _ ∧ (_ → _) ∧ (_ → _))))

/-- The index and the orphans account for all blocks that have arrived, and for no others. -/
structure BlockNode.Covers (env : Env) (start : BlockTree) (arrived : Set CBlock) (node : BlockNode) : Prop where
  kept : ∀ hash, start.Indexed env hash → node.tree.Indexed env hash
  sound : ∀ hash, node.tree.Indexed env hash →
    Attachable env.getBlockHash (·.hashPrevBlock) { h | start.Indexed env h } arrived hash
  covered : ∀ b ∈ arrived,
    node.tree.Indexed env (env.getBlockHash b) ∨ ∃ b' ∈ node.orphans, env.getBlockHash b' = env.getBlockHash b
  known : ∀ b ∈ node.orphans, b ∈ arrived
  filed : ∀ b ∈ node.orphansByPrev, b ∈ arrived

section Tree

variable {env : Env} {horizon : EventHorizon} {fCheckpoints : Bool} {call : BlockCall} {pblock : CBlock}
  {node node' : BlockNode} {result : Except Reject Unit} {start tree' : BlockTree} {arrived : Set CBlock}

namespace BlockNode.Covers

/-- A block gets into the index, on top of one that is there. -/
theorem accept (h : node.Covers env start arrived)
    (hindex : ∀ hash, tree'.Indexed env hash ↔ hash = env.getBlockHash pblock ∨ node.tree.Indexed env hash)
    (hparent : node.tree.Indexed env pblock.hashPrevBlock) :
    Covers env start (insert pblock arrived) { node with tree := tree' } where
  kept := fun hash hhash => (hindex hash).mpr (.inr (h.kept hash hhash))
  sound := by
    intro hash hhash
    rcases (hindex hash).mp hhash with rfl | hold
    · exact .item (Set.mem_insert pblock arrived) ((h.sound _ hparent).mono (Set.subset_insert _ _))
    · exact (h.sound hash hold).mono (Set.subset_insert _ _)
  covered := by
    intro b hb
    rcases Set.mem_insert_iff.mp hb with rfl | hb
    · exact .inl ((hindex _).mpr (.inl rfl))
    · exact (h.covered b hb).imp_left fun hold => (hindex _).mpr (.inr hold)
  known := fun b hb => Set.mem_insert_of_mem _ (h.known b hb)
  filed := fun b hb => Set.mem_insert_of_mem _ (h.filed b hb)

/-- The orphan of a hash that is in the index need not be kept. -/
theorem eraseOrphan (h : node.Covers env start arrived) (hmirrored : ∀ entry ∈ node.mapOrphanBlocks,
      entry.1 = env.getBlockHash entry.2) {hash : Uint256} (hindexed : node.tree.Indexed env hash) :
    (node.eraseOrphan hash).Covers env start arrived where
  kept := h.kept
  sound := h.sound
  covered := by
    intro b hb
    rcases h.covered b hb with hold | ⟨b', hb', heq⟩
    · exact .inl hold
    · by_cases hhash : env.getBlockHash b = hash
      · rw [hhash]
        exact .inl hindexed
      · obtain ⟨entry, hentry, rfl⟩ := List.mem_map.mp hb'
        refine .inr ⟨_, List.mem_map.mpr ⟨entry, List.mem_filter.mpr ⟨hentry, ?_⟩, rfl⟩, heq⟩
        rw [decide_eq_true_eq, hmirrored entry hentry, heq]
        exact hhash
  known := by
    intro b hb
    obtain ⟨entry, hentry, rfl⟩ := List.mem_map.mp hb
    exact h.known _ (List.mem_map.mpr ⟨entry, (List.mem_filter.mp hentry).1, rfl⟩)
  filed := h.filed

theorem eraseByPrev (h : node.Covers env start arrived) (hashPrev : Uint256) :
    (node.eraseByPrev hashPrev).Covers env start arrived where
  kept := h.kept
  sound := h.sound
  covered := h.covered
  known := h.known
  filed := by
    intro b hb
    obtain ⟨entry, hentry, rfl⟩ := List.mem_map.mp hb
    exact h.filed _ (List.mem_map.mpr ⟨entry, (List.mem_filter.mp hentry).1, rfl⟩)

/-- A block waits. -/
theorem addOrphan (h : node.Covers env start arrived) (pblock : CBlock) :
    (node.addOrphan (env.getBlockHash pblock) pblock).Covers env start (insert pblock arrived) := by
  have horphans : (node.addOrphan (env.getBlockHash pblock) pblock).orphans = node.orphans ++ [pblock] := by
    simp [orphans, BlockNode.addOrphan]
  have hbyprev : (node.addOrphan (env.getBlockHash pblock) pblock).orphansByPrev = node.orphansByPrev ++ [pblock] := by
    simp [orphansByPrev, BlockNode.addOrphan]
  constructor
  · exact h.kept
  · intro hash hhash
    exact (h.sound hash hhash).mono (Set.subset_insert _ _)
  · intro b hb
    rw [horphans]
    rcases Set.mem_insert_iff.mp hb with rfl | hb
    · exact .inr ⟨b, List.mem_append_right _ (List.mem_singleton.mpr rfl), rfl⟩
    · refine (h.covered b hb).imp_right ?_
      rintro ⟨b', hb', heq⟩
      exact ⟨b', List.mem_append_left _ hb', heq⟩
  · intro b hb
    rw [horphans, List.mem_append, List.mem_singleton] at hb
    rcases hb with hb | rfl
    · exact Set.mem_insert_of_mem _ (h.known b hb)
    · exact Set.mem_insert b arrived
  · intro b hb
    rw [hbyprev, List.mem_append, List.mem_singleton] at hb
    rcases hb with hb | rfl
    · exact Set.mem_insert_of_mem _ (h.filed b hb)
    · exact Set.mem_insert b arrived

/-- The block of a call that is known already. -/
theorem again (h : node.Covers env start arrived) (hknows : node.knows env (env.getBlockHash pblock))
    (hmirrored : node.Mirrored env) : node.Covers env start (insert pblock arrived) where
  kept := h.kept
  sound := fun hash hhash => (h.sound hash hhash).mono (Set.subset_insert _ _)
  covered := by
    intro b hb
    rcases Set.mem_insert_iff.mp hb with rfl | hb
    · refine hknows.imp_right ?_
      rintro ⟨entry, hentry, heq⟩
      refine ⟨entry.2, List.mem_map.mpr ⟨entry, hentry, rfl⟩, ?_⟩
      rw [← hmirrored.keyed entry hentry, heq]
    · exact h.covered b hb
  known := fun b hb => Set.mem_insert_of_mem _ (h.known b hb)
  filed := fun b hb => Set.mem_insert_of_mem _ (h.filed b hb)

end BlockNode.Covers

/-- A block that gets into the index while the genesis block is there has its parent there. -/
theorem AcceptCall.Inserts.parent {c : AcceptCall} (h : c.Inserts env horizon fCheckpoints)
    (hgenesis : c.node.tree.Indexed env env.hashGenesisBlock) : c.node.tree.Indexed env c.block.hashPrevBlock := by
  apply acceptChecks_parent h.1
  intro heq
  exact acceptChecks_new h.1 (heq ▸ hgenesis)

/-- What the loops keep when nothing is refused. The first map loses blocks during a round, but keeps its keys. -/
structure BlockNode.Loop (env : Env) (start : BlockTree) (arrived : Set CBlock) (node : BlockNode) : Prop where
  covers : node.Covers env start arrived
  keyed : ∀ entry ∈ node.mapOrphanBlocks, entry.1 = env.getBlockHash entry.2

theorem BlockNode.Loop.step (hgenesis : start.Indexed env env.hashGenesisBlock)
    {vWorkQueue vWorkQueue' : List Uint256} {b : CBlock} (hb : b ∈ arrived) (h : node.Loop env start arrived)
    (hC : (orphanCall call b node).Inserts env horizon fCheckpoints ∧ (orphanCall call b node).Completes env)
    (hrun : acceptOrphan env horizon fCheckpoints call vWorkQueue b node = (.ok vWorkQueue', node')) :
    node'.Loop env start arrived := by
  obtain ⟨r, tree', haccept, rfl, -⟩ := acceptOrphan_ok hrun
  rcases (orphanCall call b node).spec haccept with ⟨hnot, -⟩ | ⟨hinserts, hindex, -⟩
  · exact absurd hC.1 hnot
  · have hparent := hinserts.parent (h.covers.kept _ hgenesis)
    have haccepted : { node with tree := tree' }.Covers env start (insert b arrived) := h.covers.accept hindex hparent
    rw [Set.insert_eq_of_mem hb] at haccepted
    constructor
    · exact haccepted.eraseOrphan h.keyed ((hindex _).mpr (.inl rfl))
    · intro entry hentry
      exact h.keyed entry (List.mem_filter.mp hentry).1

theorem BlockNode.Loop.round (hgenesis : start.Indexed env env.hashGenesisBlock)
    {vWorkQueue vWorkQueue' : List Uint256} {hashPrev : Uint256} (h : node.Loop env start arrived)
    (hC : ∀ c ∈ orphanCalls env horizon fCheckpoints call (node.orphansOf hashPrev) node,
      c.Inserts env horizon fCheckpoints ∧ c.Completes env)
    (hrun : Proc.foldM (acceptOrphan env horizon fCheckpoints call) (node.orphansOf hashPrev) vWorkQueue node =
      (.ok vWorkQueue', node')) : (node'.eraseByPrev hashPrev).Loop env start arrived := by
  have hpass : node'.Loop env start arrived := by
    refine pass_rule (K := fun _ node => node.Loop env start arrived) ?_ h hC hrun
    intro b hb q node₁ q' node₂ hK hc hone
    have hentry := mem_orphansOf.mp hb
    exact hK.step hgenesis (h.covers.filed b (List.mem_map.mpr ⟨_, hentry, rfl⟩)) hc hone
  exact ⟨hpass.covers.eraseByPrev hashPrev, hpass.keyed⟩

/-- **A call that refuses nothing** accounts for its block. -/
theorem BlockNode.Covers.processBlock (h : node.Covers env start arrived) (hmirrored : node.Mirrored env)
    (hgenesis : start.Indexed env env.hashGenesisBlock) (hC : Welcome env horizon fCheckpoints call pblock node)
    (hrun : processBlock env horizon fCheckpoints call pblock node = (result, node'))
    (alive : ∀ e, result = .error e → e.fault ≠ .crash) : node'.Covers env start (insert pblock arrived) := by
  rcases processBlock_cases hrun alive with
    ⟨rfl, hwhy⟩ | ⟨-, -, rfl⟩ | ⟨hcomes, haccept⟩
  · rcases hC with hknows | ⟨hchecked, hwork, hpeer, -⟩
    · exact h.again hknows hmirrored
    · rcases hwhy with hknows | hnot | hnot | ⟨hwait, hnopeer⟩
      · exact h.again hknows hmirrored
      · exact absurd hchecked hnot
      · exact absurd hwork hnot
      · rw [hpeer hwait] at hnopeer
        cases hnopeer
  · exact h.addOrphan pblock
  · have hready : ¬ ParentUnknown env pblock node := by
      rintro ⟨hzero, hnot⟩
      exact hcomes.2.2.2.elim hzero hnot
    obtain ⟨-, -, -, hcalls⟩ := hC.resolve_left hcomes.1
    obtain ⟨⟨hinserts, hcompletes⟩, htail⟩ := List.forall_mem_cons.mp (hcalls hready)
    rcases haccept with ⟨e, tree', haccept, rfl⟩ | ⟨tree', haccept, hqueue⟩
    all_goals
      rcases AcceptCall.spec ⟨pblock, call.dbp, call.accept pblock, node⟩ haccept with ⟨hnot, -⟩ | ⟨-, hindex, hok⟩
    · exact absurd hinserts hnot
    · cases hok.mpr hcompletes
    · exact absurd hinserts hnot
    · rw [haccept] at htail
      have hparent := hinserts.parent (h.kept _ hgenesis)
      have hloop : { node with tree := tree' }.Loop env start (insert pblock arrived) :=
        ⟨h.accept hindex hparent, hmirrored.keyed⟩
      exact (queue_rule (J := fun _ node => node.Loop env start (insert pblock arrived))
        (fun hJ hc hpass => hJ.round hgenesis hc hpass) (queue_fuel _ _ _) hloop htail hqueue).covers

/-- Where nothing is refused, no orphan waits for a block that fails. -/
theorem Welcome.unawaited (h : Welcome env horizon fCheckpoints call pblock node) :
    Unawaited env horizon fCheckpoints call pblock node := by
  intro hcomes c hc _
  obtain ⟨-, -, -, hcalls⟩ := h.resolve_left hcomes.1
  have hready : ¬ ParentUnknown env pblock node := by
    rintro ⟨hzero, hnot⟩
    exact hcomes.2.2.2.elim hzero hnot
  exact .inl (hcalls hready c hc).2

end Tree

/-! ## Whole runs -/

section Runs

variable {env : Env} {horizon : EventHorizon} {fCheckpoints : Bool} {start : BlockTree} {arrived arrived' : List CBlock}
  {node node' : BlockNode} {P Q : BlockCall → CBlock → BlockNode → Prop}

theorem BlockRun.mono (hPQ : ∀ {call pblock node}, P call pblock node → Q call pblock node)
    (h : BlockRun env horizon fCheckpoints P start arrived node) :
    BlockRun env horizon fCheckpoints Q start arrived node := by
  induction h with
  | init => exact .init
  | call _ meets step alive ih => exact .call ih (hPQ meets) step alive

theorem BlockRun.mirrored (h : BlockRun env horizon fCheckpoints P start arrived node) : node.Mirrored env := by
  induction h with
  | init => constructor <;> simp [BlockNode.orphans, BlockNode.orphansByPrev]
  | call _ _ step alive ih => exact ih.processBlock step alive

theorem BlockRun.queued (h : BlockRun env horizon fCheckpoints (Unawaited env horizon fCheckpoints) start arrived node) :
    node.Queued env [] := by
  induction h with
  | init =>
    intro entry hentry
    cases hentry
  | call _ meets step alive ih => exact queued_processBlock ih meets step alive

/-- No orphan's parent is in the index. -/
theorem BlockRun.apart (h : BlockRun env horizon fCheckpoints (Unawaited env horizon fCheckpoints) start arrived node)
    {b : CBlock} (hb : b ∈ node.orphans) : ¬ node.tree.Indexed env b.hashPrevBlock := by
  intro hindexed
  have hentry := h.mirrored.mem_orphansByPrev.mp ((h.mirrored.same b).mp hb)
  exact absurd (h.queued _ hentry hindexed) List.not_mem_nil

theorem BlockRun.covers (hgenesis : start.Indexed env env.hashGenesisBlock)
    (h : BlockRun env horizon fCheckpoints (Welcome env horizon fCheckpoints) start arrived node) :
    node.Covers env start { b | b ∈ arrived } := by
  induction h with
  | init =>
    constructor
    · exact fun _ hhash => hhash
    · exact fun _ hhash => .start hhash
    · rintro b ⟨⟩
    · rintro b ⟨⟩
    · rintro b ⟨⟩
  | @call arrived node node' call pblock result run meets step alive ih =>
    have hset : { b | b ∈ pblock :: arrived } = insert pblock { b | b ∈ arrived } := by
      ext b
      simp
    rw [hset]
    exact ih.processBlock run.mirrored hgenesis meets step alive

/-- A run that refuses nothing ends with every block attached that can be. -/
theorem BlockRun.settled (hgenesis : start.Indexed env env.hashGenesisBlock)
    (h : BlockRun env horizon fCheckpoints (Welcome env horizon fCheckpoints) start arrived node) :
    Settled env.getBlockHash (·.hashPrevBlock) { hash | start.Indexed env hash } { b | b ∈ arrived }
      { hash | node.tree.Indexed env hash } { b | b ∈ node.orphans } := by
  have hcovers := h.covers hgenesis
  have hrun := h.mono (Q := Unawaited env horizon fCheckpoints) fun hmeets => hmeets.unawaited
  exact ⟨hcovers.kept, hcovers.sound, hcovers.covered, hcovers.known, fun b hb => hrun.apart hb⟩

end Runs

/-- **The orphan blocks.** Whatever arrives, both maps hold the same blocks. As long as no orphan waits for a block that
    gets into the index by a failing call, no orphan is left whose parent is in the index. And where nothing is refused,
    the blocks that have arrived decide which ones are in the index, in whatever order they came. -/
theorem orphanBlocks_drained (env : Env) (horizon : EventHorizon) (fCheckpoints : Bool) (start : BlockTree) :
    (∀ arrived node, BlockRun env horizon fCheckpoints (fun _ _ _ => True) start arrived node →
      ∀ b, b ∈ node.orphans ↔ b ∈ node.orphansByPrev) ∧
    (∀ arrived node, BlockRun env horizon fCheckpoints (Unawaited env horizon fCheckpoints) start arrived node →
      ∀ b ∈ node.orphans, ¬ node.tree.Indexed env b.hashPrevBlock) ∧
    (start.Indexed env env.hashGenesisBlock → ∀ arrived node arrived' node',
      BlockRun env horizon fCheckpoints (Welcome env horizon fCheckpoints) start arrived node →
      BlockRun env horizon fCheckpoints (Welcome env horizon fCheckpoints) start arrived' node' →
      (∀ b, b ∈ arrived ↔ b ∈ arrived') →
      (∀ b ∈ arrived, ∀ b' ∈ arrived, env.getBlockHash b = env.getBlockHash b' → b.hashPrevBlock = b'.hashPrevBlock) →
      ∀ hash, node.tree.Indexed env hash ↔ node'.tree.Indexed env hash) := by
  refine ⟨fun arrived node run => run.mirrored.same, fun arrived node run b hb => run.apart hb, ?_⟩
  intro hgenesis arrived node arrived' node' run run' hsame hkeyed hash
  have heq := (run.settled hgenesis).unique (run'.settled hgenesis) hkeyed (Set.ext hsame)
  exact Set.ext_iff.mp heq hash

/-! ## A block and its child, the child first -/

namespace Cakenet

/-- The network with a genesis block of another number, since a block without a parent names zero as its parent. -/
def rootEnv : Env := { env with hashGenesisBlock := 7 }

def rootIndex : CBlockIndex := ⟨{ genesis with nNonce := 7 }, []⟩

/-- No window ends early. -/
def farHorizon : EventHorizon := fun _ _ _ => false

/-- A block with the target that the first blocks have to have. -/
def easy (pprev : CBlockIndex) (id : Nat) (vtx : List CTransaction) : CBlockIndex :=
  let pindex := mine pprev id vtx
  { pindex with block := { pindex.block with nBits := 0x1f1fffff } }

/-- A call for a block that a peer sent; every write succeeds. -/
def fromPeer : BlockCall := ⟨true, false, 2000000000, fun _ => ⟨2000000000, true, true, true, true, fun _ => amb⟩⟩

/-- The node after such a call. -/
def receive (node : BlockNode) (block : CBlock) : BlockNode :=
  (processBlock rootEnv farHorizon false fromPeer block node).2

/-- The program goes on after it. -/
def goesOn (node : BlockNode) (block : CBlock) : Prop :=
  (processBlock rootEnv farHorizon false fromPeer block node).1 = .ok () ∨
    (processBlock rootEnv farHorizon false fromPeer block node).1 =
      .error (DoS 100 "ProcessBlock() : AcceptBlock FAILED")

instance (node : BlockNode) (block : CBlock) : Decidable (goesOn node block) := inferInstanceAs (Decidable (_ ∨ _))

theorem blockRun_receive {P : BlockCall → CBlock → BlockNode → Prop} {arrived : List CBlock} {node : BlockNode}
    (run : BlockRun rootEnv farHorizon false P (BlockTree.init rootIndex.block) arrived node) (block : CBlock)
    (meets : P fromPeer block node) (alive : goesOn node block) :
    BlockRun rootEnv farHorizon false P (BlockTree.init rootIndex.block) (block :: arrived) (receive node block) := by
  have step : processBlock rootEnv farHorizon false fromPeer block node =
      ((processBlock rootEnv farHorizon false fromPeer block node).1, receive node block) := rfl
  refine .call run meets step ?_
  intro e he
  rcases alive with hok | herror
  · rw [hok] at he
    cases he
  · rw [herror] at he
    cases he
    exact fun h => by cases h

def onlyRoot : BlockNode := ⟨BlockTree.init rootIndex.block, [], []⟩

def goodParent : CBlockIndex := easy rootIndex 8 []

def goodChild : CBlockIndex := easy goodParent 9 []

/-- **Both orders lead to the same index**: the block before its child, and the child before the block. -/
theorem orphanBlocks_twoOrders :
    (receive (receive onlyRoot goodParent.block) goodChild.block).tree.Indexed rootEnv 9 ↔
      (receive (receive onlyRoot goodChild.block) goodParent.block).tree.Indexed rootEnv 9 := by
  have run := blockRun_receive (P := Welcome rootEnv farHorizon false)
    (blockRun_receive .init goodParent.block (by decide +kernel) (by decide +kernel))
    goodChild.block (by decide +kernel) (by decide +kernel)
  have run' := blockRun_receive (P := Welcome rootEnv farHorizon false)
    (blockRun_receive .init goodChild.block (by decide +kernel) (by decide +kernel))
    goodParent.block (by decide +kernel) (by decide +kernel)
  refine (orphanBlocks_drained rootEnv farHorizon false (BlockTree.init rootIndex.block)).2.2 (by decide +kernel) _ _ _ _
    run run' ?_ ?_ 9
  · intro b
    simp [or_comm]
  · decide +kernel

/-- Coins that do not exist are paid: the block passes every check until it is connected. -/
def badParent : CBlockIndex := easy rootIndex 8 [missingTx]

def badChild : CBlockIndex := easy badParent 9 []

/-- The child comes first, and the block then gets into the index and fails. Its child stays among the orphans. -/
theorem orphanBlock_stranded :
    ¬ ∀ arrived node, BlockRun rootEnv farHorizon false (fun _ _ _ => True) (BlockTree.init rootIndex.block) arrived node →
      ∀ b ∈ node.orphans, ¬ node.tree.Indexed rootEnv b.hashPrevBlock := by
  intro h
  have run := blockRun_receive (P := fun _ _ _ => True)
    (blockRun_receive .init badChild.block trivial (by decide +kernel))
    badParent.block trivial (by decide +kernel)
  exact h _ _ run badChild.block (by decide +kernel) (by decide +kernel)

end Cakenet

end Syscoin

import Syscoin.Correctness.Faults

/-!
# `Correctness.Selection` — which blocks `ConnectBestBlock` tries, and where it ends

`TreeInv` is kept by every call of `AddToBlockIndex`, whatever it returns. Its core: the candidates and the marked
blocks are disjoint and make up all known blocks, and the best chain has no marked block. An ancestry check that
finds nothing therefore vouches for the whole chain of its candidate (`checkAncestry_clean`), the part below the
block where it stops included, so that a marked block is not tried again, and a call that returns true ends on the
most work to be had.

What the invariant does not give is that a block that was tried and failed gets marked. That takes the service rules:
`unconnectable_blocks_marked` is about runs in which they are kept, and says for a single call that the mark is set
iff they are.
-/

namespace Syscoin

open Lib

/-! ## The calls of one `SetBestChain` -/

section Attempts

variable {env : Env} {amb : Ambient} {pindexBest pindexNew : CBlockIndex} {node : Node} {a : Attempt} {e : Reject}

theorem connectAttempts_mem {vConnect : List CBlockIndex} {view : CoinsCache} {s : Store}
    (h : a ∈ connectAttempts env amb pindexBest vConnect view s) : a.pindex ∈ vConnect := by
  induction vConnect generalizing view s with
  | nil => simp [connectAttempts] at h
  | cons pindex vConnect ih =>
    rcases List.mem_cons.mp h with rfl | h
    · exact List.mem_cons_self
    · split at h
      · simp at h
      · exact List.mem_cons_of_mem _ (ih h)

/-- A call that fails is the one that `SetBestChain` reports. -/
theorem connectAttempts_failure {vConnect : List CBlockIndex} {view : CoinsCache} {s : Store}
    (h : a ∈ connectAttempts env amb pindexBest vConnect view s) (herr : a.result env = .error e) :
    firstFailure env (connectAttempts env amb pindexBest vConnect view s) = some (a.pindex, e) := by
  induction vConnect generalizing view s with
  | nil => simp [connectAttempts] at h
  | cons pindex vConnect ih =>
    rw [connectAttempts, firstFailure]
    rcases List.mem_cons.mp h with rfl | h
    · simp only [herr]
    · split at h
      · simp at h
      · rename_i view₁ s₁ hok
        have hhead : (⟨pindexBest, pindex, amb.nNow, view, s⟩ : Attempt).result env = .ok view₁ := by
          simp only [Attempt.result, hok]
        simp only [hhead]
        exact ih h

/-- A branch that is connected has no failure. -/
theorem connectAttempts_ok {vConnect : List CBlockIndex} {view view' : CoinsCache} {s s' : Store}
    (h : connectAll env amb pindexBest vConnect view s = (.ok view', s')) :
    firstFailure env (connectAttempts env amb pindexBest vConnect view s) = none := by
  unfold connectAll at h
  induction vConnect generalizing view s with
  | nil => rfl
  | cons pindex vConnect ih =>
    obtain ⟨view₁, s₁, hok, hrest⟩ := Proc.foldM_cons_ok_iff.mp h
    have hhead : (⟨pindexBest, pindex, amb.nNow, view, s⟩ : Attempt).result env = .ok view₁ := by
      simp only [Attempt.result, hok]
    simp only [connectAttempts, firstFailure, hhead, hok]
    exact ih hrest

theorem callAttempts_mem (h : a ∈ callAttempts env amb pindexNew node) :
    a.pindex ∈ connectedBy node pindexNew := by
  unfold callAttempts at h
  split at h
  · simp at h
  · exact connectAttempts_mem h

theorem callAttempts_failure (h : a ∈ callAttempts env amb pindexNew node) (herr : a.result env = .error e) :
    firstFailure env (callAttempts env amb pindexNew node) = some (a.pindex, e) := by
  unfold callAttempts at h ⊢
  split at h
  · simp at h
  · exact connectAttempts_failure h herr

theorem firstFailure_mem {attempts : List Attempt} {pindex : CBlockIndex}
    (h : firstFailure env attempts = some (pindex, e)) : ∃ a ∈ attempts, a.pindex = pindex := by
  induction attempts with
  | nil => cases h
  | cons a rest ih =>
    unfold firstFailure at h
    split at h
    · simp only [Option.some.injEq, Prod.mk.injEq] at h
      exact ⟨a, List.mem_cons_self, h.1⟩
    · obtain ⟨a', ha', hp⟩ := ih h
      exact ⟨a', List.mem_cons_of_mem _ ha', hp⟩

end Attempts

/-! ## One `SetBestChain` on the tree -/

namespace BlockTree

variable {env : Env} {tree tree' : BlockTree} {pindexNew : CBlockIndex}

/-- Nothing on the chain of the entry is marked. -/
def Clean (tree : BlockTree) (pindex : CBlockIndex) : Prop :=
  ∀ p ∈ CBlockIndex.lineage pindex.block pindex.ancestors, ¬ tree.failed p

/-- **A call that returns true** moves the best block and touches no mark; none of its calls failed. -/
theorem setBestChain_moves {amb : Ambient}
    (h : BlockTree.setBestChain env amb pindexNew tree = (.ok (), tree')) :
    firstFailure env (callAttempts env amb pindexNew tree.node) = none ∧
      tree' = { tree with node := tree'.node } ∧ tree'.node.pindexBest = pindexNew := by
  rcases hrun : Syscoin.setBestChain env amb pindexNew tree.node with ⟨result, node⟩
  have hnone : result = .ok () → firstFailure env (callAttempts env amb pindexNew tree.node) = none := by
    rintro rfl
    obtain ⟨view₁, s₁, view, s, hdis, hcon, -⟩ := setBestChain_ok hrun
    simp only [callAttempts, hdis]
    exact connectAttempts_ok hcon
  unfold BlockTree.setBestChain at h
  simp only [hrun] at h
  split at h
  · rename_i hff
    simp only [Prod.mk.injEq] at h
    obtain ⟨rfl, rfl⟩ := h
    obtain ⟨_, _, _, _, -, -, -, hcommit⟩ := setBestChain_ok hrun
    exact ⟨hff, rfl, by rw [hcommit]; rfl⟩
  · rename_i hff
    have hok : result = .ok () := by
      split at h <;> exact (Prod.mk.injEq .. ▸ h).1
    rw [hnone hok] at hff
    cases hff

/-- **A call that returns false** leaves the best block. It marks the block that did not connect iff the state was
    left invalid, and nothing else. -/
theorem setBestChain_stays {amb : Ambient} {e : Reject}
    (h : BlockTree.setBestChain env amb pindexNew tree = (.error e, tree')) :
    tree'.node.pindexBest = tree.node.pindexBest ∧
      ((tree' = { tree with node := tree'.node } ∧
          ∀ p e', firstFailure env (callAttempts env amb pindexNew tree.node) = some (p, e') →
            e'.fault.isInvalid = false) ∨
        ∃ p e', firstFailure env (callAttempts env amb pindexNew tree.node) = some (p, e') ∧
          e'.fault.isInvalid = true ∧ tree' = { tree with node := tree'.node }.invalidBlockFound p) := by
  rcases hrun : Syscoin.setBestChain env amb pindexNew tree.node with ⟨result, node⟩
  have hbest : result = .error e → node.pindexBest = tree.node.pindexBest := by
    rintro rfl
    rw [setBestChain_error hrun]
  unfold BlockTree.setBestChain at h
  simp only [hrun] at h
  split at h
  · rename_i hff
    simp only [Prod.mk.injEq] at h
    obtain ⟨rfl, rfl⟩ := h
    exact ⟨hbest rfl, .inl ⟨rfl, fun p e' hp => by rw [hff] at hp; cases hp⟩⟩
  · rename_i p e' hff
    split at h
    · rename_i hinv
      simp only [Prod.mk.injEq] at h
      obtain ⟨rfl, rfl⟩ := h
      exact ⟨hbest rfl, .inr ⟨p, e', hff, hinv, rfl⟩⟩
    · rename_i hinv
      simp only [Prod.mk.injEq] at h
      obtain ⟨rfl, rfl⟩ := h
      refine ⟨hbest rfl, .inl ⟨rfl, fun p₁ e₁ hp => ?_⟩⟩
      rw [hff, Option.some.injEq, Prod.mk.injEq] at hp
      rw [← hp.2]
      simpa using hinv

/-! ## The invariant -/

/-- Candidates and marked blocks share out the known ones, and the best chain has no marked block. -/
structure TreeInv (tree : BlockTree) : Prop where
  closed : ∀ p ∈ tree.mapBlockIndex, CBlockIndex.lineage p.block p.ancestors ⊆ tree.mapBlockIndex
  best : tree.node.pindexBest ∈ tree.mapBlockIndex
  candidate : ∀ p ∈ tree.setBlockIndexValid, p ∈ tree.mapBlockIndex ∧ ¬ tree.failed p
  marked : ∀ p, tree.failed p → p ∈ tree.mapBlockIndex
  covered : ∀ p ∈ tree.mapBlockIndex, p ∈ tree.setBlockIndexValid ∨ tree.failed p
  clean : tree.Clean tree.node.pindexBest

theorem TreeInv.init (genesis : CBlock) : TreeInv (BlockTree.init genesis) := by
  have hnone : ∀ p, ¬ (BlockTree.init genesis).failed p := by
    rintro p (h | h) <;> exact absurd h List.not_mem_nil
  refine ⟨?_, List.mem_cons_self, fun p hp => ⟨hp, hnone p⟩, fun p hp => absurd hp (hnone p), fun p hp => .inl hp,
    fun p _ => hnone p⟩
  intro p hp
  rw [BlockTree.init, List.mem_singleton] at hp
  rw [hp]
  exact fun q hq => hq

/-- The best block may move to any known block with a clean chain. -/
theorem TreeInv.move {node : Node} (inv : TreeInv tree) (hknown : node.pindexBest ∈ tree.mapBlockIndex)
    (hclean : tree.Clean node.pindexBest) : TreeInv { tree with node := node } :=
  ⟨inv.closed, hknown, inv.candidate, inv.marked, inv.covered, hclean⟩

/-- Known blocks off the best chain may be marked, if they are taken off the candidates as well. -/
theorem TreeInv.mark (inv : TreeInv tree) (above : List CBlockIndex)
    (habove : ∀ p ∈ above, p ∈ tree.mapBlockIndex ∧
      p ∉ CBlockIndex.lineage tree.node.pindexBest.block tree.node.pindexBest.ancestors)
    (hnode : tree'.node = tree.node) (hmap : tree'.mapBlockIndex = tree.mapBlockIndex)
    (hset : tree'.setBlockIndexValid = tree.setBlockIndexValid.filter (· ∉ above))
    (hfailed : ∀ p, tree'.failed p ↔ p ∈ above ∨ tree.failed p) : TreeInv tree' := by
  constructor
  · rw [hmap]; exact inv.closed
  · rw [hmap, hnode]; exact inv.best
  · intro p hp
    rw [hset, List.mem_filter, decide_eq_true_eq] at hp
    obtain ⟨hknown, hfresh⟩ := inv.candidate p hp.1
    rw [hmap, hfailed]
    exact ⟨hknown, fun h => h.elim hp.2 hfresh⟩
  · intro p hp
    rw [hmap]
    exact ((hfailed p).mp hp).elim (fun h => (habove p h).1) (inv.marked p)
  · intro p hp
    rw [hmap] at hp
    rw [hset, List.mem_filter, decide_eq_true_eq, hfailed]
    by_cases hin : p ∈ above
    · exact .inr (.inl hin)
    · exact (inv.covered p hp).imp (fun h => ⟨h, hin⟩) .inr
  · intro p hp
    rw [hnode] at hp
    rw [hfailed]
    exact fun h => h.elim (fun h => (habove p h).2 hp) (inv.clean p hp)

theorem TreeInv.setBestChain {amb : Ambient} {result : Except Reject Unit} (inv : TreeInv tree)
    (hknown : pindexNew ∈ tree.mapBlockIndex) (hclean : tree.Clean pindexNew)
    (h : BlockTree.setBestChain env amb pindexNew tree = (result, tree')) : TreeInv tree' := by
  cases result with
  | ok _ =>
    obtain ⟨-, htree, hbest⟩ := setBestChain_moves h
    rw [htree]
    exact inv.move (by rw [hbest]; exact hknown) (by rw [hbest]; exact hclean)
  | error e =>
    obtain ⟨hbest, hcases⟩ := setBestChain_stays h
    have hmoved : TreeInv { tree with node := tree'.node } :=
      inv.move (by rw [hbest]; exact inv.best) (by rw [hbest]; exact inv.clean)
    rcases hcases with ⟨htree, -⟩ | ⟨p, e', hff, -, htree⟩
    · rw [htree]; exact hmoved
    · -- the block that did not connect is above the fork
      obtain ⟨a, ha, rfl⟩ := firstFailure_mem hff
      obtain ⟨hnew, hoff⟩ := mem_connectedBy (callAttempts_mem ha)
      rw [htree]
      refine hmoved.mark [a.pindex] ?_ rfl rfl ?_ ?_
      · intro q hq
        rw [List.mem_singleton] at hq
        rw [hq, hbest]
        exact ⟨inv.closed pindexNew hknown hnew, hoff⟩
      · simp [invalidBlockFound]
      · intro q
        simp only [failed, invalidBlockFound, List.mem_cons, List.not_mem_nil, or_false]
        exact or_assoc

/-! ## The ancestry check -/

theorem checkAncestry_passed {block : CBlock} {ancestors : List CBlock} :
    (tree.checkAncestry block ancestors).passed ⊆ CBlockIndex.lineage block ancestors := by
  intro p hp
  induction ancestors generalizing block with
  | nil =>
    unfold checkAncestry at hp
    split at hp
    · simp at hp
    · exact hp
  | cons parent ancestors ih =>
    unfold checkAncestry at hp
    dsimp only at hp
    split at hp
    · simp at hp
    · split at hp
      · rw [List.mem_singleton] at hp
        rw [hp]
        exact List.mem_cons_self
      · rcases List.mem_cons.mp hp with rfl | hp
        · exact List.mem_cons_self
        · exact List.mem_cons_of_mem _ (ih hp)

/-- The check passes its candidate first, unless the candidate itself is marked. -/
theorem checkAncestry_head {pindex : CBlockIndex} (h : ¬ tree.failed pindex) :
    ∃ rest, (tree.checkAncestry pindex.block pindex.ancestors).passed = pindex :: rest := by
  obtain ⟨block, ancestors⟩ := pindex
  cases ancestors with
  | nil =>
    unfold checkAncestry
    rw [if_neg h]
    exact ⟨[], rfl⟩
  | cons parent ancestors =>
    unfold checkAncestry
    rw [if_neg h]
    split
    · exact ⟨[], rfl⟩
    · exact ⟨_, rfl⟩

/-- **A check that finds nothing vouches for the whole chain**: below the block where it stops lies the best chain. -/
theorem checkAncestry_clean {block : CBlock} {ancestors : List CBlock} (hbest : tree.Clean tree.node.pindexBest)
    (h : (tree.checkAncestry block ancestors).fFailed = false) : tree.Clean ⟨block, ancestors⟩ := by
  induction ancestors generalizing block with
  | nil =>
    unfold checkAncestry at h
    split at h
    · cases h
    · rename_i hroot
      intro p hp
      rw [CBlockIndex.lineage, List.mem_singleton] at hp
      rwa [hp]
  | cons parent ancestors ih =>
    unfold checkAncestry at h
    dsimp only at h
    split at h
    · cases h
    · rename_i htop
      split at h
      · rename_i hnext
        exact fun p hp => hbest p (lineage_trans (List.mem_of_mem_tail hnext) hp)
      · intro p hp
        rw [CBlockIndex.lineage, List.mem_cons] at hp
        rcases hp with rfl | hp
        · exact htop
        · exact ih h p hp

/-- A check that finds a marked block has passed blocks above it only. -/
theorem checkAncestry_failed {block : CBlock} {ancestors : List CBlock}
    (h : (tree.checkAncestry block ancestors).fFailed = true) :
    ∃ q, tree.failed q ∧ q ∈ CBlockIndex.lineage block ancestors ∧
      ∀ p ∈ (tree.checkAncestry block ancestors).passed, q ∈ CBlockIndex.lineage p.block p.ancestors := by
  induction ancestors generalizing block with
  | nil =>
    unfold checkAncestry at h ⊢
    split at h
    · rename_i hroot
      rw [if_pos hroot]
      exact ⟨_, hroot, List.mem_cons_self, by simp⟩
    · cases h
  | cons parent ancestors ih =>
    unfold checkAncestry at h ⊢
    dsimp only at h ⊢
    split at h
    · rename_i htop
      simp only [if_pos htop]
      exact ⟨_, htop, List.mem_cons_self, by simp⟩
    · rename_i htop
      split at h
      · cases h
      · rename_i hnext
        obtain ⟨q, hq, hmem, hpassed⟩ := ih h
        simp only [if_neg htop, if_neg hnext]
        refine ⟨q, hq, List.mem_cons_of_mem _ hmem, fun p hp => ?_⟩
        rcases List.mem_cons.mp hp with rfl | hp
        · exact List.mem_cons_of_mem _ hmem
        · exact hpassed p hp

/-! ## The rounds of the selection -/

theorem mostWork_eq_none {candidates : List CBlockIndex} (h : CBlockIndex.mostWork env candidates = none) :
    candidates = [] := by
  cases candidates with
  | nil => rfl
  | cons head rest =>
    unfold CBlockIndex.mostWork at h
    split at h
    · cases h
    · split at h <;> cases h

theorem mostWork_spec {candidates : List CBlockIndex} {pindex : CBlockIndex}
    (h : CBlockIndex.mostWork env candidates = some pindex) :
    pindex ∈ candidates ∧ ∀ p ∈ candidates, p.nChainWork ≤ pindex.nChainWork := by
  induction candidates generalizing pindex with
  | nil => cases h
  | cons head rest ih =>
    unfold CBlockIndex.mostWork at h
    split at h
    · rename_i hnone
      rw [Option.some.injEq] at h
      subst h
      rw [mostWork_eq_none hnone]
      simp
    · rename_i other hother
      obtain ⟨hmem, hmax⟩ := ih hother
      split at h
      · rename_i hless
        rw [Option.some.injEq] at h
        subst h
        refine ⟨List.mem_cons_of_mem _ hmem, List.forall_mem_cons.mpr ⟨?_, hmax⟩⟩
        unfold CBlockIndex.worksLess at hless
        omega
      · rename_i hless
        rw [Option.some.injEq] at h
        subst h
        refine ⟨List.mem_cons_self, List.forall_mem_cons.mpr ⟨le_rfl, fun p hp => ?_⟩⟩
        have hle := hmax p hp
        unfold CBlockIndex.worksLess at hless
        omega

/-- What the rounds come to: candidates were dropped and marked, and the blocks to switch to end with the candidate
    of the most work, unless the best block has as much already. -/
structure Settles (tree tree₁ : BlockTree) (vAttach : List CBlockIndex) : Prop where
  inv : TreeInv tree₁
  node : tree₁.node = tree.node
  map : tree₁.mapBlockIndex = tree.mapBlockIndex
  valid : tree₁.failedValid = tree.failedValid
  attach : ∀ p ∈ vAttach, p ∈ tree₁.mapBlockIndex ∧ tree₁.Clean p
  most : (vAttach = [] ∧ ∀ p ∈ tree₁.setBlockIndexValid, p.nChainWork ≤ tree₁.node.pindexBest.nChainWork) ∨
    ∃ below pindex, vAttach = below ++ [pindex] ∧ ∀ p ∈ tree₁.setBlockIndexValid, p.nChainWork ≤ pindex.nChainWork

/-- The best block is a candidate itself. -/
theorem TreeInv.best_candidate (inv : TreeInv tree) : tree.node.pindexBest ∈ tree.setBlockIndexValid :=
  (inv.covered _ inv.best).resolve_right (inv.clean _ (mem_lineage_self _))

/-- A round that meets a marked block keeps the invariant. -/
theorem TreeInv.round {pindex : CBlockIndex} (inv : TreeInv tree) (hcand : pindex ∈ tree.setBlockIndexValid)
    (hfailed : (tree.checkAncestry pindex.block pindex.ancestors).fFailed = true) :
    TreeInv (tree.markFailedChild (tree.checkAncestry pindex.block pindex.ancestors).passed) := by
  obtain ⟨q, hq, -, hpassed⟩ := checkAncestry_failed hfailed
  refine inv.mark (tree.checkAncestry pindex.block pindex.ancestors).passed (fun p hp => ?_) rfl rfl rfl fun p => ?_
  · refine ⟨inv.closed pindex (inv.candidate pindex hcand).1 (checkAncestry_passed hp), fun hbest => ?_⟩
    -- a marked block below one of the best chain would be on the best chain
    exact inv.clean q (lineage_trans hbest (hpassed p hp)) hq
  · simp only [failed, markFailedChild, List.mem_append]
    tauto

/-- **The rounds come to an end.** Each one that does not return takes a candidate away. -/
theorem settle_spec {rounds : Nat} (inv : TreeInv tree) (hrounds : tree.setBlockIndexValid.length < rounds) :
    ∃ tree₁ vAttach, tree.settle env rounds = some (tree₁, vAttach) ∧ Settles tree tree₁ vAttach := by
  induction rounds generalizing tree with
  | zero => omega
  | succ rounds ih =>
    unfold settle
    cases hmost : CBlockIndex.mostWork env tree.setBlockIndexValid with
    | none =>
      refine ⟨tree, [], rfl, inv, rfl, rfl, rfl, by simp, .inl ⟨rfl, ?_⟩⟩
      rw [mostWork_eq_none hmost]
      simp
    | some pindexNewBest =>
      obtain ⟨hcand, hmax⟩ := mostWork_spec hmost
      dsimp only
      split
      · rename_i hdone
        refine ⟨tree, [], rfl, inv, rfl, rfl, rfl, by simp, .inl ⟨rfl, fun p hp => ?_⟩⟩
        rcases hdone with hdone | hdone
        · rw [← hdone]; exact hmax p hp
        · rw [← hdone]; exact hmax p hp
      · rename_i hmore
        obtain ⟨rest, hhead⟩ := checkAncestry_head (inv.candidate pindexNewBest hcand).2
        split
        · rename_i hfailed
          -- the candidate itself is among the blocks that are dropped
          have hshort : (tree.markFailedChild
              (tree.checkAncestry pindexNewBest.block pindexNewBest.ancestors).passed).setBlockIndexValid.length
              < tree.setBlockIndexValid.length := by
            refine List.length_filter_lt_length_iff_exists.mpr ⟨pindexNewBest, hcand, ?_⟩
            simp [hhead]
          obtain ⟨tree₁, vAttach, hsettle, hrest⟩ := ih (inv.round hcand hfailed) (by omega)
          exact ⟨tree₁, vAttach, hsettle, hrest.inv, hrest.node, hrest.map, hrest.valid, hrest.attach, hrest.most⟩
        · rename_i hfine
          have hclean := checkAncestry_clean inv.clean (Bool.not_eq_true _ ▸ hfine)
          refine ⟨tree, _, rfl, inv, rfl, rfl, rfl, fun p hp => ?_, .inr ?_⟩
          · have hp := checkAncestry_passed (List.mem_of_mem_filter (List.mem_reverse.mp hp))
            exact ⟨inv.closed _ (inv.candidate _ hcand).1 hp, fun q hq => hclean q (lineage_trans hp hq)⟩
          · have hless : tree.node.pindexBest.nChainWork < pindexNewBest.nChainWork := by
              have hle := hmax _ inv.best_candidate
              have hne : pindexNewBest.nChainWork ≠ tree.node.pindexBest.nChainWork := fun h => hmore (.inr h)
              omega
            rw [vAttach, hhead, List.filter_cons_of_pos (by simpa using hless), List.reverse_cons]
            exact ⟨_, pindexNewBest, rfl, hmax⟩

/-! ## The switch -/

/-- What a series of calls comes to, whatever it returns: no marked block was tried, and of the blocks that did not
    connect exactly those are marked whose failure left the state invalid. -/
structure Switches (env : Env) (tree tree' : BlockTree) (attempts : List Attempt) : Prop where
  inv : TreeInv tree'
  map : tree'.mapBlockIndex = tree.mapBlockIndex
  valid : tree.failedValid ⊆ tree'.failedValid
  tried : ∀ a ∈ attempts, ¬ tree.failed a.pindex
  marks : ∀ a ∈ attempts, ∀ e, a.result env = .error e →
    (a.pindex ∈ tree'.failedValid ↔ e.fault.isInvalid = true)

theorem setBestChain_switches {amb : Ambient} {result : Except Reject Unit} (inv : TreeInv tree)
    (hknown : pindexNew ∈ tree.mapBlockIndex) (hclean : tree.Clean pindexNew)
    (h : BlockTree.setBestChain env amb pindexNew tree = (result, tree')) :
    Switches env tree tree' (callAttempts env amb pindexNew tree.node) := by
  have htried : ∀ a ∈ callAttempts env amb pindexNew tree.node, ¬ tree.failed a.pindex :=
    fun a ha => hclean _ (mem_connectedBy (callAttempts_mem ha)).1
  refine ⟨inv.setBestChain hknown hclean h, ?_, ?_, htried, ?_⟩
  · cases result with
    | ok _ => rw [(setBestChain_moves h).2.1]
    | error e =>
      rcases (setBestChain_stays h).2 with ⟨htree, -⟩ | ⟨_, _, -, -, htree⟩
      · rw [htree]
      · rw [htree]; rfl
  · cases result with
    | ok _ =>
      rw [(setBestChain_moves h).2.1]
      exact List.Subset.refl _
    | error e =>
      rcases (setBestChain_stays h).2 with ⟨htree, -⟩ | ⟨_, _, -, -, htree⟩ <;> rw [htree]
      · exact List.Subset.refl _
      · exact List.subset_cons_self _ _
  · intro a ha e herr
    have hff := callAttempts_failure ha herr
    cases result with
    | ok _ =>
      rw [(setBestChain_moves h).1] at hff
      cases hff
    | error _ =>
      rcases (setBestChain_stays h).2 with ⟨htree, hsilent⟩ | ⟨p, e', hff', hinv, htree⟩
      · rw [htree, hsilent _ _ hff]
        exact iff_of_false (fun hin => htried a ha (.inl hin)) Bool.false_ne_true
      · rw [hff, Option.some.injEq, Prod.mk.injEq] at hff'
        rw [htree, hff'.1, hff'.2, hinv]
        exact iff_of_true List.mem_cons_self rfl

theorem switchTo_switches {amb : CBlockIndex → Ambient} {vAttach : List CBlockIndex} {result : Except Reject Unit}
    (inv : TreeInv tree) (hattach : ∀ p ∈ vAttach, p ∈ tree.mapBlockIndex ∧ tree.Clean p)
    (h : switchTo env amb vAttach tree = (result, tree')) :
    Switches env tree tree' (switchAttempts env amb vAttach tree) := by
  unfold switchTo at h
  induction vAttach generalizing tree with
  | nil =>
    rw [Proc.foldM_nil, Prod.mk.injEq] at h
    obtain ⟨-, rfl⟩ := h
    exact ⟨inv, rfl, List.Subset.refl _, by simp [switchAttempts], by simp [switchAttempts]⟩
  | cons pindexSwitch vAttach ih =>
    obtain ⟨⟨hknown, hclean⟩, hrest⟩ := List.forall_mem_cons.mp hattach
    rw [Proc.foldM_cons] at h
    unfold switchAttempts
    rcases hcall : BlockTree.setBestChain env (amb pindexSwitch) pindexSwitch tree with ⟨_ | _, tree₁⟩
    · -- the first failure ends the series
      rw [hcall, Prod.mk.injEq] at h
      rw [List.append_nil, ← h.2]
      exact setBestChain_switches inv hknown hclean hcall
    · rw [hcall] at h
      have hfirst := setBestChain_switches inv hknown hclean hcall
      have htree₁ := (setBestChain_moves hcall).2.1
      have hfailed : ∀ p, tree₁.failed p ↔ tree.failed p := by
        intro p
        rw [htree₁]
        exact Iff.rfl
      have hnext := ih hfirst.inv (fun p hp => by
        rw [hfirst.map]
        exact ⟨(hrest p hp).1, fun q hq => (hfailed q).not.mpr ((hrest p hp).2 q hq)⟩) h
      refine ⟨hnext.inv, hnext.map.trans hfirst.map, List.Subset.trans hfirst.valid hnext.valid,
        fun a ha => ?_, fun a ha e herr => ?_⟩
      · rcases List.mem_append.mp ha with ha | ha
        · exact hfirst.tried a ha
        · exact (hfailed _).not.mp (hnext.tried a ha)
      · rcases List.mem_append.mp ha with ha | ha
        · -- nothing failed in a call that returned true
          have hff := callAttempts_failure ha herr
          rw [(setBestChain_moves hcall).1] at hff
          cases hff
        · exact hnext.marks a ha e herr

theorem switchTo_ok {amb : CBlockIndex → Ambient} {vAttach : List CBlockIndex}
    (h : switchTo env amb vAttach tree = (.ok (), tree')) :
    tree' = { tree with node := tree'.node } ∧
      ∀ below pindex, vAttach = below ++ [pindex] → tree'.node.pindexBest = pindex := by
  unfold switchTo at h
  refine ⟨?_, ?_⟩
  · refine Proc.foldM_ok_invariant (J := fun _ t => t = { tree with node := t.node }) ?_ rfl h
    intro p _ _ t _ t' ht hcall
    rw [(setBestChain_moves hcall).2.1, ht]
  · rintro below pindex rfl
    obtain ⟨_, tree₁, -, hlast⟩ := Proc.foldM_snoc_ok_iff.mp h
    exact (setBestChain_moves hlast).2.2

/-! ## `AddToBlockIndex` -/

/-- The best block has the most work of all known blocks with a clean chain, and a clean chain itself. -/
def OnMostWork (tree : BlockTree) : Prop :=
  tree.Clean tree.node.pindexBest ∧
    ∀ p ∈ tree.mapBlockIndex, tree.Clean p → p.nChainWork ≤ tree.node.pindexBest.nChainWork

theorem TreeInv.insert {block : CBlock} (inv : TreeInv tree) (hnew : tree.find env (env.getBlockHash block) = none) :
    TreeInv (tree.insert env block) := by
  have hfresh : ∀ p ∈ tree.mapBlockIndex, p ≠ tree.newIndex env block := by
    rintro p hp rfl
    have := List.find?_eq_none.mp hnew _ hp
    simp [newIndex] at this
  refine ⟨?_, List.mem_cons_of_mem _ inv.best, ?_, fun p hp => List.mem_cons_of_mem _ (inv.marked p hp), ?_,
    inv.clean⟩
  · intro p hp q hq
    rcases List.mem_cons.mp hp with rfl | hp
    · cases hprev : tree.find env block.hashPrevBlock with
      | none =>
        simp only [newIndex, hprev, Option.map_none, Option.getD_none, CBlockIndex.lineage, List.mem_singleton] at hq
        rw [hq]
        simp [BlockTree.insert, newIndex, hprev]
      | some pprev =>
        simp only [newIndex, hprev, Option.map_some, Option.getD_some, CBlockIndex.chain, CBlockIndex.lineage,
          List.mem_cons] at hq
        rcases hq with rfl | hq
        · simp [BlockTree.insert, newIndex, hprev, CBlockIndex.chain]
        · exact List.mem_cons_of_mem _ (inv.closed pprev (List.mem_of_find?_eq_some hprev) hq)
    · exact List.mem_cons_of_mem _ (inv.closed p hp hq)
  · intro p hp
    rcases List.mem_cons.mp hp with rfl | hp
    · exact ⟨List.mem_cons_self, fun hfailed => hfresh _ (inv.marked _ hfailed) rfl⟩
    · exact ⟨List.mem_cons_of_mem _ (inv.candidate p hp).1, (inv.candidate p hp).2⟩
  · intro p hp
    rcases List.mem_cons.mp hp with rfl | hp
    · exact .inl List.mem_cons_self
    · exact (inv.covered p hp).imp_left (List.mem_cons_of_mem _)

/-- What a call of `AddToBlockIndex` comes to. -/
structure Adds (env : Env) (tree tree' : BlockTree) (attempts : List Attempt) (result : Except Reject Unit) : Prop where
  inv : TreeInv tree'
  valid : tree.failedValid ⊆ tree'.failedValid
  tried : ∀ a ∈ attempts, a.pindex ∉ tree.failedValid
  marks : ∀ a ∈ attempts, ∀ e, a.result env = .error e →
    (a.pindex ∈ tree'.failedValid ↔ e.fault.isInvalid = true)
  most : result = .ok () → tree'.OnMostWork

theorem settled_isSome {block : CBlock} (inv : TreeInv tree)
    (hnew : tree.find env (env.getBlockHash block) = none) :
    ∃ tree₁ vAttach, (tree.insert env block).settled env = some (tree₁, vAttach) ∧
      Settles (tree.insert env block) tree₁ vAttach :=
  settle_spec (inv.insert hnew) (Nat.lt_succ_self _)

theorem addToBlockIndex_adds {amb : CBlockIndex → Ambient} {block : CBlock} {result : Except Reject Unit}
    (inv : TreeInv tree) (h : addToBlockIndex env amb block tree = (result, tree')) :
    Adds env tree tree' (addAttempts env amb block tree) result := by
  unfold addToBlockIndex at h
  unfold addAttempts
  split at h
  · rename_i hdup
    rw [Prod.mk.injEq] at h
    obtain ⟨rfl, rfl⟩ := h
    rw [if_pos hdup]
    exact ⟨inv, List.Subset.refl _, by simp, by simp, fun h => by cases h⟩
  · rename_i hnew
    have hnone : tree.find env (env.getBlockHash block) = none := by simpa using hnew
    obtain ⟨tree₁, vAttach, hsettled, hsettles⟩ := settled_isSome inv hnone
    simp only [connectBestBlock, hsettled] at h
    simp only [if_neg hnew, hsettled]
    have hswitch := switchTo_switches hsettles.inv hsettles.attach h
    have hvalid : tree₁.failedValid = tree.failedValid := hsettles.valid
    refine ⟨hswitch.inv, hvalid ▸ hswitch.valid, fun a ha hin => ?_, hswitch.marks, ?_⟩
    · rw [← hvalid] at hin
      exact hswitch.tried a ha (.inl hin)
    · rintro rfl
      obtain ⟨htree, hlast⟩ := switchTo_ok h
      refine ⟨hswitch.inv.clean, fun p hp hclean => ?_⟩
      -- a known block with a clean chain is still a candidate
      have hcand : p ∈ tree'.setBlockIndexValid :=
        (hswitch.inv.covered p hp).resolve_right (hclean p (mem_lineage_self p))
      have hsame : tree'.setBlockIndexValid = tree₁.setBlockIndexValid := by rw [htree]
      rw [hsame] at hcand
      rcases hsettles.most with ⟨rfl, hmost⟩ | ⟨below, pindex, hattach, hmost⟩
      · simp only [switchTo, Proc.foldM_nil, Prod.mk.injEq] at h
        rw [← h.2]
        exact hmost p hcand
      · rw [hlast below pindex hattach]
        exact hmost p hcand

end BlockTree

/-! ## Runs -/

section Run

variable {env : Env} {genesis : CBlock} {rejected : List CBlockIndex} {tree : BlockTree}

theorem mem_rejectedBy {attempts : List Attempt} {pindex : CBlockIndex} (h : pindex ∈ rejectedBy env attempts) :
    ∃ a ∈ attempts, a.pindex = pindex ∧ ∃ e, a.result env = .error e ∧ e.fault ≠ .crash := by
  unfold rejectedBy at h
  obtain ⟨a, ha, hp⟩ := List.mem_map.mp h
  obtain ⟨hmem, hfail⟩ := List.mem_filter.mp ha
  refine ⟨a, hmem, hp, ?_⟩
  split at hfail
  · rename_i e herr
    exact ⟨e, herr, by simpa using hfail⟩
  · cases hfail

theorem TreeRun.inv {C : Attempt → Prop} (run : TreeRun env C genesis rejected tree) : tree.TreeInv := by
  induction run with
  | init => exact .init genesis
  | add _ added _ _ ih => exact (BlockTree.addToBlockIndex_adds ih added).inv

/-- Along a run that keeps the service rules, whatever was found unconnectable is marked. -/
theorem TreeRun.rejected_marked (run : TreeRun env (fun a => a.argsKept ∧ a.rulesKept env) genesis rejected tree) :
    rejected ⊆ tree.failedValid := by
  induction run with
  | init => exact List.nil_subset _
  | add run added _ meets ih =>
    have hadds := BlockTree.addToBlockIndex_adds run.inv added
    intro pindex hin
    rcases List.mem_append.mp hin with hin | hin
    · obtain ⟨a, ha, rfl, e, herr, halive⟩ := mem_rejectedBy hin
      obtain ⟨hargs, hrules⟩ := meets a ha
      exact (hadds.marks a ha e herr).mpr ((Attempt.isInvalid_iff hargs herr halive).mpr hrules)
    · exact hadds.valid (ih hin)

/-- **Blocks that do not connect are marked, and not tried again, as long as the service rules are kept.** In a run in
    which every transaction that `ConnectBlock` gets to keeps them, the blocks found unconnectable are marked and no
    candidates; the next call of `AddToBlockIndex` tries none of them, and if it returns true the node is on the most
    work. Of the calls of `ConnectBlock` that it makes and that return false, exactly those whose transactions keep the
    service rules leave the state invalid and the block marked. -/
theorem unconnectable_blocks_marked
    (run : TreeRun env (fun a => a.argsKept ∧ a.rulesKept env) genesis rejected tree) :
    (∀ pindex ∈ rejected, pindex ∈ tree.failedValid ∧ pindex ∉ tree.setBlockIndexValid) ∧
    ∀ amb block result tree', BlockTree.addToBlockIndex env amb block tree = (result, tree') →
      (tree.find env (env.getBlockHash block) = none → ((tree.insert env block).settled env).isSome = true) ∧
      (∀ a ∈ BlockTree.addAttempts env amb block tree, a.pindex ∉ rejected) ∧
      (∀ a ∈ BlockTree.addAttempts env amb block tree, a.argsKept → ∀ e, a.result env = .error e →
        e.fault ≠ .crash →
          ((e.fault.isInvalid = true ↔ a.rulesKept env) ∧ (a.pindex ∈ tree'.failedValid ↔ a.rulesKept env))) ∧
      (result = .ok () → tree'.OnMostWork) := by
  have hmarked := run.rejected_marked
  refine ⟨fun pindex hin => ?_, fun amb block result tree' added => ?_⟩
  · exact ⟨hmarked hin, fun hcand => (run.inv.candidate pindex hcand).2 (.inl (hmarked hin))⟩
  · have hadds := BlockTree.addToBlockIndex_adds run.inv added
    refine ⟨fun hnew => ?_, fun a ha hin => hadds.tried a ha (hmarked hin), fun a ha hargs e herr halive => ?_,
      hadds.most⟩
    · obtain ⟨tree₁, vAttach, hsettled, -⟩ := BlockTree.settled_isSome run.inv hnew
      rw [hsettled]
      rfl
    · have hiff := Attempt.isInvalid_iff hargs herr halive
      exact ⟨hiff, (hadds.marks a ha e herr).trans hiff⟩

end Run

namespace Cakenet

/-- A block with some work; the others of this network have none. -/
def heavy (pprev : CBlockIndex) (id : Nat) (vtx : List CTransaction) : CBlockIndex :=
  let pindex := mine pprev id vtx
  { pindex with block := { pindex.block with nBits := 0x207fffff } }

/-- A call of `AddToBlockIndex` in the surroundings of this network. -/
def add (block : CBlock) (tree : BlockTree) : Except Reject Unit × BlockTree :=
  BlockTree.addToBlockIndex env (fun _ => amb) block tree

def attempts (block : CBlock) (tree : BlockTree) : List Attempt :=
  BlockTree.addAttempts env (fun _ => amb) block tree

/-- The program goes on after the call. -/
def survives (block : CBlock) (tree : BlockTree) : Bool :=
  match (add block tree).1 with
  | .ok _ => true
  | .error e => e.fault ≠ .crash

theorem treeRun_add {C : Attempt → Prop} {rejected : List CBlockIndex} {tree : BlockTree}
    (run : TreeRun env C genesis rejected tree) (block : CBlock) (alive : survives block tree = true)
    (meets : ∀ a ∈ attempts block tree, C a) :
    TreeRun env C genesis (rejectedBy env (attempts block tree) ++ rejected) (add block tree).2 := by
  have added : add block tree = ((add block tree).1, (add block tree).2) := rfl
  refine .add run added (fun e herr => ?_) meets
  simpa [survives, herr] using alive

/-- Blocks are added one after the other, and none of them is tried. -/
def idles : List CBlock → BlockTree → Bool
  | [], _ => true
  | block :: blocks, tree =>
    survives block tree && (attempts block tree).isEmpty && idles blocks (add block tree).2

def addAll : List CBlock → BlockTree → BlockTree
  | [], tree => tree
  | block :: blocks, tree => addAll blocks (add block tree).2

theorem treeRun_addAll {C : Attempt → Prop} {rejected : List CBlockIndex} {tree : BlockTree} {blocks : List CBlock}
    (run : TreeRun env C genesis rejected tree) (h : idles blocks tree = true) :
    TreeRun env C genesis rejected (addAll blocks tree) := by
  induction blocks generalizing tree with
  | nil => exact run
  | cons block blocks ih =>
    simp only [idles, Bool.and_eq_true, List.isEmpty_iff] at h
    obtain ⟨⟨halive, hnone⟩, hrest⟩ := h
    have hstep := treeRun_add run block halive (by simp [hnone])
    rw [hnone] at hstep
    exact ih hstep hrest

/-- Eight blocks without work. The node knows them and stays on the genesis block. -/
def tree8 : BlockTree := addAll (block8.chain.reverse.drop 1) (BlockTree.init genesis)

theorem treeRun_tree8 {C : Attempt → Prop} : TreeRun env C genesis [] tree8 :=
  treeRun_addAll .init (by decide +kernel)

/-- Three blocks on top, all of the same work: with coins that do not exist, with the update of a name that is not
    held, and with nothing. -/
def lossBlock9 : CBlockIndex := heavy block8 9 [missingTx]

def unheldUpdateTx : CTransaction := syscoin 105 [⟨1, 5⟩] [service 3 [vchName, [2]]] []

def unheldBlock9 : CBlockIndex := heavy block8 9 [unheldUpdateTx]

def plainBlock9 : CBlockIndex := heavy block8 10 []

/-- A block that spends what is not there is marked, and the node goes on to the next one. -/
theorem lost_block_marked :
    ∃ rejected tree, TreeRun env (fun a => a.argsKept ∧ a.rulesKept env) genesis rejected tree ∧
      lossBlock9 ∈ rejected ∧ lossBlock9 ∈ tree.failedValid ∧ lossBlock9 ∉ tree.setBlockIndexValid ∧
      (∀ a ∈ attempts plainBlock9.block tree, a.pindex ∉ rejected) ∧
      (add plainBlock9.block tree).2.node.pindexBest = plainBlock9 ∧ (add plainBlock9.block tree).2.OnMostWork := by
  have run := treeRun_add (C := fun a => a.argsKept ∧ a.rulesKept env) treeRun_tree8 lossBlock9.block
    (by decide +kernel) (by decide +kernel)
  obtain ⟨rejected, tree, run, hin, hok, hbest⟩ : ∃ rejected tree,
      TreeRun env (fun a => a.argsKept ∧ a.rulesKept env) genesis rejected tree ∧ lossBlock9 ∈ rejected ∧
        (add plainBlock9.block tree).1.isOk = true ∧
        (add plainBlock9.block tree).2.node.pindexBest = plainBlock9 :=
    ⟨_, _, run, by decide +kernel, by decide +kernel, by decide +kernel⟩
  obtain ⟨hmarked, hnext⟩ := unconnectable_blocks_marked run
  rcases hadd : add plainBlock9.block tree with ⟨result, tree'⟩
  rw [hadd] at hok hbest
  obtain ⟨-, htried, -, hmost⟩ := hnext (fun _ => amb) plainBlock9.block result tree' hadd
  refine ⟨rejected, tree, run, hin, (hmarked _ hin).1, (hmarked _ hin).2, htried, by rw [hadd]; exact hbest, ?_⟩
  rw [hadd]
  cases result with
  | ok _ => exact hmost rfl
  | error _ => cases hok

/-- A block that breaks an alias rule is not marked and stays a candidate. The next call tries it again and gives up,
    although the block that was added connects. -/
theorem unheld_update_tried_again :
    ∃ rejected tree, TreeRun env (fun _ => True) genesis rejected tree ∧
      unheldBlock9 ∈ rejected ∧ unheldBlock9 ∉ tree.failedValid ∧ unheldBlock9 ∈ tree.setBlockIndexValid ∧
      (∃ a ∈ attempts plainBlock9.block tree, a.pindex = unheldBlock9) ∧
      (add plainBlock9.block tree).1.isOk = false ∧
      (add plainBlock9.block tree).2.node.pindexBest = ⟨genesis, []⟩ ∧
      (setBestChain env amb plainBlock9 (add plainBlock9.block tree).2.node).1.isOk = true := by
  have run := treeRun_add (C := fun _ => True) treeRun_tree8 unheldBlock9.block (by decide +kernel) fun _ _ => trivial
  refine ⟨_, _, run, ?_, ?_, ?_, ?_, ?_, ?_, ?_⟩
  · decide +kernel
  · decide +kernel
  · decide +kernel
  · decide +kernel
  · decide +kernel
  · decide +kernel
  · decide +kernel

end Cakenet

end Syscoin

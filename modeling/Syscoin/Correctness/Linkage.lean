import Syscoin.Chain.Linkage
import Syscoin.Chain.BlockTree

/-!
# `Correctness.Linkage` — the pointers follow the best block

`ChainRun.linkage`: whatever tips `SetBestChain` was given and whatever was looked up in between, `pnext` is threaded
through the branch of `pindexBest`, the coins belong to that block, and `FindBlockByHeight` finds each block of the
branch from any block of it. Two things carry the proof: `Forest.Threads.move`, applied to the two lists of the call,
and that a call forgets the block found last, so that no block of a branch left behind is remembered.
-/

namespace Syscoin

open Lib

/-! ## The lists of a call -/

section Lists

variable {block : CBlock} {ancestors : List CBlock} {p pindexNew : CBlockIndex} {pfork best : Option CBlockIndex}

theorem mem_lineage_iff :
    p ∈ CBlockIndex.lineage block ancestors ↔ CBlockIndex.forest.Ancestor p (some ⟨block, ancestors⟩) := by
  induction ancestors generalizing block with
  | nil =>
    rw [CBlockIndex.lineage, List.mem_singleton, Forest.ancestor_some_iff]
    exact ⟨.inl, fun h => h.resolve_right Forest.not_ancestor_none⟩
  | cons parent ancestors ih =>
    rw [CBlockIndex.lineage, List.mem_cons, ih]
    exact Forest.ancestor_some_iff.symm

/-- The loop collects the path down to the fork. -/
theorem path_pushDown (hfork : ∀ q ∈ pfork, CBlockIndex.forest.Ancestor q (some ⟨block, ancestors⟩)) :
    CBlockIndex.forest.Path (some ⟨block, ancestors⟩) (ChainState.pushDown pfork block ancestors) pfork := by
  induction ancestors generalizing block with
  | nil =>
    rw [ChainState.pushDown]
    split
    · rename_i heq
      rw [heq]
      exact .nil
    · rename_i hne
      cases pfork with
      | none => exact .cons .nil
      | some q =>
        -- below a root there is nothing left for the fork to be
        refine absurd ?_ hne
        rcases Forest.ancestor_some_iff.mp (hfork q rfl) with rfl | h
        · rfl
        · exact absurd h Forest.not_ancestor_none
  | cons parent ancestors ih =>
    rw [ChainState.pushDown]
    split
    · rename_i heq
      rw [heq]
      exact .nil
    · rename_i hne
      refine .cons (ih ?_)
      intro q hq
      refine (Forest.ancestor_some_iff.mp (hfork q hq)).resolve_left ?_
      rintro rfl
      exact hne hq.symm

/-- The search meets a common block if there is one. -/
theorem findFork_isSome {plonger : CBlockIndex} (hbest : p ∈ CBlockIndex.lineage block ancestors)
    (hlonger : p ∈ CBlockIndex.lineage plonger.block plonger.ancestors) :
    ∃ q, plonger.findFork block ancestors = some q := by
  induction ancestors generalizing plonger block with
  | nil =>
    rw [CBlockIndex.lineage, List.mem_singleton] at hbest
    subst hbest
    have hlow : _ ∈ CBlockIndex.lineage (CBlockIndex.descendTo 0 plonger.block plonger.ancestors).block
        (CBlockIndex.descendTo 0 plonger.block plonger.ancestors).ancestors :=
      mem_lineage_descendTo hlonger (Nat.le_refl _)
    have hle := nHeight_descendTo_le 0 plonger.block plonger.ancestors
    have heq := eq_of_mem_lineage hlow (Nat.le_zero.mp hle).symm
    unfold CBlockIndex.findFork
    exact ⟨_, if_pos heq.symm⟩
  | cons parent ancestors ih =>
    unfold CBlockIndex.findFork
    dsimp only
    have hheight := nHeight_le_of_mem_lineage hbest
    have hlow := mem_lineage_descendTo hlonger hheight
    rw [List.length_cons] at hlow
    split
    · exact ⟨_, rfl⟩
    · rename_i hne
      refine ih ?_ hlow
      rw [CBlockIndex.lineage, List.mem_cons] at hbest
      refine hbest.resolve_left fun htop => ?_
      have hle := nHeight_le_of_mem_lineage hlow
      have hd := nHeight_descendTo_le (ancestors.length + 1) plonger.block plonger.ancestors
      have hh : p.nHeight = ancestors.length + 1 := by rw [htop]; rfl
      rw [CBlockIndex.nHeight] at hd
      exact hne ((eq_of_mem_lineage hlow (by omega)).symm.trans htop)

/-- **The fork is the last common ancestor.** -/
theorem ancestor_findFork_iff (h : ChainState.findFork pindexNew best = .ok pfork) :
    CBlockIndex.forest.Ancestor p pfork ↔
      CBlockIndex.forest.Ancestor p best ∧ CBlockIndex.forest.Ancestor p (some pindexNew) := by
  unfold ChainState.findFork at h
  cases best with
  | none =>
    cases h
    exact ⟨fun h => absurd h Forest.not_ancestor_none, fun h => absurd h.1 Forest.not_ancestor_none⟩
  | some pbest =>
    dsimp only at h
    split at h
    · cases h
    · rename_i q hq
      cases h
      have hbest := mem_lineage_iff.mp (findFork_mem_lineage hq)
      have hnew := mem_lineage_iff.mp (findFork_mem_longer hq)
      constructor
      · intro hp
        exact ⟨hp.trans hbest, hp.trans hnew⟩
      · rintro ⟨hpbest, hpnew⟩
        exact mem_lineage_iff.mp (findFork_common hq (mem_lineage_iff.mpr hpbest) (mem_lineage_iff.mpr hpnew))

end Lists

/-! ## The tree -/

namespace MapBlockIndex

variable {env : Env} (tree : MapBlockIndex env) {p q : CBlockIndex}

theorem mem_of_ancestor {top : Option CBlockIndex} (h : CBlockIndex.forest.Ancestor p top)
    (htop : ∀ q ∈ top, q ∈ tree.entries) : p ∈ tree.entries := by
  induction h with
  | self => exact htop p rfl
  | @parent q _ ih => exact ih fun r hr => tree.pprev_mem q (htop q rfl) r hr

/-- The block with the genesis hash is below every block of the tree. -/
theorem ancestor_of_genesis (hp : p ∈ tree.entries) (hgen : env.getBlockHash p.block = env.hashGenesisBlock)
    (hq : q ∈ tree.entries) : CBlockIndex.forest.Ancestor p (some q) := by
  obtain ⟨r, hr, hheight⟩ := Forest.exists_ancestor_at (F := CBlockIndex.forest) (Nat.zero_le (q.nHeight))
  have hmem : r ∈ tree.entries := tree.mem_of_ancestor hr fun t ht => Option.mem_some.mp ht ▸ hq
  have hroot : r.pprev = none := CBlockIndex.forest.parent_eq_none hheight
  have heq := tree.eq_of_hash p hp r hmem (hgen.trans ((tree.pprev_eq_none_iff r hmem).mp hroot).symm)
  rw [heq]
  exact hr

end MapBlockIndex

/-! ## The coins -/

section Coins

variable {env : Env} {amb : Ambient} {a b : Option CBlockIndex} {path : List CBlockIndex} {view view' : CoinsCache}
  {s s' : Store}

theorem disconnectAll_path (hpath : CBlockIndex.forest.Path a path b) (hbest : view.best = a)
    (h : disconnectAll env path view s = (.ok view', s')) : view'.best = b := by
  unfold disconnectAll at h
  induction hpath generalizing view s with
  | nil =>
    rw [Proc.foldM_nil] at h
    cases h
    exact hbest
  | cons _ ih =>
    obtain ⟨view₁, s₁, hd, tl⟩ := Proc.foldM_cons_ok_iff.mp h
    obtain ⟨-, -, -, -, hprev, -⟩ := disconnectBlock_ok hd
    exact ih hprev tl

theorem connectAll_path {pindexBest : CBlockIndex} (hpath : CBlockIndex.forest.Path a path b) (hbest : view.best = b)
    (h : connectAll env amb pindexBest path.reverse view s = (.ok view', s')) : view'.best = a := by
  unfold connectAll at h
  cases hpath with
  | nil =>
    rw [List.reverse_nil, Proc.foldM_nil] at h
    cases h
    exact hbest
  | cons _ =>
    -- the top of the branch is connected last
    rw [List.reverse_cons] at h
    obtain ⟨view₁, s₁, -, hlast⟩ := Proc.foldM_append_ok_iff.mp h
    obtain ⟨view₂, s₂, hconn, hnil⟩ := Proc.foldM_cons_ok_iff.mp hlast
    rw [Proc.foldM_nil] at hnil
    cases hnil
    exact (connectBlock_best hconn).1

end Coins

/-! ## The invariant -/

namespace ChainState

/-- What holds of the pointers between two calls. -/
structure Linked {env : Env} (tree : MapBlockIndex env) (st : ChainState) : Prop where
  best_mem : ∀ tip ∈ st.pindexBest, tip ∈ tree.entries
  nBestHeight_eq : st.nBestHeight = (st.pindexBest.map fun tip => (tip.nHeight : Int)).getD (-1)
  coins : st.pcoinsTip.best = st.pindexBest
  threads : CBlockIndex.forest.Threads st.pnext st.pindexBest
  genesis : ∀ p ∈ st.pindexGenesisBlock, env.getBlockHash p.block = env.hashGenesisBlock ∧
    CBlockIndex.forest.Ancestor p st.pindexBest
  genesis_isSome : st.pindexBest.isSome → st.pindexGenesisBlock.isSome
  last : ∀ p ∈ st.pblockindexFBBHLast, CBlockIndex.forest.Ancestor p st.pindexBest

section Linked

variable {env : Env} {tree : MapBlockIndex env} {st st' : ChainState} {amb : Ambient}
  {p pindexNull pindexNew : CBlockIndex} {pfork : Option CBlockIndex}

theorem linked_init : Linked tree ChainState.init where
  best_mem := by
    rintro tip ⟨⟩
  nBestHeight_eq := rfl
  coins := rfl
  threads := Forest.threads_none
  genesis := by
    rintro p ⟨⟩
  genesis_isSome := id
  last := by
    rintro p ⟨⟩

theorem Linked.isInMainChain_iff (h : Linked tree st) :
    st.isInMainChain p ↔ CBlockIndex.forest.Ancestor p st.pindexBest :=
  h.threads.ancestor_iff.symm

/-- On the blocks of a tree the fork search does not fail. -/
theorem Linked.findFork_ok (h : Linked tree st) (hnew : pindexNew ∈ tree.entries) :
    ∃ pfork, findFork pindexNew st.pcoinsTip.best = .ok pfork := by
  rw [h.coins]
  unfold findFork
  cases hbest : st.pindexBest with
  | none => exact ⟨none, rfl⟩
  | some tip =>
    obtain ⟨r, hr, hroot⟩ := Forest.exists_ancestor_at (F := CBlockIndex.forest) (Nat.zero_le tip.nHeight)
    have htip := h.best_mem tip hbest
    have hmem : r ∈ tree.entries := tree.mem_of_ancestor hr fun t ht => Option.mem_some.mp ht ▸ htip
    have hgen := (tree.pprev_eq_none_iff r hmem).mp (CBlockIndex.forest.parent_eq_none hroot)
    have hrnew := tree.ancestor_of_genesis hmem hgen hnew
    obtain ⟨q, hq⟩ := findFork_isSome (mem_lineage_iff.mpr hr) (mem_lineage_iff.mpr hrnew)
    exact ⟨some q, by simp only [hq]⟩

/-- The two lists of a call lead from the old tip and from the new one to the fork. -/
theorem Linked.paths (h : Linked tree st) (hfork : findFork pindexNew st.pcoinsTip.best = .ok pfork) :
    CBlockIndex.forest.Path st.pindexBest (st.vDisconnect pfork) pfork ∧
      CBlockIndex.forest.Path (some pindexNew) (vConnect pfork pindexNew).reverse pfork := by
  rw [h.coins] at hfork
  have hcommon : ∀ q ∈ pfork, CBlockIndex.forest.Ancestor q st.pindexBest ∧
      CBlockIndex.forest.Ancestor q (some pindexNew) := by
    intro q hq
    apply (ancestor_findFork_iff hfork).mp
    rw [Option.mem_def.mp hq]
    exact .self
  constructor
  · rw [vDisconnect, h.coins]
    cases hbest : st.pindexBest with
    | none =>
      rw [hbest, findFork] at hfork
      cases hfork
      exact .nil
    | some tip =>
      rw [hbest] at hcommon
      exact path_pushDown fun q hq => (hcommon q hq).1
  · rw [vConnect, List.reverse_reverse]
    exact path_pushDown fun q hq => (hcommon q hq).2

theorem noteGenesis_cases (env : Env) (vConnect : List CBlockIndex) (pindexGenesisBlock : Option CBlockIndex) :
    (∃ q ∈ vConnect, env.getBlockHash q.block = env.hashGenesisBlock ∧
        noteGenesis env vConnect pindexGenesisBlock = some q) ∨
      (noteGenesis env vConnect pindexGenesisBlock = pindexGenesisBlock ∧
        ∀ q ∈ vConnect, env.getBlockHash q.block ≠ env.hashGenesisBlock) := by
  induction vConnect generalizing pindexGenesisBlock with
  | nil => exact .inr ⟨rfl, by simp⟩
  | cons r vConnect ih =>
    rcases ih (if env.getBlockHash r.block = env.hashGenesisBlock then some r else pindexGenesisBlock) with
      ⟨q, hq, hgen, heq⟩ | ⟨heq, hne⟩
    · exact .inl ⟨q, List.mem_cons_of_mem _ hq, hgen, heq⟩
    · by_cases hr : env.getBlockHash r.block = env.hashGenesisBlock
      · exact .inl ⟨r, List.mem_cons_self, hr, heq.trans (if_pos hr)⟩
      · exact .inr ⟨heq.trans (if_neg hr), List.forall_mem_cons.mpr ⟨hr, hne⟩⟩

/-- A call leaves the genesis pointer at the root of the new branch. -/
theorem Linked.noteGenesis_eq (h : Linked tree st) (hnew : pindexNew ∈ tree.entries)
    (hfork : findFork pindexNew st.pcoinsTip.best = .ok pfork) :
    ∃ p, noteGenesis env (vConnect pfork pindexNew) st.pindexGenesisBlock = some p ∧
      env.getBlockHash p.block = env.hashGenesisBlock ∧ CBlockIndex.forest.Ancestor p (some pindexNew) := by
  obtain ⟨-, hup⟩ := h.paths hfork
  rcases noteGenesis_cases env (vConnect pfork pindexNew) st.pindexGenesisBlock with
    ⟨q, hq, hgen, heq⟩ | ⟨heq, hne⟩
  · exact ⟨q, heq, hgen, hup.ancestor_iff.mpr (.inl (List.mem_reverse.mpr hq))⟩
  · -- the root is not connected, so it is at or below the fork, and there is a best block
    obtain ⟨r, hr, hroot⟩ := Forest.exists_ancestor_at (F := CBlockIndex.forest) (Nat.zero_le pindexNew.nHeight)
    have hmem : r ∈ tree.entries := tree.mem_of_ancestor hr fun t ht => Option.mem_some.mp ht ▸ hnew
    have hgen := (tree.pprev_eq_none_iff r hmem).mp (CBlockIndex.forest.parent_eq_none hroot)
    have hlow := (hup.ancestor_iff.mp hr).resolve_left fun hin => hne r (List.mem_reverse.mp hin) hgen
    have hbest := ((ancestor_findFork_iff hfork).mp hlow).1
    rw [h.coins] at hbest
    have hsome : st.pindexBest.isSome := by
      cases hb : st.pindexBest with
      | none =>
        rw [hb] at hbest
        exact absurd hbest Forest.not_ancestor_none
      | some tip => rfl
    obtain ⟨p, hp⟩ := Option.isSome_iff_exists.mp (h.genesis_isSome hsome)
    obtain ⟨hpgen, hpbest⟩ := h.genesis p hp
    have hpmem := tree.mem_of_ancestor hpbest h.best_mem
    exact ⟨p, heq.trans hp, hpgen, tree.ancestor_of_genesis hpmem hpgen hnew⟩

/-- **One call.** -/
theorem Linked.setBestChain (h : Linked tree st) (hnew : pindexNew ∈ tree.entries)
    (ok : st.setBestChain env amb pindexNull pindexNew = .ok st') : Linked tree st' := by
  obtain ⟨pfork, view, s, hfork, hreorg, rfl⟩ := setBestChain_ok_iff.mp ok
  obtain ⟨hdown, hup⟩ := h.paths hfork
  obtain ⟨p, hp, hpgen, hanc⟩ := h.noteGenesis_eq hnew hfork
  have hview : view.best = some pindexNew := by
    obtain ⟨view₁, s₁, hdis, hcon⟩ := Proc.bind_ok_iff.mp hreorg
    have hlow := disconnectAll_path hdown h.coins hdis
    rw [← List.reverse_reverse (vConnect pfork pindexNew)] at hcon
    exact connectAll_path hup hlow hcon
  have hcommon := fun q => ancestor_findFork_iff (p := q) hfork
  rw [h.coins] at hcommon
  refine ⟨?_, rfl, hview, ?_, ?_, ?_, ?_⟩
  · intro tip htip
    cases htip
    exact hnew
  · have hmove := h.threads.move hdown hup hcommon
    rw [List.reverse_reverse] at hmove
    exact hmove
  · intro q hq
    have hq : noteGenesis env (vConnect pfork pindexNew) st.pindexGenesisBlock = some q := hq
    rw [hp, Option.some.injEq] at hq
    subst hq
    exact ⟨hpgen, hanc⟩
  · intro _
    show (noteGenesis env (vConnect pfork pindexNew) st.pindexGenesisBlock).isSome
    rw [hp]
    rfl
  · -- the call forgets the block found last
    intro q hq
    cases hq

theorem Linked.nearest_ancestor (h : Linked tree st) {nHeight : Int}
    (hp : CBlockIndex.forest.Ancestor p st.pindexBest) :
    CBlockIndex.forest.Ancestor (st.nearest nHeight p) st.pindexBest := by
  unfold nearest
  split
  · exact hp
  · rename_i pindexLast hlast
    split
    · exact h.last pindexLast hlast
    · exact hp

/-- The search starts on the best branch. -/
theorem Linked.searchStart_ancestor (h : Linked tree st) {nHeight : Int} (hstart : st.searchStart nHeight = some p) :
    CBlockIndex.forest.Ancestor p st.pindexBest := by
  obtain ⟨q, hq, rfl⟩ := Option.map_eq_some_iff.mp hstart
  apply h.nearest_ancestor
  split at hq
  · exact (h.genesis q hq).2
  · rw [hq]
    exact .self

/-- **One lookup** stays on the best branch and changes no more than the block found last. -/
theorem Linked.findBlockByHeight (h : Linked tree st) {nHeight : Int}
    (ok : st.findBlockByHeight nHeight = some (p, st')) : Linked tree st' := by
  obtain ⟨p₀, hstart, ok⟩ := Option.bind_eq_some_iff.mp ok
  obtain ⟨p₁, hdown, ok⟩ := Option.bind_eq_some_iff.mp ok
  obtain ⟨p₂, hup, ok⟩ := Option.bind_eq_some_iff.mp ok
  cases ok
  have hp₁ : CBlockIndex.forest.Ancestor p₁ st.pindexBest := by
    refine Forest.walk_preserves (P := (CBlockIndex.forest.Ancestor · st.pindexBest)) ?_
      (h.searchStart_ancestor hstart) hdown
    intro i j hi hij
    exact hi.of_parent hij
  have hp₂ : CBlockIndex.forest.Ancestor p st.pindexBest := by
    refine Forest.walk_preserves (P := (CBlockIndex.forest.Ancestor · st.pindexBest)) ?_ hp₁ hup
    intro i j hi hij
    exact ((h.threads i j).mp hij).2
  refine ⟨h.best_mem, h.nBestHeight_eq, h.coins, h.threads, h.genesis, h.genesis_isSome, ?_⟩
  intro q hq
  cases hq
  exact hp₂

/-- **A lookup finds** the block of the best branch at the height asked for, whichever block of that branch was found
    last. -/
theorem Linked.findBlockByHeight_eq (h : Linked tree st) {nHeight : Int} (hlow : 0 ≤ nHeight)
    (hhigh : nHeight ≤ st.nBestHeight) :
    ∃ p st', st.findBlockByHeight nHeight = some (p, st') ∧ CBlockIndex.forest.Ancestor p st.pindexBest ∧
      (p.nHeight : Int) = nHeight := by
  obtain ⟨n, rfl⟩ := Int.eq_ofNat_of_zero_le hlow
  cases hbest : st.pindexBest with
  | none =>
    rw [h.nBestHeight_eq, hbest] at hhigh
    simp at hhigh
    omega
  | some tip =>
    have htop : n ≤ tip.nHeight := by
      rw [h.nBestHeight_eq, hbest] at hhigh
      simpa using hhigh
    obtain ⟨p₀, hp₀⟩ : ∃ p₀, st.searchStart n = some p₀ := by
      obtain ⟨g, hg⟩ := Option.isSome_iff_exists.mp (h.genesis_isSome (by rw [hbest]; rfl))
      rw [searchStart, hg, hbest]
      split
      · exact ⟨_, rfl⟩
      · exact ⟨_, rfl⟩
    have hanc₀ := h.searchStart_ancestor hp₀
    rw [hbest] at hanc₀
    -- down to a height that is no higher than the one asked for
    obtain ⟨p₁, hdown, hanc₁, hle⟩ : ∃ p₁, Forest.walk CBlockIndex.pprev
        (fun p => decide ((p.nHeight : Int) ≤ n)) (p₀.nHeight + 1) p₀ = some p₁ ∧
        CBlockIndex.forest.Ancestor p₁ (some tip) ∧ p₁.nHeight ≤ n := by
      by_cases hle : p₀.nHeight ≤ n
      · exact ⟨p₀, if_pos (by simpa using hle), hanc₀, hle⟩
      · obtain ⟨p₁, hwalk, hanc, hheight⟩ := Forest.walk_parent (F := CBlockIndex.forest) (i := p₀) (n := n)
          (fun p => decide ((p.nHeight : Int) ≤ n)) (fun i => by simp [CBlockIndex.forest]) (p₀.nHeight + 1) (Nat.le_of_not_le hle) (by
            show p₀.nHeight < n + (p₀.nHeight + 1)
            omega)
        exact ⟨p₁, hwalk, hanc.trans hanc₀, Nat.le_of_eq hheight⟩
    -- and up along the thread
    have hthreads := h.threads
    rw [hbest] at hthreads
    obtain ⟨p₂, hup, hanc₂, hheight⟩ := hthreads.walk_next (i := p₁) (n := n)
      (fun p => decide ((n : Int) ≤ (p.nHeight : Int))) (fun i => by simp [CBlockIndex.forest]) (((n : Int) - p₁.nHeight).toNat + 1) hanc₁ htop hle (by
        show n < p₁.nHeight + (((n : Int) - p₁.nHeight).toNat + 1)
        omega)
    refine ⟨p₂, { st with pblockindexFBBHLast := some p₂ }, ?_, hanc₂, congrArg Nat.cast hheight⟩
    unfold ChainState.findBlockByHeight
    rw [hp₀]
    show ((Forest.walk _ _ _ p₀).bind _) = _
    rw [hdown]
    show ((Forest.walk _ _ _ p₁).bind _) = _
    rw [hup]
    rfl

end Linked

/-- The main chain as the pointers show it. -/
structure Linkage {env : Env} (tree : MapBlockIndex env) (st : ChainState) : Prop where
  /-- The lists computed for a new tip are the paths from both tips to their last common ancestor. -/
  lists : ∀ pindexNew ∈ tree.entries, ∃ pfork, findFork pindexNew st.pcoinsTip.best = .ok pfork ∧
    (∀ p, CBlockIndex.forest.Ancestor p pfork ↔
      CBlockIndex.forest.Ancestor p st.pindexBest ∧ CBlockIndex.forest.Ancestor p (some pindexNew)) ∧
    CBlockIndex.forest.Path st.pindexBest (st.vDisconnect pfork) pfork ∧
    CBlockIndex.forest.Path (some pindexNew) (vConnect pfork pindexNew).reverse pfork
  best : ∀ amb pindexNull, ∀ pindexNew ∈ tree.entries, ∀ st', st.setBestChain env amb pindexNull pindexNew = .ok st' →
    st'.pindexBest = some pindexNew ∧ st'.nBestHeight = pindexNew.nHeight
  isInMainChain_iff : ∀ p, st.isInMainChain p ↔ CBlockIndex.forest.Ancestor p st.pindexBest
  pnext_iff : ∀ p q, st.pnext p = some q ↔ q.pprev = some p ∧ st.isInMainChain q
  coins : st.pcoinsTip.best = st.pindexBest
  /-- What the lookup remembers is on the main chain. -/
  last : ∀ p ∈ st.pblockindexFBBHLast, st.isInMainChain p
  /-- From whichever block of the main chain is remembered, the lookup finds the one at the height asked for. -/
  lookup : ∀ last : Option CBlockIndex, (∀ p ∈ last, st.isInMainChain p) →
    ∀ nHeight : Int, 0 ≤ nHeight → nHeight ≤ st.nBestHeight →
      ∃ p st', { st with pblockindexFBBHLast := last }.findBlockByHeight nHeight = some (p, st') ∧
        st.isInMainChain p ∧ (p.nHeight : Int) = nHeight

theorem Linked.linkage {env : Env} {tree : MapBlockIndex env} {st : ChainState} (h : Linked tree st) :
    Linkage tree st where
  lists := by
    intro pindexNew hnew
    obtain ⟨pfork, hfork⟩ := h.findFork_ok hnew
    refine ⟨pfork, hfork, fun p => ?_, h.paths hfork⟩
    have hcommon := ancestor_findFork_iff (p := p) hfork
    rwa [h.coins] at hcommon
  best := by
    intro amb pindexNull pindexNew _ st' ok
    obtain ⟨pfork, view, s, -, -, rfl⟩ := setBestChain_ok_iff.mp ok
    exact ⟨rfl, rfl⟩
  isInMainChain_iff := fun p => h.isInMainChain_iff
  pnext_iff := by
    intro p q
    rw [h.isInMainChain_iff]
    exact h.threads p q
  coins := h.coins
  last := fun p hp => h.isInMainChain_iff.mpr (h.last p hp)
  lookup := by
    intro last hlast nHeight hlow hhigh
    -- the invariant allows any block of the branch to be remembered
    have hst : Linked tree { st with pblockindexFBBHLast := last } :=
      ⟨h.best_mem, h.nBestHeight_eq, h.coins, h.threads, h.genesis, h.genesis_isSome,
        fun p hp => h.isInMainChain_iff.mp (hlast p hp)⟩
    obtain ⟨p, st', hfind, hanc, hheight⟩ := hst.findBlockByHeight_eq hlow hhigh
    exact ⟨p, st', hfind, h.isInMainChain_iff.mpr hanc, hheight⟩

end ChainState

/-! ## Runs -/

theorem ChainRun.linked {env : Env} {tree : MapBlockIndex env} {st : ChainState} (run : ChainRun tree st) :
    ChainState.Linked tree st := by
  induction run with
  | init => exact ChainState.linked_init
  | setBestChain _ hnew ok ih => exact ih.setBestChain hnew ok
  | findBlockByHeight _ ok ih => exact ih.findBlockByHeight ok

/-- **Main-chain linkage.** -/
theorem ChainRun.mainChain_linked {env : Env} {tree : MapBlockIndex env} {st : ChainState} (run : ChainRun tree st) :
    ChainState.Linkage tree st :=
  run.linked.linkage

/-! ## A reorganisation on cakenet -/

namespace Cakenet

/-- A genesis block that `CheckBlock` accepts, one block on it, and a longer branch beside that. -/
def root : CBlockIndex := ⟨⟨1400000000, 1, 0, 900, 0, 0, [], [coinbase 900 [pay COIN]]⟩, []⟩

def short1 : CBlockIndex := mine root 901 []

def long1 : CBlockIndex := mine root 902 []

def long2 : CBlockIndex := mine long1 903 []

def forkTree : MapBlockIndex env where
  entries := { p | p ∈ [root, short1, long1, long2] }
  eq_of_hash := by
    show ∀ p ∈ [root, short1, long1, long2], ∀ q ∈ [root, short1, long1, long2], _
    decide +kernel
  pprev_mem := by
    show ∀ p ∈ [root, short1, long1, long2], ∀ q ∈ p.pprev, q ∈ [root, short1, long1, long2]
    decide +kernel
  pprev_eq_none_iff := by
    show ∀ p ∈ [root, short1, long1, long2], _
    decide +kernel

def connectTip (st : ChainState) (pindexNew : CBlockIndex) : ChainState :=
  (st.setBestChain env amb pindexNew pindexNew).toOption.getD st

theorem run_connectTip {st : ChainState} {pindexNew : CBlockIndex} (run : ChainRun forkTree st)
    (hnew : pindexNew ∈ forkTree.entries) (ok : (st.setBestChain env amb pindexNew pindexNew).isOk = true) :
    ChainRun forkTree (connectTip st pindexNew) := by
  unfold connectTip
  cases h : st.setBestChain env amb pindexNew pindexNew with
  | error e =>
    rw [h] at ok
    cases ok
  | ok st' => exact .setBestChain run hnew h

/-- The states on the short branch, with a lookup made there, and after the reorganisation. -/
def onShort : ChainState := connectTip (connectTip ChainState.init root) short1

def looked : ChainState := ((onShort.findBlockByHeight 1).map (·.2)).getD onShort

def onLong : ChainState := connectTip looked long2

theorem onLong_run : ChainRun forkTree onLong := by
  have hmem : ∀ p ∈ [root, short1, long1, long2], p ∈ forkTree.entries := fun _ h => h
  have hroot : ChainRun forkTree (connectTip ChainState.init root) :=
    run_connectTip .init (hmem _ (by simp)) (by decide +kernel)
  have hshort : ChainRun forkTree onShort := run_connectTip hroot (hmem _ (by simp)) (by decide +kernel)
  have hlooked : ChainRun forkTree looked := by
    unfold looked
    cases h : onShort.findBlockByHeight 1 with
    | none => exact hshort
    | some r => exact .findBlockByHeight hshort h
  exact run_connectTip hlooked (hmem _ (by simp)) (by decide +kernel)

theorem onLong_linked : onLong.pindexBest = some long2 ∧ ChainState.Linkage forkTree onLong :=
  ⟨by decide +kernel, onLong_run.mainChain_linked⟩

end Cakenet

end Syscoin

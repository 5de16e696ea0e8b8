import Syscoin.Chain.Locator
import Syscoin.Correctness.Linkage

/-!
# `Correctness.Locator` — a locator finds the fork

The entries of a locator are ancestors of its block, and those of them that are on the main chain are the ones at or
below the fork (`ancestor_iff_of_common`). So the block that `GetBlockIndex` returns is the first entry at or below
the height of the fork, and `Lib.Sparse` says how far below it is (`locator_finds_fork`). The genesis hash at the end
is what the search comes to if a step went past the genesis block.
-/

namespace Syscoin

open Lib

namespace CBlockLocator

open ChainState

/-- The last block that both chains have: what lies on both lies at or below it. -/
def LastCommon (f b tip : CBlockIndex) : Prop :=
  ∀ p, CBlockIndex.forest.Ancestor p (some f) ↔
    CBlockIndex.forest.Ancestor p (some b) ∧ CBlockIndex.forest.Ancestor p (some tip)

section Search

variable {env : Env} {tree : MapBlockIndex env} {mapBlockIndex : Uint256 → Option CBlockIndex} {st : ChainState}
  {b f p tip : CBlockIndex}

/-- On the one chain, the other chain is what is not above the fork. -/
theorem ancestor_iff_of_common (hf : LastCommon f b tip) (hp : CBlockIndex.forest.Ancestor p (some b)) :
    CBlockIndex.forest.Ancestor p (some tip) ↔ p.nHeight ≤ f.nHeight := by
  constructor
  · intro htip
    exact ((hf p).mpr ⟨hp, htip⟩).height_le f rfl
  · intro hle
    -- the block of this height below the fork is on the chain of `b` as well
    obtain ⟨q, hq, hheight⟩ := Forest.exists_ancestor_at (F := CBlockIndex.forest) hle
    obtain ⟨hqb, hqtip⟩ := (hf q).mp hq
    have heq : p = q := hp.eq_of_height hqb hheight.symm
    rw [heq]
    exact hqtip

/-- What `GetBlockIndex` makes of the hash of a block of the tree. -/
theorem lookup_hash (hkeys : tree.FoundBy mapBlockIndex) (hp : p ∈ tree.entries) :
    ((mapBlockIndex (env.getBlockHash p.block)).filter fun pindex => decide (st.isInMainChain pindex)) =
      if st.isInMainChain p then some p else none := by
  have hfound : mapBlockIndex (env.getBlockHash p.block) = some p := (hkeys _ _).mpr ⟨hp, rfl⟩
  rw [hfound, Option.filter_some]
  simp

/-- Scanning the hashes of blocks of the tree is scanning the blocks. -/
theorem findSome?_hashes (hkeys : tree.FoundBy mapBlockIndex) {entries : List CBlockIndex} {test : CBlockIndex → Bool}
    (hentries : ∀ p ∈ entries, p ∈ tree.entries ∧ (st.isInMainChain p ↔ test p = true)) :
    ((entries.map (env.getBlockHash ·.block)).findSome? fun hash =>
      (mapBlockIndex hash).filter fun pindex => decide (st.isInMainChain pindex)) = entries.find? test := by
  induction entries with
  | nil => rfl
  | cons p entries ih =>
    obtain ⟨hmem, hiff⟩ := hentries p List.mem_cons_self
    rw [List.map_cons, List.findSome?_cons, List.find?_cons, lookup_hash hkeys hmem,
      ih fun q hq => hentries q (List.mem_cons_of_mem _ hq)]
    by_cases htest : test p = true
    · rw [if_pos (hiff.mpr htest), htest]
    · have hout : ¬ st.isInMainChain p := fun hin => htest (hiff.mp hin)
      have hno : test p = false := by simpa using htest
      rw [if_neg hout, hno]

/-- There is a last common block on the blocks of a tree. -/
theorem exists_lastCommon (linked : Linked tree st) (hb : b ∈ tree.entries) (htip : st.pindexBest = some tip) :
    ∃ f, LastCommon f b tip := by
  obtain ⟨pfork, hfork⟩ := linked.findFork_ok hb
  rw [linked.coins, htip] at hfork
  have hcommon := fun p => ancestor_findFork_iff (p := p) hfork
  cases pfork with
  | none =>
    -- both have the root
    unfold ChainState.findFork at hfork
    dsimp only at hfork
    split at hfork <;> cases hfork
  | some f =>
    refine ⟨f, fun p => ?_⟩
    rw [hcommon p]
    exact and_comm

/-- The genesis block is on every main chain, and is the root. -/
theorem exists_genesis (linked : Linked tree st) (htip : st.pindexBest = some tip) :
    ∃ g ∈ tree.entries, env.getBlockHash g.block = env.hashGenesisBlock ∧ g.nHeight = 0 ∧
      CBlockIndex.forest.Ancestor g (some tip) := by
  obtain ⟨g, hg, hheight⟩ := Forest.exists_ancestor_at (F := CBlockIndex.forest) (Nat.zero_le tip.nHeight)
  have hmem : g ∈ tree.entries := by
    apply tree.mem_of_ancestor hg
    rintro q ⟨⟩
    exact linked.best_mem tip htip
  have hroot : g.pprev = none := CBlockIndex.forest.parent_eq_none hheight
  exact ⟨g, hmem, (tree.pprev_eq_none_iff g hmem).mp hroot, hheight, hg⟩

/-- **The block that the search returns**: the first entry that is not above the fork, or else the genesis block. -/
theorem getBlockIndex_set (linked : Linked tree st) (hkeys : tree.FoundBy mapBlockIndex) (hb : b ∈ tree.entries)
    (htip : st.pindexBest = some tip) (hf : LastCommon f b tip) :
    ∃ r, getBlockIndex mapBlockIndex st (set env (some b)) = some r ∧
      CBlockIndex.forest.Ancestor r (some tip) ∧ CBlockIndex.forest.Ancestor r (some b) ∧
      r.nHeight = ((CBlockIndex.forest.sparse 10 1 Nat.one_pos 0 b).find?
        fun p => decide (p.nHeight ≤ f.nHeight)).elim 0 CBlockIndex.nHeight := by
  have hentries : ∀ p ∈ CBlockIndex.forest.sparse 10 1 Nat.one_pos 0 b,
      p ∈ tree.entries ∧ (st.isInMainChain p ↔ decide (p.nHeight ≤ f.nHeight) = true) := by
    intro p hp
    have hanc := Forest.ancestor_of_mem_sparse hp
    refine ⟨tree.mem_of_ancestor hanc ?_, ?_⟩
    · rintro q ⟨⟩
      exact hb
    · rw [linked.isInMainChain_iff, htip, decide_eq_true_iff]
      exact ancestor_iff_of_common hf hanc
  have hscan := findSome?_hashes hkeys hentries
  unfold getBlockIndex set
  dsimp only
  rw [pushDown_eq, List.nil_append, List.findSome?_append, List.length_nil, hscan]
  cases hfind : (CBlockIndex.forest.sparse 10 1 Nat.one_pos 0 b).find? fun p => decide (p.nHeight ≤ f.nHeight) with
  | some r =>
    have hmem := List.mem_of_find?_eq_some hfind
    have hanc := Forest.ancestor_of_mem_sparse hmem
    have hle : r.nHeight ≤ f.nHeight := by simpa using List.find?_some hfind
    exact ⟨r, rfl, (ancestor_iff_of_common hf hanc).mpr hle, hanc, rfl⟩
  | none =>
    -- only the genesis hash is left
    obtain ⟨g, hg, hhash, hheight, hanc⟩ := exists_genesis linked htip
    have hmain : st.isInMainChain g := by
      rw [linked.isInMainChain_iff, htip]
      exact hanc
    have hlast : ([env.hashGenesisBlock].findSome? fun hash =>
        (mapBlockIndex hash).filter fun pindex => decide (st.isInMainChain pindex)) = some g := by
      rw [List.findSome?_cons, ← hhash, lookup_hash hkeys hg, if_pos hmain]
    rw [Option.none_or, hlast]
    exact ⟨g, rfl, hanc, tree.ancestor_of_genesis hg hhash hb, hheight⟩

/-- A list that has the blocks of the tree finds them by their hashes. -/
theorem foundBy_find? {entries : List CBlockIndex} (hentries : tree.entries = { p | p ∈ entries }) :
    tree.FoundBy fun hash => entries.find? fun p => decide (env.getBlockHash p.block = hash) := by
  have hmem : ∀ p, p ∈ tree.entries ↔ p ∈ entries := by
    intro p
    rw [hentries]
    rfl
  intro hash p
  constructor
  · intro hfind
    exact ⟨(hmem p).mpr (List.mem_of_find?_eq_some hfind), by simpa using List.find?_some hfind⟩
  · rintro ⟨hp, hhash⟩
    cases hfind : entries.find? fun q => decide (env.getBlockHash q.block = hash) with
    | none =>
      rw [List.find?_eq_none] at hfind
      exact absurd (decide_eq_true hhash) (hfind p ((hmem p).mp hp))
    | some q =>
      -- no two blocks of the tree have one hash
      have hq := (hmem q).mpr (List.mem_of_find?_eq_some hfind)
      have hqhash : env.getBlockHash q.block = hash := by simpa using List.find?_some hfind
      obtain rfl := tree.eq_of_hash q hq p hp (hqhash.trans hhash.symm)
      exact hfind

end Search

/-- **Block locators find the fork**, on every tree, for every block of it and every main chain in it: the block that
    `GetBlockIndex` returns is on the main chain and an ancestor of `b`. It is the fork as long as `b` is at most eleven
    blocks above that, and otherwise it is nearer to the fork than `b` is. -/
theorem locator_finds_fork {env : Env} (tree : MapBlockIndex env) (mapBlockIndex : Uint256 → Option CBlockIndex)
    (hkeys : tree.FoundBy mapBlockIndex) (st : ChainState) (linked : Linked tree st) (tip : CBlockIndex)
    (htip : st.pindexBest = some tip) (b : CBlockIndex) (hb : b ∈ tree.entries) :
    ∃ f r, LastCommon f b tip ∧ getBlockIndex mapBlockIndex st (set env (some b)) = some r ∧
      st.isInMainChain r ∧ CBlockIndex.forest.Ancestor r (some b) ∧ r.nHeight ≤ f.nHeight ∧
      if b.nHeight ≤ f.nHeight + 11 then f.nHeight - r.nHeight = 0
      else f.nHeight - r.nHeight < b.nHeight - f.nHeight := by
  obtain ⟨f, hf⟩ := exists_lastCommon linked hb htip
  obtain ⟨r, hr, htipr, hbr, hheight⟩ := getBlockIndex_set linked hkeys hb htip hf
  have hfb : f.nHeight ≤ b.nHeight := ((hf f).mp .self).1.height_le b rfl
  have hnear : Forest.Near 10 b.nHeight f.nHeight r.nHeight := by
    rw [hheight]
    refine Forest.sparse_find (F := CBlockIndex.forest) ?_ ?_
    · exact Forest.Spaced.start 10 b.nHeight
    · -- the block itself is not below the fork
      intro hle
      have heq : b.nHeight = f.nHeight := le_antisymm hle hfb
      show Forest.Near 10 b.nHeight f.nHeight b.nHeight
      unfold Forest.Near
      rw [heq]
      exact ⟨le_rfl, by rw [if_pos (by omega)]⟩
  refine ⟨f, r, hf, hr, ?_, hbr, hnear.1, ?_⟩
  · rw [linked.isInMainChain_iff, htip]
    exact htipr
  · have hdist := hnear.2
    split at hdist
    · rename_i hclose
      rw [if_pos hclose, hdist, Nat.sub_self]
    · rename_i hfar
      rw [if_neg hfar]
      exact hdist

end CBlockLocator

/-! ## Rounds of `getblocks` -/

namespace ChainState

open CBlockLocator

section Answers

variable {env : Env} {tree : MapBlockIndex env} {mapBlockIndex : Uint256 → Option CBlockIndex} {st : ChainState}
  {hashStop : Uint256} {b r tip : CBlockIndex} {start : Option CBlockIndex} {up : List CBlockIndex}

/-- The blocks before the one that the peer does not need any more. -/
def beforeStop (env : Env) (hashStop : Uint256) (up : List CBlockIndex) : List CBlockIndex :=
  up.takeWhile fun p => decide (env.getBlockHash p.block ≠ hashStop)

theorem beforeStop_cons (p : CBlockIndex) : beforeStop env hashStop (p :: up) =
    if env.getBlockHash p.block = hashStop then [] else p :: beforeStop env hashStop up := by
  unfold beforeStop
  rw [List.takeWhile_cons]
  by_cases hstop : env.getBlockHash p.block = hashStop
  · simp [hstop]
  · simp [hstop]

theorem pushBlocks_eq (h : Forest.Leads st.pnext start up) (nLimit : Nat) :
    st.pushBlocks env hashStop (nLimit + 1) start =
      ((beforeStop env hashStop up).take (nLimit + 1), (beforeStop env hashStop up)[nLimit]?) := by
  induction nLimit generalizing start up with
  | zero =>
    cases up with
    | nil =>
      obtain rfl := h
      rfl
    | cons p up =>
      obtain ⟨rfl, -⟩ := h
      rw [pushBlocks, beforeStop_cons]
      split
      · rfl
      · rfl
  | succ nLimit ih =>
    cases up with
    | nil =>
      obtain rfl := h
      rfl
    | cons p up =>
      obtain ⟨rfl, hup⟩ := h
      rw [pushBlocks, beforeStop_cons, ih hup]
      split
      · rfl
      · rw [if_neg (Nat.succ_ne_zero nLimit), List.take_succ_cons, List.getElem?_cons_succ]

theorem pushHeaders_eq (h : Forest.Leads st.pnext start up) (nLimit : Nat) :
    st.pushHeaders env hashStop (nLimit + 1) start =
      up.take (min (nLimit + 1) ((beforeStop env hashStop up).length + 1)) := by
  induction nLimit generalizing start up with
  | zero =>
    cases up with
    | nil =>
      obtain rfl := h
      rfl
    | cons p up =>
      obtain ⟨rfl, -⟩ := h
      rw [pushHeaders, if_pos (.inl rfl), Nat.min_eq_left (Nat.le_add_left 1 _)]
      rfl
  | succ nLimit ih =>
    cases up with
    | nil =>
      obtain rfl := h
      rw [pushHeaders, List.take_nil]
    | cons p up =>
      obtain ⟨rfl, hup⟩ := h
      rw [pushHeaders, ih hup, beforeStop_cons]
      by_cases hstop : env.getBlockHash p.block = hashStop
      · rw [if_pos (.inr hstop), if_pos hstop]
        rw [List.length_nil, Nat.zero_add, Nat.min_eq_right (Nat.le_add_left 1 _)]
        rfl
      · have hgo : ¬ (nLimit + 1 = 0 ∨ env.getBlockHash p.block = hashStop) := by
          rintro (hzero | hin)
          · exact Nat.succ_ne_zero nLimit hzero
          · exact hstop hin
        have hmin : min (nLimit + 1 + 1) ((beforeStop env hashStop up).length + 1 + 1) =
            min (nLimit + 1) ((beforeStop env hashStop up).length + 1) + 1 := by omega
        rw [if_neg hgo, if_neg hstop, List.length_cons, hmin, List.take_succ_cons]

/-- A block of the main chain is what its own locator leads to. -/
theorem getBlockIndex_of_main (linked : Linked tree st) (hkeys : tree.FoundBy mapBlockIndex) (hb : b ∈ tree.entries)
    (htip : st.pindexBest = some tip) (hmain : CBlockIndex.forest.Ancestor b (some tip)) :
    getBlockIndex mapBlockIndex st (CBlockLocator.set env (some b)) = some b := by
  have hcommon : LastCommon b b tip := fun p => ⟨fun hp => ⟨hp, hp.trans hmain⟩, fun hp => hp.1⟩
  obtain ⟨r, hr, -, hanc, hheight⟩ := getBlockIndex_set linked hkeys hb htip hcommon
  have hhead : ∃ rest, CBlockIndex.forest.sparse 10 1 Nat.one_pos 0 b = b :: rest := by
    cases hback : CBlockIndex.forest.back 1 b with
    | none => exact ⟨_, Forest.sparse_of_none hback⟩
    | some p => exact ⟨_, Forest.sparse_of_some hback⟩
  obtain ⟨rest, hrest⟩ := hhead
  rw [hrest, List.find?_cons_of_pos (by simp)] at hheight
  obtain rfl : r = b := hanc.eq_of_height .self hheight
  exact hr

/-- A peer that makes each locator from the last block of the answer before. -/
def getblocksRounds (env : Env) (mapBlockIndex : Uint256 → Option CBlockIndex) (st : ChainState) (hashStop : Uint256) :
    Nat → CBlockIndex → List CBlockIndex
  | 0, _ => []
  | n + 1, b =>
    let pushed := (st.getblocks env mapBlockIndex (CBlockLocator.set env (some b)) hashStop).1
    pushed ++ pushed.getLast?.elim [] (getblocksRounds env mapBlockIndex st hashStop n)

theorem getblocks_eq (hashStop : Uint256) (hr : getBlockIndex mapBlockIndex st (CBlockLocator.set env (some b)) = some r)
    (hup : Forest.Leads st.pnext (st.pnext r) up) :
    st.getblocks env mapBlockIndex (CBlockLocator.set env (some b)) hashStop =
      ((beforeStop env hashStop up).take 500, (beforeStop env hashStop up)[499]?) := by
  rw [getblocks, hr, Option.bind_some]
  exact pushBlocks_eq hup 499

/-- What is before the stop stays so when blocks before it are dropped. -/
theorem beforeStop_drop {seen rest : List CBlockIndex} (h : beforeStop env hashStop up = seen ++ rest) :
    ∃ above, up = seen ++ above ∧ beforeStop env hashStop above = rest := by
  induction seen generalizing up with
  | nil => exact ⟨up, rfl, h⟩
  | cons p seen ih =>
    cases up with
    | nil => cases h
    | cons q up =>
      rw [beforeStop_cons] at h
      split at h
      · cases h
      · rw [List.cons_append, List.cons.injEq] at h
        obtain ⟨rfl, htail⟩ := h
        obtain ⟨above, habove, hrest⟩ := ih htail
        exact ⟨above, by rw [habove, List.cons_append], hrest⟩

/-- Behind the last block of an answer comes what the answer left. -/
theorem beforeStop_next {k : Nat} {p : CBlockIndex} (hup : Forest.Leads st.pnext start up)
    (hlast : ((beforeStop env hashStop up).take k).getLast? = some p) :
    ∃ above, up = (beforeStop env hashStop up).take k ++ above ∧
      beforeStop env hashStop above = (beforeStop env hashStop up).drop k ∧ Forest.Leads st.pnext (st.pnext p) above := by
  obtain ⟨above, habove, hrest⟩ := beforeStop_drop (List.take_append_drop k (beforeStop env hashStop up)).symm
  refine ⟨above, habove, hrest, ?_⟩
  obtain ⟨init, hinit⟩ := List.getLast?_eq_some_iff.mp hlast
  rw [habove, hinit, List.append_assoc] at hup
  exact hup.drop

/-- A round adds the next blocks: the last one of an answer is on the main chain, and the next answer begins behind
it. -/
theorem getblocksRounds_eq (linked : Linked tree st) (hkeys : tree.FoundBy mapBlockIndex)
    (htip : st.pindexBest = some tip) (n : Nat) (b r : CBlockIndex) (up : List CBlockIndex)
    (hr : getBlockIndex mapBlockIndex st (CBlockLocator.set env (some b)) = some r)
    (hup : Forest.Leads st.pnext (st.pnext r) up)
    (hmain : ∀ p ∈ up, p ∈ tree.entries ∧ CBlockIndex.forest.Ancestor p (some tip)) :
    getblocksRounds env mapBlockIndex st hashStop n b = (beforeStop env hashStop up).take (500 * n) := by
  induction n generalizing b r up with
  | zero => rfl
  | succ n ih =>
    have hanswer := getblocks_eq hashStop hr hup
    rw [getblocksRounds, hanswer]
    dsimp only
    have hsplit : 500 * (n + 1) = 500 + 500 * n := by omega
    rw [hsplit, List.take_add]
    congr 1
    cases hlast : ((beforeStop env hashStop up).take 500).getLast? with
    | none =>
      have hnone : beforeStop env hashStop up = [] := by
        simpa using List.getLast?_eq_none_iff.mp hlast
      rw [hnone, List.drop_nil, List.take_nil]
      rfl
    | some p =>
      obtain ⟨above, habove, hrest, hlead⟩ := beforeStop_next hup hlast
      have hp : p ∈ up := by
        rw [habove]
        exact List.mem_append_left _ (List.mem_of_getLast? hlast)
      obtain ⟨hmem, hanc⟩ := hmain p hp
      rw [Option.elim_some, ← hrest]
      exact ih p p above (getBlockIndex_of_main linked hkeys hmem htip hanc) hlead fun q hq =>
        hmain q (by rw [habove]; exact List.mem_append_right _ hq)

end Answers

end ChainState

namespace Cakenet

/-- After the reorganisation, the block that was left is two blocks from the tip and one above the fork. -/
theorem short_locator_finds_fork :
    ∃ f r, CBlockLocator.LastCommon f short1 long2 ∧
      CBlockLocator.getBlockIndex
        (fun hash => [root, short1, long1, long2].find? fun p => decide (env.getBlockHash p.block = hash)) onLong
        (CBlockLocator.set env (some short1)) = some r ∧
      onLong.isInMainChain r ∧ CBlockIndex.forest.Ancestor r (some short1) ∧ r.nHeight ≤ f.nHeight ∧
      if short1.nHeight ≤ f.nHeight + 11 then f.nHeight - r.nHeight = 0
      else f.nHeight - r.nHeight < short1.nHeight - f.nHeight :=
  CBlockLocator.locator_finds_fork forkTree _ (CBlockLocator.foundBy_find? rfl) onLong onLong_run.linked long2
    (by decide +kernel) short1 (by
      show short1 ∈ [root, short1, long1, long2]
      simp)

end Cakenet

end Syscoin

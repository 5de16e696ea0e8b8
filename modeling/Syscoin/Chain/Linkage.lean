import Syscoin.Lib.Forest
import Syscoin.Chain.Run

/-!
# `Chain.Linkage` — the pointers of the main chain

`Chain.BestChain` reads the main chain off the best block. The program keeps it in memory a second time: `pnext`
leads from each block to the next one of the main chain, `pcoinsTip` remembers the block its coins belong to, and
`FindBlockByHeight` remembers the block it found last. `ChainState` has all of these, and its `setBestChain` is the
function with the pointers written out; on the best block, the coins and the store it is `Syscoin.setBestChain`
(`ChainState.setBestChain_node`).
-/

namespace Syscoin

open Lib

/-- The block tree, by `pprev`. -/
def CBlockIndex.forest : Forest CBlockIndex where
  parent := CBlockIndex.pprev
  height := CBlockIndex.nHeight
  height_parent := CBlockIndex.nHeight_eq_succ_of_pprev
  height_root := by
    intro pindex h
    unfold CBlockIndex.pprev at h
    split at h
    · rename_i hnil
      simp [CBlockIndex.nHeight, hnil]
    · cases h

/-- What `mapBlockIndex` holds. It is keyed by block hash; `AcceptBlock` lets a block in only on top of one that is
    in, the genesis block excepted. -/
structure MapBlockIndex (env : Env) where
  entries : Set CBlockIndex
  eq_of_hash : ∀ p ∈ entries, ∀ q ∈ entries, env.getBlockHash p.block = env.getBlockHash q.block → p = q
  pprev_mem : ∀ p ∈ entries, ∀ q ∈ p.pprev, q ∈ entries
  pprev_eq_none_iff : ∀ p ∈ entries, p.pprev = none ↔ env.getBlockHash p.block = env.hashGenesisBlock

/-! ## The state -/

structure ChainState where
  pindexGenesisBlock : Option CBlockIndex
  pindexBest : Option CBlockIndex
  nBestHeight : Int
  pcoinsTip : CoinsCache
  pnext : CBlockIndex → Option CBlockIndex
  pblockindexFBBHLast : Option CBlockIndex
  store : Store

namespace ChainState

/-- The initial values of the globals, over an empty coin database. -/
def init : ChainState where
  pindexGenesisBlock := none
  pindexBest := none
  nBestHeight := -1
  pcoinsTip := ⟨fun _ => none, none⟩
  pnext := fun _ => none
  pblockindexFBBHLast := none
  store := Store.init

/-- `CBlockIndex::IsInMainChain`. -/
def isInMainChain (st : ChainState) (pindex : CBlockIndex) : Prop :=
  (st.pnext pindex).isSome ∨ some pindex = st.pindexBest

instance (st : ChainState) (pindex : CBlockIndex) : Decidable (st.isInMainChain pindex) :=
  inferInstanceAs (Decidable (_ ∨ _))

/-! ## `SetBestChain` -/

/-- The fork of the coins' best block and the new tip; a null pointer while nothing is connected. -/
def findFork (pindexNew : CBlockIndex) (pfork : Option CBlockIndex) : Except Reject (Option CBlockIndex) :=
  match pfork with
  | none => .ok none
  | some pbest =>
    match pindexNew.findFork pbest.block pbest.ancestors with
    | none => .error (crash "assert(pfork != NULL)")
    | some pfork => .ok (some pfork)

/-- `for (pindex = …; pindex != pfork; pindex = pindex->pprev) push_back(pindex)`. -/
def pushDown (pfork : Option CBlockIndex) : CBlock → List CBlock → List CBlockIndex
  | block, [] => if some ⟨block, []⟩ = pfork then [] else [⟨block, []⟩]
  | block, parent :: ancestors =>
    if some ⟨block, parent :: ancestors⟩ = pfork then []
    else ⟨block, parent :: ancestors⟩ :: pushDown pfork parent ancestors

/-- The blocks to disconnect, tip first. -/
def vDisconnect (st : ChainState) (pfork : Option CBlockIndex) : List CBlockIndex :=
  match st.pcoinsTip.best with
  | none => []
  | some pindex => pushDown pfork pindex.block pindex.ancestors

/-- The blocks to connect, lowest first. -/
def vConnect (pfork : Option CBlockIndex) (pindexNew : CBlockIndex) : List CBlockIndex :=
  (pushDown pfork pindexNew.block pindexNew.ancestors).reverse

section SetBestChain

variable (env : Env) (amb : Ambient)

/-- Connecting the genesis block sets `pindexGenesisBlock`. -/
def noteGenesis (vConnect : List CBlockIndex) (pindexGenesisBlock : Option CBlockIndex) : Option CBlockIndex :=
  vConnect.foldl (fun pindexGenesisBlock pindex =>
    if env.getBlockHash pindex.block = env.hashGenesisBlock then some pindex else pindexGenesisBlock)
    pindexGenesisBlock

/-- The part that works on the discardable view. `ConnectBlock` reads `pindexBest->nHeight`, which has no defined
    result while `pindexBest` is null: it reads there as that of `pindexNull`. -/
def reorganize (pindexNull : CBlockIndex) (pfork : Option CBlockIndex) (pindexNew : CBlockIndex) (st : ChainState) :
    Proc Store Reject CoinsCache := do
  let view ← disconnectAll env (st.vDisconnect pfork) st.pcoinsTip
  connectAll env amb (st.pindexBest.getD pindexNull) (vConnect pfork pindexNew) view

/-- The commit at the end: coins first, then the links, then the best block. -/
def commit (pfork : Option CBlockIndex) (pindexNew : CBlockIndex) (view : CoinsCache) (s : Store) (st : ChainState) :
    ChainState where
  pindexGenesisBlock := noteGenesis env (vConnect pfork pindexNew) st.pindexGenesisBlock
  pindexBest := some pindexNew
  nBestHeight := pindexNew.nHeight
  pcoinsTip := { view with coins := if amb.fFlush then view.coins.prune else view.coins }
  -- `pprev->pnext = NULL` down the shorter branch, `pprev->pnext = pindex` up the longer one
  pnext := CBlockIndex.forest.thread (CBlockIndex.forest.unthread st.pnext (st.vDisconnect pfork))
    (vConnect pfork pindexNew)
  pblockindexFBBHLast := none
  store := s.setPendings (amb.mempool s.pendings)

/-- **`SetBestChain`**, as far as it succeeds. -/
def setBestChain (pindexNull pindexNew : CBlockIndex) (st : ChainState) : Except Reject ChainState := do
  let pfork ← findFork pindexNew st.pcoinsTip.best
  match reorganize env amb pindexNull pfork pindexNew st st.store with
  | (.error e, _) => .error e
  | (.ok view, s) => .ok (commit env amb pfork pindexNew view s st)

end SetBestChain

/-! ## `FindBlockByHeight` -/

/-- The block found last, if its height is nearer to the one asked for. -/
def nearest (st : ChainState) (nHeight : Int) (pblockindex : CBlockIndex) : CBlockIndex :=
  match st.pblockindexFBBHLast with
  | none => pblockindex
  | some pindexLast =>
    if (nHeight - pindexLast.nHeight).natAbs < (nHeight - pblockindex.nHeight).natAbs then pindexLast
    else pblockindex

/-- Where the search starts: the genesis block, the best block or the block found last. -/
def searchStart (st : ChainState) (nHeight : Int) : Option CBlockIndex :=
  (if nHeight < st.nBestHeight.tdiv 2 then st.pindexGenesisBlock else st.pindexBest).map (st.nearest nHeight)

/-- **`FindBlockByHeight`**: down by `pprev`, then up by `pnext`. No result means a null pointer was followed. -/
def findBlockByHeight (nHeight : Int) (st : ChainState) : Option (CBlockIndex × ChainState) := do
  let pblockindex ← st.searchStart nHeight
  let pblockindex ← Forest.walk CBlockIndex.pprev (fun p => decide ((p.nHeight : Int) ≤ nHeight))
    (pblockindex.nHeight + 1) pblockindex
  let pblockindex ← Forest.walk st.pnext (fun p => decide (nHeight ≤ (p.nHeight : Int)))
    ((nHeight - pblockindex.nHeight).toNat + 1) pblockindex
  some (pblockindex, { st with pblockindexFBBHLast := some pblockindex })

end ChainState

/-- What successful `SetBestChain` calls on the blocks of a tree, and lookups between them, lead to. -/
inductive ChainRun {env : Env} (tree : MapBlockIndex env) : ChainState → Prop where
  | init : ChainRun tree ChainState.init
  | setBestChain {st st' : ChainState} {amb : Ambient} {pindexNull pindexNew : CBlockIndex}
      (run : ChainRun tree st) (hnew : pindexNew ∈ tree.entries)
      (ok : st.setBestChain env amb pindexNull pindexNew = .ok st') : ChainRun tree st'
  | findBlockByHeight {st st' : ChainState} {nHeight : Int} {pblockindex : CBlockIndex}
      (run : ChainRun tree st) (ok : st.findBlockByHeight nHeight = some (pblockindex, st')) : ChainRun tree st'

/-! ## On the same chain as before -/

namespace ChainState

theorem pushDown_some (pfork : CBlockIndex) (block : CBlock) (ancestors : List CBlock) :
    pushDown (some pfork) block ancestors = (CBlockIndex.lineage block ancestors).takeWhile (· ≠ pfork) := by
  induction ancestors generalizing block with
  | nil =>
    simp only [pushDown, CBlockIndex.lineage, Option.some.injEq, List.takeWhile_cons, List.takeWhile_nil]
    by_cases h : (⟨block, []⟩ : CBlockIndex) = pfork <;> simp [h]
  | cons parent ancestors ih =>
    simp only [pushDown, CBlockIndex.lineage, Option.some.injEq, List.takeWhile_cons, ih]
    by_cases h : (⟨block, parent :: ancestors⟩ : CBlockIndex) = pfork <;> simp [h]

/-- The node that a state stands for once something is connected. -/
def toNode (st : ChainState) (pindexBest : CBlockIndex) : Node := ⟨pindexBest, st.pcoinsTip.coins, st.store⟩

/-- A call succeeds iff the fork is found and both branches go through. -/
theorem setBestChain_ok_iff {env : Env} {amb : Ambient} {pindexNull pindexNew : CBlockIndex} {st st' : ChainState} :
    st.setBestChain env amb pindexNull pindexNew = .ok st' ↔
      ∃ pfork view s, findFork pindexNew st.pcoinsTip.best = .ok pfork ∧
        st.reorganize env amb pindexNull pfork pindexNew st.store = (.ok view, s) ∧
        st' = st.commit env amb pfork pindexNew view s := by
  unfold setBestChain
  rw [Except.bind_ok_iff]
  constructor
  · rintro ⟨pfork, hfork, h⟩
    split at h
    · cases h
    · rename_i view s hreorg
      exact ⟨pfork, view, s, hfork, hreorg, (Except.ok.inj h).symm⟩
  · rintro ⟨pfork, view, s, hfork, hreorg, rfl⟩
    exact ⟨pfork, hfork, by rw [hreorg]⟩

/-- **The same function.** While the coins belong to the best block, a call leads to the same best block, coins and
    store as that of `Chain.BestChain`, and succeeds iff that does. -/
theorem setBestChain_node {env : Env} {amb : Ambient} {pindexNull pindexNew pindexBest : CBlockIndex}
    {st : ChainState} {node : Node} (hbest : st.pindexBest = some pindexBest)
    (hcoins : st.pcoinsTip.best = some pindexBest) :
    (∃ st', st.setBestChain env amb pindexNull pindexNew = .ok st' ∧ st'.toNode pindexNew = node) ↔
      Syscoin.setBestChain env amb pindexNew (st.toNode pindexBest) = (.ok (), node) := by
  have hview : (⟨st.pcoinsTip.coins, some pindexBest⟩ : CoinsCache) = st.pcoinsTip := by rw [← hcoins]
  have hreorg : ∀ pfork, st.reorganize env amb pindexNull (some pfork) pindexNew =
      Syscoin.reorganize env amb pindexBest pfork pindexNew st.pcoinsTip := by
    intro pfork
    have hdown : st.vDisconnect (some pfork) = pindexBest.downTo pfork := by
      rw [vDisconnect, hcoins]
      exact pushDown_some _ _ _
    have hup : vConnect (some pfork) pindexNew = (pindexNew.downTo pfork).reverse :=
      congrArg List.reverse (pushDown_some _ _ _)
    rw [reorganize, Syscoin.reorganize, hdown, hup, hbest]
    rfl
  simp only [setBestChain_ok_iff, Syscoin.setBestChain, toNode, hcoins, findFork, hview]
  cases pindexNew.findFork pindexBest.block pindexBest.ancestors with
  | none => simp
  | some pfork =>
    simp only [Except.ok.injEq, exists_and_left, exists_eq_left', hreorg]
    split
    · rename_i e s hfail
      simp [hfail]
    · rename_i view s hok
      simp [hok, commit, Syscoin.commit]

end ChainState

end Syscoin

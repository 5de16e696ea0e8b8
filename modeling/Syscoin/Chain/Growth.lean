import Syscoin.Chain.History

/-!
# `Chain.Growth` — a chain that only grows

A `Growth` is a history without reorganisations and without failures: each call of `SetBestChain` extends the best block
by one. The list has the nodes on the way, the latest first. Such a call is a single `ConnectBlock` on the tip
(`setBestChain_extend`).

On the cake network a chain grows as long as one likes by blocks that hold a coinbase only (`Cakenet.Fallow`): they leave
the services alone, so what is claimed of a long chain can be tried on one.
-/

namespace Syscoin

open Lib

inductive Growth (env : Env) (genesis : CBlock) : List Node → Prop where
  | init : Growth env genesis [Node.init genesis]
  | step {node node' : Node} {nodes : List Node} {amb : Ambient} {pindexNew : CBlockIndex}
      (growth : Growth env genesis (node :: nodes)) (hprev : pindexNew.pprev = some node.pindexBest)
      (ok : setBestChain env amb pindexNew node = (.ok (), node')) : Growth env genesis (node' :: node :: nodes)

section Extend

variable {env : Env} {genesis : CBlock} {amb : Ambient} {pindexNew pindexBest : CBlockIndex}

/-- The fork of a block and its parent is the parent. -/
theorem findFork_of_pprev (h : pindexNew.pprev = some pindexBest) :
    pindexNew.findFork pindexBest.block pindexBest.ancestors = some pindexBest := by
  obtain ⟨block, ancestors⟩ := pindexNew
  cases ancestors with
  | nil => cases h
  | cons parent below =>
    simp only [CBlockIndex.pprev, Option.some.injEq] at h
    subst h
    cases below with
    | nil => simp [CBlockIndex.findFork, CBlockIndex.descendTo]
    | cons grandparent below => simp [CBlockIndex.findFork, CBlockIndex.descendTo]

theorem downTo_of_pprev (h : pindexNew.pprev = some pindexBest) : pindexNew.downTo pindexBest = [pindexNew] := by
  obtain ⟨block, ancestors⟩ := pindexNew
  cases ancestors with
  | nil => cases h
  | cons parent below =>
    simp only [CBlockIndex.pprev, Option.some.injEq] at h
    subst h
    have hrest : (CBlockIndex.lineage parent below).takeWhile (· ≠ (⟨parent, below⟩ : CBlockIndex)) = [] := by
      cases below with
      | nil => simp [CBlockIndex.lineage]
      | cons grandparent below => simp [CBlockIndex.lineage]
    rw [CBlockIndex.downTo, CBlockIndex.lineage, List.takeWhile_cons_of_pos (by simp), hrest]

theorem downTo_self (pindex : CBlockIndex) : pindex.downTo pindex = [] := by
  obtain ⟨block, ancestors⟩ := pindex
  cases ancestors with
  | nil => simp [CBlockIndex.downTo, CBlockIndex.lineage]
  | cons parent below => simp [CBlockIndex.downTo, CBlockIndex.lineage]

/-- **One block on top** is one `ConnectBlock`. -/
theorem setBestChain_extend {node : Node} (h : pindexNew.pprev = some node.pindexBest) :
    setBestChain env amb pindexNew node =
      match connectBlock env false node.pindexBest pindexNew amb.nNow ⟨node.coinsTip, some node.pindexBest⟩
        node.store with
      | (.error e, s) => (.error e, { node with store := s })
      | (.ok view, s) => (.ok (), commit amb pindexNew view s) := by
  unfold setBestChain
  rw [findFork_of_pprev h]
  simp only [reorganize, disconnectAll, connectAll, downTo_self, downTo_of_pprev h, List.reverse_singleton]
  rcases hrun : connectBlock env false node.pindexBest pindexNew amb.nNow ⟨node.coinsTip, some node.pindexBest⟩
    node.store with ⟨e | view, s⟩
  · simp only [bind, Proc.bind, Proc.foldM, Proc.pure, hrun]
  · simp only [bind, Proc.bind, Proc.foldM, Proc.pure, hrun]

/-- A call that extends the chain and succeeds. -/
theorem setBestChain_extend_ok {node node' : Node} (h : pindexNew.pprev = some node.pindexBest) :
    setBestChain env amb pindexNew node = (.ok (), node') ↔
      ∃ view s, connectBlock env false node.pindexBest pindexNew amb.nNow ⟨node.coinsTip, some node.pindexBest⟩
        node.store = (.ok view, s) ∧ node' = commit amb pindexNew view s := by
  rw [setBestChain_extend h]
  rcases connectBlock env false node.pindexBest pindexNew amb.nNow ⟨node.coinsTip, some node.pindexBest⟩
    node.store with ⟨e | view, s⟩
  · simp
  · simp [eq_comm]

/-- The sites of such a call are those of its block. -/
theorem callSites_extend {node : Node} (h : pindexNew.pprev = some node.pindexBest) :
    callSites env amb pindexNew node =
      blockSites env node.pindexBest pindexNew amb.nNow ⟨node.coinsTip, some node.pindexBest⟩ node.store := by
  have hdis : disconnectedBy node pindexNew = [] := by
    rw [disconnectedBy, findFork_of_pprev h]
    exact downTo_self node.pindexBest
  have hcon : connectedBy node pindexNew = [pindexNew] := by
    rw [connectedBy, findFork_of_pprev h]
    simp [downTo_of_pprev h]
  unfold callSites
  rw [hdis, hcon]
  simp only [disconnectAll, Proc.foldM_nil, chainSites]
  split
  · exact List.append_nil _
  · exact List.append_nil _

end Extend

/-- The node at the end of a growth whose sites meet `C`. -/
inductive Grown (env : Env) (C : Site → Prop) (genesis : CBlock) : Node → Prop where
  | init : Grown env C genesis (Node.init genesis)
  | step {node node' : Node} {amb : Ambient} {pindexNew : CBlockIndex} (grown : Grown env C genesis node)
      (hprev : pindexNew.pprev = some node.pindexBest) (ok : setBestChain env amb pindexNew node = (.ok (), node'))
      (meets : ∀ site ∈ callSites env amb pindexNew node, C site) : Grown env C genesis node'

theorem Growth.grown {env : Env} {genesis : CBlock} {node : Node} {nodes : List Node}
    (h : Growth env genesis (node :: nodes)) : Grown env (fun _ => True) genesis node := by
  generalize hall : node :: nodes = all at h
  induction h generalizing node nodes with
  | init =>
    rw [List.cons.injEq] at hall
    exact hall.1 ▸ .init
  | step _ hprev ok ih =>
    rw [List.cons.injEq] at hall
    exact hall.1 ▸ .step (ih rfl) hprev ok fun _ _ => trivial

theorem Grown.growth {env : Env} {C : Site → Prop} {genesis : CBlock} {node : Node} (h : Grown env C genesis node) :
    ∃ nodes, Growth env genesis (node :: nodes) := by
  induction h with
  | init => exact ⟨[], .init⟩
  | step _ hprev ok _ ih =>
    obtain ⟨nodes, hgrowth⟩ := ih
    exact ⟨_, .step hgrowth hprev ok⟩

namespace Cakenet

/-- The blocks can be connected one by one, from sites that meet `C`. -/
def Along (C : Site → Prop) : List CBlockIndex → Node → Prop
  | [], _ => True
  | pindexNew :: rest, node =>
    pindexNew.pprev = some node.pindexBest ∧ (setBestChain env amb pindexNew node).1.isOk = true ∧
      (∀ site ∈ callSites env amb pindexNew node, C site) ∧ Along C rest (nodeThen node pindexNew)

instance Along.decidable (C : Site → Prop) [DecidablePred C] : ∀ chain node, Decidable (Along C chain node)
  | [], _ => isTrue trivial
  | pindexNew :: rest, node =>
    have := Along.decidable C rest (nodeThen node pindexNew)
    inferInstanceAs (Decidable (_ ∧ _))

theorem Along.grown {C : Site → Prop} {chain : List CBlockIndex} {node : Node} (h : Along C chain node)
    (hgrown : Grown env C genesis node) : Grown env C genesis (chain.foldl nodeThen node) := by
  induction chain generalizing node with
  | nil => exact hgrown
  | cons pindexNew rest ih =>
    obtain ⟨hprev, hok, hmeets, hrest⟩ := h
    refine ih hrest (.step hgrown hprev ?_ hmeets)
    unfold nodeThen
    rcases hrun : setBestChain env amb pindexNew node with ⟨e | _, node'⟩
    · rw [hrun] at hok
      cases hok
    · rfl

/-- The blocks of a chain connected one by one. -/
def grownTo (pindexNew : CBlockIndex) : Node := pindexNew.mainChain.tail.foldl nodeThen (Node.init genesis)

theorem grown_grownTo {C : Site → Prop} {pindexNew : CBlockIndex}
    (h : Along C pindexNew.mainChain.tail (Node.init genesis)) : Grown env C genesis (grownTo pindexNew) :=
  h.grown .init

end Cakenet

/-! ## Coins of a chain -/

section Dead

variable {env : Env} {C : Site → Prop} {genesis : CBlock} {node : Node} {hash : Uint256}

theorem TxSteps.dead {pindexBest pindex : CBlockIndex} {acc acc' : ConnectAcc} {txs : List CTransaction} {s s' : Store}
    (h : TxSteps env C pindexBest pindex acc txs s acc' s') (hdead : acc.view.Dead hash)
    (hother : ∀ tx ∈ txs, env.getHash tx ≠ hash) : acc'.view.Dead hash := by
  induction h with
  | nil => exact hdead
  | cons _ hd _ ih =>
    obtain ⟨hhead, htail⟩ := List.forall_mem_cons.mp hother
    refine ih ?_ htail
    cases hd with
    | coinbase _ hcoins => exact updateCoins_dead hdead hhead.symm hcoins
    | spend _ _ _ hcoins => exact updateCoins_dead hdead hhead.symm hcoins

/-- A hash that no transaction of the chain has is not among the coins. -/
theorem Grown.dead (h : Grown env C genesis node)
    (hother : ∀ block ∈ node.pindexBest.chain, ∀ tx ∈ block.vtx, env.getHash tx ≠ hash) :
    node.coinsTip.Dead hash := by
  induction h with
  | init =>
    intro coins hcoins
    cases hcoins
  | @step node node' amb pindexNew _ hprev ok meets ih =>
    obtain ⟨view, s', hblock, rfl⟩ := (setBestChain_extend_ok hprev).mp ok
    rw [callSites_extend hprev] at meets
    change ∀ block ∈ pindexNew.chain, _ at hother
    rw [CBlockIndex.chain_eq_cons_of_pprev hprev] at hother
    obtain ⟨hnew, hold⟩ := List.forall_mem_cons.mp hother
    have hview : view.coins.Dead hash := by
      rcases (connectBlock_ok hblock meets).2 with ⟨-, -, rfl⟩ | ⟨-, acc, s₁, hsteps, -, rfl⟩
      · exact ih hold
      · exact hsteps.dead (ih hold) hnew
    show CoinsView.Dead (if amb.fFlush then view.coins.prune else view.coins) hash
    split
    · intro coins hcoins
      rw [CoinsView.prune_eq_none_iff.mpr hview] at hcoins
      cases hcoins
    · exact hview

end Dead

/-! ## Fallow blocks -/

namespace Cakenet

theorem mine_pprev (pprev : CBlockIndex) (id : Nat) (vtx : List CTransaction) : (mine pprev id vtx).pprev = some pprev :=
  rfl

theorem mine_nHeight (pprev : CBlockIndex) (id : Nat) (vtx : List CTransaction) :
    (mine pprev id vtx).nHeight = pprev.nHeight + 1 := rfl

theorem checkBlock_fallow {pprev : CBlockIndex} {id : Nat} (hid : id ≤ 1000000) :
    checkBlock env amb.nNow (mine pprev id []) true true = .ok () := by
  have htx : checkTransaction (coinbase id [pay (128 * COIN)]) = .ok () := rfl
  have htime : (mine pprev id []).block.nTime ≤ amb.nNow + 2 * 60 * 60 := by
    show 1400000000 + 60 * id ≤ 2000000000 + 2 * 60 * 60
    omega
  simp only [checkBlock, require_bind_ok_iff]
  refine ⟨⟨by simp [mine], Nat.le_of_ble_eq_true rfl, ?_⟩, fun _ => rfl, htime, by simp [mine]; rfl, by simp [mine], ?_⟩
  · exact Nat.le_of_ble_eq_true rfl
  · refine Except.bind_ok_iff.mpr ⟨(), ?_, ?_⟩
    · exact Except.bind_ok_iff.mpr ⟨(), htx, rfl⟩
    · refine require_bind_ok_iff.mpr ⟨List.nodup_singleton _, require_bind_ok_iff.mpr ⟨?_, ?_⟩⟩
      · exact Nat.le_of_ble_eq_true rfl
      · exact require_ok_iff.mpr fun _ => rfl

/-- **A fallow block is connected** if its number is new and the reward is within the block value. It adds its coinbase
    to the coins and leaves the services alone. -/
theorem connectBlock_fallow {pprev : CBlockIndex} {id : Nat} (pindexBest : CBlockIndex) (view : CoinsCache) (s : Store)
    (hbest : view.best = some pprev) (hnew : id ≠ 0) (hid : id ≤ 1000000) (hdead : view.coins.Dead id)
    (hreward : checkReward env (mine pprev id []) 0 s = .ok ()) :
    connectBlock env false pindexBest (mine pprev id []) amb.nNow view s =
      (.ok ⟨Function.update view.coins id (some (CCoins.ofTx (coinbase id [pay (128 * COIN)]) (pprev.nHeight + 1))),
        some (mine pprev id [])⟩, writeBlock env (mine pprev id []) [] s) := by
  have hpro : connectPrologue env false (mine pprev id []) amb.nNow view = .ok () := by
    refine Except.bind_ok_iff.mpr ⟨(), checkBlock_fallow hid, ?_⟩
    refine require_bind_ok_iff.mpr ⟨hbest ▸ rfl, require_ok_iff.mpr (.inr ?_)⟩
    intro tx htx coins hcoins
    rw [show (mine pprev id []).block.vtx = [coinbase id [pay (128 * COIN)]] from rfl, List.mem_singleton] at htx
    subst htx
    exact hdead coins hcoins
  unfold connectBlock
  refine Proc.lift_bind_ok_iff.mpr ⟨(), hpro, ?_⟩
  rw [if_neg (show ¬ env.getBlockHash (mine pprev id []).block = env.hashGenesisBlock from hnew)]
  refine Proc.bind_ok_iff.mpr ⟨_, s, Proc.foldM_cons_ok_iff.mpr ⟨_, s, rfl, Proc.foldM_nil _ _ _⟩, ?_⟩
  refine Proc.update_bind_ok_iff.mpr ⟨s, Except.bind_ok_iff.mpr ⟨(), hreward, rfl⟩, ?_⟩
  rfl

/-- The node lets a chain lie fallow up to the height `nTop`: coinbases numbered from `id` on are new, and the block value
    never falls below the reward that a fallow block claims. -/
structure Fallow (node : Node) (id nTop : Nat) : Prop where
  dead : ∀ hash, id ≤ hash → node.coinsTip.Dead hash
  value : ∀ nHeight, node.pindexBest.nHeight < nHeight → nHeight ≤ nTop →
    ∃ value, getBlockValue env node.store nHeight 0 = .ok value ∧ 128 * COIN ≤ value

/-- The node after `n` fallow blocks. -/
def fallowTip (node : Node) (id : Nat) : Nat → Node
  | 0 => node
  | n + 1 =>
    let node := fallowTip node id n
    nodeThen node (mine node.pindexBest (id + n) [])

/-- The nodes on the way. -/
def fallowNodes (node : Node) (id : Nat) (nodes : List Node) : Nat → List Node
  | 0 => node :: nodes
  | n + 1 => fallowTip node id (n + 1) :: fallowNodes node id nodes n

section Fallow

variable {node : Node} {id nTop : Nat}

theorem checkReward_fallow {pprev : CBlockIndex} {s : Store} {value : Int}
    (h : getBlockValue env s (pprev.nHeight + 1) 0 = .ok value) (hvalue : 128 * COIN ≤ value) :
    checkReward env (mine pprev id []) 0 s = .ok () := by
  refine Except.bind_ok_iff.mpr ⟨value, h, require_ok_iff.mpr ?_⟩
  have hpaid : ((mine pprev id []).block.vtx.head?.map (·.getValueOut)).getD 0 = 128 * COIN := rfl
  rw [hpaid]
  rintro ⟨-, hlow, -⟩
  have hpos : (0 : Int) ≤ 128 * COIN := by decide
  split at hlow <;> omega

/-- One fallow block more. -/
theorem Fallow.step (h : Fallow node id nTop) (hnew : id ≠ 0) (hid : id ≤ 1000000)
    (hheight : node.pindexBest.nHeight < nTop) :
    setBestChain env amb (mine node.pindexBest id []) node = (.ok (), nodeThen node (mine node.pindexBest id [])) ∧
      (nodeThen node (mine node.pindexBest id [])).pindexBest = mine node.pindexBest id [] ∧
      (nodeThen node (mine node.pindexBest id [])).store.aliasdb = node.store.aliasdb ∧
      (nodeThen node (mine node.pindexBest id [])).store.offerdb = node.store.offerdb ∧
      (nodeThen node (mine node.pindexBest id [])).store.certdb = node.store.certdb ∧
      Fallow (nodeThen node (mine node.pindexBest id [])) (id + 1) nTop := by
  obtain ⟨value, hvalue, hle⟩ := h.value (node.pindexBest.nHeight + 1) (Nat.lt_succ_self _) hheight
  have hconn := connectBlock_fallow node.pindexBest ⟨node.coinsTip, some node.pindexBest⟩ node.store rfl hnew hid
    (h.dead id le_rfl) (checkReward_fallow hvalue hle)
  have hcall : setBestChain env amb (mine node.pindexBest id []) node = (.ok (), _) :=
    (setBestChain_extend_ok (mine_pprev node.pindexBest id [])).mpr ⟨_, _, hconn, rfl⟩
  have hthen : nodeThen node (mine node.pindexBest id []) = _ := congrArg Prod.snd hcall
  refine ⟨by rw [hthen]; exact hcall, by rw [hthen]; rfl, by rw [hthen]; rfl, by rw [hthen]; rfl, by rw [hthen]; rfl, ?_⟩
  rw [hthen]
  refine ⟨fun hash hle' => ?_, fun nHeight hlow hhigh => ?_⟩
  · intro coins hc
    have hne : hash ≠ id := by omega
    have hc : node.coinsTip hash = some coins := by
      rw [← hc]
      exact (Function.update_of_ne hne _ _).symm
    exact h.dead hash (by omega) coins hc
  · exact h.value nHeight (lt_of_le_of_lt (Nat.le_succ _) hlow) hhigh

/-- **Any number of fallow blocks**, as far as the node allows. -/
theorem Fallow.tip (h : Fallow node id nTop) (hnew : id ≠ 0) {n : Nat} (hid : id + n ≤ 1000000)
    (hheight : node.pindexBest.nHeight + n ≤ nTop) :
    Fallow (fallowTip node id n) (id + n) nTop ∧
      (fallowTip node id n).pindexBest.nHeight = node.pindexBest.nHeight + n ∧
      (fallowTip node id n).store.aliasdb = node.store.aliasdb ∧
      (fallowTip node id n).store.offerdb = node.store.offerdb ∧
      (fallowTip node id n).store.certdb = node.store.certdb := by
  induction n with
  | zero => exact ⟨h, rfl, rfl, rfl, rfl⟩
  | succ n ih =>
    obtain ⟨hf, hh, ha, ho, hc⟩ := ih (by omega) (by omega)
    obtain ⟨-, hbest, ha', ho', hc', hf'⟩ := hf.step (by omega) (by omega) (by omega)
    refine ⟨hf', ?_, ha'.trans ha, ho'.trans ho, hc'.trans hc⟩
    show (nodeThen (fallowTip node id n) _).pindexBest.nHeight = _
    rw [hbest, mine_nHeight, hh]
    omega

theorem history_fallowTip (h : History env genesis node) (n : Nat) : History env genesis (fallowTip node id n) := by
  induction n with
  | zero => exact h
  | succ n ih => exact .call amb _ ih

theorem Fallow.growth {nodes : List Node} (h : Fallow node id nTop) (hnew : id ≠ 0)
    (hgrowth : Growth env genesis (node :: nodes)) {n : Nat} (hid : id + n ≤ 1000000)
    (hheight : node.pindexBest.nHeight + n ≤ nTop) : Growth env genesis (fallowNodes node id nodes n) := by
  induction n with
  | zero => exact hgrowth
  | succ n ih =>
    obtain ⟨hf, hh, -⟩ := h.tip hnew (n := n) (by omega) (by omega)
    have hstep := (hf.step (by omega) (by omega) (by omega)).1
    have hbelow := ih (by omega) (by omega)
    cases n with
    | zero => exact hbelow.step (mine_pprev _ _ _) hstep
    | succ n => exact hbelow.step (mine_pprev _ _ _) hstep

/-- Without fees there is no subsidy. -/
theorem feeAverages_nil (h12 nHeight : Nat) : feeAverages h12 nHeight [] = .ok (0, 0) := by
  have hspan : blockSpan nHeight ((nHeight + 2 ^ 32 - 1) % 2 ^ 32) = 2 := by
    unfold blockSpan
    omega
  unfold feeAverages
  simp only [List.foldl_nil, hspan]
  exact require_bind_ok_iff.mpr ⟨by decide, require_bind_ok_iff.mpr ⟨by decide, rfl⟩⟩

theorem getAliasFeeSubsidy_nil (nHeight : Nat) : getAliasFeeSubsidy nHeight [] = .ok 0 :=
  Except.bind_ok_iff.mpr ⟨_, feeAverages_nil _ _, rfl⟩

theorem feeSubsidyMax_nil (nHeight : Nat) : feeSubsidyMax nHeight [] = .ok 0 :=
  Except.bind_ok_iff.mpr ⟨_, feeAverages_nil _ _, rfl⟩

/-- The base subsidy is enough for a long time, and an alias subsidy comes on top. -/
theorem getBlockValue_ample {s : Store} {nHeight b : Nat}
    (halias : getAliasFeeSubsidy nHeight s.aliasdb.lstAliasFees = .ok b) (hb : b < 2 ^ 63)
    (hoffer : s.offerdb.lstOfferFees = []) (hcert : s.certdb.lstCertIssuerFees = []) (hpos : nHeight ≠ 0)
    (hheight : nHeight ≤ 259440) : ∃ value, getBlockValue env s nHeight 0 = .ok value ∧ 128 * COIN ≤ value := by
  have hsubsidy : 128 * COIN ≤ blockSubsidy env nHeight := by
    unfold blockSubsidy
    rw [if_neg hpos]
    split
    · decide
    · rw [if_neg (by omega), if_neg (by omega), if_neg (by omega), if_neg (by omega), if_neg (by omega),
        if_neg (by omega), if_neg (by simp [env]), if_neg (by omega)]
  have hbmod : (b : Int).bmod (2 ^ 64) = b := by
    rw [Int.bmod_def, if_pos (by omega)]
    omega
  have hnone : ((0 : Nat) : Int).bmod (2 ^ 64) = 0 := by decide
  unfold getBlockValue
  rw [hoffer, hcert]
  refine ⟨_, Except.bind_ok_iff.mpr ⟨b, halias, Except.bind_ok_iff.mpr ⟨0, feeSubsidyMax_nil _,
    Except.bind_ok_iff.mpr ⟨0, feeSubsidyMax_nil _, rfl⟩⟩⟩, ?_⟩
  rw [hbmod, hnone]
  split
  · omega
  · omega

theorem fallow_init : Fallow (Node.init genesis) 1 259440 where
  dead _ _ _ h := by cases h
  value nHeight hlow hhigh :=
    getBlockValue_ample (getAliasFeeSubsidy_nil nHeight) (by decide) rfl rfl (by omega) hhigh

end Fallow

end Cakenet

end Syscoin

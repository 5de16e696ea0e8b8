import Syscoin.Chain.Growth
import Syscoin.Lib.Ledger

/-!
# `Correctness.Supply` — the value of all coins

The coins of a view are a ledger: an amount for every transaction, the value of its unspent outputs. Spending an output
takes its value out (`CCoins.worth_spend`), and a transaction puts the value of its own outputs in. What a transaction
leaves over is its fee (`updateCoins_tallies`), the fees of a block add up to what its coinbase may
take beyond the block value (`connectTxs_tallies`), and so a block adds at most its block value (`value_conserved`).

Below `hardforkLaunch` the coinbase may take more, and below 1500 anything.
-/

namespace Syscoin

open Lib

/-! ## The value of a view -/

/-- A spent output is worth nothing. -/
def CTxOut.worth (o : CTxOut) : Int := if o.isNull then 0 else o.nValue

/-- The value of the unspent outputs of an entry. -/
def CCoins.worth (coins : CCoins) : Int := (coins.vout.map CTxOut.worth).sum

/-- The value of what is unspent of a transaction. -/
def CoinsView.worth (view : CoinsView) (hash : Uint256) : Int := ((view hash).map CCoins.worth).getD 0

/-- The ledger has the value of every transaction. Its total is the value of all unspent outputs. -/
def Tallies (ledger : Ledger Uint256 Int) (view : CoinsView) : Prop := ∀ hash, ledger.amount hash = view.worth hash

section Worth

variable {coins coins' : CCoins} {v w : CoinsView} {ledger : Ledger Uint256 Int}

theorem sum_worth_of_null {vout : List CTxOut} (h : ∀ o ∈ vout, o.isNull) : (vout.map CTxOut.worth).sum = 0 := by
  refine List.sum_eq_zero fun x hx => ?_
  obtain ⟨o, ho, rfl⟩ := List.mem_map.mp hx
  exact if_pos (h o ho)

theorem sum_worth_of_live {vout : List CTxOut} (h : ∀ o ∈ vout, ¬ o.isNull) :
    (vout.map CTxOut.worth).sum = (vout.map (·.nValue)).sum := by
  congr 1
  exact List.map_congr_left fun o ho => if_neg (h o ho)

/-- The outputs that `Cleanup` cuts off are worth nothing. -/
theorem sum_worth_cleanup (vout : List CTxOut) :
    ((CCoins.cleanup vout).map CTxOut.worth).sum = (vout.map CTxOut.worth).sum := by
  obtain ⟨t, ht, hnull⟩ := cleanup_append vout
  have hsum := congrArg (fun l : List CTxOut => (l.map CTxOut.worth).sum) ht
  simp only [List.map_append, List.sum_append, sum_worth_of_null hnull, add_zero] at hsum
  exact hsum.symm

/-- A spend takes the value of the output out of the entry. -/
theorem CCoins.worth_spend {n : Nat} {undo : CTxInUndo} (h : coins.spend n = some (coins', undo)) :
    coins'.worth = coins.worth - undo.txout.nValue := by
  obtain ⟨hat, hlive, -⟩ := CCoins.spend_spec h
  obtain ⟨hn, hget⟩ := List.getElem?_eq_some_iff.mp hat
  unfold CCoins.spend at h
  rw [if_pos (CCoins.isAvailable_of_spend h)] at h
  simp only [Option.some.injEq, Prod.mk.injEq] at h
  obtain ⟨rfl, -⟩ := h
  have hnull : CTxOut.null.worth = 0 := by decide
  have hlen : n < (coins.vout.map CTxOut.worth).length := by
    rw [List.length_map]
    exact hn
  have hworth : undo.txout.worth = undo.txout.nValue := if_neg hlive
  unfold CCoins.worth
  rw [sum_worth_cleanup, List.map_set, hnull, List.sum_set', dif_pos hlen, List.getElem_map, hget, hworth]
  omega

theorem CoinsView.Equiv.worth_eq (h : v.Equiv w) : v.worth = w.worth := by
  have hprune : ∀ v : CoinsView, v.prune.worth = v.worth := by
    intro v
    funext hash
    cases hv : v hash with
    | none => simp [CoinsView.worth, CoinsView.prune, hv]
    | some c =>
      by_cases hp : c.isPruned
      · have hzero : c.worth = 0 := sum_worth_of_null hp
        simp [CoinsView.worth, CoinsView.prune, hv, hp, hzero]
      · simp [CoinsView.worth, CoinsView.prune, hv, hp]
  rw [← hprune v, h, hprune w]

/-- One entry changed, in the view and in the ledger. -/
theorem Tallies.update (h : Tallies ledger v) (hash : Uint256) (coins : CCoins) :
    Tallies (ledger.set hash coins.worth) (Function.update v hash (some coins)) := by
  intro hash'
  by_cases hh : hash' = hash
  · subst hh
    simp [Ledger.set, CoinsView.worth]
  · simp [Ledger.set, CoinsView.worth, hh, h hash']

end Worth

/-! ## Transactions -/

section Transactions

variable {env : Env} {tx : CTransaction} {nHeight : Nat} {v v' : CoinsView} {ledger : Ledger Uint256 Int}
  {txundo : CTxUndo}

/-- Spending inputs takes the value of the undo records out. -/
theorem spendInputs_tallies {vin : List CTxIn} (hledger : Tallies ledger v)
    (h : spendInputs vin v = .ok (v', txundo)) :
    ∃ ledger', Tallies ledger' v' ∧ ledger'.total = ledger.total - (txundo.map (·.txout.nValue)).sum := by
  induction vin generalizing v ledger txundo with
  | nil =>
    simp only [spendInputs, Except.ok.injEq, Prod.mk.injEq] at h
    obtain ⟨rfl, rfl⟩ := h
    exact ⟨ledger, hledger, by simp⟩
  | cons txin vin ih =>
    unfold spendInputs at h
    split at h
    · cases h
    · rename_i coins undo hsp
      obtain ⟨⟨v₁, txundo₁⟩, hrec, h⟩ := Except.bind_ok_iff.mp h
      simp only [Except.ok.injEq, Prod.mk.injEq] at h
      obtain ⟨rfl, rfl⟩ := h
      have hv := (CoinsView.Equiv.refl v).of_isAvailable (CCoins.isAvailable_of_spend hsp)
      have hamount : ledger.amount txin.prevout.hash = (v.getCoins txin.prevout.hash).worth := by
        rw [hledger, CoinsView.worth, hv]
        rfl
      obtain ⟨ledger', hledger', htotal⟩ := ih (hledger.update txin.prevout.hash coins) hrec
      refine ⟨ledger', hledger', ?_⟩
      rw [htotal, Ledger.total_set, hamount, CCoins.worth_spend hsp, List.map_cons, List.sum_cons]
      omega

/-- The undo records have the value of the inputs. -/
theorem updateCoins_valueIn (hcb : tx.isCoinBase = false) (h : updateCoins env tx nHeight v = .ok (v', txundo)) :
    (txundo.map (·.txout.nValue)).sum = tx.getValueIn v := by
  have hundo := updateCoins_undo h hcb
  rw [CTransaction.getValueIn, if_neg (by simp [hcb])]
  generalize tx.vin = vin at hundo ⊢
  clear h
  induction hundo with
  | nil => rfl
  | cons hhead _ ih =>
    rw [List.map_cons, List.map_cons, List.sum_cons, List.sum_cons, ih, Unspent.output_eq hhead]

/-- **A transaction in the ledger**: the value of its inputs is taken out and the value of its outputs put in, if it
    does not overwrite an unspent one. -/
theorem updateCoins_tallies (hledger : Tallies ledger v) (h : updateCoins env tx nHeight v = .ok (v', txundo)) :
    ∃ ledger', Tallies ledger' v' ∧ (v.Dead (env.getHash tx) → (∀ o ∈ tx.vout, ¬ o.isNull) →
      ledger'.total = ledger.total - tx.getValueIn v + tx.getValueOut) := by
  have hvalue : tx.isCoinBase = false → (txundo.map (·.txout.nValue)).sum = tx.getValueIn v :=
    fun hcb => updateCoins_valueIn hcb h
  unfold updateCoins at h
  obtain ⟨⟨v₁, txundo₁⟩, hspend, h⟩ := Except.bind_ok_iff.mp h
  simp only [Except.ok.injEq, Prod.mk.injEq] at h
  obtain ⟨rfl, rfl⟩ := h
  have hspent : ∃ ledger₁, Tallies ledger₁ v₁ ∧ ledger₁.total = ledger.total - tx.getValueIn v ∧
      (v.Dead (env.getHash tx) → v₁ (env.getHash tx) = v (env.getHash tx)) := by
    by_cases hcb : tx.isCoinBase = true
    · rw [if_pos hcb] at hspend
      simp only [Except.ok.injEq, Prod.mk.injEq] at hspend
      refine ⟨ledger, hspend.1 ▸ hledger, ?_, fun _ => by rw [hspend.1]⟩
      rw [CTransaction.getValueIn, if_pos hcb, sub_zero]
    · rw [if_neg hcb] at hspend
      obtain ⟨ledger₁, hledger₁, htotal⟩ := spendInputs_tallies hledger hspend
      refine ⟨ledger₁, hledger₁, ?_, fun hdead => (spendInputs_dead hdead hspend).1⟩
      rw [htotal, hvalue (by simpa using hcb)]
  obtain ⟨ledger₁, hledger₁, htotal, hsame⟩ := hspent
  refine ⟨_, hledger₁.update (env.getHash tx) (CCoins.ofTx tx nHeight), fun hdead hvout => ?_⟩
  -- nothing of the transaction was there
  have hzero : ledger₁.amount (env.getHash tx) = 0 := by
    rw [hledger₁, CoinsView.worth, hsame hdead]
    cases hv : v (env.getHash tx) with
    | none => rfl
    | some c => exact sum_worth_of_null (hdead c hv)
  have hworth : (CCoins.ofTx tx nHeight).worth = tx.getValueOut := sum_worth_of_live hvout
  rw [Ledger.total_set, hzero, hworth, htotal, sub_zero]

/-- The coins of a chain are finitely many. -/
theorem chainCoins_tallies (env : Env) (chain : List CBlock) : ∃ ledger, Tallies ledger (chainCoins env chain) := by
  have hblock : ∀ {txs : List CTransaction} {nHeight : Nat} {v v' : CoinsView} {blockundo : CBlockUndo}
      {ledger : Ledger Uint256 Int}, Tallies ledger v → blockCoins env nHeight txs v = .ok (v', blockundo) →
      ∃ ledger', Tallies ledger' v' := by
    intro txs
    induction txs with
    | nil =>
      intro nHeight v v' blockundo ledger hledger h
      simp only [blockCoins, Except.ok.injEq, Prod.mk.injEq] at h
      exact ⟨ledger, h.1 ▸ hledger⟩
    | cons tx txs ih =>
      intro nHeight v v' blockundo ledger hledger h
      obtain ⟨v₁, txundo, rest, hcoins, hrest, -⟩ := blockCoins_cons h
      obtain ⟨ledger₁, hledger₁, -⟩ := updateCoins_tallies hledger hcoins
      exact ih hledger₁ hrest
  fun_induction chainCoins env chain with
  | case1 => exact ⟨Ledger.empty, fun _ => rfl⟩
  | case2 => exact ⟨Ledger.empty, fun _ => rfl⟩
  | case3 block parent below hgen ih => exact ih
  | case4 block parent below hreg view blockundo hcoins ih =>
    obtain ⟨ledger, hledger⟩ := ih
    exact hblock hledger hcoins
  | case5 block parent below hreg e hcoins ih => exact ih

end Transactions

/-! ## Blocks -/

section Blocks

variable {env : Env} {pindexBest pindex : CBlockIndex} {tx : CTransaction} {acc acc' : ConnectAcc} {s s' : Store}
  {ledger : Ledger Uint256 Int}

/-- The running total grows by what a transaction leaves of its inputs; the coinbase has none. -/
theorem connectTx_fees (h : connectTx env false pindexBest pindex acc tx s = (.ok acc', s')) :
    acc'.nFees = acc.nFees + if tx.isCoinBase then 0 else tx.getValueIn acc.view - tx.getValueOut := by
  unfold connectTx at h
  obtain ⟨-, h⟩ := Proc.require_bind_ok_iff.mp h
  split at h
  · rename_i hcb
    obtain ⟨hfin, -⟩ := Proc.lift_ok_iff.mp h
    obtain ⟨txundo, -, hfees, -⟩ := finishTx_ok hfin
    rw [hfees, if_pos hcb, add_zero]
  · rename_i hcb
    unfold connectSpend at h
    obtain ⟨-, h⟩ := Proc.require_bind_ok_iff.mp h
    obtain ⟨-, h⟩ := Proc.require_bind_ok_iff.mp h
    obtain ⟨vChecks, s₁, -, h⟩ := Proc.bind_ok_iff.mp h
    obtain ⟨hfin, -⟩ := Proc.lift_ok_iff.mp h
    obtain ⟨nFees, hadd, hfin⟩ := Except.bind_ok_iff.mp hfin
    obtain ⟨txundo, -, hfees, -⟩ := finishTx_ok hfin
    rw [hfees, addFee_ok hadd, if_neg hcb]

/-- **One transaction**: what the coins lose is the fee, except that a coinbase puts its outputs in. -/
theorem connectTx_tallies (hledger : Tallies ledger acc.view) (hdead : acc.view.Dead (env.getHash tx))
    (hvout : ∀ o ∈ tx.vout, ¬ o.isNull) (h : connectTx env false pindexBest pindex acc tx s = (.ok acc', s')) :
    ∃ ledger', Tallies ledger' acc'.view ∧
      ledger'.total + acc'.nFees = ledger.total + acc.nFees + if tx.isCoinBase then tx.getValueOut else 0 := by
  have hcoins : ∃ txundo, updateCoins env tx pindex.nHeight acc.view = .ok (acc'.view, txundo) := by
    cases connectTx_ok h with
    | coinbase _ hcoins => exact ⟨_, hcoins⟩
    | spend _ _ _ hcoins => exact ⟨_, hcoins⟩
  obtain ⟨txundo, hcoins⟩ := hcoins
  obtain ⟨ledger', hledger', htotal⟩ := updateCoins_tallies hledger hcoins
  refine ⟨ledger', hledger', ?_⟩
  rw [htotal hdead hvout, connectTx_fees h]
  by_cases hcb : tx.isCoinBase = true
  · rw [CTransaction.getValueIn, if_pos hcb, if_pos hcb, if_pos hcb]
    omega
  · rw [if_neg hcb, if_neg hcb]
    omega

/-- The whole loop, for transactions of distinct hashes of which nothing is unspent. -/
theorem connectTxs_tallies {txs : List CTransaction} (hledger : Tallies ledger acc.view)
    (hdead : ∀ tx ∈ txs, acc.view.Dead (env.getHash tx)) (hnodup : (txs.map env.getHash).Nodup)
    (hvout : ∀ tx ∈ txs, ∀ o ∈ tx.vout, ¬ o.isNull)
    (h : Proc.foldM (connectTx env false pindexBest pindex) txs acc s = (.ok acc', s')) :
    ∃ ledger', Tallies ledger' acc'.view ∧ ledger'.total + acc'.nFees =
      ledger.total + acc.nFees + (txs.map fun tx => if tx.isCoinBase then tx.getValueOut else 0).sum := by
  induction txs generalizing acc s ledger with
  | nil =>
    rw [Proc.foldM_nil] at h
    simp only [Prod.mk.injEq, Except.ok.injEq] at h
    exact ⟨ledger, h.1 ▸ hledger, by simp [← h.1]⟩
  | cons tx txs ih =>
    obtain ⟨acc₁, s₁, hd, tl⟩ := Proc.foldM_cons_ok_iff.mp h
    obtain ⟨hdhead, hdtail⟩ := List.forall_mem_cons.mp hdead
    obtain ⟨hvhead, hvtail⟩ := List.forall_mem_cons.mp hvout
    rw [List.map_cons, List.nodup_cons] at hnodup
    obtain ⟨ledger₁, hledger₁, htotal₁⟩ := connectTx_tallies hledger hdhead hvhead hd
    have hdead₁ : ∀ tx' ∈ txs, acc₁.view.Dead (env.getHash tx') := by
      intro tx' htx'
      have hne : env.getHash tx' ≠ env.getHash tx := fun heq => hnodup.1 (heq ▸ List.mem_map_of_mem htx')
      cases connectTx_ok hd with
      | coinbase _ hcoins => exact updateCoins_dead (hdtail tx' htx') hne hcoins
      | spend _ _ _ hcoins => exact updateCoins_dead (hdtail tx' htx') hne hcoins
    obtain ⟨ledger', hledger', htotal⟩ := ih hledger₁ hdead₁ hnodup.2 hvtail tl
    refine ⟨ledger', hledger', ?_⟩
    rw [htotal, htotal₁, List.map_cons, List.sum_cons]
    omega

/-- `GetBlockValue` adds the fees to what it gives without them. -/
theorem getBlockValue_fees {nHeight : Nat} {nFees value : Int} (h : getBlockValue env s nHeight nFees = .ok value) :
    getBlockValue env s nHeight 0 = .ok (value - nFees) := by
  unfold getBlockValue at h ⊢
  obtain ⟨b, hb, h⟩ := Except.bind_ok_iff.mp h
  obtain ⟨c, hc, h⟩ := Except.bind_ok_iff.mp h
  obtain ⟨d, hd, h⟩ := Except.bind_ok_iff.mp h
  refine Except.bind_ok_iff.mpr ⟨b, hb, Except.bind_ok_iff.mpr ⟨c, hc, Except.bind_ok_iff.mpr ⟨d, hd, ?_⟩⟩⟩
  rw [Except.ok.injEq] at h ⊢
  rw [← h]
  split <;> omega

/-- The coinbase of a block above `hardforkLaunch` takes at most block value and fees. -/
theorem checkReward_ok {nFees : Int} (hheight : hardforkLaunch < pindex.nHeight) (hfees : 0 ≤ nFees)
    (h : checkReward env pindex nFees s = .ok ()) :
    ∃ value, getBlockValue env s pindex.nHeight 0 = .ok value ∧
      (pindex.block.vtx.head?.map (·.getValueOut)).getD 0 ≤ value + nFees := by
  unfold checkReward at h
  obtain ⟨bValue, hvalue, h⟩ := Except.bind_ok_iff.mp h
  refine ⟨bValue - nFees, getBlockValue_fees hvalue, ?_⟩
  have hlimit := require_ok_iff.mp h
  have hpast : 1500 < pindex.nHeight := lt_trans (by decide) hheight
  rw [if_neg (by omega)] at hlimit
  by_contra hmore
  exact hlimit ⟨hfees, by omega, hpast⟩

/-- The only coinbase of a block is its first transaction. -/
theorem checkBlock_coinbase {nNow : Nat} {f g : Bool} (h : checkBlock env nNow pindex f g = .ok ()) :
    (pindex.block.vtx.map fun tx => if tx.isCoinBase then tx.getValueOut else 0).sum =
      (pindex.block.vtx.head?.map (·.getValueOut)).getD 0 := by
  simp only [checkBlock, require_bind_ok_iff] at h
  obtain ⟨⟨hne, -⟩, -, -, hfirst, hrest, -⟩ := h
  cases hv : pindex.block.vtx with
  | nil => exact absurd hv hne
  | cons cb txs =>
    rw [hv] at hfirst hrest
    have hcb : cb.isCoinBase = true := hfirst cb rfl
    have hzero : (txs.map fun tx => if tx.isCoinBase then tx.getValueOut else 0).sum = 0 := by
      refine List.sum_eq_zero fun x hx => ?_
      obtain ⟨tx, htx, rfl⟩ := List.mem_map.mp hx
      exact if_neg (by simp [hrest tx htx])
    rw [List.map_cons, List.sum_cons, hzero, if_pos hcb]
    simp

end Blocks

/-! ## Conservation -/

/-- **A block adds at most its block value.** For every view that comes up and every block above `hardforkLaunch` that is
    accepted over it: the coins before and after are finitely many, and the value of all of them grows by at most what
    `GetBlockValue` gives without fees, with the fee lists that the block's own transactions leave. A block with the
    hash of the genesis block is not processed. -/
theorem value_conserved {env : Env} {genesis : CBlock} {pindexBest pindex : CBlockIndex} {nNow : Nat}
    {view view' : CoinsCache} {s s' : Store} (hreach : Reached env genesis view s)
    (hheight : hardforkLaunch < pindex.nHeight)
    (h : connectBlock env false pindexBest pindex nNow view s = (.ok view', s')) :
    ∃ ledger ledger' : Ledger Uint256 Int, Tallies ledger view.coins ∧ Tallies ledger' view'.coins ∧
      ((env.getBlockHash pindex.block = env.hashGenesisBlock ∧ ledger'.total = ledger.total) ∨
        ∃ value, getBlockValue env s' pindex.nHeight 0 = .ok value ∧ ledger'.total ≤ ledger.total + value) := by
  obtain ⟨⟨parent, -, -, hequiv⟩, -⟩ := hreach.inv
  obtain ⟨ledger, hledger⟩ := chainCoins_tallies env parent.chain
  have hledger : Tallies ledger view.coins := fun hash => by rw [hledger hash, hequiv.worth_eq]
  obtain ⟨hpro, hcases⟩ := connectBlock_loop h
  rcases hcases with ⟨hgen, -, rfl⟩ | ⟨hreg, acc, s₁, hloop, rfl, rfl, hfees, hreward⟩
  · exact ⟨ledger, ledger, hledger, hledger, .inl ⟨hgen, rfl⟩⟩
  have hcheck := connectPrologue_checkBlock hpro
  obtain ⟨hnodup, hvout⟩ := checkBlock_outputs hcheck
  have hdead : ∀ tx ∈ pindex.block.vtx, view.coins.Dead (env.getHash tx) := by
    obtain ⟨⟨⟩, -, hpro⟩ := Except.bind_ok_iff.mp hpro
    simp only [require_bind_ok_iff, require_ok_iff] at hpro
    exact hpro.2.resolve_left hreg
  obtain ⟨ledger', hledger', htotal⟩ := connectTxs_tallies hledger hdead hnodup hvout hloop
  obtain ⟨value, hvalue, hlimit⟩ := checkReward_ok hheight hfees hreward
  refine ⟨ledger, ledger', hledger, hledger', .inr ⟨value, hvalue, ?_⟩⟩
  rw [checkBlock_coinbase hcheck] at htotal
  simp only [add_zero] at htotal
  omega

namespace Cakenet

/-- A chain of fallow blocks reaches `hardforkLaunch`. -/
theorem exists_launch_node : ∃ node, History env genesis node ∧ node.pindexBest.nHeight = hardforkLaunch ∧
    Fallow node (1 + hardforkLaunch) 259440 := by
  have hnumber : 1 + hardforkLaunch ≤ 1000000 := by decide
  have htop : (Node.init genesis).pindexBest.nHeight + hardforkLaunch ≤ 259440 := by decide
  have htip := fallow_init.tip (by decide) hnumber htop
  refine ⟨fallowTip (Node.init genesis) 1 hardforkLaunch, history_fallowTip .init _, ?_, htip.1⟩
  rw [htip.2.1]
  rfl

theorem launch_block_conserves :
    ∃ node view' s', node.pindexBest.nHeight = hardforkLaunch ∧
      connectOn node (mine node.pindexBest 1661 []) = (.ok view', s') ∧
      ∃ ledger ledger' : Ledger Uint256 Int, Tallies ledger node.coinsTip ∧ Tallies ledger' view'.coins ∧
        ((env.getBlockHash (mine node.pindexBest 1661 []).block = env.hashGenesisBlock ∧
          ledger'.total = ledger.total) ∨
        ∃ value, getBlockValue env s' (mine node.pindexBest 1661 []).nHeight 0 = .ok value ∧
          ledger'.total ≤ ledger.total + value) := by
  obtain ⟨node, hhistory, hheight, hfallow⟩ := exists_launch_node
  have htop : node.pindexBest.nHeight + 1 ≤ 259440 := by
    rw [hheight]
    decide
  have hpast : hardforkLaunch < (mine node.pindexBest 1661 []).nHeight := by
    rw [mine_nHeight, hheight]
    decide
  obtain ⟨value, hvalue, hle⟩ := hfallow.value (node.pindexBest.nHeight + 1) (by omega) htop
  have hconn := connectBlock_fallow node.pindexBest ⟨node.coinsTip, some node.pindexBest⟩ node.store rfl (by decide)
    (by decide) (hfallow.dead 1661 (by decide)) (checkReward_fallow hvalue hle)
  exact ⟨node, _, _, hheight, hconn, value_conserved (.node hhistory) hpast hconn⟩

end Cakenet

end Syscoin

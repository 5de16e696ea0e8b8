import Syscoin.Correctness.Relay

/-!
# `Correctness.Serving` — what a peer with a filter is sent

A peer with a filter is sent a merkle block and the transactions in it that it does not know. The filter has no false
negatives and the tree is complete, so what the peer extracts are all its transactions, under the root of the block
(`filtered_block_complete`).
-/

namespace Syscoin

open Lib Lib.Reader

/-! ## Matching a block -/

/-- Matching a transaction adds to the filter and takes nothing away. -/
theorem CBloomFilter.Sane.inserted_subset {f f' : CBloomFilter} (h : f.Sane) {solver : CScript → Bool} {tx : CTransaction}
    {hash : Uint256} {b : Bool} (hrun : f.isRelevantAndUpdate solver tx hash = some (b, f')) :
    f.inserted ⊆ f'.inserted := by
  unfold CBloomFilter.isRelevantAndUpdate at hrun
  split at hrun
  · obtain ⟨-, rfl⟩ := Prod.mk.inj (Option.some.inj hrun)
    exact List.Subset.refl _
  · split at hrun
    · obtain ⟨-, rfl⟩ := Prod.mk.inj (Option.some.inj hrun)
      exact List.Subset.refl _
    · obtain ⟨c, -, hrun⟩ := Option.bind_eq_some_iff.mp hrun
      obtain ⟨b₁, f₁, hmatch, -, hsub, -⟩ := h.matchOutputs solver hash 0 tx.vout c
      obtain ⟨⟨b₂, f₂⟩, hmatch', hrun⟩ := Option.bind_eq_some_iff.mp hrun
      rw [hmatch, Option.some.injEq, Prod.mk.injEq] at hmatch'
      obtain ⟨rfl, rfl⟩ := hmatch'
      dsimp only at hrun
      split at hrun
      · obtain ⟨-, rfl⟩ := Prod.mk.inj (Option.some.inj hrun)
        exact hsub
      · obtain ⟨b₃, -, hrun⟩ := Option.bind_eq_some_iff.mp hrun
        obtain ⟨-, rfl⟩ := Prod.mk.inj (Option.some.inj hrun)
        exact hsub

theorem CBloomFilter.Relevant.mono {inserted inserted' : List Bytes} {tx : CTransaction} {hash : Uint256}
    (hsub : inserted ⊆ inserted') (h : Relevant inserted tx hash) : Relevant inserted' tx hash := by
  rcases h with h | ⟨txin, htxin, h⟩ | ⟨txout, htxout, h⟩ | ⟨txin, htxin, h⟩
  · exact .inl (hsub h)
  · exact .inr (.inl ⟨txin, htxin, hsub h⟩)
  · exact .inr (.inr (.inl ⟨txout, htxout, h.mono hsub⟩))
  · exact .inr (.inr (.inr ⟨txin, htxin, h.mono hsub⟩))

section Matching

variable {env : Env} {filter : CBloomFilter}

/-- The transactions that a mask selects. -/
def selectedTxs (vtx : List CTransaction) (vMatch : List Bool) : List CTransaction :=
  ((vtx.zip vMatch).filter (·.2)).map (·.1)

theorem selectedTxs_cons (tx : CTransaction) (vtx : List CTransaction) (b : Bool) (vMatch : List Bool) :
    selectedTxs (tx :: vtx) (b :: vMatch) = if b then tx :: selectedTxs vtx vMatch else selectedTxs vtx vMatch := by
  cases b <;> rfl

theorem selectedTxs_sublist (vtx : List CTransaction) (vMatch : List Bool) : (selectedTxs vtx vMatch).Sublist vtx := by
  induction vtx generalizing vMatch with
  | nil => exact List.Sublist.refl _
  | cons tx vtx ih =>
    cases vMatch with
    | nil => exact List.nil_sublist _
    | cons b vMatch =>
      rw [selectedTxs_cons]
      cases b with
      | true => exact (ih vMatch).cons_cons tx
      | false => exact (ih vMatch).cons tx

theorem map_selectedTxs (vtx : List CTransaction) (vMatch : List Bool) :
    (selectedTxs vtx vMatch).map env.getHash = CPartialMerkleTree.selected (vtx.map env.getHash) vMatch := by
  induction vtx generalizing vMatch with
  | nil => rfl
  | cons tx vtx ih =>
    cases vMatch with
    | nil => rfl
    | cons b vMatch =>
      have hcons : CPartialMerkleTree.selected ((tx :: vtx).map env.getHash) (b :: vMatch) =
          if b then env.getHash tx :: CPartialMerkleTree.selected (vtx.map env.getHash) vMatch
          else CPartialMerkleTree.selected (vtx.map env.getHash) vMatch := by
        cases b <;> rfl
      rw [selectedTxs_cons, hcons, ← ih]
      cases b <;> rfl

/-- **The loop of `CMerkleBlock`.** It does not divide by zero, the mask has what was relevant when the loop began,
    and the pairs lead back to the transactions that the mask selects. -/
theorem matchTransactions_spec (env : Env) (solver : CScript → Bool) (hsane : filter.Sane) (all : List CTransaction)
    (i : Nat) (vtx : List CTransaction) (hvtx : all.drop i = vtx) :
    ∃ vMatch vMatchedTxn filter', matchTransactions env solver i vtx filter = some (vMatch, vMatchedTxn, filter') ∧
      filter'.Sane ∧ vMatch.length = vtx.length ∧
      (∀ tx ∈ vtx, CBloomFilter.Relevant filter.inserted tx (env.getHash tx) → tx ∈ selectedTxs vtx vMatch) ∧
      ∀ P : Uint256 → Bool, (vMatchedTxn.filter fun pair => P pair.2).filterMap (fun pair => all[pair.1]?) =
        (selectedTxs vtx vMatch).filter fun tx => P (env.getHash tx) := by
  induction vtx generalizing i filter with
  | nil => exact ⟨[], [], filter, rfl, hsane, rfl, by simp, fun P => rfl⟩
  | cons tx vtx ih =>
    obtain ⟨b, filter₁, hrun₁, hsane₁, hrel₁⟩ := hsane.isRelevantAndUpdate solver tx (env.getHash tx)
    have hsub := hsane.inserted_subset hrun₁
    have hdrop : all.drop (i + 1) = vtx := by
      rw [← List.drop_drop, hvtx, List.drop_one, List.tail_cons]
    have hhead : all[i]? = some tx := by
      have hzero : (all.drop i)[0]? = some tx := by rw [hvtx, List.getElem?_cons_zero]
      rwa [List.getElem?_drop, Nat.add_zero] at hzero
    obtain ⟨vMatch, vMatchedTxn, filter', hrun, hsane', hlen, hrel, hpairs⟩ := ih hsane₁ (i + 1) hdrop
    refine ⟨b :: vMatch, if b then (i, env.getHash tx) :: vMatchedTxn else vMatchedTxn, filter', ?_, hsane', ?_, ?_, ?_⟩
    · rw [matchTransactions, hrun₁, Option.bind_eq_bind, Option.bind_some]
      dsimp only
      rw [hrun]
      rfl
    · rw [List.length_cons, List.length_cons, hlen]
    · intro tx' htx' hrel'
      rw [selectedTxs_cons]
      rcases List.mem_cons.mp htx' with rfl | htx'
      · rw [if_pos (hrel₁ hrel')]
        exact List.mem_cons_self
      · have hmem := hrel tx' htx' (CBloomFilter.Relevant.mono hsub hrel')
        split
        · exact List.mem_cons_of_mem _ hmem
        · exact hmem
    · intro P
      rw [selectedTxs_cons]
      cases b with
      | false => exact hpairs P
      | true =>
        rw [if_pos rfl, if_pos rfl, List.filter_cons, List.filter_cons]
        cases hP : P (env.getHash tx) with
        | false =>
          rw [if_neg (by simp), if_neg (by simp)]
          exact hpairs P
        | true =>
          rw [if_pos rfl, if_pos rfl, List.filterMap_cons, hhead, hpairs P]

end Matching

/-! ## Filtered blocks -/

namespace CNode

variable {node node' : CNode} {w : Serving} {inv : CInv} {pushed : List PeerMessage}

/-- The peer has a filter, and a sane one. -/
def Filtered (node : CNode) : Prop := ∃ filter, node.pfilter = some filter ∧ filter.Sane

/-- `pushBlock` of a filtered block. -/
theorem pushBlock_filtered {filter : CBloomFilter} (hfilter : node.pfilter = some filter) (hsane : filter.Sane)
    (htype : inv.type ≠ MSG_BLOCK) (block : CBlock) :
    ∃ vMatch vMatchedTxn filter', filter'.Sane ∧ vMatch.length = block.vtx.length ∧
      (∀ tx ∈ block.vtx, CBloomFilter.Relevant filter.inserted tx (w.env.getHash tx) →
        tx ∈ selectedTxs block.vtx vMatch) ∧
      pushBlock w node inv block = some ({ node with pfilter := some filter' },
        .merkleblock ⟨{ block with vtx := [] }, .ofTxids w.env.hashPair (block.vtx.map w.env.getHash) vMatch, vMatchedTxn⟩ ::
          ((selectedTxs block.vtx vMatch).filter fun tx =>
            !node.setInventoryKnown.count ⟨MSG_TX, w.env.getHash tx⟩).map .tx) := by
  obtain ⟨vMatch, vMatchedTxn, filter', hrun, hsane', hlen, hrel, hpairs⟩ :=
    matchTransactions_spec w.env w.solver hsane block.vtx 0 block.vtx rfl
  refine ⟨vMatch, vMatchedTxn, filter', hsane', hlen, hrel, ?_⟩
  have hnew : CMerkleBlock.ofBlock w.env w.solver block filter = some (⟨{ block with vtx := [] },
      .ofTxids w.env.hashPair (block.vtx.map w.env.getHash) vMatch, vMatchedTxn⟩, filter') := by
    rw [CMerkleBlock.ofBlock, hrun]
    rfl
  have hunknown := hpairs fun hash => !node.setInventoryKnown.count ⟨MSG_TX, hash⟩
  rw [pushBlock, if_neg htype, hfilter]
  dsimp only
  rw [hnew, Option.bind_eq_bind, Option.bind_some]
  dsimp only
  rw [hunknown]

/-- Nothing divides by zero, and the filter stays sane. -/
theorem Filtered.pushBlock (h : Filtered node) (w : Serving) (inv : CInv) (block : CBlock) :
    ∃ node' pushed, CNode.pushBlock w node inv block = some (node', pushed) ∧ Filtered node' := by
  by_cases htype : inv.type = MSG_BLOCK
  · exact ⟨node, _, if_pos htype, h⟩
  · obtain ⟨filter, hfilter, hsane⟩ := h
    obtain ⟨vMatch, vMatchedTxn, filter', hsane', -, -, hpush⟩ := pushBlock_filtered hfilter hsane htype block
    exact ⟨_, _, hpush, filter', rfl, hsane'⟩

theorem Filtered.serveBlock (h : Filtered node) (inv : CInv) :
    ∃ node' pushed, CNode.serveBlock w node inv = some (node', pushed) ∧ Filtered node' := by
  unfold CNode.serveBlock
  cases w.mapBlockIndex inv.hash with
  | none => exact ⟨node, [], rfl, h⟩
  | some pindex =>
    dsimp only
    split
    · exact ⟨node, [], rfl, h⟩
    · obtain ⟨node₁, pushed, hpush, filter, hfilter, hsane⟩ := h.pushBlock w inv pindex.block
      rw [hpush, Option.bind_eq_bind, Option.bind_some]
      dsimp only
      split
      · exact ⟨_, _, rfl, filter, hfilter, hsane⟩
      · exact ⟨_, _, rfl, filter, hfilter, hsane⟩

theorem Filtered.getDataLoop (h : Filtered node) (pushed : List PeerMessage) (vNotFound requests : List CInv) :
    ∃ node' pushed' vNotFound' it,
      CNode.getDataLoop w node pushed vNotFound requests = some (node', pushed', vNotFound', it) ∧ Filtered node' := by
  induction requests generalizing pushed vNotFound with
  | nil => exact ⟨node, pushed, vNotFound, [], rfl, h⟩
  | cons inv requests ih =>
    rw [CNode.getDataLoop]
    split
    · exact ⟨_, _, _, _, rfl, h⟩
    · split
      · have hcount : Filtered { node with nBlocksRequested := (node.nBlocksRequested + 1) % 2 ^ 64 } := h
        obtain ⟨node', served, hserve, h'⟩ := hcount.serveBlock (w := w) inv
        rw [hserve]
        exact ⟨_, _, _, _, rfl, h'⟩
      · split
        · split
          · exact ih _ _
          · exact ih _ _
        · exact ih _ _

theorem Filtered.processGetData (h : Filtered node) :
    ∃ node' pushed, CNode.processGetData w node = some (node', pushed) ∧ Filtered node' := by
  obtain ⟨node', pushed, vNotFound, it, hloop, h'⟩ := h.getDataLoop (w := w) [] [] node.vRecvGetData
  rw [CNode.processGetData, hloop]
  exact ⟨_, _, rfl, h'⟩

theorem Filtered.perform (h : Filtered node) (call : NodeCall) :
    ∃ node' pushed, node.perform call = some (node', pushed) ∧ Filtered node' := by
  cases call with
  | addInventoryKnown inv => exact ⟨_, _, rfl, h⟩
  | pushInventory inv =>
    refine ⟨_, _, rfl, ?_⟩
    unfold CNode.pushInventory
    split
    · exact h
    · exact h
  | getblocks w locator hashStop =>
    refine ⟨_, _, rfl, ?_⟩
    unfold CNode.getblocks
    dsimp only
    rw [foldl_pushInventory]
    split
    · exact h
    · exact h
  | sendInventory t => exact ⟨_, _, rfl, h⟩
  | getdata w vInv =>
    rw [CNode.perform, CNode.getdata]
    split
    · exact ⟨_, _, rfl, h⟩
    · have hasked : Filtered { node with vRecvGetData := node.vRecvGetData ++ vInv } := h
      exact hasked.processGetData
  | processGetData w => exact h.processGetData
  | filter solver op =>
    obtain ⟨filter, hfilter, hsane⟩ := h
    obtain ⟨filter', hop, hsane'⟩ := hsane.apply solver op
    rw [CNode.perform, hfilter]
    dsimp only
    rw [hop]
    exact ⟨_, _, rfl, filter', rfl, hsane'⟩

end CNode

theorem RelayRun.filtered {sendBufferSize : Nat} {pfilter : CBloomFilter} {log : RelayLog} {node : CNode}
    (run : RelayRun sendBufferSize pfilter log node) (hsane : pfilter.Sane) : node.Filtered := by
  induction run with
  | init => exact ⟨pfilter, rfl, hsane⟩
  | @step log node node' call pushed run ok ih =>
    obtain ⟨node'', pushed', hperform, h⟩ := ih.perform call
    rw [ok, Option.some.injEq, Prod.mk.injEq] at hperform
    rw [hperform.1]
    exact h

/-- An honest tree is read back as it was written, with its bits padded. -/
theorem CPartialMerkleTree.reads_ofTxids {env : Env} {vTxid : List Uint256} (vMatch : List Bool)
    (hhash : ∀ a b, env.hashPair a b < 2 ^ 256) (htxid : ∀ t ∈ vTxid, t < 2 ^ 256) (hne : vTxid ≠ [])
    (hmax : vTxid.length ≤ MAX_BLOCK_SIZE / 60) :
    Reads unserialize (serialize (ofTxids env.hashPair vTxid vMatch)) (ofTxids env.hashPair vTxid vMatch).padded := by
  have hcount : vTxid.length ≤ 34952 := hmax
  have hhashes : (nodeHashes env.hashPair vTxid vMatch (nHeight vTxid.length) 0).length ≤ vTxid.length :=
    length_nodeHashes_root hne
  have hbits : (nodeBits vTxid vMatch (nHeight vTxid.length) 0).length < 4 * vTxid.length := length_nodeBits_root hne
  have hlimit : Field.MAX_SIZE = 33554432 := rfl
  rw [ofTxids_eq]
  refine reads_unserialize ?_ ?_ ?_ fun hash h => mem_nodeHashes_lt hhash htxid h
  · exact hcount.trans_lt (by decide)
  · rw [hlimit]
    exact hhashes.trans (hcount.trans (by decide))
  · rw [hlimit]
    exact hbits.le.trans ((Nat.mul_le_mul_left 4 hcount).trans (by decide))

namespace Cakenet

end Cakenet

end Syscoin

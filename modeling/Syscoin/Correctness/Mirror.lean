import Syscoin.Correctness.Pending

/-!
# `Correctness.Mirror` — the pending maps and the memory pool

The wallet takes a name for busy while the pending map has an entry for it, so the maps are meant to mirror the pool.
They do not: an entry is made before the transaction has passed its last check, through a decoder that only knows
alias operations; it is erased by `ConnectBlock` alone, only for alias activations and updates, and before it is
known whether the block connects; and `remove` erases nothing. `RemoveAliasTxnFromMemoryPool` would, but is not called.

`pending_maps_mirror` is about the runs in which none of this happens. `Mirror` is the invariant, relative to the
transactions that a call of `SetBestChain` has connected and not yet taken out of the pool.
-/

namespace Syscoin

open Lib

/-! ## The maps as a mirror of the pool -/

def offerSlot (op : Op) (vvch : List Bytes) : Slot × Bytes :=
  if op = .offerAccept ∨ op = .offerPay then (.offerAccepts, arg vvch 1)
  else (.offers, if op = .offerNew then hexStr (arg vvch 0) else arg vvch 0)

def certSlot (op : Op) (vvch : List Bytes) : Slot × Bytes :=
  if op = .certTransfer then (.certItems, arg vvch 1)
  else (.certIssuers, if op = .certissuerNew then hexStr (arg vvch 0) else arg vvch 0)

namespace CTransaction

/-- The name of the alias operation of a transaction. -/
def aliasName (tx : CTransaction) : Option Bytes := (decodeAliasTx tx).map fun r => arg r.2.2 0

/-- The maps and the names under which a transaction is meant to be pending, each operation found by the decoder of
    its own service. -/
def slots (tx : CTransaction) : List (Slot × Bytes) :=
  tx.aliasName.toList.map (Slot.aliases, ·) ++
    ((decodeOfferTx tx).toList.map fun r => offerSlot r.1 r.2.2) ++
    ((decodeCertTx tx).toList.map fun r => certSlot r.1 r.2.2)

/-- No offer and no certificate output. -/
def plainOrAlias (tx : CTransaction) : Prop := decodeOfferTx tx = none ∧ decodeCertTx tx = none

instance (tx : CTransaction) : Decidable tx.plainOrAlias := inferInstanceAs (Decidable (_ ∧ _))

theorem mem_slots_of_plainOrAlias {tx : CTransaction} (h : tx.plainOrAlias) {p : Slot × Bytes} :
    p ∈ tx.slots ↔ p.1 = .aliases ∧ tx.aliasName = some p.2 := by
  obtain ⟨slot, key⟩ := p
  simp only [slots, h.1, h.2, Option.toList_none, List.map_nil, List.append_nil, List.mem_map, Option.mem_toList,
    Prod.mk.injEq]
  constructor
  · rintro ⟨k, hk, rfl, rfl⟩
    exact ⟨rfl, hk⟩
  · rintro ⟨rfl, hk⟩
    exact ⟨key, hk, rfl, rfl⟩

end CTransaction

/-- **The property**: what is pending is in the pool, what is in the pool is pending under each of its names, and a
    name is blocked exactly while the pool has an operation on it. -/
structure Mirrors (env : Env) (pn : PoolNode) : Prop where
  inPool : ∀ slot key, ∀ hash ∈ pn.node.store.pendings.at slot key, (pn.pool.lookup env hash).isSome = true
  recorded : ∀ hash tx, pn.pool.lookup env hash = some tx →
    ∀ p ∈ tx.slots, hash ∈ pn.node.store.pendings.at p.1 p.2
  blocked : ∀ slot key, pn.node.store.pendings.at slot key ≠ ∅ ↔
    ∃ hash tx, pn.pool.lookup env hash = some tx ∧ (slot, key) ∈ tx.slots

/-- **The invariant**, relative to the transactions `D` that were connected and are still to be taken out. -/
structure Mirror (env : Env) (D : Uint256 → Prop) (pn : PoolNode) : Prop where
  others : ∀ slot key, slot ≠ .aliases → pn.node.store.pendings.at slot key = ∅
  alone : ∀ hash tx, pn.pool.lookup env hash = some tx → tx.plainOrAlias
  recorded : ∀ key, ∀ hash ∈ pn.node.store.pendings.mapAliasesPending key,
    ∃ tx, pn.pool.lookup env hash = some tx ∧ tx.aliasName = some key
  listed : ∀ hash tx key, pn.pool.lookup env hash = some tx → tx.aliasName = some key →
    hash ∈ pn.node.store.pendings.mapAliasesPending key ∨ D hash
  erased : ∀ hash tx key, D hash → pn.pool.lookup env hash = some tx → tx.aliasName = some key →
    hash ∉ pn.node.store.pendings.mapAliasesPending key

/-- Nothing is left to be taken out. -/
abbrev NothingOwed : Uint256 → Prop := fun _ => False

section Mirror

variable {env : Env} {relay : Relay} {D : Uint256 → Prop} {pn : PoolNode} {tx : CTransaction}

theorem Mirror.mirrors (h : Mirror env NothingOwed pn) : Mirrors env pn := by
  -- a hash in any map is one among the aliases, and so are the slots of the pool
  have hslot : ∀ slot key, ∀ hash ∈ pn.node.store.pendings.at slot key,
      slot = .aliases ∧ ∃ t, pn.pool.lookup env hash = some t ∧ t.aliasName = some key := by
    intro slot key hash hin
    by_cases hs : slot = .aliases
    · subst hs
      exact ⟨rfl, h.recorded key hash hin⟩
    · rw [h.others slot key hs] at hin
      exact absurd hin (Finset.notMem_empty hash)
  have hlist : ∀ hash t, pn.pool.lookup env hash = some t → ∀ p ∈ t.slots,
      hash ∈ pn.node.store.pendings.at p.1 p.2 := by
    intro hash t ht p hp
    obtain ⟨hs, hkey⟩ := (CTransaction.mem_slots_of_plainOrAlias (h.alone hash t ht)).mp hp
    rw [hs]
    exact (h.listed hash t p.2 ht hkey).resolve_right id
  refine ⟨fun slot key hash hin => ?_, hlist, fun slot key => ⟨fun hne => ?_, ?_⟩⟩
  · obtain ⟨-, t, ht, -⟩ := hslot slot key hash hin
    rw [ht]
    rfl
  · obtain ⟨hash, hin⟩ := Finset.nonempty_iff_ne_empty.mpr hne
    obtain ⟨hs, t, ht, hkey⟩ := hslot slot key hash hin
    exact ⟨hash, t, ht, (CTransaction.mem_slots_of_plainOrAlias (h.alone hash t ht)).mpr ⟨hs, hkey⟩⟩
  · rintro ⟨hash, t, ht, hp⟩
    exact Finset.ne_empty_of_mem (hlist hash t ht _ hp)

theorem mirror_init (genesis : CBlock) : Mirror env NothingOwed ⟨Node.init genesis, .empty⟩ := by
  refine ⟨fun slot key _ => ?_, ?_, ?_, ?_, ?_⟩
  · cases slot <;> rfl
  · intro hash t ht
    simp [CTxMemPool.lookup, CTxMemPool.empty] at ht
  · intro key hash hin
    exact absurd hin (Finset.notMem_empty hash)
  · intro hash t key ht
    simp [CTxMemPool.lookup, CTxMemPool.empty] at ht
  · intro hash t key hD
    exact absurd hD id

/-- The pool transactions that have the hash of an `R` carry no alias operation, but for those that are to go. -/
def Spares (env : Env) (D : Uint256 → Prop) (R : CTransaction → Prop) (pool : CTxMemPool) : Prop :=
  ∀ t, R t → ∀ t', pool.lookup env (env.getHash t) = some t' → t'.aliasName = none ∨ D (env.getHash t)

theorem Mirror.shed {pool' : CTxMemPool} {R : CTransaction → Prop} (h : Mirror env D pn)
    (hsheds : CTxMemPool.Sheds env R pn.pool pool') (hspares : Spares env D R pn.pool) :
    Mirror env D { pn with pool := pool' } := by
  refine ⟨h.others, fun hash t ht => h.alone hash t (hsheds.sub hash t ht), fun key hash hin => ?_,
    fun hash t key ht => h.listed hash t key (hsheds.sub hash t ht),
    fun hash t key hD ht => h.erased hash t key hD (hsheds.sub hash t ht)⟩
  obtain ⟨t, ht, hkey⟩ := h.recorded key hash hin
  rcases hsheds.kept hash t ht with ht' | ⟨r, hr, rfl⟩
  · exact ⟨t, ht', hkey⟩
  · rcases hspares r hr t ht with hnone | hD
    · rw [hnone] at hkey
      cases hkey
    · exact absurd hin (h.erased _ t key hD ht hkey)

/-! ## `accept` -/

/-- Of the pending maps only that of the aliases is ever written. -/
theorem Pendings.record_eq (p : Pendings) :
    p.record env tx = match tx.aliasName with
      | none => p
      | some key => { p with mapAliasesPending := p.mapAliasesPending.insert key (env.getHash tx) } := by
  unfold Pendings.record CTransaction.aliasName
  cases hop : decodeAliasTx tx with
  | none => rfl
  | some r =>
    obtain ⟨op, nOut, vvch⟩ := r
    obtain ⟨⟨out, -, hdec⟩, -⟩ := decodeTx_eq_some hop
    simp only [(decodeScript_spec hdec).1, if_true, Option.map_some]

theorem record_of_aliasName_none (h : tx.aliasName = none) (pn : PoolNode) : PoolNode.record env tx pn = pn := by
  unfold PoolNode.record
  rw [Pendings.record_eq, h]
  rfl

theorem Pending.mem_insert {m : Pending} {vch key : Bytes} {hash hash' : Uint256} :
    hash' ∈ m.insert vch hash key ↔ hash' ∈ m key ∨ (hash' = hash ∧ key = vch) := by
  unfold Pending.insert
  by_cases h : key = vch
  · subst h
    rw [Function.update_self, Finset.mem_insert]
    tauto
  · rw [Function.update_of_ne h]
    tauto

/-- Taking a transaction in and recording it. -/
theorem Mirror.take (h : Mirror env D pn) (hfresh : pn.pool.lookup env (env.getHash tx) = none)
    (hplain : tx.plainOrAlias) (hD : tx.aliasName ≠ none → ¬ D (env.getHash tx)) :
    Mirror env D (PoolNode.addUnchecked tx (PoolNode.record env tx pn)) := by
  have hlook : ∀ hash t, (pn.pool.addUnchecked tx).lookup env hash = some t →
      (hash = env.getHash tx ∧ t = tx) ∨ (hash ≠ env.getHash tx ∧ pn.pool.lookup env hash = some t) := by
    intro hash t ht
    rw [CTxMemPool.lookup_addUnchecked] at ht
    split at ht
    · rename_i heq
      exact .inl ⟨heq.symm, (Option.some.inj ht).symm⟩
    · rename_i hne
      exact .inr ⟨fun heq => hne heq.symm, ht⟩
  have hold : ∀ hash t, pn.pool.lookup env hash = some t → (pn.pool.addUnchecked tx).lookup env hash = some t := by
    intro hash t ht
    have hne : env.getHash tx ≠ hash := fun heq => by rw [heq, ht] at hfresh; cases hfresh
    rw [CTxMemPool.lookup_addUnchecked, if_neg hne]
    exact ht
  have hself : (pn.pool.addUnchecked tx).lookup env (env.getHash tx) = some tx := by
    rw [CTxMemPool.lookup_addUnchecked, if_pos rfl]
  -- the alias map afterwards, entry by entry
  have hmap : ∀ key hash, hash ∈ (PoolNode.record env tx pn).node.store.pendings.mapAliasesPending key ↔
      hash ∈ pn.node.store.pendings.mapAliasesPending key ∨ (hash = env.getHash tx ∧ tx.aliasName = some key) := by
    intro key hash
    simp only [PoolNode.record, Store.setPendings, Store.pendings, Pendings.record_eq]
    cases hname : tx.aliasName with
    | none => simp
    | some name => simp [Pending.mem_insert, eq_comm]
  refine ⟨fun slot key hs => ?_, fun hash t ht => ?_, fun key hash hin => ?_, fun hash t key ht hkey => ?_,
    fun hash t key hd ht hkey => ?_⟩
  · have hsame : (PoolNode.record env tx pn).node.store.pendings.at slot = pn.node.store.pendings.at slot := by
      simp only [PoolNode.record, Store.setPendings, Store.pendings, Pendings.record_eq]
      cases slot with
      | aliases => exact absurd rfl hs
      | offers | offerAccepts | certIssuers | certItems => cases tx.aliasName <;> rfl
    exact (congrFun hsame key).trans (h.others slot key hs)
  · rcases hlook hash t ht with ⟨-, rfl⟩ | ⟨-, ht⟩
    · exact hplain
    · exact h.alone hash t ht
  · rcases (hmap key hash).mp hin with hin | ⟨rfl, hkey⟩
    · obtain ⟨t, ht, hkey⟩ := h.recorded key hash hin
      exact ⟨t, hold hash t ht, hkey⟩
    · exact ⟨tx, hself, hkey⟩
  · rcases hlook hash t ht with ⟨rfl, rfl⟩ | ⟨-, ht⟩
    · exact .inl ((hmap key _).mpr (.inr ⟨rfl, hkey⟩))
    · exact (h.listed hash t key ht hkey).imp_left fun hin => (hmap key hash).mpr (.inl hin)
  · rcases hlook hash t ht with ⟨rfl, rfl⟩ | ⟨hne, ht⟩
    · exact absurd hd (hD (by rw [hkey]; exact Option.some_ne_none key))
    · intro hin
      rcases (hmap key hash).mp hin with hin | ⟨heq, -⟩
      · exact h.erased hash t key hd ht hkey hin
      · exact hne heq

/-- **A clean `accept`**: an alias operation that gets as far as being entered is taken in afterwards, and nothing
    that is taken in carries an offer or certificate operation. -/
def AcceptClean (env : Env) (relay : Relay) (pindexBest : CBlockIndex) (args : AcceptArgs) (tx : CTransaction)
    (pn : PoolNode) : Prop :=
  PoolNode.precheck env relay args tx pn = .ok () →
    (tx.aliasName ≠ none →
      args.fCheckInputs = true ∧ PoolNode.PoolInputsOk env relay pindexBest tx (PoolNode.record env tx pn)) ∧
    (args.fCheckInputs = false ∨ PoolNode.PoolInputsOk env relay pindexBest tx (PoolNode.record env tx pn) →
      tx.plainOrAlias)

theorem lookup_of_precheck {args : AcceptArgs} (h : PoolNode.precheck env relay args tx pn = .ok ()) :
    pn.pool.lookup env (env.getHash tx) = none := by
  obtain ⟨_, -, h⟩ := Except.bind_ok_iff.mp h
  have h := (require_bind_ok_iff.mp (require_bind_ok_iff.mp (require_bind_ok_iff.mp h).2).2).2
  exact Option.isNone_iff_eq_none.mp (require_bind_ok_iff.mp h).1

theorem Mirror.accept {pindexBest : CBlockIndex} {args : AcceptArgs} (h : Mirror env D pn)
    (hclean : AcceptClean env relay pindexBest args tx pn)
    (hD : PoolNode.precheck env relay args tx pn = .ok () → tx.aliasName ≠ none → ¬ D (env.getHash tx)) :
    Mirror env D (PoolNode.accept env relay pindexBest args tx pn).2 := by
  rcases PoolNode.accept_cases env relay pindexBest args tx pn with
    ⟨e, -, hacc⟩ | ⟨hpre, hargs, hacc⟩ | ⟨hpre, hargs, hbad, e, hacc⟩ | ⟨hpre, hargs, hgood, hacc⟩
  · rw [hacc]
    exact h
  · -- taken in unseen: only a transaction without an alias operation gets by
    have hname : tx.aliasName = none := by
      by_contra hne
      have hcheck := ((hclean hpre).1 hne).1
      rw [hargs] at hcheck
      cases hcheck
    have htake := h.take (lookup_of_precheck hpre) ((hclean hpre).2 (.inl hargs)) (hD hpre)
    rw [record_of_aliasName_none hname] at htake
    rw [hacc]
    exact htake
  · have hname : tx.aliasName = none := by
      by_contra hne
      exact hbad ((hclean hpre).1 hne).2
    rw [hacc, record_of_aliasName_none hname]
    exact h
  · rw [hacc]
    exact h.take (lookup_of_precheck hpre) ((hclean hpre).2 (.inr hgood)) (hD hpre)

/-! ## `SetBestChain` -/

/-- A clean resurrection: what is not connected again is accepted cleanly, and what fails takes no alias operation
    along. -/
def ResurrectClean (env : Env) (relay : Relay) (D : Uint256 → Prop) (pindexBest : CBlockIndex) (tx : CTransaction)
    (pn : PoolNode) : Prop :=
  AcceptClean env relay pindexBest ⟨true, false, false⟩ tx pn ∧
    (PoolNode.precheck env relay ⟨true, false, false⟩ tx pn = .ok () → tx.aliasName ≠ none → ¬ D (env.getHash tx)) ∧
    ((PoolNode.accept env relay pindexBest ⟨true, false, false⟩ tx pn).1.isOk = false →
      Spares env D (CTxMemPool.Reaches env pn.pool tx) pn.pool)

def ResurrectAllClean (env : Env) (relay : Relay) (D : Uint256 → Prop) (pindexBest : CBlockIndex) :
    List CTransaction → PoolNode → Prop
  | [], _ => True
  | tx :: txs, pn => ResurrectClean env relay D pindexBest tx pn ∧
      ResurrectAllClean env relay D pindexBest txs (PoolNode.resurrect env relay pindexBest tx pn)

/-- The conflicts of the connected transactions carry no alias operation. -/
def DeleteAllClean (env : Env) (D : Uint256 → Prop) : List CTransaction → PoolNode → Prop
  | [], _ => True
  | tx :: txs, pn =>
    Spares env D (CTxMemPool.Conflicts env (pn.pool.remove env tx false) tx) (pn.pool.remove env tx false) ∧
      DeleteAllClean env D txs (PoolNode.delete env tx pn)

theorem Mirror.resurrect {pindexBest : CBlockIndex} (h : Mirror env D pn)
    (hclean : ResurrectClean env relay D pindexBest tx pn) :
    Mirror env D (PoolNode.resurrect env relay pindexBest tx pn) := by
  obtain ⟨hacc, hD, hfail⟩ := hclean
  have hafter := h.accept hacc hD
  -- a failing call leaves the pool alone
  have hpool : (PoolNode.accept env relay pindexBest ⟨true, false, false⟩ tx pn).1.isOk = false →
      (PoolNode.accept env relay pindexBest ⟨true, false, false⟩ tx pn).2.pool = pn.pool := by
    intro herr
    rcases PoolNode.accept_cases env relay pindexBest ⟨true, false, false⟩ tx pn with
      ⟨e, -, hrun⟩ | ⟨-, -, hrun⟩ | ⟨-, -, -, e, hrun⟩ | ⟨-, -, -, hrun⟩
    · rw [hrun]
    · rw [hrun] at herr; cases herr
    · rw [hrun]; rfl
    · rw [hrun] at herr; cases herr
  unfold PoolNode.resurrect
  rcases hrun : PoolNode.accept env relay pindexBest ⟨true, false, false⟩ tx pn with ⟨e | _, pn'⟩
  · rw [hrun] at hafter hpool hfail
    refine hafter.shed (CTxMemPool.remove_sheds pn'.pool tx true) ?_
    rw [hpool rfl]
    intro t ht
    refine hfail rfl t ?_
    rcases ht with rfl | ⟨-, ht⟩
    · exact .self
    · exact ht
  · rw [hrun] at hafter
    exact hafter

theorem Mirror.resurrectAll {pindexBest : CBlockIndex} {txs : List CTransaction} (h : Mirror env D pn)
    (hclean : ResurrectAllClean env relay D pindexBest txs pn) :
    Mirror env D (PoolNode.resurrectAll env relay pindexBest txs pn) := by
  induction txs generalizing pn with
  | nil => exact h
  | cons tx txs ih => exact ih (h.resurrect hclean.1) hclean.2

theorem Mirror.delete (h : Mirror env D pn) (hin : D (env.getHash tx))
    (hclean : Spares env D (CTxMemPool.Conflicts env (pn.pool.remove env tx false) tx)
      (pn.pool.remove env tx false)) :
    Mirror env D (PoolNode.delete env tx pn) := by
  have hremove : Mirror env D { pn with pool := pn.pool.remove env tx false } := by
    refine h.shed (CTxMemPool.remove_sheds pn.pool tx false) fun t ht t' _ => .inr ?_
    rcases ht with rfl | ⟨hrec, -⟩
    · exact hin
    · cases hrec
  exact hremove.shed (CTxMemPool.removeConflicts_sheds _ tx) hclean

theorem delete_sheds (env : Env) (tx : CTransaction) (pn : PoolNode) :
    CTxMemPool.Sheds env (fun _ => True) (pn.pool.remove env tx false) (PoolNode.delete env tx pn).pool :=
  (CTxMemPool.removeConflicts_sheds _ tx).mono fun _ _ => trivial

theorem deleteAll_sheds (env : Env) (txs : List CTransaction) (pn : PoolNode) :
    CTxMemPool.Sheds env (fun _ => True) pn.pool (PoolNode.deleteAll env txs pn).pool := by
  induction txs generalizing pn with
  | nil => exact .refl pn.pool
  | cons tx txs ih =>
    have hremove : CTxMemPool.Sheds env (fun _ => True) pn.pool (pn.pool.remove env tx false) :=
      (CTxMemPool.remove_sheds pn.pool tx false).mono fun _ _ => trivial
    exact (hremove.trans (delete_sheds env tx pn)).trans (ih (PoolNode.delete env tx pn))

theorem lookup_deleteAll {txs : List CTransaction} (h : tx ∈ txs) (pn : PoolNode) :
    (PoolNode.deleteAll env txs pn).pool.lookup env (env.getHash tx) = none := by
  induction txs generalizing pn with
  | nil => simp at h
  | cons head txs ih =>
    rcases List.mem_cons.mp h with rfl | h
    · -- gone at its own turn, and nothing comes back
      have hgone : (pn.pool.remove env tx false).lookup env (env.getHash tx) = none :=
        CTxMemPool.lookup_remove_self pn.pool tx false
      have hrest := (delete_sheds env tx pn).trans (deleteAll_sheds env txs (PoolNode.delete env tx pn))
      refine Option.eq_none_iff_forall_ne_some.mpr fun t ht => ?_
      rw [hrest.sub _ t ht] at hgone
      cases hgone
    · exact ih h (PoolNode.delete env head pn)

theorem Mirror.deleteAll {txs : List CTransaction} (h : Mirror env D pn) (hin : ∀ tx ∈ txs, D (env.getHash tx))
    (hclean : DeleteAllClean env D txs pn) : Mirror env D (PoolNode.deleteAll env txs pn) := by
  induction txs generalizing pn with
  | nil => exact h
  | cons tx txs ih =>
    exact ih (h.delete (hin tx List.mem_cons_self) hclean.1) (fun t ht => hin t (List.mem_cons_of_mem _ ht)) hclean.2

/-- Once what was to go is gone, nothing is left to be taken out. -/
theorem Mirror.settle (h : Mirror env D pn) (hgone : ∀ hash, D hash → pn.pool.lookup env hash = none) :
    Mirror env NothingOwed pn := by
  refine ⟨h.others, h.alone, h.recorded, fun hash t key ht hkey => ?_, fun _ _ _ hD => absurd hD id⟩
  rcases h.listed hash t key ht hkey with hin | hD
  · exact .inl hin
  · rw [hgone hash hD] at ht
    cases ht

/-- The hashes of the transactions that a call connects. -/
def ConnectedHash (env : Env) (node : Node) (pindexNew : CBlockIndex) (hash : Uint256) : Prop :=
  ∃ tx ∈ vDelete node pindexNew, env.getHash tx = hash

/-- The alias operations of the pool that a call connects are confirmed by it: they are activations or updates, in a
    block that is not at the height of the best one. -/
def ConnectClean (env : Env) (pindexNew : CBlockIndex) (pn : PoolNode) : Prop :=
  ∀ pindex ∈ connectedBy pn.node pindexNew, ∀ tx ∈ pindex.block.vtx, ∀ t,
    pn.pool.lookup env (env.getHash tx) = some t → t.aliasName ≠ none →
      t = tx ∧ env.getBlockHash pindex.block ≠ env.hashGenesisBlock ∧ Confirms pn.node.pindexBest pindex tx

/-- A call that fails has checked no alias activation or update that is in the pool. -/
def FailClean (env : Env) (nNow : Nat) (fFlush : Bool) (pindexNew : CBlockIndex) (pn : PoolNode) : Prop :=
  ∀ site ∈ callSites env ⟨nNow, fFlush, id⟩ pindexNew pn.node, Confirms site.pindexBest site.pindex site.tx →
    ∀ t, pn.pool.lookup env (env.getHash site.tx) = some t → t.aliasName = none

section Chain

variable {nNow : Nat} {fFlush : Bool} {pindexNew : CBlockIndex} {node : Node}

/-- What a call leaves of the pending maps is a mirror again, once what `Lost` is about is out of the pool. -/
theorem Mirror.fade (h : Mirror env NothingOwed pn) (hfades : Fades D pn.node.store node.store)
    (herased : ∀ hash t key, D hash → pn.pool.lookup env hash = some t → t.aliasName = some key →
      hash ∉ node.store.pendings.mapAliasesPending key) :
    Mirror env D { pn with node := node } := by
  refine ⟨fun slot key hs => ?_, h.alone, fun key hash hin => h.recorded key hash (hfades.sub .aliases key hin),
    fun hash t key ht hkey => ?_, herased⟩
  · have hsub := hfades.sub slot key
    rw [h.others slot key hs] at hsub
    exact Finset.subset_empty.mp hsub
  · exact hfades.kept key hash ((h.listed hash t key ht hkey).resolve_right id)

theorem Mirror.connect (h : Mirror env NothingOwed pn)
    (hok : Syscoin.setBestChain env ⟨nNow, fFlush, id⟩ pindexNew pn.node = (.ok (), node))
    (hclean : ConnectClean env pindexNew pn) :
    Mirror env (ConnectedHash env pn.node pindexNew) { pn with node := node } := by
  have hfades : Fades (ConnectedHash env pn.node pindexNew) pn.node.store
      (Syscoin.setBestChain env ⟨nNow, fFlush, id⟩ pindexNew pn.node).2.store :=
    setBestChain_fades fun site hsite _ => ⟨site.tx, tx_mem_vDelete hsite, rfl⟩
  rw [hok] at hfades
  refine h.fade hfades ?_
  rintro hash t key ⟨tx, htx, rfl⟩ ht hkey hin
  obtain ⟨pindex, hpindex, htx⟩ := List.mem_flatMap.mp htx
  obtain ⟨rfl, hgen, hconf⟩ := hclean pindex hpindex tx htx t ht (by rw [hkey]; exact Option.some_ne_none key)
  obtain ⟨view₁, s₁, view, s, -, hcon, -, rfl⟩ := setBestChain_ok hok
  obtain ⟨r, hr, rfl⟩ := Option.map_eq_some_iff.mp hkey
  exact connectAll_erased hcon hpindex hgen htx hconf r hr hin

theorem Mirror.fail (h : Mirror env NothingOwed pn) (hclean : FailClean env nNow fFlush pindexNew pn) :
    Mirror env NothingOwed
      { pn with node := (Syscoin.setBestChain env ⟨nNow, fFlush, id⟩ pindexNew pn.node).2 } := by
  -- what the call erases has no entry in the pool, so it had none in the map
  have hfades : Fades (fun hash => ∀ t, pn.pool.lookup env hash = some t → t.aliasName = none) pn.node.store
      (Syscoin.setBestChain env ⟨nNow, fFlush, id⟩ pindexNew pn.node).2.store :=
    setBestChain_fades fun site hsite hconf => hclean site hsite hconf
  refine h.fade ⟨hfades.sub, fun key hash hin => ?_⟩ fun _ _ _ hD => absurd hD id
  rcases hfades.kept key hash hin with hin | hlost
  · exact .inl hin
  · obtain ⟨t, ht, hkey⟩ := h.recorded key hash hin
    rw [hlost t ht] at hkey
    cases hkey

end Chain

/-! ## Runs -/

/-- A call into the pool, or a block connection. -/
inductive PoolOp where
  | accept (args : AcceptArgs) (tx : CTransaction)
  | remove (tx : CTransaction) (fRecursive : Bool)
  | removeConflicts (tx : CTransaction)
  | setBestChain (nNow : Nat) (fFlush : Bool) (pindexNew : CBlockIndex)

/-- The node after a call, whatever the call returned. -/
def PoolNode.apply (env : Env) (relay : Relay) (pn : PoolNode) : PoolOp → PoolNode
  | .accept args tx => (PoolNode.accept env relay pn.node.pindexBest args tx pn).2
  | .remove tx fRecursive => PoolNode.remove env tx fRecursive pn
  | .removeConflicts tx => PoolNode.removeConflicts env tx pn
  | .setBestChain nNow fFlush pindexNew => (PoolNode.setBestChain env relay nNow fFlush pindexNew pn).2

/-- **A clean call of `SetBestChain`**, whether it fails or not. -/
structure CallClean (env : Env) (relay : Relay) (nNow : Nat) (fFlush : Bool) (pindexNew : CBlockIndex)
    (pn : PoolNode) : Prop where
  failed : ∀ e node, Syscoin.setBestChain env ⟨nNow, fFlush, id⟩ pindexNew pn.node = (.error e, node) →
    FailClean env nNow fFlush pindexNew pn
  connected : ∀ node, Syscoin.setBestChain env ⟨nNow, fFlush, id⟩ pindexNew pn.node = (.ok (), node) →
    ConnectClean env pindexNew pn ∧
      ResurrectAllClean env relay (ConnectedHash env pn.node pindexNew) pn.node.pindexBest
        (vResurrect env pn.node pindexNew) { pn with node := node } ∧
      DeleteAllClean env (ConnectedHash env pn.node pindexNew) (vDelete pn.node pindexNew)
        (PoolNode.resurrectAll env relay pn.node.pindexBest (vResurrect env pn.node pindexNew)
          { pn with node := node })

/-- **A clean call.** -/
def PoolOp.Clean (env : Env) (relay : Relay) (pn : PoolNode) : PoolOp → Prop
  | .accept args tx => AcceptClean env relay pn.node.pindexBest args tx pn
  | .remove tx fRecursive =>
    Spares env NothingOwed (fun t => t = tx ∨ (fRecursive = true ∧ CTxMemPool.Reaches env pn.pool tx t)) pn.pool
  | .removeConflicts tx => Spares env NothingOwed (CTxMemPool.Conflicts env pn.pool tx) pn.pool
  | .setBestChain nNow fFlush pindexNew => CallClean env relay nNow fFlush pindexNew pn

/-- The nodes that are reached by calls that meet `C`, from one that has the genesis block and an empty pool. -/
inductive PoolRun (env : Env) (relay : Relay) (C : PoolNode → PoolOp → Prop) (genesis : CBlock) : PoolNode → Prop where
  | init : PoolRun env relay C genesis ⟨Node.init genesis, .empty⟩
  | step {pn : PoolNode} (op : PoolOp) (run : PoolRun env relay C genesis pn) (meets : C pn op) :
      PoolRun env relay C genesis (pn.apply env relay op)

/-- One call. -/
theorem Mirror.apply {op : PoolOp} (h : Mirror env NothingOwed pn) (hclean : op.Clean env relay pn) :
    Mirror env NothingOwed (pn.apply env relay op) := by
  cases op with
  | accept args tx => exact h.accept hclean fun _ _ hD => hD
  | remove tx fRecursive => exact h.shed (CTxMemPool.remove_sheds pn.pool tx fRecursive) hclean
  | removeConflicts tx => exact h.shed (CTxMemPool.removeConflicts_sheds pn.pool tx) hclean
  | setBestChain nNow fFlush pindexNew =>
    simp only [PoolNode.apply, PoolNode.setBestChain]
    rcases hrun : Syscoin.setBestChain env ⟨nNow, fFlush, id⟩ pindexNew pn.node with ⟨e | _, node⟩
    · have hfail := h.fail (CallClean.failed hclean e node hrun)
      rw [hrun] at hfail
      exact hfail
    · obtain ⟨hconnect, hresurrect, hdelete⟩ := CallClean.connected hclean node hrun
      have hafter := ((h.connect hrun hconnect).resurrectAll hresurrect).deleteAll (fun tx htx => ⟨tx, htx, rfl⟩) hdelete
      refine hafter.settle ?_
      rintro hash ⟨tx, htx, rfl⟩
      exact lookup_deleteAll htx _

/-- **The pending maps mirror the pool** in every state that clean calls reach. -/
theorem pending_maps_mirror {genesis : CBlock} (h : PoolRun env relay (PoolOp.Clean env relay) genesis pn) :
    Mirrors env pn := by
  have hinv : Mirror env NothingOwed pn := by
    induction h with
    | init => exact mirror_init genesis
    | step op _ hclean ih => exact ih.apply hclean
  exact hinv.mirrors

/-- Where every pool transaction that spends what is connected is the connected one, nothing conflicts. -/
theorem deleteAllClean_of_same {txs : List CTransaction}
    (h : ∀ tx ∈ txs, ∀ txin ∈ tx.vin, ∀ c ∈ pn.pool.mapNextTx txin.prevout, c.ptx.same tx) :
    DeleteAllClean env D txs pn := by
  induction txs generalizing pn with
  | nil => trivial
  | cons tx txs ih =>
    have hremove : CTxMemPool.Sheds env _ pn.pool (pn.pool.remove env tx false) :=
      CTxMemPool.remove_sheds pn.pool tx false
    refine ⟨?_, ih fun t ht txin hin c hc => ?_⟩
    · rintro t ⟨txin, hin, c, hc, hdiff, -⟩
      exact absurd (h tx List.mem_cons_self txin hin c (hremove.next _ c hc)) hdiff
    · exact h t (List.mem_cons_of_mem _ ht) txin hin c (hremove.next _ c ((delete_sheds env tx pn).next _ c hc))

end Mirror

namespace Cakenet

def relay : Relay where
  isStandard _ := true
  areInputsStandard _ _ := true
  verifyScriptStrictEnc _ _ _ _ _ := true
  nMinRelayTxFee := 10000

/-- A chain with a commitment to the name, and an empty pool. -/
def committedNode : PoolNode :=
  PoolNode.apply env relay ⟨Node.init genesis, .empty⟩ (.setBestChain amb.nNow amb.fFlush aliasBlock9)

/-- The activation waits in the pool. -/
def waitingNode : PoolNode := committedNode.apply env relay (.accept ⟨true, false, false⟩ aliasActivateTx)

/-- The activation is in a block. -/
def activatedNode : PoolNode := waitingNode.apply env relay (.setBestChain amb.nNow amb.fFlush aliasBlock10)

/-- Connecting on top of the best block, from a pool that the block does not conflict with. -/
theorem clean_extension {pn : PoolNode} {pindexNew : CBlockIndex}
    (hok : (setBestChain env amb pindexNew pn.node).1.isOk = true)
    (hresurrect : vResurrect env pn.node pindexNew = [])
    (hconnect : ∀ pindex ∈ connectedBy pn.node pindexNew, ∀ tx ∈ pindex.block.vtx,
      ∀ t ∈ pn.pool.lookup env (env.getHash tx), t.aliasName ≠ none →
        t = tx ∧ env.getBlockHash pindex.block ≠ env.hashGenesisBlock ∧ Confirms pn.node.pindexBest pindex tx)
    (hsame : ∀ tx ∈ vDelete pn.node pindexNew, ∀ txin ∈ tx.vin, ∀ c ∈ pn.pool.mapNextTx txin.prevout, c.ptx.same tx) :
    CallClean env relay amb.nNow amb.fFlush pindexNew pn := by
  refine ⟨fun e node hrun => ?_, fun node _ => ⟨hconnect, ?_, deleteAllClean_of_same ?_⟩⟩
  · rw [show setBestChain env amb pindexNew pn.node = (.error e, node) from hrun] at hok
    cases hok
  · rw [hresurrect]
    trivial
  · rw [hresurrect]
    exact hsame

/-- An activation is pending while it waits, and free once it is in a block. -/
theorem activation_mirrored :
    Mirrors env waitingNode ∧ waitingNode.node.store.pendings.mapAliasesPending vchName = {101} ∧
      Mirrors env activatedNode ∧ activatedNode.node.store.pendings.mapAliasesPending vchName = ∅ := by
  have hcommit : CallClean env relay amb.nNow amb.fFlush aliasBlock9 ⟨Node.init genesis, .empty⟩ := by
    refine clean_extension (by decide +kernel) (by decide +kernel) ?_ ?_
    · intro pindex _ tx _ t ht
      cases ht
    · intro tx _ txin _ c hc
      cases hc
  have haccept : AcceptClean env relay committedNode.node.pindexBest ⟨true, false, false⟩ aliasActivateTx
      committedNode := by
    refine fun _ => ⟨fun _ => ⟨rfl, ?_⟩, fun _ => ?_⟩
    · decide +kernel
    · decide +kernel
  have hconnect : CallClean env relay amb.nNow amb.fFlush aliasBlock10 waitingNode :=
    clean_extension (by decide +kernel) (by decide +kernel) (by decide +kernel) (by decide +kernel)
  have hwaiting : PoolRun env relay (PoolOp.Clean env relay) genesis waitingNode :=
    .step (.accept ⟨true, false, false⟩ aliasActivateTx)
      (.step (.setBestChain amb.nNow amb.fFlush aliasBlock9) .init hcommit) haccept
  have hactivated : PoolRun env relay (PoolOp.Clean env relay) genesis activatedNode :=
    .step (.setBestChain amb.nNow amb.fFlush aliasBlock10) hwaiting hconnect
  refine ⟨pending_maps_mirror hwaiting, ?_, pending_maps_mirror hactivated, ?_⟩
  · decide +kernel
  · decide +kernel

/-- An update of a name that nobody has. -/
def strayUpdate : CTransaction := syscoin 105 [⟨1, 5⟩] [service 3 [vchName, [2]]] []

/-- **The claim fails**: an update that spends no alias output is refused by the pool's last check, and its name is
    blocked from then on. -/
theorem refused_update_pending :
    ∃ pn, PoolRun env relay (fun _ _ => True) genesis pn ∧ ¬ Mirrors env pn := by
  refine ⟨_, .step (.accept ⟨true, false, false⟩ strayUpdate)
    (.step (.setBestChain amb.nNow amb.fFlush block8) .init trivial) trivial, fun h => ?_⟩
  have hpending := h.inPool .aliases vchName 105 (by decide +kernel)
  have hpool : ((((⟨Node.init genesis, .empty⟩ : PoolNode).apply env relay
      (.setBestChain amb.nNow amb.fFlush block8)).apply env relay
      (.accept ⟨true, false, false⟩ strayUpdate)).pool.lookup env 105).isSome = false := by decide +kernel
  rw [hpool] at hpending
  cases hpending

end Cakenet

end Syscoin

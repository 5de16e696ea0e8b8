import Syscoin.Correctness.Mirror
import Syscoin.Lib.Attach

/-!
# `Correctness.PoolIndex` — the memory pool and its index of inputs

`mapNextTx` says for an output which input of the pool spends it. It is written when a transaction is added, input by
input, and wiped when one is removed, by the inputs of the transaction that the caller has in hand. The two maps agree
(`Indexed`) as long as transactions with the same hash are the same, which is what the hash is relied on for; without
it a removal would wipe the wrong entries.

A removal walks through the index that it is changing. The invariant is therefore shown for a single `erase`, and for
the recursion by induction on its depth, over any pool that has the invariant at the time of the call.
-/

namespace Syscoin

open Lib

namespace CTxMemPool

/-! ## What is in the pool -/

/-- The pool holds transactions that are valid on their own, each hash once. -/
structure Vetted (env : Env) (pool : CTxMemPool) : Prop where
  checked : ∀ tx ∈ pool.mapTx, checkTransaction tx = .ok ()
  distinct : (pool.mapTx.map env.getHash).Nodup

/-- The index has exactly the inputs of the transactions in the pool. -/
def Indexed (pool : CTxMemPool) : Prop :=
  ∀ o inp, pool.mapNextTx o = some inp ↔
    inp.ptx ∈ pool.mapTx ∧ (inp.ptx.vin[inp.n]?).map (·.prevout) = some o

section Steps

variable {env : Env} {pool : CTxMemPool} {tx : CTransaction} {T : Set CTransaction}

theorem vetted_empty : Vetted env empty where
  checked := by
    intro tx htx
    cases htx
  distinct := List.nodup_nil

theorem indexed_empty : Indexed empty := by
  intro o inp
  simp [empty]

/-- Two inputs of the pool that spend one output are the same. -/
theorem Indexed.unique (h : Indexed pool) {tx tx' : CTransaction} {i j : Nat} {o : COutPoint}
    (htx : tx ∈ pool.mapTx) (hi : (tx.vin[i]?).map (·.prevout) = some o)
    (htx' : tx' ∈ pool.mapTx) (hj : (tx'.vin[j]?).map (·.prevout) = some o) : tx = tx' ∧ i = j := by
  have hleft : pool.mapNextTx o = some ⟨tx, i⟩ := (h o ⟨tx, i⟩).mpr ⟨htx, hi⟩
  have hright : pool.mapNextTx o = some ⟨tx', j⟩ := (h o ⟨tx', j⟩).mpr ⟨htx', hj⟩
  rw [hleft] at hright
  simpa using hright

/-- An input of a transaction, by number. -/
theorem exists_input_iff {o : COutPoint} :
    o ∈ tx.vin.map (·.prevout) ↔ ∃ i : Nat, (tx.vin[i]?).map (·.prevout) = some o := by
  constructor
  · intro ho
    obtain ⟨i, hi⟩ := List.getElem?_of_mem ho
    exact ⟨i, by rw [← List.getElem?_map]; exact hi⟩
  · rintro ⟨i, hi⟩
    rw [← List.getElem?_map] at hi
    exact List.mem_of_getElem? hi

theorem Vetted.lookup_of_mem (h : Vetted env pool) (htx : tx ∈ pool.mapTx) :
    pool.lookup env (env.getHash tx) = some tx := by
  unfold lookup
  cases hfind : pool.mapTx.find? (fun t => env.getHash t = env.getHash tx) with
  | none =>
    have hnone := List.find?_eq_none.mp hfind tx htx
    simp at hnone
  | some t =>
    have hmem := List.mem_of_find?_eq_some hfind
    have hhash : env.getHash t = env.getHash tx := by simpa using List.find?_some hfind
    rw [List.inj_on_of_nodup_map h.distinct hmem htx hhash]

/-! ## Adding -/

/-- The loop of `addUnchecked`: an output that is spent gets the number of the input, the others keep their entry. -/
theorem enterInputs (tx : CTransaction) {vin : List CTxIn} (k : Nat) (m : COutPoint → Option CInPoint)
    (hnodup : (vin.map (·.prevout)).Nodup) (o : COutPoint) (inp : CInPoint) :
    ((vin.zipIdx k).foldl (fun (m : COutPoint → Option CInPoint) p => Function.update m p.1.prevout (some ⟨tx, p.2⟩))
      m) o = some inp ↔
      (∃ i, (vin[i]?).map (·.prevout) = some o ∧ inp = ⟨tx, k + i⟩) ∨
        (o ∉ vin.map (·.prevout) ∧ m o = some inp) := by
  induction vin generalizing k m with
  | nil => simp
  | cons txin vin ih =>
    rw [List.map_cons, List.nodup_cons] at hnodup
    rw [List.zipIdx_cons, List.foldl_cons, ih _ _ hnodup.2]
    constructor
    · rintro (⟨i, hi, rfl⟩ | ⟨hnot, hm⟩)
      · refine .inl ⟨i + 1, by simpa using hi, ?_⟩
        rw [show k + 1 + i = k + (i + 1) by omega]
      · by_cases ho : o = txin.prevout
        · rw [ho, Function.update_self, Option.some.injEq] at hm
          exact .inl ⟨0, by simp [ho], hm.symm⟩
        · rw [Function.update_of_ne ho] at hm
          exact .inr ⟨by simp [ho, hnot], hm⟩
    · rintro (⟨i, hi, rfl⟩ | ⟨hnot, hm⟩)
      · cases i with
        | zero =>
          -- the output that this input spends is spent by no later one
          have ho : txin.prevout = o := by simpa using hi
          subst ho
          exact .inr ⟨hnodup.1, by simp⟩
        | succ i =>
          refine .inl ⟨i, by simpa using hi, ?_⟩
          rw [show k + 1 + i = k + (i + 1) by omega]
      · rw [List.map_cons, List.mem_cons, not_or] at hnot
        exact .inr ⟨hnot.2, by rw [Function.update_of_ne hnot.1]; exact hm⟩

theorem Vetted.addUnchecked (h : Vetted env pool) (hcheck : checkTransaction tx = .ok ())
    (hnew : pool.lookup env (env.getHash tx) = none) : Vetted env (pool.addUnchecked tx) where
  checked := by
    intro t ht
    rcases List.mem_cons.mp ht with rfl | ht
    · exact hcheck
    · exact h.checked t ht
  distinct := by
    refine List.nodup_cons.mpr ⟨?_, h.distinct⟩
    intro hmem
    obtain ⟨t, ht, hhash⟩ := List.mem_map.mp hmem
    have hnone := List.find?_eq_none.mp hnew t ht
    simp [hhash] at hnone

theorem checkTransaction_inputs (h : checkTransaction tx = .ok ()) : (tx.vin.map (·.prevout)).Nodup := by
  unfold checkTransaction at h
  obtain ⟨-, h⟩ := require_bind_ok_iff.mp h
  obtain ⟨-, h⟩ := require_bind_ok_iff.mp h
  obtain ⟨-, h⟩ := require_bind_ok_iff.mp h
  obtain ⟨_, -, h⟩ := Except.bind_ok_iff.mp h
  exact (require_bind_ok_iff.mp h).1

theorem Indexed.addUnchecked (h : Indexed pool) (hnodup : (tx.vin.map (·.prevout)).Nodup)
    (hfree : ∀ txin ∈ tx.vin, pool.mapNextTx txin.prevout = none) : Indexed (pool.addUnchecked tx) := by
  intro o inp
  have hloop := enterInputs tx 0 pool.mapNextTx hnodup o inp
  unfold CTxMemPool.addUnchecked
  rw [hloop, h o inp]
  constructor
  · rintro (⟨i, hi, rfl⟩ | ⟨-, hmem, hn⟩)
    · exact ⟨List.mem_cons_self, by simpa using hi⟩
    · exact ⟨List.mem_cons_of_mem tx hmem, hn⟩
  · rintro ⟨hmem, hn⟩
    rcases List.mem_cons.mp hmem with heq | hmem
    · exact .inl ⟨inp.n, by rw [← heq]; exact hn, by rw [← heq, Nat.zero_add]⟩
    · refine .inr ⟨?_, hmem, hn⟩
      -- an output that the new transaction spends was spent by nobody
      intro ho
      obtain ⟨txin, htxin, hprev⟩ := List.mem_map.mp ho
      have hnone := hfree txin htxin
      rw [hprev, (h o inp).mpr ⟨hmem, hn⟩] at hnone
      cases hnone

/-! ## Removing -/

theorem mem_erase {t : CTransaction} (ht : t ∈ (pool.erase env tx).mapTx) : t ∈ pool.mapTx := by
  unfold erase at ht
  split at ht
  · exact (List.mem_filter.mp ht).1
  · exact ht

theorem Vetted.erase (h : Vetted env pool) : Vetted env (pool.erase env tx) where
  checked := fun t ht => h.checked t (mem_erase ht)
  distinct := by
    unfold CTxMemPool.erase
    split
    · exact h.distinct.sublist (List.filter_sublist.map _)
    · exact h.distinct

/-- **One removal.** The entries that are wiped are those of the transaction that goes. -/
theorem Indexed.erase (h : Indexed pool) (hinj : Set.InjOn env.getHash T) (hpool : ∀ t ∈ pool.mapTx, t ∈ T)
    (htx : tx ∈ T) : Indexed (pool.erase env tx) := by
  unfold CTxMemPool.erase
  split
  · rename_i hfound
    -- what is found under the hash is the transaction itself
    have hself : tx ∈ pool.mapTx := by
      obtain ⟨t, ht⟩ := Option.isSome_iff_exists.mp hfound
      have hmem := List.mem_of_find?_eq_some ht
      have hhash : env.getHash t = env.getHash tx := by simpa using List.find?_some ht
      rw [← hinj (hpool t hmem) htx hhash]
      exact hmem
    intro o inp
    dsimp only
    rw [List.mem_filter]
    constructor
    · intro hnext
      split at hnext
      · cases hnext
      · rename_i hnot
        obtain ⟨hmem, hn⟩ := (h o inp).mp hnext
        refine ⟨⟨hmem, ?_⟩, hn⟩
        have hne : env.getHash inp.ptx ≠ env.getHash tx := by
          intro hhash
          rw [hinj (hpool inp.ptx hmem) htx hhash] at hn
          exact hnot (exists_input_iff.mpr ⟨inp.n, hn⟩)
        simpa using hne
    · rintro ⟨⟨hmem, hne⟩, hn⟩
      have hnot : o ∉ tx.vin.map (·.prevout) := by
        intro ho
        obtain ⟨i, hi⟩ := exists_input_iff.mp ho
        obtain ⟨heq, -⟩ := h.unique hmem hn hself hi
        rw [heq] at hne
        simp at hne
      rw [if_neg hnot]
      exact (h o inp).mpr ⟨hmem, hn⟩
  · exact h

/-- What a removal keeps: the transactions left were there before, and the index still fits. -/
structure Shrunk (T : Set CTransaction) (pool : CTxMemPool) : Prop where
  indexed : Indexed pool
  known : ∀ t ∈ pool.mapTx, t ∈ T

theorem Shrunk.erase (h : Shrunk T pool) (hinj : Set.InjOn env.getHash T) (htx : tx ∈ T) :
    Shrunk T (pool.erase env tx) :=
  ⟨h.indexed.erase hinj h.known htx, fun t ht => h.known t (mem_erase ht)⟩

/-- **The recursion.** Whatever the index leads to is in the pool, and so is one of the transactions of the run. -/
theorem Shrunk.removeWithin (hinj : Set.InjOn env.getHash T) {depth : Nat} {fRecursive : Bool} (htx : tx ∈ T)
    (h : Shrunk T pool) : Shrunk T (removeWithin env depth fRecursive tx pool) := by
  induction depth generalizing fRecursive tx pool with
  | zero => exact h
  | succ depth ih =>
    unfold CTxMemPool.removeWithin
    refine Shrunk.erase ?_ hinj htx
    split
    · refine List.foldlRecOn (motive := Shrunk T) _ _ h fun p hp i _ => ?_
      split
      · exact hp
      · rename_i inp hnext
        have hmem : inp.ptx ∈ p.mapTx := ((hp.indexed _ inp).mp hnext).1
        exact ih (hp.known inp.ptx hmem) hp
    · exact h

theorem Shrunk.remove (h : Shrunk T pool) (hinj : Set.InjOn env.getHash T) (htx : tx ∈ T) (fRecursive : Bool) :
    Shrunk T (pool.remove env tx fRecursive) :=
  h.removeWithin hinj htx

theorem Shrunk.removeConflicts (h : Shrunk T pool) (hinj : Set.InjOn env.getHash T) :
    Shrunk T (pool.removeConflicts env tx) := by
  unfold CTxMemPool.removeConflicts
  refine List.foldlRecOn (motive := Shrunk T) _ _ h fun p hp txin _ => ?_
  split
  · exact hp
  · rename_i inp hnext
    split
    · exact hp
    · exact hp.remove hinj (hp.known inp.ptx ((hp.indexed _ inp).mp hnext).1) true

theorem Vetted.removeWithin (h : Vetted env pool) {depth : Nat} {fRecursive : Bool} :
    Vetted env (removeWithin env depth fRecursive tx pool) := by
  induction depth generalizing fRecursive tx pool with
  | zero => exact h
  | succ depth ih =>
    unfold CTxMemPool.removeWithin
    refine Vetted.erase ?_
    split
    · refine List.foldlRecOn (motive := Vetted env) _ _ h fun p hp i _ => ?_
      split
      · exact hp
      · exact ih hp
    · exact h

theorem Vetted.removeConflicts (h : Vetted env pool) : Vetted env (pool.removeConflicts env tx) := by
  unfold CTxMemPool.removeConflicts
  refine List.foldlRecOn (motive := Vetted env) _ _ h fun p hp txin _ => ?_
  split
  · exact hp
  · split
    · exact hp
    · exact hp.removeWithin

end Steps

end CTxMemPool

/-! ## Runs -/

/-- The transaction that an operation is called with. -/
def MempoolOp.tx : MempoolOp → Option CTransaction
  | .accept _ _ _ _ tx => some tx
  | .remove tx _ => some tx
  | .removeConflicts tx => some tx
  | .clear => none

/-- The transactions of a sequence of operations. -/
def offered (ops : List MempoolOp) : Set CTransaction := {tx | ∃ op ∈ ops, op.tx = some tx}

section Runs

variable {env : Env} {pool : CTxMemPool} {T : Set CTransaction}

/-- What `accept` has checked of the transaction itself and against the pool. -/
theorem precheck_ok {relay : Relay} {args : AcceptArgs} {tx : CTransaction} {pn : PoolNode}
    (h : PoolNode.precheck env relay args tx pn = .ok ()) :
    checkTransaction tx = .ok () ∧ pn.pool.lookup env (env.getHash tx) = none ∧
      ∀ txin ∈ tx.vin, pn.pool.mapNextTx txin.prevout = none := by
  unfold PoolNode.precheck at h
  obtain ⟨_, hcheck, h⟩ := Except.bind_ok_iff.mp h
  obtain ⟨-, h⟩ := require_bind_ok_iff.mp h
  obtain ⟨-, h⟩ := require_bind_ok_iff.mp h
  obtain ⟨-, h⟩ := require_bind_ok_iff.mp h
  obtain ⟨hnew, h⟩ := require_bind_ok_iff.mp h
  obtain ⟨hfree, -⟩ := require_bind_ok_iff.mp h
  refine ⟨hcheck, by simpa using hnew, fun txin htxin => ?_⟩
  have hnone := hfree txin htxin
  simpa using hnone

/-- One operation. -/
theorem CTxMemPool.Vetted.apply (h : pool.Vetted env) (op : MempoolOp) : (pool.apply env op).Vetted env := by
  cases op with
  | accept relay pindexBest node args tx =>
    rcases CTxMemPool.accept_pool env relay pindexBest args tx ⟨node, pool⟩ with heq | ⟨hpre, heq⟩
    · simpa only [CTxMemPool.apply, heq] using h
    · obtain ⟨hcheck, hnew, -⟩ := precheck_ok hpre
      simpa only [CTxMemPool.apply, heq] using h.addUnchecked hcheck hnew
  | remove tx fRecursive => exact h.removeWithin
  | removeConflicts tx => exact h.removeConflicts
  | clear => exact CTxMemPool.vetted_empty

theorem CTxMemPool.Shrunk.apply (h : pool.Shrunk T) (hinj : Set.InjOn env.getHash T) {op : MempoolOp}
    (hop : ∀ tx, op.tx = some tx → tx ∈ T) : (pool.apply env op).Shrunk T := by
  cases op with
  | accept relay pindexBest node args tx =>
    rcases CTxMemPool.accept_pool env relay pindexBest args tx ⟨node, pool⟩ with heq | ⟨hpre, heq⟩
    · simpa only [CTxMemPool.apply, heq] using h
    · obtain ⟨hcheck, -, hfree⟩ := precheck_ok hpre
      simp only [CTxMemPool.apply, heq]
      refine ⟨h.indexed.addUnchecked (CTxMemPool.checkTransaction_inputs hcheck) hfree, fun t ht => ?_⟩
      rcases List.mem_cons.mp ht with rfl | ht
      · exact hop t rfl
      · exact h.known t ht
  | remove tx fRecursive => exact h.remove hinj (hop tx rfl) fRecursive
  | removeConflicts tx => exact h.removeConflicts hinj
  | clear => exact ⟨CTxMemPool.indexed_empty, fun t ht => by cases ht⟩

theorem vetted_run (ops : List MempoolOp) : (CTxMemPool.run env ops).Vetted env :=
  List.foldlRecOn (motive := CTxMemPool.Vetted env) ops _ CTxMemPool.vetted_empty fun _ h op _ => h.apply op

/-- **The index of the pool** has exactly the inputs of its transactions after any sequence of operations, provided the
    transactions that the operations were called with are told apart by their hashes. So no two transactions of the
    pool spend the same output, and no entry refers to a transaction that is gone. -/
theorem mempool_index_exact {ops : List MempoolOp} (hinj : Set.InjOn env.getHash (offered ops)) :
    let pool := CTxMemPool.run env ops
    (∀ o inp, pool.mapNextTx o = some inp ↔
      inp.ptx ∈ pool.mapTx ∧ (inp.ptx.vin[inp.n]?).map (·.prevout) = some o) ∧
    (∀ tx ∈ pool.mapTx, ∀ tx' ∈ pool.mapTx, ∀ txin ∈ tx.vin, ∀ txin' ∈ tx'.vin, txin.prevout = txin'.prevout →
      tx = tx') ∧
    ∀ o inp, pool.mapNextTx o = some inp → pool.lookup env (env.getHash inp.ptx) = some inp.ptx := by
  intro pool
  have hstart : CTxMemPool.empty.Shrunk (offered ops) := ⟨CTxMemPool.indexed_empty, fun t ht => by cases ht⟩
  have hpool : pool.Shrunk (offered ops) :=
    List.foldlRecOn (motive := CTxMemPool.Shrunk (offered ops)) ops _ hstart fun _ h op hmem =>
      h.apply hinj fun tx htx => ⟨op, hmem, htx⟩
  refine ⟨hpool.indexed, ?_, ?_⟩
  · intro tx htx tx' htx' txin hin txin' hin' heq
    obtain ⟨i, hi⟩ := CTxMemPool.exists_input_iff.mp (List.mem_map_of_mem (f := (·.prevout)) hin)
    obtain ⟨j, hj⟩ := CTxMemPool.exists_input_iff.mp (List.mem_map_of_mem (f := (·.prevout)) hin')
    rw [← heq] at hj
    exact (hpool.indexed.unique htx hi htx' hj).1
  · intro o inp hnext
    have hmem : inp.ptx ∈ pool.mapTx := ((hpool.indexed o inp).mp hnext).1
    exact (vetted_run ops).lookup_of_mem hmem

end Runs

/-! ## The pool of a node -/

section Nodes

variable {env : Env} {relay : Relay}

variable {pool : CTxMemPool} {pn : PoolNode} {txs : List CTransaction}

end Nodes

namespace Cakenet

/-- The activation comes in, is removed, and comes in again; a stray update has no conflicts. -/
def comingAndGoing : List MempoolOp :=
  [.accept relay aliasBlock9 committedNode.node ⟨true, false, false⟩ aliasActivateTx, .remove aliasActivateTx false,
    .accept relay aliasBlock9 committedNode.node ⟨true, false, false⟩ aliasActivateTx, .removeConflicts strayUpdate]

theorem coming_and_going_indexed :
    (CTxMemPool.run env comingAndGoing).mapTx = [aliasActivateTx] ∧
      ∀ o inp, (CTxMemPool.run env comingAndGoing).mapNextTx o = some inp ↔
        inp.ptx ∈ (CTxMemPool.run env comingAndGoing).mapTx ∧ (inp.ptx.vin[inp.n]?).map (·.prevout) = some o := by
  have hinj : Set.InjOn env.getHash (offered comingAndGoing) := by
    have hcases : ∀ tx ∈ offered comingAndGoing, tx = aliasActivateTx ∨ tx = strayUpdate := by
      rintro tx ⟨op, hop, htx⟩
      simp only [comingAndGoing, List.mem_cons, List.not_mem_nil, or_false] at hop
      rcases hop with rfl | rfl | rfl | rfl
      · exact .inl (Option.some.inj htx).symm
      · exact .inl (Option.some.inj htx).symm
      · exact .inl (Option.some.inj htx).symm
      · exact .inr (Option.some.inj htx).symm
    have hne : env.getHash aliasActivateTx ≠ env.getHash strayUpdate := by decide
    intro tx htx tx' htx' heq
    rcases hcases tx htx with rfl | rfl
    · rcases hcases tx' htx' with rfl | rfl
      · rfl
      · exact absurd heq hne
    · rcases hcases tx' htx' with rfl | rfl
      · exact absurd heq.symm hne
      · rfl
  exact ⟨by decide +kernel, (mempool_index_exact hinj).1⟩

end Cakenet

end Syscoin

/-! ## What a connected transaction drives out of the pool

A transaction of a connected block goes out of the pool on its own, and what spends the same outputs goes with all its
dependents. Both removals walk through a list of outputs, ask the index who spends each, and take out what they find
(`clear_outpoints`). The recursion is by the number of transactions of the pool that rank above the one to go, since
a transaction ranks above those whose outputs it spends: its hash covers theirs.

The transaction itself is told from its conflicts by an equality that does not look at the data.
-/

namespace Syscoin

open Lib

namespace CTxMemPool

/-- `t` spends an output of `c`. -/
def Spends (env : Env) (t c : CTransaction) : Prop :=
  ∃ o ∈ t.vin.map (·.prevout), o.hash = env.getHash c ∧ o.n < c.vout.length

/-- A transaction ranks above those whose hashes it contains, so that none depends on itself. -/
def Ranked (env : Env) (rank : Uint256 → Nat) (T : Set CTransaction) : Prop :=
  ∀ t ∈ T, ∀ o ∈ t.vin.map (·.prevout), rank o.hash < rank (env.getHash t)

/-- None of the transactions spends one of the outpoints. -/
def Unspent (txs : List CTransaction) (outpoints : List COutPoint) : Prop :=
  ∀ o ∈ outpoints, ∀ t ∈ txs, o ∉ t.vin.map (·.prevout)

section Steps

variable {env : Env} {pool : CTxMemPool} {tx : CTransaction} {T : Set CTransaction} {rank : Uint256 → Nat}

/-! ## One removal -/

theorem erase_sublist : (pool.erase env tx).mapTx.Sublist pool.mapTx := by
  unfold erase
  split
  · exact List.filter_sublist
  · exact List.Sublist.refl _

theorem not_mem_erase : tx ∉ (pool.erase env tx).mapTx := by
  unfold erase
  split
  · intro hmem
    have hne := (List.mem_filter.mp hmem).2
    simp at hne
  · rename_i hnone
    intro hmem
    have hfind := List.find?_eq_none.mp (Option.not_isSome_iff_eq_none.mp hnone) tx hmem
    simp at hfind

theorem erase_only (hinj : Set.InjOn env.getHash T) (hpool : ∀ t ∈ pool.mapTx, t ∈ T) (htx : tx ∈ T)
    {t : CTransaction} (ht : t ∈ pool.mapTx) (hgone : t ∉ (pool.erase env tx).mapTx) : t = tx := by
  unfold erase at hgone
  split at hgone
  · refine hinj (hpool t ht) htx ?_
    by_contra hne
    exact hgone (List.mem_filter.mpr ⟨ht, by simpa using hne⟩)
  · exact absurd ht hgone

/-! ## A walk through outputs -/

/-- Ask the index for each output and take out the spender. -/
def clearOutpoints (R : CTransaction → CTxMemPool → CTxMemPool) (outpoints : List COutPoint) (pool : CTxMemPool) :
    CTxMemPool :=
  outpoints.foldl (fun pool o =>
    match pool.mapNextTx o with
    | none => pool
    | some inp => R inp.ptx pool) pool

/-- A removal that takes out the transaction and detaches it. -/
def Removes (env : Env) (T : Set CTransaction) (p q : CTxMemPool) (t : CTransaction) : Prop :=
  Shrunk T q ∧ Detached (Spends env) p.mapTx q.mapTx ∧ t ∉ q.mapTx

theorem clear_outpoints (R : CTransaction → CTxMemPool → CTxMemPool) (outpoints : List COutPoint)
    (h : Shrunk T pool)
    (hR : ∀ p t o, Shrunk T p → p.mapTx.Sublist pool.mapTx → t ∈ p.mapTx → o ∈ outpoints →
      o ∈ t.vin.map (·.prevout) → Removes env T p (R t p) t) :
    Shrunk T (clearOutpoints R outpoints pool) ∧
      Detached (Spends env) pool.mapTx (clearOutpoints R outpoints pool).mapTx ∧
      Unspent (clearOutpoints R outpoints pool).mapTx outpoints := by
  induction outpoints generalizing pool with
  | nil => exact ⟨h, Detached.refl _, fun o ho => by cases ho⟩
  | cons o outpoints ih =>
    -- after the step nobody spends `o`, and nobody will
    have hstep : ∃ q, clearOutpoints R (o :: outpoints) pool = clearOutpoints R outpoints q ∧ Shrunk T q ∧
        Detached (Spends env) pool.mapTx q.mapTx ∧ ∀ t ∈ q.mapTx, o ∉ t.vin.map (·.prevout) := by
      cases hnext : pool.mapNextTx o with
      | none =>
        refine ⟨pool, ?_, h, Detached.refl _, ?_⟩
        · simp only [clearOutpoints, List.foldl_cons, hnext]
        · intro t ht ho
          obtain ⟨i, hi⟩ := exists_input_iff.mp ho
          have hentry := (h.indexed o ⟨t, i⟩).mpr ⟨ht, hi⟩
          rw [hnext] at hentry
          cases hentry
      | some inp =>
        obtain ⟨hmem, hin⟩ := (h.indexed o inp).mp hnext
        obtain ⟨hshrunk, hdetached, hgone⟩ := hR pool inp.ptx o h (List.Sublist.refl _) hmem List.mem_cons_self
          (exists_input_iff.mpr ⟨inp.n, hin⟩)
        refine ⟨R inp.ptx pool, ?_, hshrunk, hdetached, ?_⟩
        · simp only [clearOutpoints, List.foldl_cons, hnext]
        · intro t ht ho
          obtain ⟨i, hi⟩ := exists_input_iff.mp ho
          obtain ⟨heq, -⟩ := h.indexed.unique (hdetached.sublist.subset ht) hi hmem hin
          exact hgone (heq ▸ ht)
    obtain ⟨q, hq, hshrunk, hdetached, hfree⟩ := hstep
    obtain ⟨hshrunk', hdetached', hunspent⟩ := ih hshrunk fun p t o' hp hsub ht ho =>
      hR p t o' hp (hsub.trans hdetached.sublist) ht (List.mem_cons_of_mem o ho)
    rw [hq]
    refine ⟨hshrunk', hdetached.trans hdetached', ?_⟩
    intro o' ho' t ht
    rcases List.mem_cons.mp ho' with rfl | ho'
    · exact hfree t (hdetached'.sublist.subset ht)
    · exact hunspent o' ho' t ht

/-! ## The recursion -/

theorem removeWithin_eq (depth : Nat) (tx : CTransaction) (pool : CTxMemPool) :
    removeWithin env (depth + 1) true tx pool =
      (clearOutpoints (removeWithin env depth true)
        ((List.range tx.vout.length).map fun i => ⟨env.getHash tx, i⟩) pool).erase env tx := by
  symm
  exact congrArg (fun pool : CTxMemPool => pool.erase env tx) List.foldl_map

/-- **A recursive removal** detaches the transaction, given depth for all that rank above it. -/
theorem removeWithin_removes (hinj : Set.InjOn env.getHash T) (hrank : Ranked env rank T) {depth : Nat} (htx : tx ∈ T)
    (h : Shrunk T pool) (hdepth : countAbove (fun t => rank (env.getHash t)) pool.mapTx tx < depth) :
    Removes env T pool (removeWithin env depth true tx pool) tx := by
  induction depth generalizing tx pool with
  | zero => exact absurd hdepth (Nat.not_lt_zero _)
  | succ depth ih =>
    obtain ⟨hshrunk, hdetached, hunspent⟩ := clear_outpoints (removeWithin env depth true)
      ((List.range tx.vout.length).map fun i => ⟨env.getHash tx, i⟩) h (by
        intro p t o hp hsub ht ho hspends
        obtain ⟨i, -, rfl⟩ := List.mem_map.mp ho
        have habove := hrank t (hp.known t ht) _ hspends
        refine ih (hp.known t ht) hp ?_
        calc countAbove (fun t => rank (env.getHash t)) p.mapTx t
            < countAbove (fun t => rank (env.getHash t)) p.mapTx tx := countAbove_lt ht habove
          _ ≤ countAbove (fun t => rank (env.getHash t)) pool.mapTx tx := countAbove_sublist hsub tx
          _ ≤ depth := Nat.le_of_lt_succ hdepth)
    -- nothing that is left spends its outputs, so that the transaction itself may go
    rw [removeWithin_eq]
    refine ⟨hshrunk.erase hinj htx, ?_, not_mem_erase⟩
    refine hdetached.drop erase_sublist (fun b hb hgone => erase_only hinj hshrunk.known htx hb hgone) ?_
    rintro b hb ⟨o, ho, hhash, hn⟩
    refine hunspent ⟨env.getHash tx, o.n⟩ (List.mem_map.mpr ⟨o.n, List.mem_range.mpr hn, rfl⟩) b hb ?_
    rw [← hhash]
    exact ho

theorem remove_removes (hinj : Set.InjOn env.getHash T) (hrank : Ranked env rank T) (htx : tx ∈ T)
    (h : Shrunk T pool) : Removes env T pool (pool.remove env tx true) tx :=
  removeWithin_removes hinj hrank htx h (Nat.lt_succ_of_le (countAbove_le_length _ _))

/-! ## The transaction of a block -/

/-- What `SetBestChain` does for a transaction that it has connected. -/
def evictFor (env : Env) (tx : CTransaction) (pool : CTxMemPool) : CTxMemPool :=
  (pool.remove env tx false).removeConflicts env tx

/-- Nothing that is left spends an output that `tx` spends, nor an output of what was evicted besides `tx`. -/
structure ConflictFree (env : Env) (tx : CTransaction) (pool pool' : CTxMemPool) : Prop where
  free : Unspent pool'.mapTx (tx.vin.map (·.prevout))
  detached : ∀ c ∈ pool.mapTx, c ≠ tx → c ∉ pool'.mapTx → ∀ t ∈ pool'.mapTx, ¬ Spends env t c

/-- Conflicts are told from the transaction. -/
def ConflictsTold (tx : CTransaction) (pool : CTxMemPool) : Prop :=
  ∀ c ∈ pool.mapTx, (∃ o ∈ c.vin.map (·.prevout), o ∈ tx.vin.map (·.prevout)) → c.same tx → c = tx

theorem remove_false (tx : CTransaction) (pool : CTxMemPool) : pool.remove env tx false = pool.erase env tx := rfl

theorem removeConflicts_eq (tx : CTransaction) (pool : CTxMemPool) :
    pool.removeConflicts env tx =
      clearOutpoints (fun t pool => if t.same tx then pool else pool.remove env t true) (tx.vin.map (·.prevout)) pool := by
  symm
  exact List.foldl_map

theorem evictFor_conflictFree (hinj : Set.InjOn env.getHash T) (hrank : Ranked env rank T) (htx : tx ∈ T)
    (h : Shrunk T pool) (htold : ConflictsTold tx pool) : ConflictFree env tx pool (evictFor env tx pool) := by
  have hstart : Shrunk T (pool.erase env tx) := h.erase hinj htx
  obtain ⟨-, hdetached, hunspent⟩ := clear_outpoints
    (fun t pool => if t.same tx then pool else pool.remove env t true) (tx.vin.map (·.prevout)) hstart (by
      intro p t o hp hsub ht ho hspends
      have hne : t ≠ tx := by
        rintro rfl
        exact not_mem_erase (hsub.subset ht)
      have hnot : ¬ t.same tx := fun hsame =>
        hne (htold t (mem_erase (hsub.subset ht)) ⟨o, hspends, ho⟩ hsame)
      show Removes env T p (if t.same tx then p else p.remove env t true) t
      rw [if_neg hnot]
      exact remove_removes hinj hrank (hp.known t ht) hp)
  unfold evictFor
  rw [remove_false, removeConflicts_eq]
  refine ⟨hunspent, fun c hc hne hgone t ht => ?_⟩
  refine hdetached.closed c ?_ hgone t ht
  by_contra hout
  exact hne (erase_only hinj h.known htx hc hout)

/-- A transaction that differs in its data only is left where it is. -/
theorem evictFor_of_same (hinj : Set.InjOn env.getHash T) (htx : tx ∈ T) (h : Shrunk T pool) {c : CTransaction}
    (hc : c ∈ pool.mapTx) (hspends : ∃ o ∈ c.vin.map (·.prevout), o ∈ tx.vin.map (·.prevout)) (hsame : c.same tx)
    (hne : c ≠ tx) : evictFor env tx pool = pool := by
  have hvin : c.vin = tx.vin := hsame.2.1
  have hlookup : pool.lookup env (env.getHash tx) = none := by
    rw [lookup, List.find?_eq_none]
    intro t ht hhash
    -- the pool cannot hold both, which have their inputs in common
    have heq : t = tx := hinj (h.known t ht) htx (by simpa using hhash)
    obtain ⟨o, ho, -⟩ := hspends
    obtain ⟨i, hi⟩ := exists_input_iff.mp ho
    have hi' : (t.vin[i]?).map (·.prevout) = some o := by rw [heq, ← hvin]; exact hi
    exact hne ((h.indexed.unique hc hi ht hi').1.trans heq)
  have herase : pool.erase env tx = pool := by
    unfold erase
    rw [hlookup]
    rfl
  unfold evictFor
  rw [remove_false, herase, removeConflicts]
  refine List.foldlRecOn (motive := fun p => p = pool) _ _ rfl ?_
  rintro p rfl txin htxin
  -- each input leads to `c`, which counts as the transaction itself
  have hin : txin.prevout ∈ c.vin.map (·.prevout) := by
    rw [hvin]
    exact List.mem_map_of_mem htxin
  obtain ⟨i, hi⟩ := exists_input_iff.mp hin
  rw [(h.indexed txin.prevout ⟨c, i⟩).mpr ⟨hc, hi⟩]
  exact if_pos hsame

/-- **Conflicts go, unless they pass for the transaction itself.** In a pool whose index fits, after the two removals for
    a connected transaction nothing spends what it spends or what an evicted transaction had to offer, exactly where
    every transaction of the pool that shares an input with it and equals it but for the data is the same. -/
theorem conflicts_evicted_iff (hinj : Set.InjOn env.getHash {t | t ∈ pool.mapTx ∨ t = tx})
    (hrank : Ranked env rank {t | t ∈ pool.mapTx ∨ t = tx}) (hindex : Indexed pool) :
    ConflictFree env tx pool (evictFor env tx pool) ↔ ConflictsTold tx pool := by
  have hpool : Shrunk {t | t ∈ pool.mapTx ∨ t = tx} pool := ⟨hindex, fun t ht => .inl ht⟩
  have htx : tx ∈ {t | t ∈ pool.mapTx ∨ t = tx} := .inr rfl
  constructor
  · intro hfree c hc hspends hsame
    by_contra hne
    have hstays := evictFor_of_same hinj htx hpool hc hspends hsame hne
    obtain ⟨o, ho, ho'⟩ := hspends
    refine hfree.free o ho' c ?_ ho
    rw [hstays]
    exact hc
  · intro htold
    exact evictFor_conflictFree hinj hrank htx hpool htold

end Steps

end CTxMemPool

namespace Cakenet

/-- A payment out of the funds, one that spends it, and another payment of the same coins. -/
def firstPayTx : CTransaction := ⟨1, [spends ⟨1, 0⟩], [pay COIN], 500, []⟩

def nextPayTx : CTransaction := ⟨1, [spends ⟨500, 0⟩], [pay COIN], 501, []⟩

def otherPayTx : CTransaction := ⟨1, [spends ⟨1, 0⟩], [pay COIN], 502, []⟩

def payPool : CTxMemPool := (CTxMemPool.empty.addUnchecked firstPayTx).addUnchecked nextPayTx

theorem indexed_payPool : payPool.Indexed := by
  refine (CTxMemPool.indexed_empty.addUnchecked (by decide) ?_).addUnchecked (by decide) ?_
  · intro txin _
    rfl
  · intro txin htxin
    rw [List.mem_singleton.mp htxin]
    rfl

theorem payments_evicted :
    CTxMemPool.ConflictFree env otherPayTx payPool (CTxMemPool.evictFor env otherPayTx payPool) ∧
      (CTxMemPool.evictFor env otherPayTx payPool).mapTx = [] := by
  have hcases : ∀ t, t ∈ payPool.mapTx ∨ t = otherPayTx → t = nextPayTx ∨ t = firstPayTx ∨ t = otherPayTx := by
    intro t ht
    simpa [payPool, CTxMemPool.addUnchecked, CTxMemPool.empty, or_assoc] using ht
  have hrank : CTxMemPool.Ranked env id {t | t ∈ payPool.mapTx ∨ t = otherPayTx} := by
    intro t ht
    rcases hcases t ht with rfl | rfl | rfl <;> decide
  refine ⟨(CTxMemPool.conflicts_evicted_iff ?_ hrank indexed_payPool).mpr ?_, by decide +kernel⟩
  · intro t ht t' ht' heq
    rcases hcases t ht with rfl | rfl | rfl <;> rcases hcases t' ht' with rfl | rfl | rfl <;>
      first | rfl | exact absurd heq (by decide)
  · intro c hc _ hsame
    rcases hcases c (.inl hc) with rfl | rfl | rfl
    · exact absurd hsame (by decide)
    · exact absurd hsame (by decide)
    · rfl

/-- The cake network with a hash that covers the data. -/
def dataEnv : Env := { env with getHash := fun tx => tx.nLockTime + 1000 * fromLE tx.data }

/-- The first payment with a byte of data. -/
def twinPayTx : CTransaction := { firstPayTx with data := [1] }

def twinPool : CTxMemPool := CTxMemPool.empty.addUnchecked twinPayTx

/-- A conflict that differs in its data survives the block. -/
theorem twin_survives :
    twinPool.Indexed ∧ twinPayTx ∈ twinPool.mapTx ∧ dataEnv.getHash twinPayTx ≠ dataEnv.getHash firstPayTx ∧
      twinPayTx ∈ (CTxMemPool.evictFor dataEnv firstPayTx twinPool).mapTx ∧
      ¬ CTxMemPool.ConflictFree dataEnv firstPayTx twinPool (CTxMemPool.evictFor dataEnv firstPayTx twinPool) := by
  have hstays : twinPayTx ∈ (CTxMemPool.evictFor dataEnv firstPayTx twinPool).mapTx := by decide +kernel
  refine ⟨CTxMemPool.indexed_empty.addUnchecked (by decide) fun _ _ => rfl, by decide +kernel, by decide, hstays, ?_⟩
  intro h
  exact h.free ⟨1, 0⟩ (by decide) twinPayTx hstays (by decide)

end Cakenet

end Syscoin

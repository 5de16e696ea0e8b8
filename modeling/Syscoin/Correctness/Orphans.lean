import Syscoin.Correctness.Determinism
import Syscoin.Correctness.Mirror
import Syscoin.Network.Orphans

/-!
# `Correctness.Orphans` — the orphan maps and what becomes of the orphans

Both maps say the same about which orphan spends what (`Mutual`), after any operations. That no entry of the reverse map
is empty is another matter: the handler reads it with a subscript that makes an entry, and takes the entry away again
only with the last orphan under it.

The handler submits the transaction of the message in place of its orphans. The pool has that one by then, so that
every one of them is refused, and erased (`processTx_accepted`).
-/

namespace Syscoin

open Lib

namespace OrphanPool

/-- The orphan under hash `h` has an input that spends an output of `p`. -/
def Spends (m : OrphanPool) (p h : Uint256) : Prop :=
  ∃ tx, m.mapOrphanTransactions.lookup h = some tx ∧ ∃ txin ∈ tx.vin, txin.prevout.hash = p

/-- **The reverse map mirrors the orphans.** -/
structure Mutual (env : Env) (m : OrphanPool) : Prop where
  keyed : ∀ h tx, m.mapOrphanTransactions.lookup h = some tx → env.getHash tx = h
  indexed : ∀ p h, h ∈ m.mapOrphanTransactionsByPrev.elems p ↔ m.Spends p h

/-! ## The loops over the inputs -/

section Loops

variable {vin : List CTxIn} {byPrev : Multimap Uint256 Uint256} {hash p h : Uint256}

theorem mem_elems_adds :
    h ∈ (vin.foldl (fun byPrev txin => byPrev.add txin.prevout.hash hash) byPrev).elems p ↔
      h ∈ byPrev.elems p ∨ (h = hash ∧ ∃ txin ∈ vin, txin.prevout.hash = p) := by
  induction vin generalizing byPrev with
  | nil => simp
  | cons txin vin ih =>
    rw [List.foldl_cons, ih, Multimap.mem_elems_add, List.exists_mem_cons_iff]
    constructor
    · rintro ((hold | ⟨rfl, rfl⟩) | ⟨rfl, hin⟩)
      · exact .inl hold
      · exact .inr ⟨rfl, .inl rfl⟩
      · exact .inr ⟨rfl, .inr hin⟩
    · rintro (hold | ⟨rfl, rfl | hin⟩)
      · exact .inl (.inl hold)
      · exact .inl (.inr ⟨rfl, rfl⟩)
      · exact .inr ⟨rfl, hin⟩

theorem mem_elems_drops :
    h ∈ (vin.foldl (fun byPrev txin => byPrev.drop txin.prevout.hash hash) byPrev).elems p ↔
      h ∈ byPrev.elems p ∧ ¬ (h = hash ∧ ∃ txin ∈ vin, txin.prevout.hash = p) := by
  induction vin generalizing byPrev with
  | nil => simp
  | cons txin vin ih =>
    rw [List.foldl_cons, ih, Multimap.mem_elems_drop, List.exists_mem_cons_iff]
    constructor
    · rintro ⟨⟨hold, hhead⟩, htail⟩
      refine ⟨hold, ?_⟩
      rintro ⟨rfl, rfl | hin⟩
      · exact hhead ⟨rfl, rfl⟩
      · exact htail ⟨rfl, hin⟩
    · rintro ⟨hold, hnone⟩
      refine ⟨⟨hold, ?_⟩, ?_⟩
      · rintro ⟨rfl, rfl⟩
        exact hnone ⟨rfl, .inl rfl⟩
      · rintro ⟨rfl, hin⟩
        exact hnone ⟨rfl, .inr hin⟩

/-- A key that no input names is left alone. -/
theorem lookup_drops_of_ne (hne : ∀ txin ∈ vin, txin.prevout.hash ≠ p) :
    (vin.foldl (fun byPrev txin => byPrev.drop txin.prevout.hash hash) byPrev).lookup p = byPrev.lookup p := by
  induction vin generalizing byPrev with
  | nil => rfl
  | cons txin vin ih =>
    obtain ⟨hhead, htail⟩ := List.forall_mem_cons.mp hne
    rw [List.foldl_cons, ih htail, Multimap.lookup_drop, if_neg (Ne.symm hhead)]

theorem tidy_adds (htidy : byPrev.Tidy) :
    (vin.foldl (fun byPrev txin => byPrev.add txin.prevout.hash hash) byPrev).Tidy :=
  List.foldlRecOn (motive := Multimap.Tidy) vin _ htidy fun _ h txin _ => h.add txin.prevout.hash hash

theorem tidy_drops (htidy : byPrev.Tidy) :
    (vin.foldl (fun byPrev txin => byPrev.drop txin.prevout.hash hash) byPrev).Tidy :=
  List.foldlRecOn (motive := Multimap.Tidy) vin _ htidy fun _ h txin _ => h.drop txin.prevout.hash hash

end Loops

/-! ## Adding and erasing -/

section Steps

variable {env : Env} {m : OrphanPool} {tx : CTransaction} {hash : Uint256}

theorem mutual_empty : Mutual env empty where
  keyed := by
    intro h tx hlook
    simp [empty] at hlook
  indexed := by
    intro p h
    simp [empty, Spends]

theorem Mutual.addOrphanTx (h : m.Mutual env) (tx : CTransaction) : (m.addOrphanTx env tx).2.Mutual env := by
  unfold OrphanPool.addOrphanTx
  dsimp only
  split
  · exact h
  · rename_i hnew
    split
    · exact h
    · have hnone : m.mapOrphanTransactions.lookup (env.getHash tx) = none := Finmap.lookup_eq_none.mpr hnew
      constructor
      · intro k t hlook
        by_cases hk : k = env.getHash tx
        · subst hk
          rw [Finmap.lookup_insert, Option.some.injEq] at hlook
          rw [hlook]
        · rw [Finmap.lookup_insert_of_ne _ hk] at hlook
          exact h.keyed k t hlook
      · intro p k
        show k ∈ Multimap.elems _ p ↔ _
        rw [mem_elems_adds, h.indexed]
        unfold Spends
        by_cases hk : k = env.getHash tx
        · subst hk
          simp [hnone]
        · simp [Finmap.lookup_insert_of_ne _ hk, hk]

theorem lookup_eraseOrphanTx (h : Uint256) :
    (m.eraseOrphanTx hash).mapOrphanTransactions.lookup h =
      if h = hash then none else m.mapOrphanTransactions.lookup h := by
  unfold eraseOrphanTx
  split
  · rename_i hnone
    split
    · rename_i heq
      rw [heq]
      exact hnone
    · rfl
  · show Finmap.lookup h (Finmap.erase hash m.mapOrphanTransactions) = _
    split
    · rename_i heq
      rw [heq, Finmap.lookup_erase]
    · rename_i hne
      rw [Finmap.lookup_erase_ne hne]

theorem spends_eraseOrphanTx {p h : Uint256} : (m.eraseOrphanTx hash).Spends p h ↔ h ≠ hash ∧ m.Spends p h := by
  unfold Spends
  rw [lookup_eraseOrphanTx]
  by_cases heq : h = hash
  · simp [heq]
  · simp [heq]

theorem Mutual.eraseOrphanTx (h : m.Mutual env) (hash : Uint256) : (m.eraseOrphanTx hash).Mutual env where
  keyed := by
    intro k t hlook
    rw [lookup_eraseOrphanTx] at hlook
    split at hlook
    · cases hlook
    · exact h.keyed k t hlook
  indexed := by
    intro p k
    rw [spends_eraseOrphanTx, ← h.indexed]
    unfold OrphanPool.eraseOrphanTx
    split
    · rename_i hnone
      -- an orphan that is not there spends nothing
      refine (and_iff_right_of_imp ?_).symm
      rintro hmem rfl
      obtain ⟨t, hsome, -⟩ := (h.indexed p k).mp hmem
      rw [hnone] at hsome
      cases hsome
    · rename_i t hsome
      rw [mem_elems_drops, and_comm]
      apply and_congr_left
      intro hmem
      constructor
      · rintro hnot rfl
        obtain ⟨t', hsome', hin⟩ := (h.indexed p k).mp hmem
        rw [hsome, Option.some.injEq] at hsome'
        subst hsome'
        exact hnot ⟨rfl, hin⟩
      · rintro hne ⟨rfl, -⟩
        exact hne rfl

theorem tidy_eraseOrphanTx (htidy : m.mapOrphanTransactionsByPrev.Tidy) (hash : Uint256) :
    (m.eraseOrphanTx hash).mapOrphanTransactionsByPrev.Tidy := by
  unfold eraseOrphanTx
  split
  · exact htidy
  · exact tidy_drops htidy

theorem tidy_addOrphanTx (htidy : m.mapOrphanTransactionsByPrev.Tidy) (tx : CTransaction) :
    (m.addOrphanTx env tx).2.mapOrphanTransactionsByPrev.Tidy := by
  unfold addOrphanTx
  dsimp only
  split
  · exact htidy
  · split
    · exact htidy
    · exact tidy_adds htidy

/-! ## Eviction -/

theorem size_eraseOrphanTx (h : hash ∈ m.mapOrphanTransactions) : (m.eraseOrphanTx hash).size + 1 = m.size := by
  obtain ⟨tx, hsome⟩ := Finmap.mem_iff.mp h
  unfold eraseOrphanTx size
  rw [hsome]
  show (Finmap.keys (Finmap.erase hash m.mapOrphanTransactions)).card + 1 = _
  rw [Finmap.keys_erase]
  exact Finset.card_erase_add_one (Finmap.mem_keys.mpr h)

/-- There is an orphan to evict as long as there is any. -/
theorem victim_mem (randomhash : Uint256) (h : 0 < m.size) :
    ∃ hash, m.victim randomhash = some hash ∧ hash ∈ m.mapOrphanTransactions := by
  unfold victim
  cases hmin : (m.mapOrphanTransactions.keys.filter (randomhash ≤ ·)).min with
  | coe hash =>
    have hmem := (Finset.mem_filter.mp (Finset.mem_of_min hmin)).1
    exact ⟨hash, rfl, Finmap.mem_keys.mp hmem⟩
  | top =>
    obtain ⟨hash, hfirst⟩ := Finset.min_of_nonempty (Finset.card_pos.mp h)
    exact ⟨hash, hfirst, Finmap.mem_keys.mp (Finset.mem_of_min hfirst)⟩

/-- What every eviction keeps, the loop keeps. -/
theorem evict_invariant {P : OrphanPool → Prop} (hstep : ∀ m hash, P m → P (m.eraseOrphanTx hash))
    (rand : Nat → Uint256) (nMaxOrphans fuel nEvicted : Nat) (hm : P m) :
    P (evict rand nMaxOrphans fuel nEvicted m).2 := by
  induction fuel generalizing nEvicted m with
  | zero => exact hm
  | succ fuel ih =>
    unfold evict
    split
    · split
      · exact hm
      · exact ih _ (hstep m _ hm)
    · exact hm

theorem size_evict (rand : Nat → Uint256) {nMaxOrphans fuel : Nat} (nEvicted : Nat)
    (hfuel : m.size ≤ nMaxOrphans + fuel) : (evict rand nMaxOrphans fuel nEvicted m).2.size ≤ nMaxOrphans := by
  induction fuel generalizing nEvicted m with
  | zero => exact hfuel
  | succ fuel ih =>
    unfold evict
    split
    · rename_i hbig
      obtain ⟨hash, hvictim, hmem⟩ := victim_mem (m := m) (rand nEvicted) (by omega)
      rw [hvictim]
      have hsize := size_eraseOrphanTx hmem
      exact ih _ (by omega)
    · rename_i hsmall
      exact not_lt.mp hsmall

/-- **After `LimitOrphanTxSize`** at most as many orphans are left as it allows. -/
theorem size_limitOrphanTxSize (rand : Nat → Uint256) (nMaxOrphans : Nat) :
    (m.limitOrphanTxSize rand nMaxOrphans).2.size ≤ nMaxOrphans :=
  size_evict rand 0 (Nat.le_add_left _ _)

theorem Mutual.limitOrphanTxSize (h : m.Mutual env) (rand : Nat → Uint256) (nMaxOrphans : Nat) :
    (m.limitOrphanTxSize rand nMaxOrphans).2.Mutual env :=
  evict_invariant (P := Mutual env) (fun _ hash h => h.eraseOrphanTx hash) rand nMaxOrphans _ _ h

theorem tidy_limitOrphanTxSize (htidy : m.mapOrphanTransactionsByPrev.Tidy) (rand : Nat → Uint256) (nMaxOrphans : Nat) :
    (m.limitOrphanTxSize rand nMaxOrphans).2.mapOrphanTransactionsByPrev.Tidy :=
  evict_invariant (P := fun m => m.mapOrphanTransactionsByPrev.Tidy) (fun _ hash h => tidy_eraseOrphanTx h hash) rand
    nMaxOrphans _ _ htidy

end Steps

/-- The erase queue is worked off. -/
def eraseAll (hashes : List Uint256) (m : OrphanPool) : OrphanPool :=
  hashes.foldl (fun m hash => m.eraseOrphanTx hash) m

section EraseAll

variable {env : Env} {m : OrphanPool} {hashes : List Uint256}

theorem lookup_eraseAll (h : Uint256) :
    (m.eraseAll hashes).mapOrphanTransactions.lookup h =
      if h ∈ hashes then none else m.mapOrphanTransactions.lookup h := by
  induction hashes generalizing m with
  | nil => simp [eraseAll]
  | cons hash hashes ih =>
    show ((m.eraseOrphanTx hash).eraseAll hashes).mapOrphanTransactions.lookup h = _
    rw [ih, lookup_eraseOrphanTx]
    by_cases hmem : h ∈ hashes
    · simp [hmem]
    · simp [hmem]

theorem Mutual.eraseAll (h : m.Mutual env) (hashes : List Uint256) : (m.eraseAll hashes).Mutual env :=
  List.foldlRecOn (motive := Mutual env) hashes _ h fun _ h hash _ => h.eraseOrphanTx hash

theorem tidy_eraseAll (htidy : m.mapOrphanTransactionsByPrev.Tidy) (hashes : List Uint256) :
    (m.eraseAll hashes).mapOrphanTransactionsByPrev.Tidy :=
  List.foldlRecOn (motive := fun m : OrphanPool => m.mapOrphanTransactionsByPrev.Tidy) hashes _ htidy
    fun _ h hash _ => tidy_eraseOrphanTx h hash

/-- The entry of the reverse map that a subscript makes. -/
def touch (m : OrphanPool) (hashPrev : Uint256) : OrphanPool :=
  { m with mapOrphanTransactionsByPrev := m.mapOrphanTransactionsByPrev.touch hashPrev }

theorem Mutual.touch (h : m.Mutual env) (hashPrev : Uint256) : (m.touch hashPrev).Mutual env where
  keyed := h.keyed
  indexed := by
    intro p k
    show k ∈ (m.mapOrphanTransactionsByPrev.touch hashPrev).elems p ↔ m.Spends p k
    rw [Multimap.elems_touch, h.indexed]

end EraseAll

end OrphanPool

/-! ## The handler -/

section Handler

variable {env : Env} {msg : MessageEnv} {tx : CTransaction} {m : OrphanPool}

/-- The pool has the transaction. -/
def PoolNode.Knows (env : Env) (tx : CTransaction) (pn : PoolNode) : Prop :=
  (pn.pool.lookup env (env.getHash tx)).isSome = true

theorem PoolNode.precheck_new {relay : Relay} {args : AcceptArgs} {pn : PoolNode}
    (h : PoolNode.precheck env relay args tx pn = .ok ()) : ¬ pn.Knows env tx := by
  unfold PoolNode.precheck at h
  obtain ⟨⟨⟩, -, h⟩ := Except.bind_ok_iff.mp h
  obtain ⟨-, h⟩ := require_bind_ok_iff.mp h
  obtain ⟨-, h⟩ := require_bind_ok_iff.mp h
  obtain ⟨-, h⟩ := require_bind_ok_iff.mp h
  obtain ⟨hnone, -⟩ := require_bind_ok_iff.mp h
  rw [Knows, Option.isSome_iff_ne_none]
  exact not_not.mpr (Option.isNone_iff_eq_none.mp hnone)

/-- What the pool has is refused, and nothing changes. -/
theorem PoolNode.acceptToMemoryPool_known {relay : Relay} {fRateLimited : Bool} {pn : PoolNode}
    (h : pn.Knows env tx) : PoolNode.acceptToMemoryPool env relay tx fRateLimited pn = (.refused, pn) := by
  have hmissing : ¬ fMissingInputs env relay tx pn := by
    rintro ⟨-, -, -, -, hnone, -⟩
    rw [Knows, Option.isSome_iff_ne_none] at h
    exact h (Option.isNone_iff_eq_none.mp hnone)
  unfold acceptToMemoryPool
  rcases PoolNode.accept_cases env relay pn.node.pindexBest ⟨true, true, fRateLimited⟩ tx pn with
    ⟨e, -, hrun⟩ | ⟨hpre, -⟩ | ⟨hpre, -⟩ | ⟨hpre, -⟩
  · rw [hrun]
    simp [hmissing]
  · exact absurd h (PoolNode.precheck_new hpre)
  · exact absurd h (PoolNode.precheck_new hpre)
  · exact absurd h (PoolNode.precheck_new hpre)

theorem PoolNode.knows_addUnchecked (pn : PoolNode) : (PoolNode.addUnchecked tx pn).Knows env tx := by
  show (CTxMemPool.lookup env (pn.pool.addUnchecked tx) _).isSome = true
  rw [CTxMemPool.lookup_addUnchecked, if_pos rfl]
  rfl

/-- What is accepted is in the pool. -/
theorem PoolNode.acceptToMemoryPool_accepted {relay : Relay} {fRateLimited : Bool} {pn pn' : PoolNode}
    (h : PoolNode.acceptToMemoryPool env relay tx fRateLimited pn = (.accepted, pn')) : pn'.Knows env tx := by
  unfold acceptToMemoryPool at h
  rcases PoolNode.accept_cases env relay pn.node.pindexBest ⟨true, true, fRateLimited⟩ tx pn with
    ⟨e, -, hrun⟩ | ⟨-, -, hrun⟩ | ⟨-, -, -, e, hrun⟩ | ⟨-, -, -, hrun⟩
  · rw [hrun] at h
    simp only [Prod.mk.injEq] at h
    split at h <;> cases h.1
  · rw [hrun] at h
    obtain ⟨-, rfl⟩ := Prod.mk.inj h
    exact PoolNode.knows_addUnchecked pn
  · rw [hrun] at h
    simp only [Prod.mk.injEq] at h
    split at h <;> cases h.1
  · rw [hrun] at h
    obtain ⟨-, rfl⟩ := Prod.mk.inj h
    exact PoolNode.knows_addUnchecked _

/-- **One orphan.** It goes to the erase queue, and the transaction of the message has been submitted once more. -/
theorem tryOrphan_known {l : TxMessage} {orphanHash : Uint256} (hknows : l.node.Knows env tx)
    (horphan : orphanHash ∈ l.orphans.mapOrphanTransactions) :
    tryOrphan env msg tx l orphanHash =
      { l with vEraseQueue := l.vEraseQueue ++ [orphanHash], submitted := l.submitted ++ [(tx, .refused)] } := by
  obtain ⟨orphanTx, hsome⟩ := Finmap.mem_iff.mp horphan
  have hread : l.orphans.readOrphan orphanHash = l.orphans := by
    unfold OrphanPool.readOrphan
    rw [hsome]
  unfold tryOrphan TxMessage.submit
  simp only [hread, PoolNode.acceptToMemoryPool_known hknows]

theorem tryOrphans_known {hashes : List Uint256} {l : TxMessage} (hknows : l.node.Knows env tx)
    (horphans : ∀ h ∈ hashes, h ∈ l.orphans.mapOrphanTransactions) :
    hashes.foldl (tryOrphan env msg tx) l =
      { l with
        vEraseQueue := l.vEraseQueue ++ hashes
        submitted := l.submitted ++ List.replicate hashes.length (tx, .refused) } := by
  induction hashes generalizing l with
  | nil => simp
  | cons hash hashes ih =>
    obtain ⟨hhead, htail⟩ := List.forall_mem_cons.mp horphans
    have hrest := ih (l := { l with
      vEraseQueue := l.vEraseQueue ++ [hash], submitted := l.submitted ++ [(tx, .refused)] }) hknows htail
    rw [List.foldl_cons, tryOrphan_known hknows hhead, hrest]
    simp [List.replicate_succ]

/-- **The outer loop** ends after its first round: the queue does not grow. -/
theorem workLoop_known {l : TxMessage} {hash : Uint256} {fuel : Nat} (hknows : l.node.Knows env tx)
    (hm : l.orphans.Mutual env) (hqueue : l.vWorkQueue = [hash]) :
    workLoop env msg tx (fuel + 2) 0 l =
      { l with
        orphans := l.orphans.touch hash
        vEraseQueue := l.vEraseQueue ++ (l.orphans.mapOrphanTransactionsByPrev.elems hash).sort (· ≤ ·)
        submitted := l.submitted ++
          List.replicate ((l.orphans.mapOrphanTransactionsByPrev.elems hash).sort (· ≤ ·)).length (tx, .refused) } := by
  have horphans : ∀ h ∈ (l.orphans.mapOrphanTransactionsByPrev.elems hash).sort (· ≤ ·),
      h ∈ l.orphans.mapOrphanTransactions := by
    intro h hmem
    obtain ⟨t, hsome, -⟩ := (hm.indexed hash h).mp ((Finset.mem_sort _).mp hmem)
    exact Finmap.mem_iff.mpr ⟨t, hsome⟩
  have hround : tryOrphansOf env msg tx l hash =
      { l with
        orphans := l.orphans.touch hash
        vEraseQueue := l.vEraseQueue ++ (l.orphans.mapOrphanTransactionsByPrev.elems hash).sort (· ≤ ·)
        submitted := l.submitted ++
          List.replicate ((l.orphans.mapOrphanTransactionsByPrev.elems hash).sort (· ≤ ·)).length (tx, .refused) } := by
    unfold tryOrphansOf
    dsimp only
    rw [Multimap.elems_touch]
    exact tryOrphans_known (l := { l with orphans := l.orphans.touch hash }) hknows horphans
  have hfirst : l.vWorkQueue[0]? = some hash := by rw [hqueue]; rfl
  have hend : l.vWorkQueue[1]? = none := by rw [hqueue]; rfl
  rw [workLoop, hfirst]
  show workLoop env msg tx (fuel + 1) 1 (tryOrphansOf env msg tx l hash) = _
  rw [hround, workLoop]
  simp only [hend]

/-- **What the handler does with an accepted transaction**: everything under its hash in the reverse map is erased, and
    nothing but the transaction itself was submitted. -/
theorem processTx_accepted {node : PoolNode} (hm : m.Mutual env)
    (h : (processTx env msg tx node m).1 = .accepted) :
    (processTx env msg tx node m).2.orphans = (m.touch (env.getHash tx)).eraseAll
      (env.getHash tx :: (m.mapOrphanTransactionsByPrev.elems (env.getHash tx)).sort (· ≤ ·)) ∧
    (tx, .accepted) ∈ (processTx env msg tx node m).2.submitted ∧
    ∀ s ∈ (processTx env msg tx node m).2.submitted, s.1 = tx := by
  unfold processTx at h ⊢
  unfold TxMessage.submit at h ⊢
  cases hsub : PoolNode.acceptToMemoryPool env msg.relay tx (msg.limiter 0) node with
  | mk answer node' =>
    simp only [List.length_nil, hsub] at h ⊢
    cases answer with
    | missingInputs => cases h
    | refused => cases h
    | accepted =>
      have hknows := PoolNode.acceptToMemoryPool_accepted hsub
      dsimp only
      simp only [List.nil_append]
      rw [workLoop_known (l := ⟨node', m, [env.getHash tx], [env.getHash tx], [(tx, .accepted)]⟩) hknows hm rfl]
      refine ⟨rfl, List.mem_append_left _ List.mem_cons_self, ?_⟩
      intro s hs
      rcases List.mem_append.mp hs with hs | hs
      · rw [List.mem_singleton.mp hs]
      · rw [List.eq_of_mem_replicate hs]

/-- Without an acceptance the orphans are what `AddOrphanTx` and `LimitOrphanTxSize` leave. -/
theorem processTx_other {node : PoolNode} (h : (processTx env msg tx node m).1 ≠ .accepted) :
    (processTx env msg tx node m).2.orphans = m ∨
      (processTx env msg tx node m).2.orphans =
        ((m.addOrphanTx env tx).2.limitOrphanTxSize msg.rand MAX_ORPHAN_TRANSACTIONS).2 := by
  unfold processTx at h ⊢
  unfold TxMessage.submit at h ⊢
  cases hsub : PoolNode.acceptToMemoryPool env msg.relay tx (msg.limiter 0) node with
  | mk answer node' =>
    simp only [List.length_nil, hsub] at h ⊢
    cases answer with
    | missingInputs => exact .inr rfl
    | refused => exact .inl rfl
    | accepted => exact absurd rfl h

theorem processTx_answer {node : PoolNode} :
    (processTx env msg tx node m).1 =
      (PoolNode.acceptToMemoryPool env msg.relay tx (msg.limiter 0) node).1 := by
  unfold processTx TxMessage.submit
  cases hsub : PoolNode.acceptToMemoryPool env msg.relay tx (msg.limiter 0) node with
  | mk answer node' =>
    dsimp only
    cases answer <;> rfl

end Handler

/-! ## Every run -/

namespace OrphanPool

variable {env : Env} {m : OrphanPool}

/-- **No empty entry is made**: a transaction that a message brings in has an orphan. -/
def Fed (env : Env) (m : OrphanPool) : OrphanOp → Prop
  | .processTx msg tx node =>
    (PoolNode.acceptToMemoryPool env msg.relay tx (msg.limiter 0) node).1 = .accepted → ∃ h, m.Spends (env.getHash tx) h
  | _ => True

theorem apply_addOrphanTx {tx : CTransaction} (hnew : env.getHash tx ∉ m.mapOrphanTransactions)
    (hsmall : ¬ 5000 < tx.getSerializeSize) :
    (m.apply env (.addOrphanTx tx)).mapOrphanTransactions = m.mapOrphanTransactions.insert (env.getHash tx) tx := by
  unfold OrphanPool.apply OrphanPool.addOrphanTx
  dsimp only
  rw [if_neg hnew, if_neg hsmall]

theorem Mutual.apply (h : m.Mutual env) (op : OrphanOp) : (m.apply env op).Mutual env := by
  cases op with
  | addOrphanTx tx => exact h.addOrphanTx tx
  | eraseOrphanTx hash => exact h.eraseOrphanTx hash
  | limitOrphanTxSize rand n => exact h.limitOrphanTxSize rand n
  | processTx msg tx node =>
    show (processTx env msg tx node m).2.orphans.Mutual env
    by_cases hacc : (processTx env msg tx node m).1 = .accepted
    · rw [(processTx_accepted h hacc).1]
      exact (h.touch _).eraseAll _
    · rcases processTx_other hacc with heq | heq
      · rw [heq]
        exact h
      · rw [heq]
        exact (h.addOrphanTx tx).limitOrphanTxSize _ _

theorem Reached.isMutual {P : OrphanPool → OrphanOp → Prop} (h : Reached env P m) : m.Mutual env := by
  induction h with
  | empty => exact mutual_empty
  | step _ _ ih => exact ih.apply _

/-- After an acceptance the reverse map is tidy iff there was an orphan. -/
theorem tidy_accepted_iff (h : m.Mutual env) (htidy : m.mapOrphanTransactionsByPrev.Tidy) (hash : Uint256) :
    ((m.touch hash).eraseAll
        (hash :: (m.mapOrphanTransactionsByPrev.elems hash).sort (· ≤ ·))).mapOrphanTransactionsByPrev.Tidy ↔
      ∃ k, m.Spends hash k := by
  constructor
  · intro hafter
    by_contra hnone
    have hempty : m.mapOrphanTransactionsByPrev.elems hash = ∅ := by
      refine Finset.eq_empty_of_forall_notMem fun k hk => hnone ⟨k, (h.indexed hash k).mp hk⟩
    have hsort : (m.mapOrphanTransactionsByPrev.elems hash).sort (· ≤ ·) = [] := by
      rw [hempty]
      exact Finset.sort_empty _
    -- only the orphan under the hash itself is erased, and it does not spend the hash
    have hself : ((m.touch hash).eraseOrphanTx hash).mapOrphanTransactionsByPrev.lookup hash = some ∅ := by
      have htouched : (m.touch hash).mapOrphanTransactionsByPrev.lookup hash = some ∅ := by
        show (m.mapOrphanTransactionsByPrev.touch hash).lookup hash = _
        rw [Multimap.touch, Finmap.lookup_insert, hempty]
      unfold eraseOrphanTx
      split
      · exact htouched
      · rename_i tx hsome
        show Finmap.lookup hash (tx.vin.foldl _ _) = _
        rw [lookup_drops_of_ne]
        · exact htouched
        · intro txin htxin heq
          exact hnone ⟨hash, tx, hsome, txin, htxin, heq⟩
    refine hafter hash ?_
    rw [hsort]
    exact hself
  · rintro ⟨k, hk⟩
    refine tidy_eraseAll ?_ _
    intro j
    show (m.mapOrphanTransactionsByPrev.touch hash).lookup j ≠ some ∅
    rw [Multimap.touch, lookup_insert_eq]
    split
    · intro heq
      have hmem := (h.indexed hash k).mpr hk
      rw [Option.some.inj heq] at hmem
      exact Finset.notMem_empty k hmem
    · exact htidy j

theorem tidy_apply_iff (h : m.Mutual env) (htidy : m.mapOrphanTransactionsByPrev.Tidy) (op : OrphanOp) :
    (m.apply env op).mapOrphanTransactionsByPrev.Tidy ↔ Fed env m op := by
  cases op with
  | addOrphanTx tx => exact iff_of_true (tidy_addOrphanTx htidy tx) trivial
  | eraseOrphanTx hash => exact iff_of_true (tidy_eraseOrphanTx htidy hash) trivial
  | limitOrphanTxSize rand n => exact iff_of_true (tidy_limitOrphanTxSize htidy rand n) trivial
  | processTx msg tx node =>
    show (processTx env msg tx node m).2.orphans.mapOrphanTransactionsByPrev.Tidy ↔ (_ → _)
    rw [← processTx_answer (m := m)]
    by_cases hacc : (processTx env msg tx node m).1 = .accepted
    · rw [(processTx_accepted h hacc).1, tidy_accepted_iff h htidy]
      exact ⟨fun hspent _ => hspent, fun hfed => hfed hacc⟩
    · refine iff_of_true ?_ fun hyes => absurd hyes hacc
      rcases processTx_other hacc with heq | heq
      · rw [heq]
        exact htidy
      · rw [heq]
        exact tidy_limitOrphanTxSize (tidy_addOrphanTx htidy tx) _ _

theorem Reached.tidy (h : Reached env (Fed env) m) : m.mapOrphanTransactionsByPrev.Tidy := by
  induction h with
  | empty => exact Multimap.tidy_empty
  | step prev hfed ih => exact (tidy_apply_iff prev.isMutual ih _).mpr hfed

end OrphanPool

/-- **The orphan maps.** After any operations the reverse map has an orphan under a hash iff the orphan spends it, and a
    limit is kept. It has no empty entry as long as every transaction that a message brings in has an orphan, and
    the first one that has none leaves an empty entry. -/
theorem orphan_maps_consistent {env : Env} :
    (∀ m, OrphanPool.Reached env (fun _ _ => True) m →
      (∀ p h, h ∈ m.mapOrphanTransactionsByPrev.elems p ↔
        ∃ tx, m.mapOrphanTransactions.lookup h = some tx ∧ ∃ txin ∈ tx.vin, txin.prevout.hash = p) ∧
      ∀ rand n, (m.limitOrphanTxSize rand n).2.size ≤ n) ∧
    ∀ m, OrphanPool.Reached env (OrphanPool.Fed env) m →
      (∀ p, m.mapOrphanTransactionsByPrev.lookup p ≠ some ∅) ∧
      ∀ op, (∀ p, (m.apply env op).mapOrphanTransactionsByPrev.lookup p ≠ some ∅) ↔ OrphanPool.Fed env m op := by
  constructor
  · intro m h
    exact ⟨h.isMutual.indexed, fun rand n => OrphanPool.size_limitOrphanTxSize rand n⟩
  · intro m h
    exact ⟨h.tidy, fun op => OrphanPool.tidy_apply_iff h.isMutual h.tidy op⟩

namespace Cakenet

/-- A peer's message, no rate limit and a random number. -/
def peer : MessageEnv := ⟨relay, fun _ => false, fun _ => 0⟩

/-- A node at an active offer, with an empty pool. -/
def sellerNode : PoolNode := ⟨nodeAt offerBlock10, .empty⟩

/-- The payment for an accept comes before the accept. -/
def payOrphan : OrphanPool := OrphanPool.empty.apply env (.addOrphanTx offerPayTx)

theorem reached_payOrphan {P : OrphanPool → OrphanOp → Prop} (h : P .empty (.addOrphanTx offerPayTx)) :
    OrphanPool.Reached env P payOrphan :=
  OrphanPool.Reached.empty.step h

/-- The accept comes after its payment. -/
theorem accept_after_payment_tidy :
    ∀ p, (payOrphan.apply env (.processTx peer offerAcceptTx sellerNode)).mapOrphanTransactionsByPrev.lookup p ≠
      some ∅ := by
  refine (orphan_maps_consistent.2 _ (OrphanPool.Reached.step (reached_payOrphan trivial) ?_)).1
  intro _
  exact ⟨env.getHash offerPayTx, offerPayTx, by decide +kernel, by decide +kernel⟩

/-- The accept comes without a payment, and leaves an empty entry. -/
theorem accept_leaves_empty_entry :
    ∃ m, OrphanPool.Reached env (fun _ _ => True) m ∧ ∃ p, m.mapOrphanTransactionsByPrev.lookup p = some ∅ :=
  ⟨OrphanPool.empty.apply env (.processTx peer offerAcceptTx sellerNode), OrphanPool.Reached.empty.step trivial,
    env.getHash offerAcceptTx, by decide +kernel⟩

end Cakenet

/-! ## Resolution -/

/-- **What resolution is for.** An orphan that leaves was itself submitted and is accepted or refused for good, and every
    descendant of the transaction whose inputs are there has been submitted. -/
structure Resolved (env : Env) (tx : CTransaction) (m : OrphanPool) (l : TxMessage) : Prop where
  leaves : ∀ h, h ∈ m.mapOrphanTransactions → h ∉ l.orphans.mapOrphanTransactions →
    ∃ s ∈ l.submitted, env.getHash s.1 = h ∧ s.2 ≠ .missingInputs
  submits : ∀ h t, m.mapOrphanTransactions.lookup h = some t → Relation.TransGen m.Spends (env.getHash tx) h →
    (∀ txin ∈ t.vin, (l.node.view env txin.prevout.hash).isSome = true) → ∃ s ∈ l.submitted, env.getHash s.1 = h

/-- **Orphans are resolved iff there are none.** The handler resolves the orphans of an accepted transaction iff no other
    transaction among the orphans spends it. -/
theorem orphans_resolved_iff {env : Env} {msg : MessageEnv} {tx : CTransaction} {node : PoolNode} {m : OrphanPool}
    (hreach : OrphanPool.Reached env (fun _ _ => True) m) (hacc : (processTx env msg tx node m).1 = .accepted) :
    Resolved env tx m (processTx env msg tx node m).2 ↔
      ∀ h t, m.mapOrphanTransactions.lookup h = some t → (∃ txin ∈ t.vin, txin.prevout.hash = env.getHash tx) →
        h = env.getHash tx := by
  obtain ⟨horphans, haccepted, honly⟩ := processTx_accepted hreach.isMutual hacc
  constructor
  · intro hres h t hsome hspends
    have hmem : h ∈ m.mapOrphanTransactionsByPrev.elems (env.getHash tx) :=
      (hreach.isMutual.indexed _ h).mpr ⟨t, hsome, hspends⟩
    have hgone : h ∉ (processTx env msg tx node m).2.orphans.mapOrphanTransactions := by
      rw [horphans, ← Finmap.lookup_eq_none, OrphanPool.lookup_eraseAll, if_pos]
      exact List.mem_cons_of_mem _ ((Finset.mem_sort _).mpr hmem)
    obtain ⟨s, hs, hhash, -⟩ := hres.leaves h (Finmap.mem_iff.mpr ⟨t, hsome⟩) hgone
    rw [honly s hs] at hhash
    exact hhash.symm
  · intro hnone
    have hself : ∀ h, h = env.getHash tx → ∃ s ∈ (processTx env msg tx node m).2.submitted,
        env.getHash s.1 = h ∧ s.2 ≠ .missingInputs := by
      rintro h rfl
      exact ⟨_, haccepted, rfl, by simp⟩
    constructor
    · intro h hmem hgone
      apply hself
      rw [horphans, ← Finmap.lookup_eq_none, OrphanPool.lookup_eraseAll] at hgone
      obtain ⟨t, hsome⟩ := Finmap.mem_iff.mp hmem
      by_contra hne
      rw [if_neg] at hgone
      · rw [show (m.touch (env.getHash tx)).mapOrphanTransactions.lookup h = some t from hsome] at hgone
        cases hgone
      · intro hin
        rcases List.mem_cons.mp hin with heq | hin
        · exact hne heq
        · obtain ⟨t', hsome', hspends⟩ := (hreach.isMutual.indexed _ h).mp ((Finset.mem_sort _).mp hin)
          exact hne (hnone h t' hsome' hspends)
    · intro h t hsome hdesc _
      -- every descendant is the transaction itself
      have heq : h = env.getHash tx := by
        clear hsome
        induction hdesc with
        | single hspends =>
          obtain ⟨t', hsome', hin⟩ := hspends
          exact hnone _ t' hsome' hin
        | tail _ hspends ih =>
          obtain ⟨t', hsome', hin⟩ := hspends
          rw [ih] at hin
          exact hnone _ t' hsome' hin
      obtain ⟨s, hs, hhash, -⟩ := hself h heq
      exact ⟨s, hs, hhash⟩

namespace Cakenet

/-- The payment is dropped when its accept comes, although the pool would take it now. -/
theorem payment_dropped :
    ∃ m tx node, OrphanPool.Reached env (fun _ _ => True) m ∧ (processTx env peer tx node m).1 = .accepted ∧
      ¬ Resolved env tx m (processTx env peer tx node m).2 ∧
      (PoolNode.acceptToMemoryPool env relay offerPayTx false (processTx env peer tx node m).2.node).1 = .accepted := by
  refine ⟨payOrphan, offerAcceptTx, sellerNode, reached_payOrphan trivial, by decide +kernel, ?_, by decide +kernel⟩
  intro hres
  obtain ⟨s, hs, hhash, -⟩ := hres.leaves (env.getHash offerPayTx)
    (by rw [← Finmap.mem_keys]; decide +kernel) (by rw [← Finmap.mem_keys]; decide +kernel)
  have hnone : ∀ s ∈ (processTx env peer offerAcceptTx sellerNode payOrphan).2.submitted,
      env.getHash s.1 ≠ env.getHash offerPayTx := by decide +kernel
  exact hnone s hs hhash

/-- The payment for another accept stays among the orphans. -/
theorem unrelated_orphan_resolved :
    (processTx env peer offerAcceptTx sellerNode (OrphanPool.empty.apply env (.addOrphanTx greedyPayTx))).1 =
        .accepted ∧
      Resolved env offerAcceptTx (OrphanPool.empty.apply env (.addOrphanTx greedyPayTx))
        (processTx env peer offerAcceptTx sellerNode (OrphanPool.empty.apply env (.addOrphanTx greedyPayTx))).2 := by
  have hacc : (processTx env peer offerAcceptTx sellerNode
      (OrphanPool.empty.apply env (.addOrphanTx greedyPayTx))).1 = .accepted := by decide +kernel
  refine ⟨hacc, (orphans_resolved_iff (OrphanPool.Reached.empty.step trivial) hacc).mpr ?_⟩
  intro h t hsome hspends
  have hone : (OrphanPool.empty.apply env (.addOrphanTx greedyPayTx)).mapOrphanTransactions =
      Finmap.insert (env.getHash greedyPayTx) greedyPayTx ∅ := by
    exact OrphanPool.apply_addOrphanTx Finmap.notMem_empty (by decide +kernel)
  rw [hone] at hsome
  by_cases heq : h = env.getHash greedyPayTx
  · rw [heq, Finmap.lookup_insert, Option.some.injEq] at hsome
    rw [← hsome] at hspends
    exact absurd hspends (by decide +kernel)
  · rw [Finmap.lookup_insert_of_ne _ heq, Finmap.lookup_empty] at hsome
    cases hsome

end Cakenet

end Syscoin

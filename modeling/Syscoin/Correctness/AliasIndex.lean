import Syscoin.Chain.Undo

/-!
# `Correctness.AliasIndex` — the alias index follows the main chain

`chainNames` replays the alias writes of a chain: the fold of `PutToAliasList`, in chain order, over its activations
and updates. A run that keeps to `AliasSite` stores exactly that for every name (`alias_index_follows_chain`),
through extensions and reorganisations of any depth.

Inserting replaces by height and undoing pops by hash, so the two are not inverse one write at a time: of two
writes to one name in one block, the second overwrites the first, and its undo takes away the entry of both. What
carries the induction over a block is the form every history has while the block is connected, and again while it
is disconnected: the history from below the block, with at most one entry of the block's height after it.

The index is lost where `CheckAliasInputs` skips the write because the block has the height of the best block,
which every reorganisation passes through.
-/

namespace Syscoin

open Lib

/-! ## The replay -/

/-- The history of every name. -/
abbrev AliasNames := Bytes → List CAliasIndex

/-- The activation or update that a transaction carries. -/
def aliasWriteOf (tx : CTransaction) : Option (Op × List Bytes) :=
  if tx.nVersion = SYSCOIN_TX_VERSION then
    match decodeAliasTx tx with
    | none => none
    | some (op, _, vvchArgs) => if op = .aliasNew then none else some (op, vvchArgs)
  else none

/-- One transaction, on the coins it spends. -/
def replayAlias (env : Env) (nHeight : Nat) (tx : CTransaction) (view : CoinsView) (names : AliasNames) :
    AliasNames :=
  if tx.isCoinBase then names
  else
    match aliasWriteOf tx, findPrev decodeAliasScript view tx.vin with
    | some (op, vvchArgs), some p =>
      Function.update names (arg vvchArgs 0)
        (putToAliasList (names (arg vvchArgs 0)) (aliasEntry env nHeight tx op vvchArgs p.prevOutput))
    | _, _ => names

/-- The transactions of a block. -/
def replayAliases (env : Env) (nHeight : Nat) : List CTransaction → CoinsView → AliasNames → AliasNames
  | [], _, names => names
  | tx :: txs, view, names =>
    match updateCoins env tx nHeight view with
    | .error _ => names
    | .ok (view', _) => replayAliases env nHeight txs view' (replayAlias env nHeight tx view names)

/-- **The histories of a chain**, tip first. -/
def chainNames (env : Env) : List CBlock → AliasNames
  | [] => fun _ => []
  | [_] => fun _ => []
  | block :: parent :: below =>
    if env.getBlockHash block = env.hashGenesisBlock then chainNames env (parent :: below)
    else
      replayAliases env (parent :: below).length block.vtx (chainCoins env (parent :: below))
        (chainNames env (parent :: below))

section Replay

variable {env : Env} {nHeight : Nat} {tx : CTransaction} {txs : List CTransaction} {view : CoinsView}
  {names : AliasNames}

/-- A replayed transaction leaves the histories alone or puts an entry of its own height into one of them. -/
theorem replayAlias_cases (env : Env) (nHeight : Nat) (tx : CTransaction) (view : CoinsView) (names : AliasNames) :
    replayAlias env nHeight tx view names = names ∨ ∃ op vvchArgs prevOutput, aliasWriteOf tx = some (op, vvchArgs) ∧
      replayAlias env nHeight tx view names = Function.update names (arg vvchArgs 0)
        (putToAliasList (names (arg vvchArgs 0)) (aliasEntry env nHeight tx op vvchArgs prevOutput)) := by
  unfold replayAlias
  by_cases hcb : tx.isCoinBase = true
  · exact .inl (if_pos hcb)
  · rw [if_neg hcb]
    cases hw : aliasWriteOf tx with
    | none => exact .inl rfl
    | some w =>
      obtain ⟨op, vvchArgs⟩ := w
      cases hp : findPrev decodeAliasScript view tx.vin with
      | none => exact .inl rfl
      | some p => exact .inr ⟨op, vvchArgs, p.prevOutput, rfl, rfl⟩

theorem replayAlias_height {bound : Nat} (hnames : ∀ vch, ∀ e ∈ names vch, e.nHeight < bound) (hh : nHeight < bound) :
    ∀ vch, ∀ e ∈ replayAlias env nHeight tx view names vch, e.nHeight < bound := by
  obtain heq | ⟨op, vvchArgs, prevOutput, -, heq⟩ := replayAlias_cases env nHeight tx view names
  · rw [heq]; exact hnames
  · intro vch e he
    rw [heq] at he
    by_cases hv : vch = arg vvchArgs 0
    · subst hv
      rw [Function.update_self] at he
      rcases mem_upsertLast he with rfl | he
      · exact hh
      · exact hnames _ e he
    · rw [Function.update_of_ne hv] at he
      exact hnames vch e he

theorem replayAliases_height {bound : Nat} (hnames : ∀ vch, ∀ e ∈ names vch, e.nHeight < bound)
    (hh : nHeight < bound) : ∀ vch, ∀ e ∈ replayAliases env nHeight txs view names vch, e.nHeight < bound := by
  induction txs generalizing view names with
  | nil => exact hnames
  | cons tx txs ih =>
    unfold replayAliases
    cases updateCoins env tx nHeight view with
    | error e => exact hnames
    | ok r => exact ih (replayAlias_height hnames hh)

/-- A chain has entries of its own heights only. -/
theorem chainNames_height (env : Env) (chain : List CBlock) :
    ∀ vch, ∀ e ∈ chainNames env chain vch, e.nHeight < chain.length := by
  induction chain with
  | nil => intro vch e he; cases he
  | cons block below ih =>
    cases below with
    | nil => intro vch e he; cases he
    | cons parent below =>
      have hlt : ∀ vch, ∀ e ∈ chainNames env (parent :: below) vch, e.nHeight < (block :: parent :: below).length :=
        fun vch e he => Nat.lt_succ_of_lt (ih vch e he)
      unfold chainNames
      split
      · exact hlt
      · exact replayAliases_height hlt (Nat.lt_succ_self _)

variable {pindex parent : CBlockIndex}

theorem chainNames_of_genesis (hp : pindex.pprev = some parent)
    (hgen : env.getBlockHash pindex.block = env.hashGenesisBlock) :
    chainNames env pindex.chain = chainNames env parent.chain := by
  rw [CBlockIndex.chain_eq_cons_of_pprev hp, CBlockIndex.chain, chainNames, if_pos hgen]

theorem chainNames_of_pprev (hp : pindex.pprev = some parent)
    (hreg : env.getBlockHash pindex.block ≠ env.hashGenesisBlock) :
    chainNames env pindex.chain = replayAliases env pindex.nHeight pindex.block.vtx (chainCoins env parent.chain)
      (chainNames env parent.chain) := by
  rw [CBlockIndex.nHeight_eq_succ_of_pprev hp, CBlockIndex.chain_eq_cons_of_pprev hp, CBlockIndex.chain, chainNames,
    if_neg hreg, CBlockIndex.nHeight, List.length_cons]

end Replay

/-! ## Connecting follows the replay -/

/-- **What the index needs of a site.** A transaction that writes an alias is not checked at the height of the best
    block, and no entry of the name's history has its hash. A coinbase writes nothing, but it is undone like the
    others, so its hash has to be new as well. -/
def AliasSite (env : Env) (site : Site) : Prop :=
  ∀ write ∈ aliasWriteOf site.tx,
    (site.tx.isCoinBase = false → site.pindex.nHeight ≠ site.pindexBest.nHeight) ∧
      ∀ e ∈ site.store.aliasdb.history (arg write.2 0), e.txHash ≠ env.getHash site.tx

instance (env : Env) (site : Site) : Decidable (AliasSite env site) :=
  inferInstanceAs (Decidable (∀ write ∈ aliasWriteOf site.tx, _))

/-- The hash of a transaction is new to the history it would write. -/
def FreshWrite (env : Env) (tx : CTransaction) (names : AliasNames) : Prop :=
  ∀ write ∈ aliasWriteOf tx, ∀ e ∈ names (arg write.2 0), e.txHash ≠ env.getHash tx

/-- So is the hash of every transaction of a block when its turn comes. -/
def FreshWrites (env : Env) (nHeight : Nat) : List CTransaction → CoinsView → AliasNames → Prop
  | [], _, _ => True
  | tx :: txs, view, names =>
    FreshWrite env tx names ∧ ∀ view' txundo, updateCoins env tx nHeight view = .ok (view', txundo) →
      FreshWrites env nHeight txs view' (replayAlias env nHeight tx view names)

section Connect

variable {env : Env} {pindexBest pindex : CBlockIndex} {tx : CTransaction} {txs : List CTransaction}
  {v w : CoinsView} {s s' : Store}

theorem aliasWriteOf_eq {op : Op} {nOut : Nat} {vvchArgs : List Bytes} (hver : tx.nVersion = SYSCOIN_TX_VERSION)
    (hop : decodeAliasTx tx = some (op, nOut, vvchArgs)) (hne : op ≠ .aliasNew) :
    aliasWriteOf tx = some (op, vvchArgs) := by
  simp [aliasWriteOf, hver, hop, hne]

/-- The write of `CheckAliasInputs`, seen on the histories. -/
theorem history_writeAlias {a : AliasState} {op : Op} {vvchArgs : List Bytes} {prevOutput : COutPoint}
    (hne : pindex.nHeight ≠ pindexBest.nHeight) :
    (writeAlias env pindexBest pindex tx op vvchArgs prevOutput a).history = Function.update a.history
      (arg vvchArgs 0)
      (putToAliasList (a.history (arg vvchArgs 0)) (aliasEntry env pindex.nHeight tx op vvchArgs prevOutput)) := by
  rw [writeAlias, if_pos hne]
  funext vch
  by_cases hv : vch = arg vvchArgs 0
  · subst hv
    simp [AliasState.history, connectAlias]
  · simp [AliasState.history, connectAlias, Function.update_of_ne hv]

/-- **One transaction** that keeps to `AliasSite` does to the histories what its replay does. -/
theorem SpendStep.history_eq (hstep : SpendStep env pindexBest pindex tx v s s') (hcb : tx.isCoinBase = false)
    (hsite : AliasSite env ⟨pindexBest, pindex, tx, v, s⟩) :
    s'.aliasdb.history = replayAlias env pindex.nHeight tx v s.aliasdb.history := by
  unfold replayAlias
  rw [if_neg (by simp [hcb])]
  rcases hstep.aliasStep with ⟨hnone, heq⟩ | hstep
  · rw [heq]
    simp [aliasWriteOf, hnone]
  · generalize s'.aliasdb = a' at hstep
    cases hstep with
    | plain hver hprev => simp [aliasWriteOf, hver]
    | new hver hop hprev => simp [aliasWriteOf, hver, hop]
    | activate hver hop hprev _ _ =>
      have hw := aliasWriteOf_eq hver hop (by simp)
      rw [hw, hprev, history_writeAlias ((hsite _ hw).1 hcb)]
    | update hver hop hprev _ _ =>
      have hw := aliasWriteOf_eq hver hop (by simp)
      rw [hw, hprev, history_writeAlias ((hsite _ hw).1 hcb)]

theorem replayAlias_congr {nHeight : Nat} {names : AliasNames} (h : v.Equiv w) (hin : tx.haveInputs v) :
    replayAlias env nHeight tx v names = replayAlias env nHeight tx w names := by
  unfold replayAlias
  by_cases hcb : tx.isCoinBase = true
  · rw [if_pos hcb, if_pos hcb]
  · rw [findPrev_congr fun txin hmem => haveInputs_getCoins h hin (by simpa using hcb) hmem]

theorem replayAlias_coinbase {nHeight : Nat} {names : AliasNames} (hcb : tx.isCoinBase = true) :
    replayAlias env nHeight tx v names = names := if_pos hcb

/-- **A block**: from equivalent coins and equal histories, the loop and the replay end in equal histories, and
    every write met a history without its hash. -/
theorem TxSteps.history_eq {acc acc' : ConnectAcc}
    (h : TxSteps env (AliasSite env) pindexBest pindex acc txs s acc' s') (hequiv : acc.view.Equiv w) :
    s'.aliasdb.history = replayAliases env pindex.nHeight txs w s.aliasdb.history ∧
      FreshWrites env pindex.nHeight txs w s.aliasdb.history := by
  induction h generalizing w with
  | nil => exact ⟨rfl, trivial⟩
  | @cons acc acc₁ acc' tx txs s s₁ s' meets hd tl ih =>
    have hfresh : FreshWrite env tx s.aliasdb.history := fun write hw => (meets write hw).2
    have hstep : ∃ w' txundo, updateCoins env tx pindex.nHeight w = .ok (w', txundo) ∧ acc₁.view.Equiv w' ∧
        s₁.aliasdb.history = replayAlias env pindex.nHeight tx w s.aliasdb.history := by
      cases hd with
      | coinbase hcb hcoins _ _ =>
        obtain ⟨w', hw, hequiv'⟩ := updateCoins_congr hequiv hcoins
        exact ⟨w', _, hw, hequiv', (replayAlias_coinbase hcb).symm⟩
      | spend hcb hin hstep hcoins _ _ =>
        obtain ⟨w', hw, hequiv'⟩ := updateCoins_congr hequiv hcoins
        refine ⟨w', _, hw, hequiv', ?_⟩
        rw [hstep.history_eq hcb meets, replayAlias_congr hequiv hin]
    obtain ⟨w', txundo, hw, hequiv', hnames⟩ := hstep
    obtain ⟨htl, hfresh'⟩ := ih hequiv'
    rw [hnames] at htl hfresh'
    refine ⟨?_, hfresh, ?_⟩
    · rw [replayAliases, hw]
      exact htl
    · intro view' txundo' hw'
      rw [hw, Except.ok.injEq, Prod.mk.injEq] at hw'
      exact hw'.1 ▸ hfresh'

end Connect

/-! ## Disconnecting goes back to the parent -/

/-- The histories after a transaction is undone. -/
def undoAlias (env : Env) (tx : CTransaction) (names : AliasNames) : AliasNames :=
  match aliasWriteOf tx with
  | none => names
  | some (_, vvchArgs) => Function.update names (arg vvchArgs 0) (popAlias env tx (names (arg vvchArgs 0)))

/-- A transaction that writes no alias is undone without a trace in the services. -/
theorem disconnectService_none {env : Env} {pindex : CBlockIndex} {tx : CTransaction} {s : Store}
    (h : aliasWriteOf tx = none) : disconnectService env pindex tx s = s := by
  rw [disconnectService_eq]
  unfold aliasWriteOf at h
  split
  · rename_i hver
    rw [if_pos hver] at h
    cases hop : decodeAliasTx tx with
    | none => rfl
    | some r =>
      obtain ⟨op, nOut, vvchArgs⟩ := r
      rw [hop] at h
      have hnew : op = .aliasNew := by
        by_contra hne
        simp [hne] at h
      simp [hnew, disconnectAlias, Proc.update]
  · rfl

/-- An activation or update is undone by the alias routine. -/
theorem disconnectService_some (env : Env) (pindex : CBlockIndex) (s : Store) {tx : CTransaction} {op : Op}
    {vvchArgs : List Bytes} (h : aliasWriteOf tx = some (op, vvchArgs)) :
    op ≠ .aliasNew ∧ disconnectService env pindex tx s = (disconnectAlias env pindex tx op vvchArgs s).2 := by
  rw [disconnectService_eq]
  unfold aliasWriteOf at h
  split at h
  · rename_i hver
    rw [if_pos hver]
    cases hop : decodeAliasTx tx with
    | none => simp [hop] at h
    | some r =>
      obtain ⟨op', nOut, vvchArgs'⟩ := r
      simp only [hop] at h
      split at h
      · cases h
      · rename_i hne
        simp only [Option.some.injEq, Prod.mk.injEq] at h
        obtain ⟨rfl, rfl⟩ := h
        exact ⟨hne, rfl⟩
  · cases h

/-- A history while a block of height `nHeight` is under way: what was there before, with at most one entry after it. -/
def BlockForm (nHeight : Nat) (base names : AliasNames) : Prop :=
  ∀ vch, names vch = base vch ∨ ∃ e : CAliasIndex, names vch = base vch ++ [e] ∧ e.nHeight = nHeight

section Disconnect

variable {env : Env} {nHeight : Nat} {tx : CTransaction} {txs : List CTransaction} {view : CoinsView}
  {base names : AliasNames}

/-- A write appends to the history from below the block, or replaces the entry after it. -/
theorem putToAliasList_blockForm {vch : Bytes} {index : CAliasIndex} (hh : nHeight ≠ 0)
    (hbase : ∀ e ∈ base vch, e.nHeight < nHeight) (hform : BlockForm nHeight base names)
    (hindex : index.nHeight = nHeight) (hfresh : ∀ e ∈ names vch, e.txHash ≠ index.txHash) :
    putToAliasList (names vch) index = base vch ++ [index] := by
  rcases hform vch with heq | ⟨e, heq, he⟩
  · rw [heq] at hfresh ⊢
    refine upsertLast_of_none fun e he => ?_
    have hlt := hbase e he
    simp only [decide_eq_false_iff_not, not_or, not_and]
    exact ⟨fun _ => by omega, fun _ => hfresh e he⟩
  · rw [heq]
    exact upsertLast_concat (by simp [he, hindex, hh])

theorem replayAlias_blockForm (hh : nHeight ≠ 0) (hbase : ∀ vch, ∀ e ∈ base vch, e.nHeight < nHeight)
    (hform : BlockForm nHeight base names) (hfresh : FreshWrite env tx names) :
    BlockForm nHeight base (replayAlias env nHeight tx view names) := by
  obtain heq | ⟨op, vvchArgs, prevOutput, hw, heq⟩ := replayAlias_cases env nHeight tx view names
  · rw [heq]; exact hform
  · rw [heq]
    intro vch
    by_cases hv : vch = arg vvchArgs 0
    · subst hv
      rw [Function.update_self, putToAliasList_blockForm hh (hbase _) hform rfl (hfresh _ hw)]
      exact .inr ⟨_, rfl, rfl⟩
    · rw [Function.update_of_ne hv]
      exact hform vch

theorem popAlias_of_fresh {vtxPos : List CAliasIndex} (h : ∀ e ∈ vtxPos, e.txHash ≠ env.getHash tx) :
    popAlias env tx vtxPos = vtxPos := by
  unfold popAlias
  split
  · rfl
  · rename_i last hlast
    exact if_neg (h last (List.mem_of_getLast? hlast))

theorem popAlias_concat {vtxPos : List CAliasIndex} {e : CAliasIndex} (h : e.txHash = env.getHash tx) :
    popAlias env tx (vtxPos ++ [e]) = vtxPos := by
  simp [popAlias, h]

/-- **One transaction undone**, on histories that are those after it or already those from below the block. -/
theorem undoAlias_replayAlias (hh : nHeight ≠ 0) (hbase : ∀ vch, ∀ e ∈ base vch, e.nHeight < nHeight)
    (hform : BlockForm nHeight base names) (hfresh : FreshWrite env tx names) {names' : AliasNames}
    (h : ∀ vch, names' vch = replayAlias env nHeight tx view names vch ∨ names' vch = base vch) :
    ∀ vch, undoAlias env tx names' vch = names vch ∨ undoAlias env tx names' vch = base vch := by
  have hsub : ∀ vch, ∀ e ∈ base vch, e ∈ names vch := by
    intro vch e he
    rcases hform vch with heq | ⟨e', heq, -⟩
    · rw [heq]; exact he
    · rw [heq]; exact List.mem_append_left _ he
  unfold undoAlias
  cases hw : aliasWriteOf tx with
  | none =>
    obtain heq | ⟨_, _, _, hw', -⟩ := replayAlias_cases env nHeight tx view names
    · rw [heq] at h; exact h
    · rw [hw] at hw'; cases hw'
  | some wr =>
    obtain ⟨op, vvchArgs⟩ := wr
    have hnew := hfresh _ hw
    have hpop : popAlias env tx (base (arg vvchArgs 0)) = base (arg vvchArgs 0) :=
      popAlias_of_fresh fun e he => hnew e (hsub _ e he)
    intro vch
    simp only
    by_cases hv : vch = arg vvchArgs 0
    · subst hv
      rw [Function.update_self]
      rcases h (arg vvchArgs 0) with hn | hn
      · obtain heq | ⟨op', vvchArgs', prevOutput, hw', heq⟩ := replayAlias_cases env nHeight tx view names
        · rw [hn, heq, popAlias_of_fresh hnew]
          exact .inl rfl
        · -- the entry of the transaction is the last one, and popping it uncovers the history from below
          rw [hw, Option.some.injEq, Prod.mk.injEq] at hw'
          obtain ⟨rfl, rfl⟩ := hw'
          rw [hn, heq, Function.update_self, putToAliasList_blockForm hh (hbase _) hform rfl hnew,
            popAlias_concat rfl]
          exact .inr rfl
      · rw [hn, hpop]
        exact .inr rfl
    · rw [Function.update_of_ne hv]
      obtain heq | ⟨op', vvchArgs', prevOutput, hw', heq⟩ := replayAlias_cases env nHeight tx view names
      · rw [heq] at h; exact h vch
      · rw [hw, Option.some.injEq, Prod.mk.injEq] at hw'
        obtain ⟨rfl, rfl⟩ := hw'
        have hvch := h vch
        rw [heq, Function.update_of_ne hv] at hvch
        exact hvch

/-- **A block undone**: last transaction first, the histories go back to those from below it. -/
theorem foldl_undoAlias (hh : nHeight ≠ 0) (hbase : ∀ vch, ∀ e ∈ base vch, e.nHeight < nHeight)
    (hform : BlockForm nHeight base names) (hfresh : FreshWrites env nHeight txs view names) {v' : CoinsView}
    {blockundo : CBlockUndo} (hcoins : blockCoins env nHeight txs view = .ok (v', blockundo)) :
    ∀ vch, txs.reverse.foldl (fun names tx => undoAlias env tx names) (replayAliases env nHeight txs view names) vch
        = names vch ∨
      txs.reverse.foldl (fun names tx => undoAlias env tx names) (replayAliases env nHeight txs view names) vch
        = base vch := by
  induction txs generalizing view names blockundo with
  | nil => exact fun vch => .inl rfl
  | cons tx txs ih =>
    obtain ⟨v₁, txundo, rest, htx, hrest, -⟩ := blockCoins_cons hcoins
    obtain ⟨hhead, htail⟩ := hfresh
    have hlater := ih (replayAlias_blockForm hh hbase hform hhead) (htail v₁ txundo htx) hrest
    simp only [List.reverse_cons, List.foldl_append, List.foldl_cons, List.foldl_nil, replayAliases, htx]
    exact undoAlias_replayAlias hh hbase hform hhead hlater

/-- The service undo of a transaction that is indexed, seen on the histories. -/
theorem disconnectService_undoAlias {pindex : CBlockIndex} {s : Store} (hidx : s.txIndex (env.getHash tx) = true) :
    (disconnectService env pindex tx s).aliasdb.history = undoAlias env tx s.aliasdb.history := by
  rw [disconnectService_eq]
  unfold undoAlias aliasWriteOf
  by_cases hver : tx.nVersion = SYSCOIN_TX_VERSION
  · rw [if_pos hver, if_pos hver]
    cases hop : decodeAliasTx tx with
    | none => rfl
    | some r =>
      obtain ⟨op, nOut, vvchArgs⟩ := r
      by_cases hne : op = .aliasNew
      · simp [hne, disconnectAlias, Proc.update]
      · simp only [hne, if_false]
        cases hnames : s.aliasdb.names (arg vvchArgs 0) with
        | none =>
          have hnil : s.aliasdb.history (arg vvchArgs 0) = [] := by simp [AliasState.history, hnames]
          have hpop : popAlias env tx [] = [] := rfl
          rw [hnil, hpop, ← hnil, Function.update_eq_self]
          simp [disconnectAlias, Proc.update, hne, hnames]
        | some vtxPos =>
          funext vch
          by_cases hv : vch = arg vvchArgs 0
          · subst hv
            simp [disconnectAlias, Proc.update, hne, hnames, require, hidx, bind, Except.bind, AliasState.history]
          · simp [disconnectAlias, Proc.update, hne, hnames, require, hidx, bind, Except.bind, AliasState.history,
              Function.update_of_ne hv]
  · rw [if_neg hver, if_neg hver]

theorem foldl_disconnectService {pindex : CBlockIndex} {steps : List (CTransaction × Option CTxUndo)} {s : Store}
    (hidx : ∀ step ∈ steps, s.txIndex (env.getHash step.1) = true) :
    (steps.foldl (fun s step => disconnectService env pindex step.1 s) s).aliasdb.history =
      (steps.map (·.1)).foldl (fun names tx => undoAlias env tx names) s.aliasdb.history := by
  induction steps generalizing s with
  | nil => rfl
  | cons step steps ih =>
    obtain ⟨hhead, htail⟩ := List.forall_mem_cons.mp hidx
    have hframe := (disconnectService_frame env pindex step.1 s).2.2.2.1
    rw [List.foldl_cons, ih (by rw [hframe]; exact htail), disconnectService_undoAlias hhead, List.map_cons,
      List.foldl_cons]

end Disconnect

/-! ## The invariant of a run -/

/-- The histories are those of the chain the view belongs to. For every block with undo data, its transactions are
    indexed, and their hashes were new to the histories of its parent. -/
structure AliasInv (env : Env) (view : CoinsCache) (s : Store) : Prop where
  coins : CoinsInv env view
  undo : UndoInv env s
  names : ∀ pindex, view.best = some pindex → s.aliasdb.history = chainNames env pindex.chain
  indexed : ∀ pindex blockundo, s.undo pindex = some blockundo →
    ∀ tx ∈ pindex.block.vtx, s.txIndex (env.getHash tx) = true
  fresh : ∀ pindex parent blockundo, s.undo pindex = some blockundo → pindex.pprev = some parent →
    FreshWrites env pindex.nHeight pindex.block.vtx (chainCoins env parent.chain) (chainNames env parent.chain)

section Invariant

variable {env : Env} {pindexBest pindex : CBlockIndex} {view view' : CoinsCache} {s s' : Store}

/-- Undo data that is stored after a block was connected was stored before or is the block's own. -/
theorem writeBlock_undo {blockundo : CBlockUndo} {pindex' : CBlockIndex} {undo' : CBlockUndo}
    (h : (writeBlock env pindex blockundo s).undo pindex' = some undo') :
    s.undo pindex' = some undo' ∨ (pindex' = pindex ∧ undo' = blockundo) := by
  simp only [writeBlock] at h
  split at h
  · exact .inl h
  · by_cases heq : pindex' = pindex
    · rw [heq, Function.update_self, Option.some.injEq] at h
      exact .inr ⟨heq, h.symm⟩
    · rw [Function.update_of_ne heq] at h
      exact .inl h

theorem AliasInv.connect (htx : env.fTxIndex = true) {nNow : Nat} (hinv : AliasInv env view s)
    (hsites : ∀ site ∈ blockSites env pindexBest pindex nNow view s, AliasSite env site)
    (h : connectBlock env false pindexBest pindex nNow view s = (.ok view', s')) : AliasInv env view' s' := by
  obtain ⟨hcoins', hundo'⟩ := connectBlock_coins hinv.coins hinv.undo h
  obtain ⟨parent, hbest, -, hequiv⟩ := hinv.coins
  have hp : pindex.pprev = some parent := (connectBlock_best h).2.trans hbest
  have hnames := hinv.names parent hbest
  obtain ⟨-, hcases⟩ := connectBlock_ok h hsites
  rcases hcases with ⟨hgen, rfl, rfl⟩ | ⟨hreg, acc, s₁, hsteps, rfl, rfl⟩
  · refine ⟨hcoins', hundo', ?_, hinv.indexed, hinv.fresh⟩
    rintro pindex' ⟨rfl⟩
    rw [hnames, chainNames_of_genesis hp hgen]
  · obtain ⟨hhist, hfresh⟩ := hsteps.history_eq hequiv
    rw [hnames] at hhist hfresh
    refine ⟨hcoins', hundo', ?_, ?_, ?_⟩
    · rintro pindex' ⟨rfl⟩
      rw [chainNames_of_pprev hp hreg]
      exact hhist
    · intro pindex' undo' hstored tx hmem
      simp only [writeBlock, htx, if_true, Bool.or_eq_true, List.any_eq_true, decide_eq_true_eq]
      rcases writeBlock_undo hstored with hold | ⟨rfl, -⟩
      · rw [hsteps.undo_eq] at hold
        rw [hsteps.txIndex_eq]
        exact .inl (hinv.indexed pindex' undo' hold tx hmem)
      · exact .inr ⟨tx, hmem, rfl⟩
    · intro pindex' parent' undo' hstored hp'
      rcases writeBlock_undo hstored with hold | ⟨rfl, -⟩
      · rw [hsteps.undo_eq] at hold
        exact hinv.fresh pindex' parent' undo' hold hp'
      · rw [hp, Option.some.injEq] at hp'
        exact hp' ▸ hfresh

theorem AliasInv.disconnect (hinv : AliasInv env view s)
    (h : disconnectBlock env pindex view s = (.ok view', s')) : AliasInv env view' s' := by
  obtain ⟨hcoins', hundo'⟩ := disconnectBlock_coins hinv.coins hinv.undo h
  obtain ⟨blockUndo, hstored, hlen, hbest, hbest', hs', -⟩ := disconnectBlock_ok h
  obtain ⟨-, -, hframe, hidx, -⟩ := disconnectServices_frame env pindex (disconnectSteps pindex blockUndo) s
  obtain ⟨parent, hp, hundoes⟩ := hinv.undo pindex blockUndo hstored
  have htxs : (disconnectSteps pindex blockUndo).map (·.1) = pindex.block.vtx.reverse := by
    rw [disconnectSteps, List.map_reverse, List.map_fst_zip (by simp [hlen])]
  have hindexed : ∀ step ∈ disconnectSteps pindex blockUndo, s.txIndex (env.getHash step.1) = true := by
    intro step hstep
    have hmem : step.1 ∈ pindex.block.vtx := by
      rw [← List.mem_reverse, ← htxs]
      exact List.mem_map_of_mem hstep
    exact hinv.indexed pindex blockUndo hstored step.1 hmem
  refine ⟨hcoins', hundo', ?_, ?_, ?_⟩
  · intro pindex' hbest₁
    rw [hbest', hp, Option.some.injEq] at hbest₁
    subst hbest₁
    have hheight : ∀ vch, ∀ e ∈ chainNames env parent.chain vch, e.nHeight < pindex.nHeight := by
      rw [CBlockIndex.nHeight_eq_succ_of_pprev hp]
      exact chainNames_height env parent.chain
    have hback := foldl_undoAlias (by rw [CBlockIndex.nHeight_eq_succ_of_pprev hp]; omega) hheight
      (fun vch => .inl rfl) (hinv.fresh pindex parent blockUndo hstored hp) hundoes.coins
    rw [hs', foldl_disconnectService hindexed, htxs, hinv.names pindex hbest, chainNames_of_pprev hp hundoes.regular]
    funext vch
    exact (hback vch).elim id id
  · rw [hs', hframe, hidx]
    exact hinv.indexed
  · rw [hs', hframe]
    exact hinv.fresh

theorem AliasInv.undoKeeps (env : Env) : UndoKeeps env (AliasInv env) where
  disconnect hinv h := hinv.disconnect h
  prune hinv := ⟨hinv.coins.prune, hinv.undo, hinv.names, hinv.indexed, hinv.fresh⟩
  pendings _ hinv := ⟨hinv.coins, hinv.undo, hinv.names, hinv.indexed, hinv.fresh⟩

theorem aliasInv_init (env : Env) (genesis : CBlock) :
    AliasInv env ⟨fun _ => none, some ⟨genesis, []⟩⟩ Store.init where
  coins := coinsInv_init genesis
  undo := undoInv_init
  names := by
    rintro pindex ⟨rfl⟩
    rfl
  indexed _ _ h := by cases h
  fresh _ _ _ h := by cases h

/-- **The alias index follows the main chain.** In a node that keeps a transaction index, after any run whose sites
    keep to `AliasSite`, every name has the history of the chain the node is on. -/
theorem alias_index_follows_chain {genesis : CBlock} {blocks : List CBlockIndex} {node : Node}
    (htx : env.fTxIndex = true) (run : Run env (AliasSite env) genesis blocks node) (vchName : Bytes) :
    node.store.aliasdb.history vchName = chainNames env node.pindexBest.chain vchName := by
  have hinv := (Run.rule (K := fun _ => True) (AliasInv.undoKeeps env) (aliasInv_init env genesis) run
    fun pindex _ _ _ _ _ _ _ hsites hinv hconn => ⟨hinv.connect htx hsites hconn, trivial⟩).1
  exact congrFun (hinv.names node.pindexBest rfl) vchName

end Invariant

namespace Cakenet

/-- A branch that leaves the chain of the name before its activation and activates the name at height twelve. -/
def forkBlock12 : CBlockIndex := mine (mine (mine aliasBlock9 110 []) 111 []) 12 [aliasActivateTx]

theorem run_fork : Run env (AliasSite env) genesis
    (connectedBy (Node.init genesis) aliasBlock11 ++ connectedBy (nodeAt aliasBlock11) forkBlock12)
    (nodeThen (nodeAt aliasBlock11) forkBlock12) :=
  run_nodeThen (run_nodeAt (by decide +kernel) (by decide +kernel)) (by decide +kernel) (by decide +kernel)

theorem alias_index_after_fork :
    (chainNames env (nodeThen (nodeAt aliasBlock11) forkBlock12).pindexBest.chain vchName).length = 1 ∧
      (nodeThen (nodeAt aliasBlock11) forkBlock12).store.aliasdb.history vchName =
        chainNames env (nodeThen (nodeAt aliasBlock11) forkBlock12).pindexBest.chain vchName :=
  ⟨by decide +kernel, alias_index_follows_chain (by rfl) run_fork vchName⟩

/-- A block ten without the activation. It is the best block when the branch with the activation, the update and
    height eleven takes over. -/
def altBlock10 : CBlockIndex := mine aliasBlock9 110 []

theorem activation_at_best_height_lost :
    ∃ blocks node, Run env (fun _ => True) genesis blocks node ∧
      node.store.aliasdb.history vchName ≠ chainNames env node.pindexBest.chain vchName :=
  ⟨_, nodeThen (nodeAt altBlock10) aliasBlock11,
    run_nodeThen (run_nodeAt (by decide +kernel) (fun _ _ => trivial)) (by decide +kernel) (fun _ _ => trivial),
    by decide +kernel⟩

end Cakenet

end Syscoin

import Syscoin.Wallet.Transactions

/-!
# `Correctness.WalletCaches` — the amounts that a wallet transaction remembers

The cached getters of a transaction in the wallet are compared with what they are computed from (`Coherent`). After
`MarkDirty` the debit, the credit, the available credit and the change are computed afresh, in any wallet. The debit with
names is not: its flag stays, and it is right only as long as what was computed first is still so. What it depends on is
which inputs spend something of the wallet (`inputIsMineInclName`), and a parent that arrives late changes that, as a key
does that is added. In a run that changes it for no transaction whose flag is set, every getter is coherent in every state
(`coherent_of_run`); in `lateParent` a child is asked for its debit before its parent arrives.

The argument looks at a wallet through `names`: for each hash the transaction and the kept debit with names. Most
operations leave it as it is.
-/

namespace Syscoin

open Lib

namespace WalletState

variable (env : WalletEnv)

/-! ## Runs -/

/-- What happens to a wallet: additions of transactions and keys, markings, the getters with what they keep, and a chain
    that moves on. -/
inductive Event where
  | addToWallet (wtxIn : CWalletTx) (fWritten : Bool) (pool : List (Option PoolKey))
  | addKey (address : CKeyID) (fSigns : Bool)
  | markDirty
  | bindWallet (hash : Uint256)
  | markSpent (hash : Uint256) (nOut : Nat)
  | updateSpent (hash : Uint256) (vfNewSpent : List Bool)
  | getDebit (hash : Uint256)
  | getDebitInclName (hash : Uint256)
  | getCredit (hash : Uint256) (fUseCache : Bool)
  | getImmatureCredit (hash : Uint256) (fUseCache : Bool)
  | getAvailableCredit (hash : Uint256) (fUseCache : Bool)
  | getChange (hash : Uint256)
  | chain (getDepthInMainChain : CMerkleTx → Int) (isInMainChain : CMerkleTx → Bool)

/-- The wallet afterwards. A key that is added is followed by `CWallet::MarkDirty`; what throws changes nothing more. -/
def step (w : WalletState) : Event → WalletState
  | .addToWallet wtxIn fWritten pool => (w.addToWallet env wtxIn fWritten pool).2
  | .addKey address fSigns => ({ w with keystore := w.keystore.addKey address fSigns }).markDirty
  | .markDirty => w.markDirty
  | .bindWallet hash => w.modify hash (·.bindWallet)
  | .markSpent hash nOut => w.modify hash fun wtx => (wtx.markSpent nOut).toOption.getD wtx
  | .updateSpent hash vfNewSpent => w.modify hash (·.updateSpent vfNewSpent)
  | .getDebit hash => w.modify hash fun wtx => (wtx.getDebit env w).2
  | .getDebitInclName hash => w.modify hash fun wtx => (wtx.getDebitInclName env w).2
  | .getCredit hash fUseCache => w.modify hash fun wtx => (wtx.getCredit env w fUseCache).2
  | .getImmatureCredit hash fUseCache => w.modify hash fun wtx => (wtx.getImmatureCredit env w fUseCache).2
  | .getAvailableCredit hash fUseCache => w.modify hash fun wtx => (wtx.getAvailableCredit env w fUseCache).2
  | .getChange hash => w.modify hash fun wtx => (wtx.getChange env w).2
  | .chain getDepthInMainChain isInMainChain => { w with getDepthInMainChain, isInMainChain }

/-- Whether an input spends an output of the wallet, or a service output of it, that is worth something. -/
def spendsValue (w : WalletState) (txin : CTxIn) : Except String Bool :=
  match w.prevOut txin with
  | none => .ok false
  | some (prev, txout) =>
    (w.keystore.isMineInclName env.getID prev.toCTransaction txout).map fun fMine => fMine && decide (txout.nValue ≠ 0)

/-- What a step must not do: change whether an input of a transaction spends something of the wallet once the flag of the
    transaction is set, or bring in a transaction with the flag set. -/
def Harmless (w : WalletState) (e : Event) : Prop :=
  (∀ hash wtx, w.mapWallet.lookup hash = some wtx → wtx.debitInclNameCached.fCached = true →
    ∀ txin ∈ wtx.vin, (w.step env e).spendsValue env txin = w.spendsValue env txin) ∧
  ∀ wtxIn fWritten pool, e = .addToWallet wtxIn fWritten pool →
    w.mapWallet.lookup (env.getHash wtxIn.toCTransaction) = none → wtxIn.debitInclNameCached.fCached = false

/-- The states of runs whose steps are harmless. -/
inductive Run (w₀ : WalletState) : WalletState → Prop
  | start : Run w₀ w₀
  | step {w : WalletState} (h : Run w₀ w) (e : Event) (hharmless : Harmless env w e) : Run w₀ (w.step env e)

/-- Each getter of a transaction, called after `MarkDirty`, returns what it is computed from. -/
structure Coherent (w : WalletState) (wtx : CWalletTx) : Prop where
  debit : (wtx.markDirty.getDebit env w).1 = w.getDebit env wtx.toCTransaction
  debitInclName : (wtx.markDirty.getDebitInclName env w).1 = w.getDebitInclName env wtx.toCTransaction
  credit : ∀ fUseCache, (wtx.markDirty.getCredit env w fUseCache).1 =
    if w.immature env wtx.toCMerkleTx then .ok 0 else w.getCredit env wtx.toCTransaction
  availableCredit : ∀ fUseCache, (wtx.markDirty.getAvailableCredit env w fUseCache).1 =
    if w.immature env wtx.toCMerkleTx then .ok 0 else w.unspentCredit env wtx
  change : (wtx.markDirty.getChange env w).1 = w.getChange env wtx.toCTransaction

/-! ## The getters after `MarkDirty` -/

section

variable {env} {w : WalletState} {wtx : CWalletTx}

theorem getDebit_markDirty : (wtx.markDirty.getDebit env w).1 = w.getDebit env wtx.toCTransaction := by
  unfold CWalletTx.getDebit
  by_cases hvin : wtx.markDirty.vin = []
  · have hnone : wtx.vin = [] := hvin
    rw [if_pos hvin, getDebit, hnone, sumMoney]
  · rw [if_neg hvin]
    exact Cached.get_clear true _ _

theorem getCredit_markDirty (fUseCache : Bool) : (wtx.markDirty.getCredit env w fUseCache).1 =
    if w.immature env wtx.toCMerkleTx then .ok 0 else w.getCredit env wtx.toCTransaction := by
  unfold CWalletTx.getCredit
  by_cases himmature : w.immature env wtx.toCMerkleTx = true
  · rw [if_pos himmature]
    exact congrArg Prod.fst (if_pos himmature)
  · rw [if_neg himmature]
    refine (congrArg Prod.fst (if_neg himmature)).trans ?_
    exact Cached.get_clear fUseCache _ _

theorem getAvailableCredit_markDirty (fUseCache : Bool) : (wtx.markDirty.getAvailableCredit env w fUseCache).1 =
    if w.immature env wtx.toCMerkleTx then .ok 0 else w.unspentCredit env wtx := by
  unfold CWalletTx.getAvailableCredit
  by_cases himmature : w.immature env wtx.toCMerkleTx = true
  · rw [if_pos himmature]
    exact congrArg Prod.fst (if_pos himmature)
  · rw [if_neg himmature]
    refine (congrArg Prod.fst (if_neg himmature)).trans ?_
    exact Cached.get_clear fUseCache _ _

theorem getChange_markDirty : (wtx.markDirty.getChange env w).1 = w.getChange env wtx.toCTransaction :=
  Cached.get_clear true _ _

/-- **The debit with names after `MarkDirty`**: it is right just when there are no inputs, or what is kept is right. -/
theorem getDebitInclName_markDirty_iff :
    (wtx.markDirty.getDebitInclName env w).1 = w.getDebitInclName env wtx.toCTransaction ↔
      wtx.vin = [] ∨ wtx.debitInclNameCached.Agrees (w.getDebitInclName env wtx.toCTransaction) := by
  unfold CWalletTx.getDebitInclName
  by_cases hvin : wtx.markDirty.vin = []
  · have hnone : wtx.vin = [] := hvin
    rw [if_pos hvin, getDebitInclName, hnone, sumMoney]
    exact ⟨fun _ => .inl rfl, fun _ => rfl⟩
  · rw [if_neg hvin]
    exact Cached.get_eq_iff.trans ⟨.inr, fun h => h.resolve_left hvin⟩

theorem coherent_of_agrees (h : wtx.debitInclNameCached.Agrees (w.getDebitInclName env wtx.toCTransaction)) :
    Coherent env w wtx where
  debit := getDebit_markDirty
  debitInclName := getDebitInclName_markDirty_iff.mpr (.inr h)
  credit := getCredit_markDirty
  availableCredit := getAvailableCredit_markDirty
  change := getChange_markDirty

/-! ## What the debit with names depends on -/

/-- The transaction of a hash. -/
def txOf (w : WalletState) (hash : Uint256) : Option CTransaction := (w.mapWallet.lookup hash).map (·.toCTransaction)

/-- The transaction of a hash, with what is kept of its debit with names. -/
def names (w : WalletState) (hash : Uint256) : Option (CTransaction × Cached Int) :=
  (w.mapWallet.lookup hash).map fun wtx => (wtx.toCTransaction, wtx.debitInclNameCached)

theorem names_map_fst (w : WalletState) (hash : Uint256) : (w.names hash).map Prod.fst = w.txOf hash := by
  rw [names, Option.map_map]
  rfl

theorem prevOut_map (w : WalletState) (txin : CTxIn) :
    (w.prevOut txin).map (fun prev => (prev.1.toCTransaction, prev.2)) =
      (w.txOf txin.prevout.hash).bind fun tx => tx.vout[txin.prevout.n]?.map (tx, ·) := by
  unfold prevOut txOf
  cases w.mapWallet.lookup txin.prevout.hash with
  | none => rfl
  | some prev =>
    show (prev.vout[txin.prevout.n]?.map (prev, ·)).map _ = prev.vout[txin.prevout.n]?.map (prev.toCTransaction, ·)
    rw [Option.map_map]
    rfl

variable {w' : WalletState}

theorem prevOut_congr {txin : CTxIn} (htx : w'.txOf txin.prevout.hash = w.txOf txin.prevout.hash) :
    (w'.prevOut txin).map (fun prev => (prev.1.toCTransaction, prev.2)) =
      (w.prevOut txin).map fun prev => (prev.1.toCTransaction, prev.2) := by
  rw [prevOut_map, prevOut_map, htx]

/-- What an input debits, from whether it spends something. -/
theorem inputDebitInclName_eq (w : WalletState) (txin : CTxIn) :
    w.inputDebitInclName env txin =
      (w.spendsValue env txin).map fun fSpends =>
        if fSpends then ((w.prevOut txin).map fun prev => prev.2.nValue).getD 0 else 0 := by
  unfold inputDebitInclName spendsValue
  cases w.prevOut txin with
  | none => rfl
  | some prev =>
    obtain ⟨prev, txout⟩ := prev
    dsimp only
    cases w.keystore.isMineInclName env.getID prev.toCTransaction txout with
    | error message => rfl
    | ok fMine =>
      cases fMine with
      | false => rfl
      | true =>
        by_cases hvalue : txout.nValue = 0
        · simp [Except.map, hvalue]
          rfl
        · simp [Except.map, hvalue]
          rfl

/-- An input debits what it did if its transaction, where there was one, is still the same and it spends something just
    when it did. -/
theorem inputDebitInclName_congr {txin : CTxIn}
    (htx : ∀ tx, w.txOf txin.prevout.hash = some tx → w'.txOf txin.prevout.hash = some tx)
    (hspends : w'.spendsValue env txin = w.spendsValue env txin) :
    w'.inputDebitInclName env txin = w.inputDebitInclName env txin := by
  rw [inputDebitInclName_eq, inputDebitInclName_eq, hspends]
  cases hprev : w.txOf txin.prevout.hash with
  | some tx =>
    have hvalue : (w'.prevOut txin).map (fun prev => prev.2.nValue) = (w.prevOut txin).map fun prev => prev.2.nValue := by
      have hsame := congrArg (Option.map fun prev => prev.2.nValue) (prevOut_congr ((htx tx hprev).trans hprev.symm))
      rwa [Option.map_map, Option.map_map] at hsame
    rw [hvalue]
  | none =>
    -- the output was not there, so that nothing was spent
    have hnone : w.prevOut txin = none := by
      have hmap := prevOut_map w txin
      rw [hprev] at hmap
      exact Option.map_eq_none_iff.mp hmap
    have hfalse : w.spendsValue env txin = .ok false := by rw [spendsValue, hnone]
    rw [hfalse]
    rfl

theorem sumMoney_congr {α : Type} {message : String} {f g : α → Except String Int} {l : List α} (h : ∀ a ∈ l, f a = g a)
    (nTotal : Int) : sumMoney message f nTotal l = sumMoney message g nTotal l := by
  induction l generalizing nTotal with
  | nil => rfl
  | cons a l ih =>
    obtain ⟨hhead, htail⟩ := List.forall_mem_cons.mp h
    unfold sumMoney
    rw [hhead]
    simp only [ih htail]

theorem getDebitInclName_congr {tx : CTransaction}
    (htx : ∀ hash prev, w.txOf hash = some prev → w'.txOf hash = some prev)
    (hspends : ∀ txin ∈ tx.vin, w'.spendsValue env txin = w.spendsValue env txin) :
    w'.getDebitInclName env tx = w.getDebitInclName env tx :=
  sumMoney_congr (fun txin hin => inputDebitInclName_congr (htx txin.prevout.hash) (hspends txin hin)) 0

/-- With the same keys and the same transactions an input spends something just when it did. -/
theorem spendsValue_congr (hkeys : w'.keystore = w.keystore) (htx : w'.txOf = w.txOf) (txin : CTxIn) :
    w'.spendsValue env txin = w.spendsValue env txin := by
  have hprev : (w'.prevOut txin).map _ = (w.prevOut txin).map _ := prevOut_congr (congrFun htx txin.prevout.hash)
  unfold spendsValue
  rw [hkeys]
  cases hw : w.prevOut txin with
  | none =>
    rw [hw] at hprev
    rw [Option.map_eq_none_iff.mp hprev]
  | some prev =>
    rw [hw] at hprev
    obtain ⟨prev', hw', heq⟩ := Option.map_eq_some_iff.mp hprev
    obtain ⟨hcoin, hout⟩ := Prod.mk.inj heq
    rw [hw']
    dsimp only
    rw [hcoin, hout]

/-! ## The invariant -/

/-- What is kept of the debit with names is right, throughout the wallet. -/
def Right (env : WalletEnv) (w : WalletState) : Prop :=
  ∀ hash n, w.names hash = some n → n.2.Agrees (w.getDebitInclName env n.1)

theorem txOf_eq_of_names (h : w'.names = w.names) : w'.txOf = w.txOf := by
  funext hash
  rw [← names_map_fst, ← names_map_fst, h]

theorem names_update {hash : Uint256} (wtx : CWalletTx) :
    ({ w with mapWallet := w.mapWallet.insert hash wtx } : WalletState).names =
      Function.update w.names hash (some (wtx.toCTransaction, wtx.debitInclNameCached)) := by
  funext other
  unfold names
  by_cases hother : other = hash
  · rw [hother, Function.update_self, AList.lookup_insert]
    rfl
  · rw [Function.update_of_ne hother, AList.lookup_insert_ne hother]

/-- Nothing that matters here is different. -/
def SameNames (wtx wtx' : CWalletTx) : Prop :=
  wtx'.toCTransaction = wtx.toCTransaction ∧ wtx'.debitInclNameCached = wtx.debitInclNameCached

theorem SameNames.trans {wtx₁ wtx₂ wtx₃ : CWalletTx} (h₁ : SameNames wtx₁ wtx₂) (h₂ : SameNames wtx₂ wtx₃) :
    SameNames wtx₁ wtx₃ :=
  ⟨h₂.1.trans h₁.1, h₂.2.trans h₁.2⟩

theorem names_replace {hash : Uint256} {wtx₀ : CWalletTx} (h₀ : w.mapWallet.lookup hash = some wtx₀)
    (hsame : SameNames wtx₀ wtx) :
    ({ w with mapWallet := w.mapWallet.insert hash wtx } : WalletState).names = w.names := by
  rw [names_update, hsame.1, hsame.2, Function.update_eq_self_iff, names, h₀]
  rfl

theorem names_markDirty : w.markDirty.names = w.names := by
  funext hash
  have hlookup : w.markDirty.mapWallet.lookup hash = (w.mapWallet.lookup hash).map (·.markDirty) := by
    show List.dlookup hash (w.mapWallet.entries.map fun item => (⟨item.1, item.2.markDirty⟩ : Sigma fun _ => CWalletTx)) =
      (List.dlookup hash w.mapWallet.entries).map (·.markDirty)
    induction w.mapWallet.entries with
    | nil => rfl
    | cons item entries ih =>
      obtain ⟨other, wtx⟩ := item
      rw [List.map_cons]
      by_cases hother : hash = other
      · rw [hother, List.dlookup_cons_eq, List.dlookup_cons_eq]
        rfl
      · rw [List.dlookup_cons_ne _ _ hother, List.dlookup_cons_ne _ _ hother, ih]
  rw [names, hlookup, Option.map_map]
  rfl

/-- A change to one transaction that leaves its inputs and outputs, and that leaves what is kept right if it was, leaves
    everything right. -/
theorem right_modify (h : Right env w) (hash : Uint256) {change : CWalletTx → CWalletTx}
    (htx : ∀ wtx, (change wtx).toCTransaction = wtx.toCTransaction)
    (hcell : ∀ wtx : CWalletTx, wtx.debitInclNameCached.Agrees (w.getDebitInclName env wtx.toCTransaction) →
      (change wtx).debitInclNameCached.Agrees (w.getDebitInclName env wtx.toCTransaction)) :
    Right env (w.modify hash change) := by
  unfold modify
  cases hwtx : w.mapWallet.lookup hash with
  | none => exact h
  | some wtx =>
    dsimp only
    set w' : WalletState := { w with mapWallet := w.mapWallet.insert hash (change wtx) } with hw'
    have hkeys : w'.keystore = w.keystore := rfl
    have hnames : w'.names = Function.update w.names hash (some (wtx.toCTransaction, (change wtx).debitInclNameCached)) := by
      rw [hw', names_update, htx]
    have htxs : w'.txOf = w.txOf := by
      funext other
      rw [← names_map_fst, ← names_map_fst, hnames]
      by_cases hother : other = hash
      · rw [hother, Function.update_self, names, hwtx]
        rfl
      · rw [Function.update_of_ne hother]
    have hdebit : ∀ tx, w'.getDebitInclName env tx = w.getDebitInclName env tx := fun tx =>
      getDebitInclName_congr (fun other prev hprev => by rw [htxs, hprev]) fun txin _ => spendsValue_congr hkeys htxs txin
    intro other n hn
    rw [hdebit]
    rw [hnames] at hn
    by_cases hother : other = hash
    · rw [hother, Function.update_self] at hn
      cases hn
      exact hcell wtx (h hash _ (by rw [names, hwtx]; rfl))
    · rw [Function.update_of_ne hother] at hn
      exact h other n hn

theorem right_modify_of_same (h : Right env w) (hash : Uint256) {change : CWalletTx → CWalletTx}
    (hsame : ∀ wtx, SameNames wtx (change wtx)) : Right env (w.modify hash change) :=
  right_modify h hash (fun wtx => (hsame wtx).1) fun wtx hwtx => (hsame wtx).2.symm ▸ hwtx

/-- A wallet that has grown: what it had is as it was, and what is new comes with a clear flag. -/
structure Grows (w w' : WalletState) : Prop where
  kept : ∀ hash n, w.names hash = some n → w'.names hash = some n
  fresh : ∀ hash n, w'.names hash = some n → w.names hash = none → n.2.fCached = false

theorem grows_of_names (h : w'.names = w.names) : Grows w w' where
  kept hash n hn := h ▸ hn
  fresh hash n hn hnone := by
    rw [h, hnone] at hn
    cases hn

/-- Growth leaves everything right, if what is kept does not depend on what is new. -/
theorem Grows.right (hgrows : Grows w w') (h : Right env w)
    (hspends : ∀ hash n, w.names hash = some n → n.2.fCached = true →
      ∀ txin ∈ n.1.vin, w'.spendsValue env txin = w.spendsValue env txin) : Right env w' := by
  have htx : ∀ hash prev, w.txOf hash = some prev → w'.txOf hash = some prev := by
    intro hash prev hprev
    rw [← names_map_fst] at hprev ⊢
    obtain ⟨n, hn, rfl⟩ := Option.map_eq_some_iff.mp hprev
    rw [hgrows.kept hash n hn]
    rfl
  intro hash n hn hset
  cases hold : w.names hash with
  | none => exact absurd (hgrows.fresh hash n hn hold) (by rw [hset]; exact Bool.noConfusion)
  | some n₀ =>
    have heq : n₀ = n := Option.some.inj ((hgrows.kept hash n₀ hold).symm.trans hn)
    subst heq
    rw [getDebitInclName_congr htx (hspends hash n₀ hold hset)]
    exact h hash n₀ hold hset

/-! ## `AddToWallet` -/

theorem sameNames_ite {P : Prop} [Decidable P] {α : Type} {a b : α × CWalletTx} (ha : SameNames wtx a.2)
    (hb : SameNames wtx b.2) : SameNames wtx (if P then a else b).2 := by
  by_cases hP : P
  · rw [if_pos hP]
    exact ha
  · rw [if_neg hP]
    exact hb

theorem sameNames_getDebit (wtx : CWalletTx) : SameNames wtx (wtx.getDebit env w).2 :=
  sameNames_ite ⟨rfl, rfl⟩ ⟨rfl, rfl⟩

theorem sameNames_getCredit (wtx : CWalletTx) (fUseCache : Bool) : SameNames wtx (wtx.getCredit env w fUseCache).2 :=
  sameNames_ite ⟨rfl, rfl⟩ ⟨rfl, rfl⟩

theorem sameNames_getImmatureCredit (wtx : CWalletTx) (fUseCache : Bool) :
    SameNames wtx (wtx.getImmatureCredit env w fUseCache).2 :=
  sameNames_ite ⟨rfl, rfl⟩ ⟨rfl, rfl⟩

theorem sameNames_getAvailableCredit (wtx : CWalletTx) (fUseCache : Bool) :
    SameNames wtx (wtx.getAvailableCredit env w fUseCache).2 :=
  sameNames_ite ⟨rfl, rfl⟩ ⟨rfl, rfl⟩

/-- The getter of the debit with names changes what is kept of it, and nothing else. -/
theorem getDebitInclName_tx (wtx : CWalletTx) :
    (wtx.getDebitInclName env w).2.toCTransaction = wtx.toCTransaction := by
  unfold CWalletTx.getDebitInclName
  split_ifs <;> rfl

theorem markSpent_eq_ok {nOut : Nat} {wtx' : CWalletTx} (h : wtx.markSpent nOut = .ok wtx') :
    SameNames wtx wtx' := by
  unfold CWalletTx.markSpent at h
  by_cases hrange : wtx.vout.length ≤ nOut
  · rw [if_pos hrange] at h
    cases h
  · rw [if_neg hrange] at h
    by_cases hspent : wtx.resized.getD nOut false = true
    · rw [if_pos hspent] at h
      cases h
      exact ⟨rfl, rfl⟩
    · rw [if_neg hspent] at h
      cases h
      exact ⟨rfl, rfl⟩

theorem sameNames_markSpent (nOut : Nat) (wtx : CWalletTx) : SameNames wtx ((wtx.markSpent nOut).toOption.getD wtx) := by
  cases hspent : wtx.markSpent nOut with
  | error message => exact ⟨rfl, rfl⟩
  | ok wtx' => exact markSpent_eq_ok hspent

theorem names_walletUpdateSpent (vin : List CTxIn) (w : WalletState) :
    (walletUpdateSpent env vin w).2.names = w.names := by
  induction vin generalizing w with
  | nil => rfl
  | cons txin vin ih =>
    unfold walletUpdateSpent
    cases hwtx : w.mapWallet.lookup txin.prevout.hash with
    | none => exact ih w
    | some wtx =>
      dsimp only
      cases wtx.vout[txin.prevout.n]? with
      | none => exact ih w
      | some txout =>
        dsimp only
        by_cases hmark : wtx.vfSpent.getD txin.prevout.n false = false ∧ w.isMine env txout = true
        · rw [if_pos hmark]
          have hsame : SameNames wtx (wtx.getCredit env w true).2 := sameNames_getCredit wtx true
          obtain ⟨nCredit, wtx₁, hcredit⟩ : ∃ nCredit wtx₁, wtx.getCredit env w true = (nCredit, wtx₁) := ⟨_, _, rfl⟩
          rw [hcredit] at hsame ⊢
          cases nCredit with
          | error message => exact names_replace hwtx hsame
          | ok nCredit =>
            dsimp only
            cases hspent : wtx₁.markSpent txin.prevout.n with
            | error message => exact names_replace hwtx hsame
            | ok wtx₂ => exact (ih _).trans (names_replace hwtx (hsame.trans (markSpent_eq_ok hspent)))
        · rw [if_neg hmark]
          exact ih w

theorem names_replaceDefaultKey (script : CScript) (vout : List CTxOut) (pool : List (Option PoolKey))
    (w : WalletState) : (replaceDefaultKey env script vout pool w).names = w.names := by
  induction vout generalizing pool w with
  | nil => rfl
  | cons txout vout ih =>
    unfold replaceDefaultKey
    by_cases hscript : txout.scriptPubKey = script
    · rw [if_pos hscript]
      match pool with
      | [] => exact ih [] w
      | none :: pool => exact ih pool w
      | some taken :: pool => exact ih pool _
    · rw [if_neg hscript]
      exact ih pool w

theorem sameNames_merge (wtxIn : CWalletTx) : SameNames wtx (wtx.merge wtxIn).1 := by
  unfold CWalletTx.merge
  dsimp only
  split_ifs <;> exact ⟨rfl, rfl⟩

/-- **`AddToWallet`** puts a transaction under its hash, unless there is one already; what comes after that changes
    nothing here. -/
theorem names_addToWallet (w : WalletState) (wtxIn : CWalletTx) (fWritten : Bool) (pool : List (Option PoolKey)) :
    (w.addToWallet env wtxIn fWritten pool).2.names =
      Function.update w.names (env.getHash wtxIn.toCTransaction)
        (some ((w.names (env.getHash wtxIn.toCTransaction)).getD (wtxIn.toCTransaction, wtxIn.debitInclNameCached))) := by
  obtain ⟨wtx, fChanged, hput⟩ : ∃ wtx fChanged, w.insertOrMerge env wtxIn = (wtx, fChanged) := ⟨_, _, rfl⟩
  have hrest : (w.addToWallet env wtxIn fWritten pool).2.names =
      ({ w with mapWallet := w.mapWallet.insert (env.getHash wtxIn.toCTransaction) wtx } : WalletState).names := by
    unfold addToWallet
    rw [hput]
    dsimp only
    by_cases hdisk : (fChanged && !fWritten) = true
    · rw [if_pos hdisk]
    · rw [if_neg hdisk, names_walletUpdateSpent]
      cases ({ w with mapWallet := w.mapWallet.insert (env.getHash wtxIn.toCTransaction) wtx } :
          WalletState).scriptDefaultKey env with
      | none => rfl
      | some script => exact names_replaceDefaultKey script _ pool _
  rw [hrest, names_update]
  refine congrArg (fun n => Function.update w.names _ (some n)) ?_
  unfold insertOrMerge at hput
  cases hold : w.mapWallet.lookup (env.getHash wtxIn.toCTransaction) with
  | some wtx₀ =>
    rw [hold] at hput
    have hmerge : SameNames wtx₀.bindWallet (wtx₀.bindWallet.merge wtxIn).1 := sameNames_merge wtxIn
    rw [show wtx₀.bindWallet.merge wtxIn = (wtx, fChanged) from hput] at hmerge
    rw [hmerge.1, hmerge.2, names, hold]
    rfl
  | none =>
    rw [hold] at hput
    cases hput
    rw [names, hold]
    rfl

theorem grows_addToWallet (wtxIn : CWalletTx) (fWritten : Bool) (pool : List (Option PoolKey))
    (hclear : w.mapWallet.lookup (env.getHash wtxIn.toCTransaction) = none →
      wtxIn.debitInclNameCached.fCached = false) :
    Grows w (w.addToWallet env wtxIn fWritten pool).2 := by
  constructor
  · intro hash n hn
    rw [names_addToWallet]
    by_cases hhash : hash = env.getHash wtxIn.toCTransaction
    · rw [← hhash, hn, Function.update_self]
      rfl
    · rw [Function.update_of_ne hhash, hn]
  · intro hash n hn hnone
    rw [names_addToWallet] at hn
    by_cases hhash : hash = env.getHash wtxIn.toCTransaction
    · rw [← hhash, hnone, Function.update_self] at hn
      cases hn
      exact hclear (hhash ▸ Option.map_eq_none_iff.mp hnone)
    · rw [Function.update_of_ne hhash, hnone] at hn
      cases hn

/-! ## Steps and runs -/

/-- **A harmless step leaves everything right.** -/
theorem right_step (h : Right env w) {e : Event} (hharmless : Harmless env w e) : Right env (w.step env e) := by
  have hspends : ∀ hash n, w.names hash = some n → n.2.fCached = true →
      ∀ txin ∈ n.1.vin, (w.step env e).spendsValue env txin = w.spendsValue env txin := by
    intro hash n hn hset
    obtain ⟨wtx, hwtx, rfl⟩ := Option.map_eq_some_iff.mp hn
    exact hharmless.1 hash wtx hwtx hset
  cases e with
  | addToWallet wtxIn fWritten pool =>
    exact (grows_addToWallet wtxIn fWritten pool (hharmless.2 wtxIn fWritten pool rfl)).right h hspends
  | addKey address fSigns =>
    have hnames : (w.step env (.addKey address fSigns)).names = w.names := names_markDirty
    exact (grows_of_names hnames).right h hspends
  | markDirty => exact (grows_of_names names_markDirty).right h hspends
  | chain getDepthInMainChain isInMainChain => exact (grows_of_names rfl).right h hspends
  | bindWallet hash => exact right_modify_of_same h hash fun _ => ⟨rfl, rfl⟩
  | updateSpent hash vfNewSpent => exact right_modify_of_same h hash fun _ => ⟨rfl, rfl⟩
  | markSpent hash nOut =>
    exact right_modify_of_same h hash (sameNames_markSpent nOut)
  | getDebit hash => exact right_modify_of_same h hash sameNames_getDebit
  | getDebitInclName hash =>
    refine right_modify h hash getDebitInclName_tx fun wtx hwtx => ?_
    unfold CWalletTx.getDebitInclName
    split_ifs
    · exact hwtx
    · exact hwtx.get true
  | getCredit hash fUseCache => exact right_modify_of_same h hash fun wtx => sameNames_getCredit wtx fUseCache
  | getImmatureCredit hash fUseCache =>
    exact right_modify_of_same h hash fun wtx => sameNames_getImmatureCredit wtx fUseCache
  | getAvailableCredit hash fUseCache =>
    exact right_modify_of_same h hash fun wtx => sameNames_getAvailableCredit wtx fUseCache
  | getChange hash => exact right_modify_of_same h hash fun _ => ⟨rfl, rfl⟩

/-! ## Transactions under their hashes -/

/-- Every transaction of the wallet stands under its hash, as loading the wallet checks. -/
def Keyed (env : WalletEnv) (w : WalletState) : Prop :=
  ∀ hash wtx, w.mapWallet.lookup hash = some wtx → env.getHash wtx.toCTransaction = hash

theorem keyed_iff : Keyed env w ↔ ∀ hash tx, w.txOf hash = some tx → env.getHash tx = hash := by
  constructor
  · intro h hash tx htx
    obtain ⟨wtx, hwtx, rfl⟩ := Option.map_eq_some_iff.mp htx
    exact h hash wtx hwtx
  · intro h hash wtx hwtx
    exact h hash wtx.toCTransaction (by rw [txOf, hwtx]; rfl)

theorem txOf_modify (hash : Uint256) {change : CWalletTx → CWalletTx}
    (htx : ∀ wtx, (change wtx).toCTransaction = wtx.toCTransaction) : (w.modify hash change).txOf = w.txOf := by
  unfold modify
  cases hwtx : w.mapWallet.lookup hash with
  | none => rfl
  | some wtx =>
    funext other
    rw [← names_map_fst, names_update, htx, ← names_map_fst]
    by_cases hother : other = hash
    · rw [hother, Function.update_self, names, hwtx]
      rfl
    · rw [Function.update_of_ne hother]

/-- **A step keeps the transactions under their hashes**, whatever it is. -/
theorem keyed_step (h : Keyed env w) (e : Event) : Keyed env (w.step env e) := by
  rw [keyed_iff] at h ⊢
  -- only `addToWallet` stores a transaction, and it does under its hash
  have hmodify : ∀ {other : Uint256} {change : CWalletTx → CWalletTx},
      (∀ wtx, (change wtx).toCTransaction = wtx.toCTransaction) →
      ∀ hash tx, (w.modify other change).txOf hash = some tx → env.getHash tx = hash := by
    intro other change htx
    rw [txOf_modify other htx]
    exact h
  cases e with
  | addToWallet wtxIn fWritten pool =>
    intro hash tx htx
    rw [← names_map_fst, step, names_addToWallet] at htx
    by_cases hhash : hash = env.getHash wtxIn.toCTransaction
    · rw [hhash, Function.update_self] at htx
      cases hold : w.names (env.getHash wtxIn.toCTransaction) with
      | none =>
        rw [hold] at htx
        cases htx
        exact hhash.symm
      | some n =>
        rw [hold] at htx
        cases htx
        refine (h _ n.1 ?_).trans hhash.symm
        rw [← names_map_fst, hold]
        rfl
    · rw [Function.update_of_ne hhash, names_map_fst] at htx
      exact h hash tx htx
  | addKey address fSigns =>
    have hnames : (w.step env (.addKey address fSigns)).names = w.names := names_markDirty
    rw [txOf_eq_of_names hnames]
    exact h
  | markDirty =>
    have hnames : (w.step env .markDirty).names = w.names := names_markDirty
    rw [txOf_eq_of_names hnames]
    exact h
  | chain getDepthInMainChain isInMainChain => exact h
  | bindWallet hash => exact hmodify fun _ => rfl
  | updateSpent hash vfNewSpent => exact hmodify fun _ => rfl
  | markSpent hash nOut => exact hmodify fun wtx => (sameNames_markSpent nOut wtx).1
  | getDebit hash => exact hmodify fun wtx => (sameNames_getDebit wtx).1
  | getDebitInclName hash => exact hmodify getDebitInclName_tx
  | getCredit hash fUseCache => exact hmodify fun wtx => (sameNames_getCredit wtx fUseCache).1
  | getImmatureCredit hash fUseCache => exact hmodify fun wtx => (sameNames_getImmatureCredit wtx fUseCache).1
  | getAvailableCredit hash fUseCache => exact hmodify fun wtx => (sameNames_getAvailableCredit wtx fUseCache).1
  | getChange hash => exact hmodify fun _ => rfl

/-! ## Coherence along a run -/

theorem right_of_run {w₀ : WalletState} (h₀ : Right env w₀) (hrun : Run env w₀ w) : Right env w := by
  induction hrun with
  | start => exact h₀
  | step _ e hharmless ih => exact right_step ih hharmless

/-- **The caches in harmless runs.** From a wallet whose transactions come with clear flags, as long as no step changes
    what a transaction spends whose flag is set, every getter called after `MarkDirty` returns what it is computed
    from. -/
theorem coherent_of_run {w₀ : WalletState}
    (hstart : ∀ hash wtx, w₀.mapWallet.lookup hash = some wtx → wtx.debitInclNameCached.fCached = false)
    (hrun : Run env w₀ w) {hash : Uint256} {wtx : CWalletTx} (hwtx : w.mapWallet.lookup hash = some wtx) :
    Coherent env w wtx := by
  have hright₀ : Right env w₀ := by
    intro hash n hn
    obtain ⟨wtx, hold, rfl⟩ := Option.map_eq_some_iff.mp hn
    exact Cached.agrees_of_not_cached (hstart hash wtx hold)
  refine coherent_of_agrees (right_of_run hright₀ hrun hash (wtx.toCTransaction, wtx.debitInclNameCached) ?_)
  rw [names, hwtx]
  rfl

end

/-! ## A parent that arrives late -/

namespace LateParent

/-- Transactions have their lock time for a hash. -/
def node : WalletEnv := ⟨(·.nLockTime), keyIDOf, 60⟩

/-- The key of the wallet. -/
def ours : CKeyID := ⟨7, by decide⟩

def paying (hash : Uint256) (prevout : COutPoint) (nValue : Int) : CWalletTx :=
  .init ⟨⟨1, [⟨prevout, [], 0⟩], [⟨nValue, setDestination (.keyID ours)⟩], hash, []⟩, 0, [], -1⟩ ⟨false, 0⟩

/-- The parent pays five coins to the wallet. -/
def parent : CWalletTx := paying 1 ⟨9, 0⟩ (5 * COIN)

/-- The child spends them. -/
def child : CWalletTx := paying 2 ⟨1, 0⟩ (4 * COIN)

/-- A wallet with one key and no transactions. -/
def start : WalletState where
  keystore := ⟨(· == ours), fun _ => true, []⟩
  mapAddressBook := []
  vchDefaultKey := []
  mapWallet := ∅
  getDepthInMainChain := fun _ => 0
  isInMainChain := fun _ => false

/-- The child is added, asked for its debit, and then its parent is added. -/
def late : WalletState :=
  ((start.step node (.addToWallet child true [])).step node (.getDebitInclName 2)).step node (.addToWallet parent true [])

def askedChild : CWalletTx := { child.bindWallet with debitInclNameCached := ⟨true, 0⟩ }

theorem late_lookup : late.mapWallet.lookup 2 = some askedChild := by decide +kernel

theorem late_getDebitInclName : late.getDebitInclName node askedChild.toCTransaction = .ok (5 * COIN) := by
  decide +kernel

/-- **The child still says that it debits nothing.** -/
theorem child_not_coherent : ∃ wtx, late.mapWallet.lookup 2 = some wtx ∧ ¬ Coherent node late wtx := by
  refine ⟨askedChild, late_lookup, fun hcoherent => ?_⟩
  have hdebit := hcoherent.debitInclName
  rw [late_getDebitInclName] at hdebit
  have hzero : (askedChild.markDirty.getDebitInclName node late).1 = .ok 0 := rfl
  rw [hzero] at hdebit
  exact absurd (Except.ok.inj hdebit) (by decide)

/-- The parent is added first. -/
def early : WalletState :=
  (start.step node (.addToWallet parent true [])).step node (.addToWallet child true [])

/-- What `AddToWallet` does is harmless while no flag is set. -/
theorem harmless_addToWallet {env : WalletEnv} {w : WalletState} (wtxIn : CWalletTx) (fWritten : Bool)
    (pool : List (Option PoolKey)) (hclear : ∀ hash n, w.names hash = some n → n.2.fCached = false)
    (hin : wtxIn.debitInclNameCached.fCached = false) : Harmless env w (.addToWallet wtxIn fWritten pool) := by
  constructor
  · intro hash wtx hwtx hset
    have hfalse := hclear hash (wtx.toCTransaction, wtx.debitInclNameCached) (by rw [names, hwtx]; rfl)
    rw [hset] at hfalse
    cases hfalse
  · rintro _ _ _ ⟨⟩ -
    exact hin

/-- With the parent first the child is right. -/
theorem child_coherent : ∃ wtx, early.mapWallet.lookup 2 = some wtx ∧ Coherent node early wtx := by
  have hempty : ∀ hash n, start.names hash = some n → n.2.fCached = false := by
    intro hash n hn
    cases hn
  have hparent : Harmless node start (.addToWallet parent true []) := harmless_addToWallet _ _ _ hempty rfl
  have hgrows : Grows start (start.step node (.addToWallet parent true [])) :=
    grows_addToWallet parent true [] fun _ => rfl
  have hclear : ∀ hash n, (start.step node (.addToWallet parent true [])).names hash = some n → n.2.fCached = false :=
    fun hash n hn => hgrows.fresh hash n hn rfl
  have hchild : Harmless node (start.step node (.addToWallet parent true [])) (.addToWallet child true []) :=
    harmless_addToWallet _ _ _ hclear rfl
  have hlookup : early.mapWallet.lookup 2 = some child.bindWallet := by decide +kernel
  have hrun : Run node start early := (Run.start.step _ hparent).step _ hchild
  exact ⟨child.bindWallet, hlookup, coherent_of_run (fun hash wtx hwtx => by cases hwtx) hrun hlookup⟩

end LateParent

end WalletState

end Syscoin

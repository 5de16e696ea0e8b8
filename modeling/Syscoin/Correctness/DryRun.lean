import Syscoin.Chain.Miner
import Syscoin.Correctness.Determinism
import Syscoin.Correctness.Faults
import Syscoin.Correctness.PoolIndex

/-!
# `Correctness.DryRun` — the miner's selection against the loop of `ConnectBlock`

`CreateNewBlock` picks transactions by the rules of a block one height lower, over fee lists and service databases that
do not move. Everything else it does with a transaction is what `ConnectBlock` will do. The difference is therefore what
the service rules ask at the block's own height and of the databases as the block itself has changed them (`Turn`).

The argument is a simulation. A step of the selection that takes a transaction (`Picked`) is followed by a step of
`ConnectBlock`'s loop iff the transaction's turn allows it, and the two stay in agreement (`Tracks`): the views differ
at the coinbase only, which nothing in the block can spend.
-/

namespace Syscoin

open Lib

/-! ## What the selection does -/

section Selection

variable {env : Env} {args : MinerArgs} {pindexPrev : CBlockIndex} {s : Store}

/-- A step of the selection loop that takes a transaction. -/
structure Picked (env : Env) (args : MinerArgs) (pindexPrev : CBlockIndex) (s : Store) (acc : TemplateAcc)
    (tx : CTransaction) (acc' : TemplateAcc) : Prop where
  room : acc.hasRoom args tx
  checked : ∃ checks, checkInputs env.inline Mode.connect pindexPrev pindexPrev tx acc.view (pindexPrev.nHeight + 1)
    true true s = (.ok checks, s)
  coins : ∃ txundo, updateCoins env tx (pindexPrev.nHeight + 1) acc.view = .ok (acc'.view, txundo)
  fees : addFee acc.nFees (tx.getValueIn acc.view - tx.getValueOut) = .ok acc'.nFees
  size : acc'.nBlockSize = acc.nBlockSize + tx.getSerializeSize
  sigOps : acc'.nBlockSigOps = acc.nBlockSigOps + (tx.getLegacySigOpCount + tx.getP2SHSigOpCount acc.view)
  vtx : acc'.vtx = acc.vtx ++ [tx]

/-- The transactions that the selection takes, one after the other. -/
inductive Selected (env : Env) (args : MinerArgs) (pindexPrev : CBlockIndex) (s : Store) :
    TemplateAcc → List CTransaction → TemplateAcc → Prop where
  | nil (acc : TemplateAcc) : Selected env args pindexPrev s acc [] acc
  | cons {acc acc₁ acc' : TemplateAcc} {tx : CTransaction} {txs : List CTransaction}
      (head : Picked env args pindexPrev s acc tx acc₁) (tail : Selected env args pindexPrev s acc₁ txs acc') :
      Selected env args pindexPrev s acc (tx :: txs) acc'

theorem addToTemplate_ok {acc acc' : TemplateAcc} {tx : CTransaction}
    (h : addToTemplate env pindexPrev acc tx = .ok acc') :
    (∃ txundo, updateCoins env tx (pindexPrev.nHeight + 1) acc.view = .ok (acc'.view, txundo)) ∧
      addFee acc.nFees (tx.getValueIn acc.view - tx.getValueOut) = .ok acc'.nFees ∧
      acc'.nBlockSize = acc.nBlockSize + tx.getSerializeSize ∧
      acc'.nBlockSigOps = acc.nBlockSigOps + (tx.getLegacySigOpCount + tx.getP2SHSigOpCount acc.view) ∧
      acc'.vtx = acc.vtx ++ [tx] := by
  unfold addToTemplate at h
  obtain ⟨⟨view, txundo⟩, hcoins, h⟩ := Except.bind_ok_iff.mp h
  obtain ⟨nFees, hfees, h⟩ := Except.bind_ok_iff.mp h
  rw [Except.ok.injEq] at h
  subst h
  exact ⟨⟨txundo, hcoins⟩, hfees, rfl, rfl, rfl⟩

/-- One step either leaves everything as it is or takes the transaction; the store is not written. -/
theorem selectTx_ok {acc acc' : TemplateAcc} {tx : CTransaction} {s' : Store}
    (h : selectTx env args pindexPrev acc tx s = (.ok acc', s')) :
    s' = s ∧ (acc' = acc ∨ Picked env args pindexPrev s acc tx acc') := by
  unfold selectTx at h
  split at h
  · rename_i hroom
    have hkeeps : SameStore s (checkInputs env.inline Mode.connect pindexPrev pindexPrev tx acc.view
        (pindexPrev.nHeight + 1) true true s).2 := checkInputs_unwritten (by simp [Mode.writes]) s
    split at h
    · rename_i hrun
      rw [hrun] at hkeeps
      simp only [Prod.mk.injEq, Except.ok.injEq] at h
      exact ⟨h.2.symm.trans hkeeps, .inl h.1.symm⟩
    · rename_i checks s₁ hrun
      rw [hrun] at hkeeps
      simp only [Prod.mk.injEq] at h
      obtain ⟨hadd, rfl⟩ := h
      have hs : s₁ = s := hkeeps
      subst hs
      obtain ⟨hcoins, hfees, hsize, hsigOps, hvtx⟩ := addToTemplate_ok hadd
      exact ⟨rfl, .inr ⟨hroom, ⟨checks, hrun⟩, hcoins, hfees, hsize, hsigOps, hvtx⟩⟩
  · simp only [Prod.mk.injEq, Except.ok.injEq] at h
    exact ⟨h.2.symm, .inl h.1.symm⟩

/-- **The selection** takes some of what the queue hands out, in that order. -/
theorem selectTxs_ok {order : List CTransaction} {acc acc' : TemplateAcc} {s' : Store}
    (h : Proc.foldM (selectTx env args pindexPrev) order acc s = (.ok acc', s')) :
    s' = s ∧ ∃ txs, txs.Sublist order ∧ Selected env args pindexPrev s acc txs acc' := by
  induction order generalizing acc with
  | nil =>
    rw [Proc.foldM_nil] at h
    simp only [Prod.mk.injEq, Except.ok.injEq] at h
    obtain ⟨rfl, rfl⟩ := h
    exact ⟨rfl, [], .slnil, .nil acc⟩
  | cons tx order ih =>
    obtain ⟨acc₁, s₁, hhead, htail⟩ := Proc.foldM_cons_ok_iff.mp h
    obtain ⟨rfl, hstep⟩ := selectTx_ok hhead
    obtain ⟨hs, txs, hsub, hsel⟩ := ih htail
    rcases hstep with rfl | hpicked
    · exact ⟨hs, txs, hsub.cons tx, hsel⟩
    · exact ⟨hs, tx :: txs, hsub.cons_cons tx, .cons hpicked hsel⟩

theorem Selected.vtx_eq {acc acc' : TemplateAcc} {txs : List CTransaction}
    (h : Selected env args pindexPrev s acc txs acc') : acc'.vtx = acc.vtx ++ txs := by
  induction h with
  | nil acc => simp
  | cons head _ ih =>
    rw [ih, head.vtx, List.append_assoc]
    rfl

/-- The size of the block so far is an upper bound for its transactions. -/
theorem Selected.size_eq {acc acc' : TemplateAcc} {txs : List CTransaction}
    (h : Selected env args pindexPrev s acc txs acc') :
    acc'.nBlockSize = acc.nBlockSize + (txs.map (·.getSerializeSize)).sum := by
  induction h with
  | nil acc => simp
  | cons head _ ih =>
    rw [ih, head.size, List.map_cons, List.sum_cons]
    omega

theorem Selected.size_lt {acc acc' : TemplateAcc} {txs : List CTransaction}
    (h : Selected env args pindexPrev s acc txs acc') (hacc : acc.nBlockSize ≤ args.nBlockMaxSize) :
    acc'.nBlockSize ≤ args.nBlockMaxSize := by
  induction h with
  | nil acc => exact hacc
  | cons head _ ih =>
    refine ih ?_
    rw [head.size]
    exact head.room.1.le

theorem Selected.sigOps_le {acc acc' : TemplateAcc} {txs : List CTransaction}
    (h : Selected env args pindexPrev s acc txs acc') (hacc : acc.nBlockSigOps ≤ MAX_BLOCK_SIGOPS) :
    acc.nBlockSigOps + (txs.map (·.getLegacySigOpCount)).sum ≤ MAX_BLOCK_SIGOPS := by
  induction h with
  | nil acc => simpa using hacc
  | @cons acc acc₁ acc' tx txs head _ ih =>
    have hroom := head.room.2.2.2
    have hnext := head.sigOps
    have hrest := ih (by omega)
    rw [List.map_cons, List.sum_cons]
    omega

end Selection

/-! ## One height up -/

/-- The output that one of the operations `ops` spends is younger than its expiration depth when a block at the height
    of `pindex` is connected. -/
def OpenAt (decode : CScript → Option (Op × List Bytes)) (ops : List Op) (depth : Nat → Nat) (pindex : CBlockIndex)
    (tx : CTransaction) (inputs : CoinsView) : Prop :=
  ∀ r ∈ decodeTx decode tx.vout, r.1 ∉ ops ∨
    ∀ p ∈ findPrev decode inputs tx.vin, pindex.nHeight < p.prevCoins.nHeight + depth pindex.nHeight

instance (decode : CScript → Option (Op × List Bytes)) (ops : List Op) (depth : Nat → Nat) (pindex : CBlockIndex)
    (tx : CTransaction) (inputs : CoinsView) : Decidable (OpenAt decode ops depth pindex tx inputs) :=
  inferInstanceAs (Decidable (∀ _ ∈ _, _))

def AliasUnexpired : CBlockIndex → CTransaction → CoinsView → Prop :=
  OpenAt decodeAliasScript [.aliasActivate, .aliasUpdate] getAliasExpirationDepth

def OfferUnexpired : CBlockIndex → CTransaction → CoinsView → Prop :=
  OpenAt decodeOfferScript [.offerActivate, .offerUpdate] getOfferExpirationDepth

def IssuerUnexpired : CBlockIndex → CTransaction → CoinsView → Prop :=
  OpenAt decodeCertScript [.certissuerActivate, .certissuerUpdate] getCertExpirationDepth

/-- A payment finds the accept it pays for in the stored offer. -/
def PaymentStored (pindex : CBlockIndex) (tx : CTransaction) (s : OfferState) : Prop :=
  ∀ r ∈ decodeOfferTx tx, r.1 ≠ .offerPay ∨
    ((baseOffer s (arg r.2.2 0) pindex.nHeight (COffer.ofTx tx)).getAcceptByHash (arg r.2.2 1)).isSome = true

instance (pindex : CBlockIndex) (tx : CTransaction) (s : OfferState) : Decidable (PaymentStored pindex tx s) :=
  inferInstanceAs (Decidable (∀ _ ∈ _, _))

/-- **What the turn of a picked transaction takes** when its block is connected, over what the selection has seen to. -/
def Turn (pindex : CBlockIndex) (tx : CTransaction) (inputs : CoinsView) (s : Store) : Prop :=
  tx.nVersion ≠ SYSCOIN_TX_VERSION ∨
    (AliasUnexpired pindex tx inputs ∧ OfferUnexpired pindex tx inputs ∧ PaymentStored pindex tx s.offerdb ∧
      IssuerUnexpired pindex tx inputs)

instance (pindex : CBlockIndex) (tx : CTransaction) (inputs : CoinsView) (s : Store) :
    Decidable (Turn pindex tx inputs s) :=
  inferInstanceAs (Decidable (_ ∨ (OpenAt _ _ _ _ _ _ ∧ OpenAt _ _ _ _ _ _ ∧ PaymentStored _ _ _ ∧
    OpenAt _ _ _ _ _ _)))

/-! ## The turns of a block -/

/-- The coins after a transaction. -/
def coinsAfter (env : Env) (pindex : CBlockIndex) (tx : CTransaction) (view : CoinsView) : CoinsView :=
  match updateCoins env tx pindex.nHeight view with
  | .ok r => r.1
  | .error _ => view

/-- The store after the service rules of a transaction. -/
def storeAfter (env : Env) (pindexBest pindex : CBlockIndex) (tx : CTransaction) (view : CoinsView) (s : Store) : Store :=
  (serviceRules env Mode.connect pindexBest pindex tx view s).2

/-- **The turns of transactions**: each meets the coins and the store that the ones before it leave. -/
def turns (env : Env) (pindexBest pindex : CBlockIndex) : List CTransaction → CoinsView → Store → List Site
  | [], _, _ => []
  | tx :: txs, view, s =>
    ⟨pindexBest, pindex, tx, view, s⟩ ::
      turns env pindexBest pindex txs (coinsAfter env pindex tx view) (storeAfter env pindexBest pindex tx view s)

/-- The store after the turns of transactions, with the block's own fees entered. -/
def storeAfterTurns (env : Env) (pindexBest pindex : CBlockIndex) : List CTransaction → CoinsView → Store → Store
  | [], _, s => s
  | tx :: txs, view, s =>
    storeAfterTurns env pindexBest pindex txs (coinsAfter env pindex tx view) (storeAfter env pindexBest pindex tx view s)

/-- Every transaction is granted its turn. -/
def TurnsGranted (env : Env) (pindexBest pindex : CBlockIndex) (txs : List CTransaction) (view : CoinsView) (s : Store) :
    Prop :=
  ∀ site ∈ turns env pindexBest pindex txs view s, Turn site.pindex site.tx site.inputs site.store

instance (env : Env) (pindexBest pindex : CBlockIndex) (txs : List CTransaction) (view : CoinsView) (s : Store) :
    Decidable (TurnsGranted env pindexBest pindex txs view s) :=
  inferInstanceAs (Decidable (∀ _ ∈ _, _))

section OneUp

variable {env : Env} {pindexPrev pindex : CBlockIndex} {tx : CTransaction} {inputs : CoinsView} {p : Prev}
  {vvch : List Bytes} {nOut : Nat} {op : Op} {pool pool' : TestPool}

/-- Prices fall with the height. -/
theorem networkFee_antitone {nRes nDif : Int} (hdif : 0 ≤ nDif) {n m : Nat} (h : n ≤ m) :
    networkFee nRes nDif m ≤ networkFee nRes nDif n := by
  unfold networkFee
  by_cases hm : 130080 < m
  · rw [if_pos hm]
    by_cases hn : 130080 < n
    · rw [if_pos hn]
    · rw [if_neg hn]
      -- at most one step of the price has been taken
      have hq : ((n / 130080 : Nat) : Int) ≤ 1 := by omega
      have hstep : ((n / 130080 : Nat) : Int) * nDif ≤ 1 * nDif := Int.mul_le_mul_of_nonneg_right hq hdif
      omega
  · have hn : ¬ 130080 < n := by omega
    rw [if_neg hm, if_neg hn]
    have hq : ((n / 130080 : Nat) : Int) ≤ ((m / 130080 : Nat) : Int) := by
      exact_mod_cast Nat.div_le_div_right h
    have hstep : ((n / 130080 : Nat) : Int) * nDif ≤ ((m / 130080 : Nat) : Int) * nDif :=
      Int.mul_le_mul_of_nonneg_right hq hdif
    omega

theorem getAliasNetworkFee_antitone {n m : Nat} (h : n ≤ m) : getAliasNetworkFee m ≤ getAliasNetworkFee n :=
  networkFee_antitone (by decide) h

theorem getOfferNetworkFee_antitone {seed n m : Nat} (h : n ≤ m) :
    getOfferNetworkFee env seed m ≤ getOfferNetworkFee env seed n := by
  unfold getOfferNetworkFee
  split
  · exact le_refl _
  · split
    · exact networkFee_antitone (by decide) h
    · exact networkFee_antitone (by decide) h

theorem getCertNetworkFee_antitone {seed n m : Nat} (h : n ≤ m) :
    getCertNetworkFee env seed m ≤ getCertNetworkFee env seed n := by
  unfold getCertNetworkFee
  split
  · exact le_refl _
  · split
    · exact networkFee_antitone (by decide) h
    · split
      · exact networkFee_antitone (by decide) h
      · exact networkFee_antitone (by decide) h

/-- What was deep enough below the best block is deep enough below the next one. -/
theorem relativeDepth_none_up (hnext : pindex.nHeight = pindexPrev.nHeight + 1) {nTxHeight maxDepth : Nat}
    (hle : nTxHeight ≤ pindexPrev.nHeight) (h : relativeDepth pindexPrev nTxHeight maxDepth = none) :
    relativeDepth pindex nTxHeight maxDepth = none := by
  rw [relativeDepth_eq_none_iff] at h ⊢
  omega

/-- What is on the chain of the best block is found from the next one iff it is young enough there. -/
theorem relativeDepth_isSome_up (hnext : pindex.nHeight = pindexPrev.nHeight + 1) {nTxHeight maxDepth maxDepth' : Nat}
    (h : (relativeDepth pindexPrev nTxHeight maxDepth).isSome = true) :
    (relativeDepth pindex nTxHeight maxDepth').isSome = true ↔ pindex.nHeight < nTxHeight + maxDepth' := by
  rw [relativeDepth_isSome_iff] at h ⊢
  omega

/-! ### Aliases -/

theorem checkAliasActivate_up {prev : Option Prev} {s s' : AliasState}
    (hnext : pindex.nHeight = pindexPrev.nHeight + 1)
    (hsel : checkAliasActivate env Mode.connect pindexPrev tx prev vvch s = .ok ()) :
    checkAliasActivate env Mode.connect pindex tx prev vvch s' = .ok () ↔
      ∀ p ∈ prev, pindex.nHeight < p.prevCoins.nHeight + getAliasExpirationDepth pindex.nHeight := by
  unfold checkAliasActivate at hsel ⊢
  simp only [require_bind_ok_iff] at hsel ⊢
  obtain ⟨hfee, hprev, hlen₁, hlen₂, hsel⟩ := hsel
  have hfee' : getAliasNetworkFee pindex.nHeight ≤ getAliasNetFee tx :=
    le_trans (getAliasNetworkFee_antitone (by omega)) hfee
  cases prev with
  | none => simp at hprev
  | some p =>
    simp only [Mode.connect_fBlock, Mode.connect_fJustCheck, and_self, if_true,
      checkAliasActivation_connect_iff] at hsel ⊢
    obtain ⟨hopen, hmin, hyoung⟩ := hsel
    have hle : p.prevCoins.nHeight ≤ pindexPrev.nHeight := (relativeDepth_isSome_iff.mp hyoung).1
    rw [relativeDepth_isSome_up hnext hyoung]
    constructor
    · rintro ⟨-, -, -, -, -, -, hlt⟩ q hq
      cases hq
      exact hlt
    · intro hlt
      exact ⟨hfee', hprev, hlen₁, hlen₂, hopen, relativeDepth_none_up hnext hle hmin, hlt p rfl⟩

theorem checkAliasUpdate_up {prev : Option Prev} (hnext : pindex.nHeight = pindexPrev.nHeight + 1)
    (hsel : checkAliasUpdate Mode.connect pindexPrev prev vvch = .ok ()) (fJustCheck : Bool) :
    checkAliasUpdate ⟨true, false, fJustCheck⟩ pindex prev vvch = .ok () ↔
      ∀ p ∈ prev, pindex.nHeight < p.prevCoins.nHeight + getAliasExpirationDepth pindex.nHeight := by
  unfold checkAliasUpdate at hsel ⊢
  cases prev with
  | none => simp at hsel
  | some p =>
    simp only [require_bind_ok_iff, require_ok_iff, Mode.connect_fBlock, true_or, true_and,
      ← Ne.eq_def, ← Option.isSome_iff_ne_none] at hsel ⊢
    obtain ⟨hown, hlen, hname, hyoung⟩ := hsel
    rw [relativeDepth_isSome_up hnext hyoung]
    constructor
    · rintro ⟨-, -, -, hlt⟩ q hq
      cases hq
      exact hlt
    · intro hlt
      exact ⟨hown, hlen, hname, hlt p rfl⟩

theorem checkAliasOp_up {prev : Option Prev} {s s' : AliasState} (hnext : pindex.nHeight = pindexPrev.nHeight + 1)
    (hsel : checkAliasOp env Mode.connect pindexPrev tx prev vvch s op = .ok ()) :
    checkAliasOp env Mode.connect pindex tx prev vvch s' op = .ok () ↔
      (op ∉ [Op.aliasActivate, Op.aliasUpdate] ∨
        ∀ p ∈ prev, pindex.nHeight < p.prevCoins.nHeight + getAliasExpirationDepth pindex.nHeight) := by
  cases op with
  | aliasNew =>
    simp only [checkAliasOp] at hsel ⊢
    simp [hsel]
  | aliasActivate =>
    simp only [checkAliasOp] at hsel ⊢
    rw [checkAliasActivate_up hnext hsel]
    simp
  | aliasUpdate =>
    simp only [checkAliasOp] at hsel ⊢
    rw [show Mode.connect = ⟨true, false, false⟩ from rfl, checkAliasUpdate_up hnext hsel false]
    simp
  | _ => simp [checkAliasOp] at hsel

/-- A mere check asks less. -/
theorem checkAliasOp_check {prev : Option Prev} {s s' : AliasState} (hnext : pindex.nHeight = pindexPrev.nHeight + 1)
    (hsel : checkAliasOp env Mode.connect pindexPrev tx prev vvch s op = .ok ())
    (h : op ∉ [Op.aliasActivate, Op.aliasUpdate] ∨
      ∀ p ∈ prev, pindex.nHeight < p.prevCoins.nHeight + getAliasExpirationDepth pindex.nHeight) :
    checkAliasOp env ⟨true, false, true⟩ pindex tx prev vvch s' op = .ok () := by
  cases op with
  | aliasNew => exact hsel
  | aliasActivate =>
    simp only [checkAliasOp, checkAliasActivate, require_bind_ok_iff] at hsel ⊢
    obtain ⟨hfee, -, hlen₁, hlen₂, -⟩ := hsel
    refine ⟨le_trans (getAliasNetworkFee_antitone (by omega)) hfee, .inl trivial, hlen₁, hlen₂, ?_⟩
    cases prev with
    | none => rfl
    | some p => simp
  | aliasUpdate =>
    simp only [checkAliasOp] at hsel ⊢
    rw [checkAliasUpdate_up hnext hsel true]
    simpa using h
  | _ => simp [checkAliasOp] at hsel

/-- Storing what a check returns cannot fail. -/
theorem exists_stored_iff {α : Type} {x : Except Reject α} {f : α → Store} :
    (∃ s', (x >>= fun a => Except.ok (f a)) = (.ok s' : Except Reject Store)) ↔ ∃ a, x = .ok a := by
  constructor
  · rintro ⟨s', h⟩
    obtain ⟨a, ha, -⟩ := Except.bind_ok_iff.mp h
    exact ⟨a, ha⟩
  · rintro ⟨a, ha⟩
    exact ⟨f a, Except.bind_ok_iff.mpr ⟨a, ha, rfl⟩⟩

/-- A guard, a check, and a write that is not always made. -/
theorem guarded_write_iff {α : Type} {c w : Prop} [Decidable c] [Decidable w] {e : Reject} {check : Except Reject Unit}
    {write : Except Reject α} {skip : α} :
    (∃ x, (require c e >>= fun _ => check >>= fun _ => if w then write else .ok skip) = .ok x) ↔
      c ∧ check = .ok () ∧ (w → ∃ x, write = .ok x) := by
  constructor
  · rintro ⟨x, h⟩
    obtain ⟨hguard, h⟩ := require_bind_ok_iff.mp h
    obtain ⟨_, hcheck, hwrite⟩ := Except.bind_ok_iff.mp h
    refine ⟨hguard, hcheck, fun hw => ⟨x, ?_⟩⟩
    rw [if_pos hw] at hwrite
    exact hwrite
  · rintro ⟨hguard, hcheck, hwrite⟩
    by_cases hw : w
    · obtain ⟨x, hx⟩ := hwrite hw
      refine ⟨x, require_bind_ok_iff.mpr ⟨hguard, Except.bind_ok_iff.mpr ⟨⟨⟩, hcheck, ?_⟩⟩⟩
      rw [if_pos hw]
      exact hx
    · exact ⟨skip, require_bind_ok_iff.mpr ⟨hguard, Except.bind_ok_iff.mpr ⟨⟨⟩, hcheck, if_neg hw⟩⟩⟩

/-- **The alias rules accept** iff their switch does. -/
theorem aliasRules_isOk_iff {m : Mode} {s : Store} (hcb : tx.isCoinBase = false) :
    (∃ s', aliasRules env m pindexPrev pindex tx inputs s = (.ok (), s')) ↔
      ∀ r ∈ decodeAliasTx tx,
        if tx.nVersion ≠ SYSCOIN_TX_VERSION then findPrev decodeAliasScript inputs tx.vin = none
        else checkAliasOp env m pindex tx (findPrev decodeAliasScript inputs tx.vin) r.2.2 s.aliasdb r.1 = .ok () := by
  simp only [aliasRules, Proc.update_ok_iff]
  cases hop : decodeAliasTx tx with
  | none => simp
  | some r =>
    simp only [Option.isSome_some, if_true, Option.mem_some_iff, forall_eq']
    refine exists_stored_iff.trans ?_
    unfold checkAliasInputs
    rw [if_neg (by simp [hcb])]
    dsimp only
    split
    · rw [← Option.isNone_iff_eq_none]
      simp only [require_bind_ok_iff]
      simp
    · obtain ⟨op, nOut, vvch⟩ := r
      simp only [hop]
      refine Except.exists_bind_ok_iff ?_
      split
      · exact ⟨_, rfl⟩
      · split
        · exact ⟨_, rfl⟩
        · exact ⟨_, rfl⟩

theorem aliasRules_up {s₀ s₁ s : Store} (hcb : tx.isCoinBase = false) (hnext : pindex.nHeight = pindexPrev.nHeight + 1)
    (hsel : aliasRules env Mode.connect pindexPrev pindexPrev tx inputs s₀ = (.ok (), s₁)) :
    (∃ s', aliasRules env Mode.connect pindexPrev pindex tx inputs s = (.ok (), s')) ↔
      (tx.nVersion ≠ SYSCOIN_TX_VERSION ∨ AliasUnexpired pindex tx inputs) := by
  have hsel := (aliasRules_isOk_iff hcb).mp ⟨s₁, hsel⟩
  rw [aliasRules_isOk_iff hcb, AliasUnexpired, OpenAt]
  change _ ↔ (_ ∨ ∀ r ∈ decodeAliasTx tx, _)
  by_cases hver : tx.nVersion ≠ SYSCOIN_TX_VERSION
  · simp only [if_pos hver] at hsel ⊢
    exact ⟨fun _ => .inl hver, fun _ => hsel⟩
  · simp only [if_neg hver] at hsel ⊢
    rw [or_iff_right hver]
    exact forall₂_congr fun r hr => checkAliasOp_up hnext (hsel r hr)

theorem aliasRules_check {s₀ s₁ s : Store} (hcb : tx.isCoinBase = false)
    (hnext : pindex.nHeight = pindexPrev.nHeight + 1)
    (hsel : aliasRules env Mode.connect pindexPrev pindexPrev tx inputs s₀ = (.ok (), s₁))
    (h : tx.nVersion ≠ SYSCOIN_TX_VERSION ∨ AliasUnexpired pindex tx inputs) :
    ∃ s', aliasRules env ⟨true, false, true⟩ pindexPrev pindex tx inputs s = (.ok (), s') := by
  have hsel := (aliasRules_isOk_iff hcb).mp ⟨s₁, hsel⟩
  rw [aliasRules_isOk_iff hcb]
  intro r hr
  have hsel := hsel r hr
  by_cases hver : tx.nVersion ≠ SYSCOIN_TX_VERSION
  · simpa only [if_pos hver] using hsel
  · simp only [if_neg hver] at hsel ⊢
    exact checkAliasOp_check hnext hsel (h.resolve_left hver r hr)

/-! ### Offers -/

theorem noClash_up (hnext : pindex.nHeight = pindexPrev.nHeight + 1) {key : Bytes} {text : String} :
    noClash pindexPrev pindex pool key text = .ok () := by
  unfold noClash
  refine require_ok_iff.mpr ?_
  rintro ⟨hh, -⟩
  omega

theorem checkOfferActivate_up {prev : Option Prev} {s s' : OfferState}
    (hnext : pindex.nHeight = pindexPrev.nHeight + 1)
    (hsel : checkOfferActivate env Mode.connect pindexPrev pindexPrev tx prev vvch pool s = .ok ()) :
    checkOfferActivate env Mode.connect pindexPrev pindex tx prev vvch pool' s' = .ok () ↔
      ∀ p ∈ prev, pindex.nHeight < p.prevCoins.nHeight + getOfferExpirationDepth pindex.nHeight := by
  unfold checkOfferActivate at hsel ⊢
  simp only [require_bind_ok_iff] at hsel ⊢
  obtain ⟨hfee, hprev, hlen₁, hlen₂, hsel⟩ := hsel
  have hfall : getOfferNetworkFee env 1 pindex.nHeight ≤ getOfferNetworkFee env 1 pindexPrev.nHeight :=
    getOfferNetworkFee_antitone (by omega)
  have hfee' : getOfferNetworkFee env 1 pindex.nHeight - COIN ≤ getOfferNetFee tx := by omega
  cases prev with
  | none => simp at hprev
  | some p =>
    simp only [Mode.connect_fBlock, Mode.connect_fJustCheck, and_self, if_true, checkOfferActivation,
      require_bind_ok_iff, true_or, true_and, Bool.not_eq_true, Option.isSome_eq_false_iff,
      Option.isNone_iff_eq_none, reduceCtorEq, false_and, not_false_eq_true, noClash_up hnext] at hsel ⊢
    obtain ⟨hopen, hmin, hyoung, -⟩ := hsel
    have hle : p.prevCoins.nHeight ≤ pindexPrev.nHeight := (relativeDepth_isSome_iff.mp hyoung).1
    rw [relativeDepth_isSome_up hnext hyoung]
    constructor
    · rintro ⟨-, -, -, -, -, -, hlt, -⟩ q hq
      cases hq
      exact hlt
    · intro hlt
      exact ⟨hfee', by simpa using hprev, hlen₁, hlen₂, hopen, relativeDepth_none_up hnext hle hmin, hlt p rfl, trivial⟩

theorem checkOfferUpdate_up {prev : Option Prev} (hnext : pindex.nHeight = pindexPrev.nHeight + 1)
    (hsel : checkOfferUpdate Mode.connect pindexPrev pindexPrev prev vvch pool = .ok ()) (fJustCheck : Bool) :
    checkOfferUpdate ⟨true, false, fJustCheck⟩ pindexPrev pindex prev vvch pool' = .ok () ↔
      ∀ p ∈ prev, pindex.nHeight < p.prevCoins.nHeight + getOfferExpirationDepth pindex.nHeight := by
  unfold checkOfferUpdate at hsel ⊢
  cases prev with
  | none => simp at hsel
  | some p =>
    simp only [require_bind_ok_iff, require_ok_iff, Mode.connect_fBlock, true_or, true_and,
      ← Ne.eq_def, ← Option.isSome_iff_ne_none] at hsel ⊢
    obtain ⟨hown, hlen, hname, hyoung, -⟩ := hsel
    rw [relativeDepth_isSome_up hnext hyoung]
    constructor
    · rintro ⟨-, -, -, hlt, -⟩ q hq
      cases hq
      exact hlt
    · intro hlt
      refine ⟨hown, hlen, hname, hlt p rfl, ?_⟩
      rintro ⟨-, hh, -⟩
      omega

theorem checkOfferPay_up {prev : Option Prev} {theOffer : COffer} (hnext : pindex.nHeight = pindexPrev.nHeight + 1)
    (hsel : checkOfferPay env Mode.connect pindexPrev pindexPrev tx prev vvch theOffer pool = .ok ()) :
    checkOfferPay env Mode.connect pindexPrev pindex tx prev vvch theOffer pool' = .ok () ∧
      (theOffer.getAcceptByHash (arg vvch 1)).isSome = true := by
  unfold checkOfferPay at hsel ⊢
  simp only [require_bind_ok_iff] at hsel ⊢
  obtain ⟨hprev, hlen₀, hlen₁, hsel⟩ := hsel
  have hfall : getOfferNetworkFee env 2 pindex.nHeight ≤ getOfferNetworkFee env 2 pindexPrev.nHeight :=
    getOfferNetworkFee_antitone (by omega)
  cases prev with
  | none => simp at hprev
  | some p =>
    simp only [Mode.connect_fBlock, Mode.connect_fJustCheck, and_self, if_true, checkOfferPayment,
      require_bind_ok_iff, noClash_up hnext] at hsel ⊢
    obtain ⟨hyoung, hopen, haccept, hfee, -⟩ := hsel
    have hpos := relativeDepth_isSome_iff.mp hyoung
    refine ⟨⟨hprev, hlen₀, hlen₁, ?_, hopen, haccept, by omega, trivial⟩, haccept⟩
    rw [relativeDepth_isSome_iff]
    omega

theorem checkOfferOp_up {prev : Option Prev} {theOffer : COffer} {s s' : OfferState}
    (hnext : pindex.nHeight = pindexPrev.nHeight + 1)
    (hsel : checkOfferOp env Mode.connect pindexPrev pindexPrev tx prev vvch theOffer pool s op = .ok ()) :
    checkOfferOp env Mode.connect pindexPrev pindex tx prev vvch theOffer pool' s' op = .ok () ↔
      (op ∉ [Op.offerActivate, Op.offerUpdate] ∨
        ∀ p ∈ prev, pindex.nHeight < p.prevCoins.nHeight + getOfferExpirationDepth pindex.nHeight) := by
  cases op with
  | offerNew | offerAccept =>
    simp only [checkOfferOp] at hsel ⊢
    simp [hsel]
  | offerActivate =>
    simp only [checkOfferOp] at hsel ⊢
    rw [checkOfferActivate_up hnext hsel]
    simp
  | offerUpdate =>
    simp only [checkOfferOp] at hsel ⊢
    rw [show Mode.connect = ⟨true, false, false⟩ from rfl, checkOfferUpdate_up hnext hsel false]
    simp
  | offerPay =>
    simp only [checkOfferOp] at hsel ⊢
    have hpay : checkOfferPay env Mode.connect pindexPrev pindex tx prev vvch theOffer pool' = .ok () :=
      (checkOfferPay_up hnext hsel).1
    simp [hpay]
  | _ => simp [checkOfferOp] at hsel

theorem checkOfferOp_check {prev : Option Prev} {theOffer : COffer} {s s' : OfferState}
    (hnext : pindex.nHeight = pindexPrev.nHeight + 1)
    (hsel : checkOfferOp env Mode.connect pindexPrev pindexPrev tx prev vvch theOffer pool s op = .ok ())
    (h : op ∉ [Op.offerActivate, Op.offerUpdate] ∨
      ∀ p ∈ prev, pindex.nHeight < p.prevCoins.nHeight + getOfferExpirationDepth pindex.nHeight) :
    checkOfferOp env ⟨true, false, true⟩ pindexPrev pindex tx prev vvch theOffer pool' s' op = .ok () := by
  cases op with
  | offerNew => exact hsel
  | offerActivate =>
    simp only [checkOfferOp, checkOfferActivate, require_bind_ok_iff] at hsel ⊢
    obtain ⟨hfee, -, hlen₁, hlen₂, -⟩ := hsel
    have hfall : getOfferNetworkFee env 1 pindex.nHeight ≤ getOfferNetworkFee env 1 pindexPrev.nHeight :=
      getOfferNetworkFee_antitone (by omega)
    refine ⟨by omega, .inl trivial, hlen₁, hlen₂, ?_⟩
    cases prev with
    | none => rfl
    | some p => simp
  | offerUpdate =>
    simp only [checkOfferOp] at hsel ⊢
    rw [checkOfferUpdate_up hnext hsel true]
    simpa using h
  | offerAccept =>
    simp only [checkOfferOp, checkOfferAccept, require_bind_ok_iff, require_ok_iff] at hsel ⊢
    exact ⟨hsel.1, hsel.2.1, by simp⟩
  | offerPay =>
    simp only [checkOfferOp, checkOfferPay, require_bind_ok_iff] at hsel ⊢
    obtain ⟨-, hlen₀, hlen₁, -⟩ := hsel
    refine ⟨.inl trivial, hlen₀, hlen₁, ?_⟩
    cases prev with
    | none => rfl
    | some p => simp
  | _ => simp [checkOfferOp] at hsel

/-- **The offer rules accept** iff their switch does, and the write if there is one. -/
theorem offerRules_isOk_iff {m : Mode} {s : Store} (hcb : tx.isCoinBase = false) :
    (∃ s', offerRules env m pindexPrev pindex tx inputs s = (.ok (), s')) ↔
      ∀ r ∈ decodeOfferTx tx,
        if tx.nVersion ≠ SYSCOIN_TX_VERSION then findPrev decodeOfferScript inputs tx.vin = none
        else (arg r.2.2 0).length ≤ MAX_NAME_LENGTH ∧
          checkOfferOp env m pindexPrev pindex tx (findPrev decodeOfferScript inputs tx.vin) r.2.2 (COffer.ofTx tx)
            s.dummyTestPool s.offerdb r.1 = .ok () ∧
          (r.1 ≠ .offerNew ∧ m.writes pindex pindexPrev →
            ∃ x, connectOffer env pindex tx r.1 r.2.2 (COffer.ofTx tx) s.offerdb s.dummyTestPool = .ok x) := by
  simp only [offerRules, Proc.update_ok_iff]
  cases hop : decodeOfferTx tx with
  | none => simp
  | some r =>
    simp only [Option.isSome_some, if_true, Option.mem_some_iff, forall_eq']
    refine exists_stored_iff.trans ?_
    unfold checkOfferInputs
    rw [if_neg (by simp [hcb])]
    dsimp only
    split
    · rw [← Option.isNone_iff_eq_none]
      simp only [require_bind_ok_iff]
      simp
    · obtain ⟨op, nOut, vvch⟩ := r
      simp only [hop]
      exact guarded_write_iff

/-- The write of an offer operation that the selection let through fails for a payment without a stored accept only. -/
theorem connectOffer_up {prev : Option Prev} {s s' : OfferState} (hnext : pindex.nHeight = pindexPrev.nHeight + 1)
    (hsel : checkOfferOp env Mode.connect pindexPrev pindexPrev tx prev vvch (COffer.ofTx tx) pool s op = .ok ()) :
    (∃ x, connectOffer env pindex tx op vvch (COffer.ofTx tx) s' pool' = .ok x) ↔
      (op ≠ .offerPay ∨
        ((baseOffer s' (arg vvch 0) pindex.nHeight (COffer.ofTx tx)).getAcceptByHash (arg vvch 1)).isSome = true) := by
  unfold connectOffer
  by_cases hbuy : op = .offerAccept ∨ op = .offerPay
  · rw [if_pos hbuy]
    -- the payload has the accept, or the selection would have turned the transaction down
    have haccept : ((COffer.ofTx tx).getAcceptByHash (arg vvch 1)).isSome = true := by
      rcases hbuy with rfl | rfl
      · simp only [checkOfferOp, checkOfferAccept, require_bind_ok_iff, require_ok_iff] at hsel
        exact hsel.2.2 ⟨rfl, rfl⟩
      · have hpay : checkOfferPay env Mode.connect pindexPrev pindex tx prev vvch (COffer.ofTx tx) pool = .ok () ∧ _ :=
          checkOfferPay_up hnext hsel
        exact hpay.2
    obtain ⟨a, ha⟩ := Option.isSome_iff_exists.mp haccept
    unfold connectOfferBuyer
    simp only [ha]
    rcases hbuy with rfl | rfl
    · simp only [true_and, reduceCtorEq, false_and, if_false, ne_eq, not_false_eq_true, true_or, iff_true]
      split
      · exact ⟨_, rfl⟩
      · exact ⟨_, rfl⟩
    · simp only [reduceCtorEq, false_and, if_false, true_and, ne_eq, not_true, false_or]
      split
      · rename_i hnone
        simp [Option.isNone_iff_eq_none.mp hnone]
      · rename_i hsome
        simpa using Option.ne_none_iff_isSome.mp (by simpa using hsome)
  · rw [if_neg hbuy]
    have hne : op ≠ .offerPay := fun h => hbuy (.inr h)
    simp [hne]

theorem offerRules_up {s₀ s₁ s : Store} (hcb : tx.isCoinBase = false) (hnext : pindex.nHeight = pindexPrev.nHeight + 1)
    (hsel : offerRules env Mode.connect pindexPrev pindexPrev tx inputs s₀ = (.ok (), s₁)) :
    (∃ s', offerRules env Mode.connect pindexPrev pindex tx inputs s = (.ok (), s')) ↔
      (tx.nVersion ≠ SYSCOIN_TX_VERSION ∨ (OfferUnexpired pindex tx inputs ∧ PaymentStored pindex tx s.offerdb)) := by
  have hsel := (offerRules_isOk_iff hcb).mp ⟨s₁, hsel⟩
  rw [offerRules_isOk_iff hcb, OfferUnexpired, OpenAt, PaymentStored]
  change _ ↔ (_ ∨ ((∀ r ∈ decodeOfferTx tx, _) ∧ _))
  by_cases hver : tx.nVersion ≠ SYSCOIN_TX_VERSION
  · simp only [if_pos hver] at hsel ⊢
    exact ⟨fun _ => .inl hver, fun _ => hsel⟩
  · simp only [if_neg hver] at hsel ⊢
    have hwrites : Mode.connect.writes pindex pindexPrev := writes_connect_iff.mpr (by omega)
    rw [or_iff_right hver, ← forall₂_and]
    refine forall₂_congr fun r hr => ?_
    obtain ⟨hlen, hcheck, -⟩ := hsel r hr
    rw [checkOfferOp_up hnext hcheck, connectOffer_up hnext hcheck]
    constructor
    · rintro ⟨-, hyoung, hwrite⟩
      refine ⟨hyoung, ?_⟩
      by_cases hnew : r.1 = .offerNew
      · exact .inl (by rw [hnew]; simp)
      · exact hwrite ⟨hnew, hwrites⟩
    · rintro ⟨hyoung, hstored⟩
      exact ⟨hlen, hyoung, fun _ => hstored⟩

theorem offerRules_check {s₀ s₁ s : Store} (hcb : tx.isCoinBase = false)
    (hnext : pindex.nHeight = pindexPrev.nHeight + 1)
    (hsel : offerRules env Mode.connect pindexPrev pindexPrev tx inputs s₀ = (.ok (), s₁))
    (h : tx.nVersion ≠ SYSCOIN_TX_VERSION ∨ OfferUnexpired pindex tx inputs) :
    ∃ s', offerRules env ⟨true, false, true⟩ pindexPrev pindex tx inputs s = (.ok (), s') := by
  have hsel := (offerRules_isOk_iff hcb).mp ⟨s₁, hsel⟩
  rw [offerRules_isOk_iff hcb]
  intro r hr
  have hsel := hsel r hr
  by_cases hver : tx.nVersion ≠ SYSCOIN_TX_VERSION
  · simpa only [if_pos hver] using hsel
  · simp only [if_neg hver] at hsel ⊢
    refine ⟨hsel.1, checkOfferOp_check hnext hsel.2.1 (h.resolve_left hver r hr), ?_⟩
    rintro ⟨-, hwrites⟩
    simp [Mode.writes] at hwrites

/-! ### Certificates -/

theorem checkCertissuerActivate_up {prev : Option Prev} {s s' : CertState}
    (hnext : pindex.nHeight = pindexPrev.nHeight + 1)
    (hsel : checkCertissuerActivate env Mode.connect pindexPrev pindexPrev tx prev vvch pool s = .ok ()) :
    checkCertissuerActivate env Mode.connect pindexPrev pindex tx prev vvch pool' s' = .ok () ↔
      ∀ p ∈ prev, pindex.nHeight < p.prevCoins.nHeight + getCertExpirationDepth pindex.nHeight := by
  unfold checkCertissuerActivate at hsel ⊢
  simp only [require_bind_ok_iff] at hsel ⊢
  obtain ⟨hfee, hprev, hlen₁, hlen₂, hsel⟩ := hsel
  have hfall : getCertNetworkFee env 1 pindex.nHeight ≤ getCertNetworkFee env 1 pindexPrev.nHeight :=
    getCertNetworkFee_antitone (by omega)
  have hfee' : getCertNetworkFee env 1 pindex.nHeight - COIN ≤ getCertNetFee tx := by omega
  cases prev with
  | none => simp at hprev
  | some p =>
    simp only [Mode.connect_fBlock, Mode.connect_fJustCheck, and_self, if_true, checkCertissuerActivation,
      require_bind_ok_iff, true_or, true_and, Bool.not_eq_true, Option.isSome_eq_false_iff,
      Option.isNone_iff_eq_none, reduceCtorEq, false_and, not_false_eq_true, noClash_up hnext] at hsel ⊢
    obtain ⟨hopen, hmin, hyoung, -⟩ := hsel
    have hle : p.prevCoins.nHeight ≤ pindexPrev.nHeight := (relativeDepth_isSome_iff.mp hyoung).1
    rw [relativeDepth_isSome_up hnext hyoung]
    constructor
    · rintro ⟨-, -, -, -, -, -, hlt, -⟩ q hq
      cases hq
      exact hlt
    · intro hlt
      exact ⟨hfee', by simpa using hprev, hlen₁, hlen₂, hopen, relativeDepth_none_up hnext hle hmin, hlt p rfl, trivial⟩

theorem checkCertissuerUpdate_up {prev : Option Prev} (hnext : pindex.nHeight = pindexPrev.nHeight + 1)
    (hsel : checkCertissuerUpdate Mode.connect pindexPrev pindexPrev prev vvch pool = .ok ()) (fJustCheck : Bool) :
    checkCertissuerUpdate ⟨true, false, fJustCheck⟩ pindexPrev pindex prev vvch pool' = .ok () ↔
      ∀ p ∈ prev, pindex.nHeight < p.prevCoins.nHeight + getCertExpirationDepth pindex.nHeight := by
  unfold checkCertissuerUpdate at hsel ⊢
  cases prev with
  | none => simp at hsel
  | some p =>
    simp only [require_bind_ok_iff, require_ok_iff, Mode.connect_fBlock, true_or, true_and,
      ← Ne.eq_def, ← Option.isSome_iff_ne_none] at hsel ⊢
    obtain ⟨hown, hlen, hname, hyoung, -⟩ := hsel
    rw [relativeDepth_isSome_up hnext hyoung]
    constructor
    · rintro ⟨-, -, -, hlt, -⟩ q hq
      cases hq
      exact hlt
    · intro hlt
      refine ⟨hown, hlen, hname, hlt p rfl, ?_⟩
      rintro ⟨-, hh, -⟩
      omega

theorem checkCertTransfer_up {prev : Option Prev} {theCertIssuer : CCertIssuer}
    (hnext : pindex.nHeight = pindexPrev.nHeight + 1)
    (hsel : checkCertTransfer env Mode.connect pindexPrev pindexPrev tx prev vvch theCertIssuer pool = .ok ()) :
    checkCertTransfer env Mode.connect pindexPrev pindex tx prev vvch theCertIssuer pool' = .ok () ∧
      (theCertIssuer.getCertItemByHash (arg vvch 1)).isSome = true := by
  unfold checkCertTransfer at hsel ⊢
  simp only [require_bind_ok_iff] at hsel ⊢
  obtain ⟨hprev, hlen₀, hlen₁, hsel⟩ := hsel
  have hfall : getCertNetworkFee env 4 pindex.nHeight ≤ getCertNetworkFee env 4 pindexPrev.nHeight :=
    getCertNetworkFee_antitone (by omega)
  cases prev with
  | none => simp at hprev
  | some p =>
    simp only [Mode.connect_fBlock, Mode.connect_fJustCheck, and_self, if_true, checkCertTransferItem,
      require_bind_ok_iff, noClash_up hnext] at hsel ⊢
    obtain ⟨hyoung, hopen, hitem, hfee, hrand, -⟩ := hsel
    have hpos := relativeDepth_isSome_iff.mp hyoung
    refine ⟨⟨hprev, hlen₀, hlen₁, ?_, hopen, hitem, by omega, hrand, trivial⟩, hitem⟩
    rw [relativeDepth_isSome_iff]
    omega

theorem checkCertOp_up {prev : Option Prev} {theCertIssuer : CCertIssuer} {s s' : CertState}
    (hnext : pindex.nHeight = pindexPrev.nHeight + 1)
    (hsel : checkCertOp env Mode.connect pindexPrev pindexPrev tx prev vvch theCertIssuer pool s op = .ok ()) :
    checkCertOp env Mode.connect pindexPrev pindex tx prev vvch theCertIssuer pool' s' op = .ok () ↔
      (op ∉ [Op.certissuerActivate, Op.certissuerUpdate] ∨
        ∀ p ∈ prev, pindex.nHeight < p.prevCoins.nHeight + getCertExpirationDepth pindex.nHeight) := by
  cases op with
  | certissuerNew | certNew =>
    simp only [checkCertOp] at hsel ⊢
    simp [hsel]
  | certissuerActivate =>
    simp only [checkCertOp] at hsel ⊢
    rw [checkCertissuerActivate_up hnext hsel]
    simp
  | certissuerUpdate =>
    simp only [checkCertOp] at hsel ⊢
    rw [show Mode.connect = ⟨true, false, false⟩ from rfl, checkCertissuerUpdate_up hnext hsel false]
    simp
  | certTransfer =>
    simp only [checkCertOp] at hsel ⊢
    have htransfer : checkCertTransfer env Mode.connect pindexPrev pindex tx prev vvch theCertIssuer pool' = .ok () :=
      (checkCertTransfer_up hnext hsel).1
    simp [htransfer]
  | _ => simp [checkCertOp] at hsel

theorem checkCertOp_check {prev : Option Prev} {theCertIssuer : CCertIssuer} {s s' : CertState}
    (hnext : pindex.nHeight = pindexPrev.nHeight + 1)
    (hsel : checkCertOp env Mode.connect pindexPrev pindexPrev tx prev vvch theCertIssuer pool s op = .ok ())
    (h : op ∉ [Op.certissuerActivate, Op.certissuerUpdate] ∨
      ∀ p ∈ prev, pindex.nHeight < p.prevCoins.nHeight + getCertExpirationDepth pindex.nHeight) :
    checkCertOp env ⟨true, false, true⟩ pindexPrev pindex tx prev vvch theCertIssuer pool' s' op = .ok () := by
  cases op with
  | certissuerNew => exact hsel
  | certissuerActivate =>
    simp only [checkCertOp, checkCertissuerActivate, require_bind_ok_iff] at hsel ⊢
    obtain ⟨hfee, -, hlen₁, hlen₂, -⟩ := hsel
    have hfall : getCertNetworkFee env 1 pindex.nHeight ≤ getCertNetworkFee env 1 pindexPrev.nHeight :=
      getCertNetworkFee_antitone (by omega)
    refine ⟨by omega, .inl trivial, hlen₁, hlen₂, ?_⟩
    cases prev with
    | none => rfl
    | some p => simp
  | certissuerUpdate =>
    simp only [checkCertOp] at hsel ⊢
    rw [checkCertissuerUpdate_up hnext hsel true]
    simpa using h
  | certNew =>
    simp only [checkCertOp, checkCertNew, require_bind_ok_iff, require_ok_iff] at hsel ⊢
    exact ⟨hsel.1, hsel.2.1, by simp, by simp⟩
  | certTransfer =>
    simp only [checkCertOp, checkCertTransfer, require_bind_ok_iff] at hsel ⊢
    obtain ⟨-, hlen₀, hlen₁, -⟩ := hsel
    refine ⟨.inl trivial, hlen₀, hlen₁, ?_⟩
    cases prev with
    | none => rfl
    | some p => simp
  | _ => simp [checkCertOp] at hsel

/-- **The certificate rules accept** iff their switch does, and the write if there is one. -/
theorem certRules_isOk_iff {m : Mode} {s : Store} (hcb : tx.isCoinBase = false) :
    (∃ s', certRules env m pindexPrev pindex tx inputs s = (.ok (), s')) ↔
      ∀ r ∈ decodeCertTx tx,
        if tx.nVersion ≠ SYSCOIN_TX_VERSION then findPrev decodeCertScript inputs tx.vin = none
        else (arg r.2.2 0).length ≤ MAX_NAME_LENGTH ∧
          checkCertOp env m pindexPrev pindex tx (findPrev decodeCertScript inputs tx.vin) r.2.2 (CCertIssuer.ofTx tx)
            s.dummyTestPool s.certdb r.1 = .ok () ∧
          (r.1 ≠ .certissuerNew ∧ m.writes pindex pindexPrev →
            ∃ x, connectCert env pindex tx r.1 r.2.2 (CCertIssuer.ofTx tx) s.certdb s.dummyTestPool = .ok x) := by
  simp only [certRules, Proc.update_ok_iff]
  cases hop : decodeCertTx tx with
  | none => simp
  | some r =>
    simp only [Option.isSome_some, if_true, Option.mem_some_iff, forall_eq']
    refine exists_stored_iff.trans ?_
    unfold checkCertInputs
    rw [if_neg (by simp [hcb])]
    dsimp only
    split
    · rw [← Option.isNone_iff_eq_none]
      simp only [require_bind_ok_iff]
      simp
    · obtain ⟨op, nOut, vvch⟩ := r
      simp only [hop]
      exact guarded_write_iff

/-- The write of a certificate operation that the selection let through does not fail. -/
theorem connectCert_up {prev : Option Prev} {s s' : CertState} (hnext : pindex.nHeight = pindexPrev.nHeight + 1)
    (hsel : checkCertOp env Mode.connect pindexPrev pindexPrev tx prev vvch (CCertIssuer.ofTx tx) pool s op = .ok ()) :
    ∃ x, connectCert env pindex tx op vvch (CCertIssuer.ofTx tx) s' pool' = .ok x := by
  unfold connectCert
  by_cases hitem : op = .certNew ∨ op = .certTransfer
  · rw [if_pos hitem]
    have hpayload : ((CCertIssuer.ofTx tx).getCertItemByHash (arg vvch 1)).isSome = true := by
      rcases hitem with rfl | rfl
      · simp only [checkCertOp, checkCertNew, require_bind_ok_iff, require_ok_iff] at hsel
        exact hsel.2.2.1 ⟨rfl, rfl⟩
      · have htransfer : checkCertTransfer env Mode.connect pindexPrev pindex tx prev vvch (CCertIssuer.ofTx tx) pool =
            .ok () ∧ _ := checkCertTransfer_up hnext hsel
        exact htransfer.2
    obtain ⟨c, hc⟩ := Option.isSome_iff_exists.mp hpayload
    unfold connectItem
    simp only [hc]
    exact ⟨_, rfl⟩
  · rw [if_neg hitem]
    exact ⟨_, rfl⟩

theorem certRules_up {s₀ s₁ s : Store} (hcb : tx.isCoinBase = false) (hnext : pindex.nHeight = pindexPrev.nHeight + 1)
    (hsel : certRules env Mode.connect pindexPrev pindexPrev tx inputs s₀ = (.ok (), s₁)) :
    (∃ s', certRules env Mode.connect pindexPrev pindex tx inputs s = (.ok (), s')) ↔
      (tx.nVersion ≠ SYSCOIN_TX_VERSION ∨ IssuerUnexpired pindex tx inputs) := by
  have hsel := (certRules_isOk_iff hcb).mp ⟨s₁, hsel⟩
  rw [certRules_isOk_iff hcb, IssuerUnexpired, OpenAt]
  change _ ↔ (_ ∨ ∀ r ∈ decodeCertTx tx, _)
  by_cases hver : tx.nVersion ≠ SYSCOIN_TX_VERSION
  · simp only [if_pos hver] at hsel ⊢
    exact ⟨fun _ => .inl hver, fun _ => hsel⟩
  · simp only [if_neg hver] at hsel ⊢
    rw [or_iff_right hver]
    refine forall₂_congr fun r hr => ?_
    obtain ⟨hlen, hcheck, -⟩ := hsel r hr
    rw [checkCertOp_up hnext hcheck]
    exact ⟨fun h => h.2.1, fun h => ⟨hlen, h, fun _ => connectCert_up hnext hcheck⟩⟩

theorem certRules_check {s₀ s₁ s : Store} (hcb : tx.isCoinBase = false)
    (hnext : pindex.nHeight = pindexPrev.nHeight + 1)
    (hsel : certRules env Mode.connect pindexPrev pindexPrev tx inputs s₀ = (.ok (), s₁))
    (h : tx.nVersion ≠ SYSCOIN_TX_VERSION ∨ IssuerUnexpired pindex tx inputs) :
    ∃ s', certRules env ⟨true, false, true⟩ pindexPrev pindex tx inputs s = (.ok (), s') := by
  have hsel := (certRules_isOk_iff hcb).mp ⟨s₁, hsel⟩
  rw [certRules_isOk_iff hcb]
  intro r hr
  have hsel := hsel r hr
  by_cases hver : tx.nVersion ≠ SYSCOIN_TX_VERSION
  · simpa only [if_pos hver] using hsel
  · simp only [if_neg hver] at hsel ⊢
    refine ⟨hsel.1, checkCertOp_check hnext hsel.2.1 (h.resolve_left hver r hr), ?_⟩
    rintro ⟨-, hwrites⟩
    simp [Mode.writes] at hwrites

/-! ### All three -/

/-- **The service rules one height up.** What the selection has let through, a connecting block lets through iff the
    transaction's turn allows it. -/
theorem serviceRules_up {s₀ s₁ s : Store} (hcb : tx.isCoinBase = false)
    (hnext : pindex.nHeight = pindexPrev.nHeight + 1)
    (hsel : serviceRules env Mode.connect pindexPrev pindexPrev tx inputs s₀ = (.ok (), s₁)) :
    (∃ s', serviceRules env Mode.connect pindexPrev pindex tx inputs s = (.ok (), s')) ↔ Turn pindex tx inputs s := by
  obtain ⟨_, _, hselA, hsel⟩ := Proc.bind_ok_iff.mp hsel
  obtain ⟨_, _, hselO, hselC⟩ := Proc.bind_ok_iff.mp hsel
  constructor
  · rintro ⟨s', h⟩
    obtain ⟨_, sA, hA, h⟩ := Proc.bind_ok_iff.mp h
    obtain ⟨_, sO, hO, hC⟩ := Proc.bind_ok_iff.mp h
    obtain ⟨-, pool, hsA⟩ := aliasRules_ok hcb hA
    have hoffers : sA.offerdb = s.offerdb := by rw [hsA]
    have halias := (aliasRules_up hcb hnext hselA).mp ⟨sA, hA⟩
    have hoffer := (offerRules_up hcb hnext hselO).mp ⟨sO, hO⟩
    have hcert := (certRules_up hcb hnext hselC).mp ⟨s', hC⟩
    rw [hoffers] at hoffer
    by_cases hver : tx.nVersion ≠ SYSCOIN_TX_VERSION
    · exact .inl hver
    · have hoffer := hoffer.resolve_left hver
      exact .inr ⟨halias.resolve_left hver, hoffer.1, hoffer.2, hcert.resolve_left hver⟩
  · intro hturn
    obtain ⟨sA, hA⟩ := (aliasRules_up (s := s) hcb hnext hselA).mpr (hturn.imp_right And.left)
    obtain ⟨-, pool, hsA⟩ := aliasRules_ok hcb hA
    have hoffers : sA.offerdb = s.offerdb := by rw [hsA]
    obtain ⟨sO, hO⟩ := (offerRules_up (s := sA) hcb hnext hselO).mpr
      (by rw [hoffers]; exact hturn.imp_right fun h => ⟨h.2.1, h.2.2.1⟩)
    obtain ⟨sC, hC⟩ := (certRules_up (s := sO) hcb hnext hselC).mpr (hturn.imp_right fun h => h.2.2.2)
    exact ⟨sC, Proc.bind_ok_iff.mpr ⟨_, sA, hA, Proc.bind_ok_iff.mpr ⟨_, sO, hO, hC⟩⟩⟩

theorem OpenAt.of_height {decode : CScript → Option (Op × List Bytes)} {ops : List Op} {depth : Nat → Nat}
    {pindex' : CBlockIndex} (hheight : pindex'.nHeight = pindex.nHeight)
    (h : OpenAt decode ops depth pindex' tx inputs) : OpenAt decode ops depth pindex tx inputs := by
  unfold OpenAt at h ⊢
  rw [hheight] at h
  exact h

/-- A mere check goes through if any block at this height would grant the turn. -/
theorem serviceRules_check {s₀ s₁ s t : Store} {pindex' : CBlockIndex} (hcb : tx.isCoinBase = false)
    (hnext : pindex.nHeight = pindexPrev.nHeight + 1) (hheight : pindex'.nHeight = pindex.nHeight)
    (hsel : serviceRules env Mode.connect pindexPrev pindexPrev tx inputs s₀ = (.ok (), s₁))
    (hturn : Turn pindex' tx inputs t) :
    ∃ s', serviceRules env ⟨true, false, true⟩ pindexPrev pindex tx inputs s = (.ok (), s') := by
  obtain ⟨_, _, hselA, hsel⟩ := Proc.bind_ok_iff.mp hsel
  obtain ⟨_, _, hselO, hselC⟩ := Proc.bind_ok_iff.mp hsel
  obtain ⟨sA, hA⟩ := aliasRules_check (s := s) hcb hnext hselA (hturn.imp_right fun h => h.1.of_height hheight)
  obtain ⟨sO, hO⟩ := offerRules_check (s := sA) hcb hnext hselO (hturn.imp_right fun h => h.2.1.of_height hheight)
  obtain ⟨sC, hC⟩ := certRules_check (s := sO) hcb hnext hselC (hturn.imp_right fun h => h.2.2.2.of_height hheight)
  exact ⟨sC, Proc.bind_ok_iff.mpr ⟨_, sA, hA, Proc.bind_ok_iff.mpr ⟨_, sO, hO, hC⟩⟩⟩

end OneUp

/-! ## `CheckInputs` in both places -/

/-- A signature that passes with pay-to-script-hash passes without: the redeem script is an additional test. -/
def P2SHOnTop (env : Env) : Prop :=
  ∀ scriptSig scriptPubKey tx nIn, env.verifyScript scriptSig scriptPubKey tx nIn true = true →
    env.verifyScript scriptSig scriptPubKey tx nIn false = true

section CheckInputs

variable {env : Env} {pindexPrev pindex : CBlockIndex} {tx : CTransaction} {v w : CoinsView} {m : Mode}

/-- The views have the same entries under the hashes of the inputs, or none. -/
def SameEntries (vin : List CTxIn) (v w : CoinsView) : Prop :=
  ∀ txin ∈ vin, w txin.prevout.hash = v txin.prevout.hash

theorem SameEntries.sameInputs {vin : List CTxIn} (h : SameEntries vin v w) : SameInputs vin v w := by
  intro txin hmem
  rw [CoinsView.getCoins, CoinsView.getCoins, h txin hmem]

theorem SameEntries.haveInputs_iff (h : SameEntries tx.vin v w) : tx.haveInputs w ↔ tx.haveInputs v := by
  unfold CTransaction.haveInputs
  refine or_congr_right (forall₂_congr fun txin hmem => ?_)
  rw [h txin hmem, h.sameInputs txin hmem]

theorem SameEntries.serviceRules_eq (h : SameEntries tx.vin v w) :
    serviceRules env m pindexPrev pindex tx w = serviceRules env m pindexPrev pindex tx v := by
  have halias : aliasRules env m pindexPrev pindex tx w = aliasRules env m pindexPrev pindex tx v := by
    simp only [aliasRules, checkAliasInputs, findPrev_congr h.sameInputs]
  have hoffer : offerRules env m pindexPrev pindex tx w = offerRules env m pindexPrev pindex tx v := by
    simp only [offerRules, checkOfferInputs, findPrev_congr h.sameInputs]
  have hcert : certRules env m pindexPrev pindex tx w = certRules env m pindexPrev pindex tx v := by
    simp only [certRules, checkCertInputs, findPrev_congr h.sameInputs]
  rw [serviceRules, serviceRules, halias, hoffer, hcert]

/-- **`CheckInputs` accepts** iff each of its parts does. -/
theorem checkInputs_ok_iff {nSpendHeight : Nat} {fScript fP2SH : Bool} {s s' : Store} {checks : List CScriptCheck}
    (hcb : tx.isCoinBase = false) :
    checkInputs env m pindexPrev pindex tx v nSpendHeight fScript fP2SH s = (.ok checks, s') ↔
      tx.haveInputs v ∧ ∃ nValueIn, checkTxIns env v nSpendHeight 0 tx.vin = .ok nValueIn ∧
        serviceRules env m pindexPrev pindex tx v s = (.ok (), s') ∧ checkTxFee env tx nValueIn = .ok () ∧
        checkScripts env v tx fScript fP2SH = .ok checks := by
  unfold checkInputs
  rw [if_neg (by simp [hcb]), checkSpend_eq, Proc.require_bind_ok_iff]
  refine and_congr_right fun _ => ?_
  rw [Proc.lift_bind_ok_iff]
  refine exists_congr fun nValueIn => and_congr_right fun _ => ?_
  rw [Proc.bind_ok_iff]
  constructor
  · rintro ⟨⟨⟩, s₁, hrules, h⟩
    obtain ⟨⟨⟩, hfee, h⟩ := Proc.lift_bind_ok_iff.mp h
    obtain ⟨hscripts, rfl⟩ := Proc.lift_ok_iff.mp h
    exact ⟨hrules, hfee, hscripts⟩
  · rintro ⟨hrules, hfee, hscripts⟩
    exact ⟨⟨⟩, s', hrules, Proc.lift_bind_ok_iff.mpr ⟨⟨⟩, hfee, Proc.lift_ok_iff.mpr ⟨hscripts, rfl⟩⟩⟩

theorem scriptChecks_run (hp2sh : P2SHOnTop env) {fP2SH : Bool}
    (h : (scriptChecks v tx true).all (·.run env) = true) : (scriptChecks v tx fP2SH).all (·.run env) = true := by
  cases fP2SH with
  | true => exact h
  | false =>
    rw [List.all_eq_true] at h ⊢
    intro check hcheck
    obtain ⟨i, hi, rfl⟩ := List.mem_mapIdx.mp hcheck
    have hrun := h _ (List.mem_mapIdx.mpr ⟨i, hi, rfl⟩)
    simp only [CScriptCheck.run, List.getElem?_eq_getElem hi] at hrun ⊢
    exact hp2sh _ _ _ _ hrun

/-- The signatures that the selection has verified pass, wherever and however they are verified again. -/
theorem checkScripts_up (hp2sh : P2SHOnTop env) {checks₀ : List CScriptCheck} {fScript fP2SH : Bool}
    (hsel : checkScripts env.inline v tx true true = .ok checks₀) :
    ∃ checks, checkScripts env v tx fScript fP2SH = .ok checks ∧ checks.all (·.run env) = true := by
  have hall : (scriptChecks v tx true).all (·.run env) = true := by
    unfold checkScripts at hsel
    rw [if_neg (by simp), if_pos (show env.inline.nScriptCheckThreads = 0 from rfl)] at hsel
    exact (require_bind_ok_iff.mp hsel).1
  have hall : (scriptChecks v tx fP2SH).all (·.run env) = true := scriptChecks_run hp2sh hall
  unfold checkScripts
  split
  · exact ⟨[], rfl, rfl⟩
  · split
    · exact ⟨[], require_bind_ok_iff.mpr ⟨hall, rfl⟩, rfl⟩
    · exact ⟨_, rfl, hall⟩

theorem checkTxIns_inline {nSpendHeight : Nat} {nValueIn : Int} {vin : List CTxIn} :
    checkTxIns env.inline v nSpendHeight nValueIn vin = checkTxIns env v nSpendHeight nValueIn vin := by
  induction vin generalizing nValueIn with
  | nil => rfl
  | cons txin vin ih =>
    simp only [checkTxIns, ih]
    rfl

/-- **`CheckInputs` elsewhere.** What the selection has accepted is accepted with any block and in any mode iff the
    service rules accept it there, and the signature checks that are queued pass. -/
theorem checkInputs_up {s₀ : Store} {checks₀ : List CScriptCheck} {nSpendHeight : Nat} (hp2sh : P2SHOnTop env)
    (hcb : tx.isCoinBase = false) (hsame : SameEntries tx.vin v w)
    (hsel : checkInputs env.inline Mode.connect pindexPrev pindexPrev tx v nSpendHeight true true s₀ =
      (.ok checks₀, s₀)) (pindex : CBlockIndex) (fScript fP2SH : Bool) :
    ∃ queue : List CScriptCheck, queue.all (·.run env) = true ∧ ∀ m s checks s',
      checkInputs env m pindexPrev pindex tx w nSpendHeight fScript fP2SH s = (.ok checks, s') ↔
        serviceRules env m pindexPrev pindex tx v s = (.ok (), s') ∧ checks = queue := by
  obtain ⟨hin, nValueIn, hvin, -, hfee, hscripts⟩ := (checkInputs_ok_iff hcb).mp hsel
  rw [checkTxIns_inline] at hvin
  obtain ⟨queue, hqueue, hrun⟩ : ∃ queue, checkScripts env v tx fScript fP2SH = .ok queue ∧
      queue.all (·.run env) = true := checkScripts_up hp2sh hscripts
  have hscripts' : checkScripts env w tx fScript fP2SH = .ok queue := by
    rw [← hqueue, checkScripts, checkScripts, hsame.sameInputs.scriptChecks_eq]
  refine ⟨queue, hrun, fun m s checks s' => ?_⟩
  rw [checkInputs_ok_iff hcb, hsame.serviceRules_eq, hsame.sameInputs.checkTxIns_eq]
  constructor
  · rintro ⟨-, n, -, hrules, -, h⟩
    rw [hscripts', Except.ok.injEq] at h
    exact ⟨hrules, h.symm⟩
  · rintro ⟨hrules, rfl⟩
    exact ⟨hsame.haveInputs_iff.mpr hin, nValueIn, hvin, hrules, hfee, hscripts'⟩

end CheckInputs

/-! ## The block -/

section Block

variable {env : Env} {args : MinerArgs} {pindexPrev pindex : CBlockIndex} {s₀ : Store} {h₀ : Uint256}

/-- **Where the two loops stand.** They agree on everything but the outputs of the coinbase, whose hash is `h₀`; the
    selection has none, so that nothing it takes can spend them. -/
structure Tracks (env : Env) (h₀ : Uint256) (acc : TemplateAcc) (bacc : ConnectAcc) : Prop where
  view : ∀ hash, hash ≠ h₀ → bacc.view hash = acc.view hash
  unspendable : ∀ coins ∈ acc.view h₀, coins.isPruned
  fees : bacc.nFees = acc.nFees
  nonneg : 0 ≤ acc.nFees
  sigOps : bacc.nSigOps ≤ acc.nBlockSigOps
  checks : bacc.checks.all (·.run env) = true

/-- A fully spent entry has nothing to spend. -/
theorem not_isAvailable_of_isPruned {coins : CCoins} (h : coins.isPruned) (n : Nat) : ¬ coins.isAvailable n := by
  rintro ⟨hn, hout⟩
  refine hout (h _ ?_)
  rw [CCoins.output, List.getD_eq_getElem?_getD, List.getElem?_eq_getElem hn]
  exact List.getElem_mem hn

/-- What is spent is not an output of the coinbase. -/
theorem Tracks.spends_other {acc : TemplateAcc} {bacc : ConnectAcc} {tx : CTransaction} (h : Tracks env h₀ acc bacc)
    (hcb : tx.isCoinBase = false) (hin : tx.haveInputs acc.view) {txin : CTxIn} (hmem : txin ∈ tx.vin) :
    txin.prevout.hash ≠ h₀ := by
  rintro rfl
  rcases hin with hin | hin
  · rw [hcb] at hin
    cases hin
  · obtain ⟨hsome, havail⟩ := hin txin hmem
    obtain ⟨coins, hcoins⟩ := Option.isSome_iff_exists.mp hsome
    rw [show acc.view.getCoins txin.prevout.hash = coins by simp [CoinsView.getCoins, hcoins]] at havail
    exact not_isAvailable_of_isPruned (h.unspendable coins hcoins) _ havail

theorem Tracks.sameEntries {acc : TemplateAcc} {bacc : ConnectAcc} {tx : CTransaction} (h : Tracks env h₀ acc bacc)
    (hcb : tx.isCoinBase = false) (hin : tx.haveInputs acc.view) : SameEntries tx.vin acc.view bacc.view :=
  fun _ hmem => h.view _ (h.spends_other hcb hin hmem)

/-- Spending inputs in two views that differ elsewhere. -/
theorem spendInputs_aside {vin : List CTxIn} {v v' w : CoinsView} {txundo : CTxUndo}
    (hother : ∀ txin ∈ vin, txin.prevout.hash ≠ h₀) (hview : ∀ hash, hash ≠ h₀ → w hash = v hash)
    (h : spendInputs vin v = .ok (v', txundo)) :
    v' h₀ = v h₀ ∧ ∃ w', spendInputs vin w = .ok (w', txundo) ∧ ∀ hash, hash ≠ h₀ → w' hash = v' hash := by
  induction vin generalizing v w txundo with
  | nil =>
    simp only [spendInputs, Except.ok.injEq, Prod.mk.injEq] at h
    obtain ⟨rfl, rfl⟩ := h
    exact ⟨rfl, w, rfl, hview⟩
  | cons txin vin ih =>
    obtain ⟨hhead, htail⟩ := List.forall_mem_cons.mp hother
    have hcoins : w.getCoins txin.prevout.hash = v.getCoins txin.prevout.hash := by
      rw [CoinsView.getCoins, CoinsView.getCoins, hview _ hhead]
    unfold spendInputs at h ⊢
    rw [hcoins]
    cases hspend : (v.getCoins txin.prevout.hash).spend txin.prevout.n with
    | none => simp [hspend] at h
    | some r =>
      obtain ⟨coins, undo⟩ := r
      simp only [hspend] at h ⊢
      obtain ⟨⟨v₁, undos⟩, hrec, h⟩ := Except.bind_ok_iff.mp h
      simp only [Except.ok.injEq, Prod.mk.injEq] at h
      obtain ⟨rfl, rfl⟩ := h
      have hview' : ∀ hash, hash ≠ h₀ → Function.update w txin.prevout.hash (some coins) hash =
          Function.update v txin.prevout.hash (some coins) hash := by
        intro hash hne
        by_cases heq : hash = txin.prevout.hash
        · rw [heq, Function.update_self, Function.update_self]
        · rw [Function.update_of_ne heq, Function.update_of_ne heq, hview hash hne]
      obtain ⟨hkeep, w', hw, hagree⟩ := ih htail hview' hrec
      refine ⟨?_, w', Except.bind_ok_iff.mpr ⟨(w', undos), hw, rfl⟩, hagree⟩
      rw [hkeep, Function.update_of_ne (Ne.symm hhead)]

theorem updateCoins_aside {tx : CTransaction} {nHeight : Nat} {v v' w : CoinsView} {txundo : CTxUndo}
    (hcb : tx.isCoinBase = false) (hhash : env.getHash tx ≠ h₀) (hother : ∀ txin ∈ tx.vin, txin.prevout.hash ≠ h₀)
    (hview : ∀ hash, hash ≠ h₀ → w hash = v hash) (h : updateCoins env tx nHeight v = .ok (v', txundo)) :
    v' h₀ = v h₀ ∧ ∃ w', updateCoins env tx nHeight w = .ok (w', txundo) ∧ ∀ hash, hash ≠ h₀ → w' hash = v' hash := by
  unfold updateCoins at h ⊢
  rw [if_neg (by simp [hcb])] at h ⊢
  obtain ⟨⟨v₁, undos⟩, hspend, h⟩ := Except.bind_ok_iff.mp h
  simp only [Except.ok.injEq, Prod.mk.injEq] at h
  obtain ⟨rfl, rfl⟩ := h
  obtain ⟨hkeep, w₁, hw, hagree⟩ := spendInputs_aside hother hview hspend
  refine ⟨?_, _, Except.bind_ok_iff.mpr ⟨(w₁, undos), hw, rfl⟩, fun hash hne => ?_⟩
  · rw [Function.update_of_ne (Ne.symm hhash), hkeep]
  · by_cases heq : hash = env.getHash tx
    · rw [heq, Function.update_self, Function.update_self]
    · rw [Function.update_of_ne heq, Function.update_of_ne heq, hagree hash hne]

theorem addFee_ok_iff {nFees nTxFee n : Int} : addFee nFees nTxFee = .ok n ↔ nFees + nTxFee < 2 ^ 63 ∧ n = nFees + nTxFee := by
  unfold addFee
  rw [require_bind_ok_iff, Except.ok.injEq, eq_comm (a := n)]

/-- **One transaction.** The step of `ConnectBlock` that follows a step of the selection goes through iff the service
    rules let it, and its outcome is fixed. -/
theorem connectTx_up {acc acc' : TemplateAcc} {bacc : ConnectAcc} {tx : CTransaction} (hp2sh : P2SHOnTop env)
    (hcb : tx.isCoinBase = false) (hnext : pindex.nHeight = pindexPrev.nHeight + 1) (hhash : env.getHash tx ≠ h₀)
    (hpicked : Picked env args pindexPrev s₀ acc tx acc') (h : Tracks env h₀ acc bacc) :
    ∃ bacc', Tracks env h₀ acc' bacc' ∧ ∀ fJustCheck s r s',
      connectTx env fJustCheck pindexPrev pindex bacc tx s = (.ok r, s') ↔
        serviceRules env ⟨true, false, fJustCheck⟩ pindexPrev pindex tx acc.view s = (.ok (), s') ∧ r = bacc' := by
  obtain ⟨-, hlegacy, hin, hp2shOps⟩ := hpicked.room
  obtain ⟨checks₀, hchecked⟩ := hpicked.checked
  obtain ⟨txundo, hcoins⟩ := hpicked.coins
  obtain ⟨hsmall, hfees⟩ := addFee_ok_iff.mp hpicked.fees
  have hsame := h.sameEntries hcb hin
  have hother : ∀ txin ∈ tx.vin, txin.prevout.hash ≠ h₀ := fun txin hmem => h.spends_other hcb hin hmem
  obtain ⟨hkeep, view', hcoins', hview'⟩ := updateCoins_aside hcb hhash hother h.view hcoins
  have hpays : tx.getValueOut ≤ tx.getValueIn acc.view := by
    unfold checkInputs at hchecked
    rw [if_neg (by simp [hcb])] at hchecked
    exact (checkSpend_ok hcb hchecked).2.2
  have hops : p2shSigOps pindex bacc tx ≤ tx.getP2SHSigOpCount acc.view := by
    unfold p2shSigOps
    split
    · rw [hsame.sameInputs.getP2SHSigOpCount_eq]
    · exact Nat.zero_le _
  have hsigOps := h.sigOps
  -- the queue depends on the block's flags, but not on the mode
  obtain ⟨queue, hqueue, hcheck⟩ := checkInputs_up hp2sh hcb hsame hchecked pindex (fScriptChecks env pindex)
    (fStrictPayToScriptHash pindex)
  refine ⟨⟨view', acc'.nFees, bacc.nSigOps + tx.getLegacySigOpCount + p2shSigOps pindex bacc tx, bacc.checks ++ queue,
    bacc.blockundo ++ [txundo]⟩, ⟨hview', ?_, rfl, ?_, ?_, ?_⟩, fun fJustCheck s r s' => ?_⟩
  · rw [hkeep]
    exact h.unspendable
  · have hnonneg := h.nonneg
    show 0 ≤ acc'.nFees
    omega
  · show bacc.nSigOps + tx.getLegacySigOpCount + p2shSigOps pindex bacc tx ≤ acc'.nBlockSigOps
    rw [hpicked.sigOps]
    omega
  · show (bacc.checks ++ queue).all (·.run env) = true
    rw [List.all_append, h.checks, hqueue]
    rfl
  · have hfinish : (do
        let nFees ← addFee bacc.nFees (tx.getValueIn bacc.view - tx.getValueOut)
        finishTx env pindex bacc tx nFees (bacc.nSigOps + tx.getLegacySigOpCount + p2shSigOps pindex bacc tx) queue) =
          .ok ⟨view', acc'.nFees, bacc.nSigOps + tx.getLegacySigOpCount + p2shSigOps pindex bacc tx,
            bacc.checks ++ queue, bacc.blockundo ++ [txundo]⟩ := by
      refine Except.bind_ok_iff.mpr ⟨acc'.nFees, ?_, ?_⟩
      · rw [h.fees, hsame.sameInputs.getValueIn_eq]
        exact hpicked.fees
      · refine Except.bind_ok_iff.mpr ⟨(view', txundo), ?_, ?_⟩
        · rw [hnext]
          exact hcoins'
        · simp [hcb]
    unfold connectTx
    rw [if_neg (by simp [hcb]), Proc.require_bind_ok_iff, connectSpend, Proc.require_bind_ok_iff,
      Proc.require_bind_ok_iff, Proc.bind_ok_iff]
    constructor
    · rintro ⟨-, -, -, checks, s₁, hinputs, hrest⟩
      rw [hnext] at hinputs
      obtain ⟨hrules, rfl⟩ := (hcheck _ _ _ _).mp hinputs
      obtain ⟨hr, rfl⟩ := Proc.lift_ok_iff.mp hrest
      rw [hfinish, Except.ok.injEq] at hr
      exact ⟨hrules, hr.symm⟩
    · rintro ⟨hrules, rfl⟩
      refine ⟨by omega, hsame.haveInputs_iff.mpr hin, by omega, queue, s', ?_, ?_⟩
      · rw [hnext]
        exact (hcheck _ _ _ _).mpr ⟨hrules, rfl⟩
      · exact Proc.lift_ok_iff.mpr ⟨hfinish, rfl⟩

/-- A mere check does not write. -/
theorem serviceRules_unwritten {tx : CTransaction} {inputs : CoinsView} :
    Proc.Keeps SameStore (serviceRules env ⟨true, false, true⟩ pindexPrev pindex tx inputs) := by
  have hm : ¬ (⟨true, false, true⟩ : Mode).writes pindex pindexPrev := by simp [Mode.writes]
  exact Proc.Keeps.bind SameStore.trans (aliasRules_unwritten hm) fun _ =>
    Proc.Keeps.bind SameStore.trans (offerRules_unwritten hm) fun _ => certRules_unwritten hm

theorem Picked.rules {acc acc' : TemplateAcc} {tx : CTransaction} (hcb : tx.isCoinBase = false)
    (h : Picked env args pindexPrev s₀ acc tx acc') :
    serviceRules env Mode.connect pindexPrev pindexPrev tx acc.view s₀ = (.ok (), s₀) := by
  obtain ⟨checks, hchecked⟩ := h.checked
  obtain ⟨-, _, -, hrules, -⟩ := (checkInputs_ok_iff hcb).mp hchecked
  exact hrules

theorem Picked.coinsAfter_eq {acc acc' : TemplateAcc} {tx : CTransaction}
    (hnext : pindex.nHeight = pindexPrev.nHeight + 1)
    (h : Picked env args pindexPrev s₀ acc tx acc') : coinsAfter env pindex tx acc.view = acc'.view := by
  obtain ⟨txundo, hcoins⟩ := h.coins
  rw [coinsAfter, hnext, hcoins]

/-- **The transactions of a template** go through `ConnectBlock`'s loop iff each is granted its turn, and through that
    of a mere check at least then. -/
theorem connectTxs_up {acc acc' : TemplateAcc} {bacc : ConnectAcc} {txs : List CTransaction} (hp2sh : P2SHOnTop env)
    (hnext : pindex.nHeight = pindexPrev.nHeight + 1) (hcb : ∀ tx ∈ txs, tx.isCoinBase = false)
    (hhash : ∀ tx ∈ txs, env.getHash tx ≠ h₀) (hsel : Selected env args pindexPrev s₀ acc txs acc')
    (h : Tracks env h₀ acc bacc) :
    ∃ bacc', Tracks env h₀ acc' bacc' ∧
      (∀ s r s', Proc.foldM (connectTx env false pindexPrev pindex) txs bacc s = (.ok r, s') ↔
        TurnsGranted env pindexPrev pindex txs acc.view s ∧ r = bacc' ∧
          s' = storeAfterTurns env pindexPrev pindex txs acc.view s) ∧
      (∀ pindex' s t, pindex'.nHeight = pindex.nHeight → TurnsGranted env pindexPrev pindex' txs acc.view s →
        Proc.foldM (connectTx env true pindexPrev pindex) txs bacc t = (.ok bacc', t)) := by
  induction hsel generalizing bacc with
  | nil acc =>
    refine ⟨bacc, h, fun s r s' => ?_, fun _ s t _ _ => rfl⟩
    rw [Proc.foldM_nil]
    simp only [Prod.mk.injEq, Except.ok.injEq]
    constructor
    · rintro ⟨rfl, rfl⟩
      exact ⟨fun site hsite => (List.not_mem_nil hsite).elim, rfl, rfl⟩
    · rintro ⟨-, rfl, rfl⟩
      exact ⟨rfl, rfl⟩
  | @cons acc acc₁ acc' tx txs hhead htail ih =>
    obtain ⟨hcbHead, hcbTail⟩ := List.forall_mem_cons.mp hcb
    obtain ⟨hhashHead, hhashTail⟩ := List.forall_mem_cons.mp hhash
    obtain ⟨bacc₁, hfollows₁, hstep⟩ := connectTx_up hp2sh hcbHead hnext hhashHead hhead h
    obtain ⟨bacc', hfollows', hreal, hcheck⟩ := ih hcbTail hhashTail hfollows₁
    have hrules := hhead.rules hcbHead
    -- the rest of the transactions is connected to the view that the first one leaves
    have hview : ∀ {pindex' : CBlockIndex}, pindex'.nHeight = pindex.nHeight →
        coinsAfter env pindex' tx acc.view = acc₁.view := fun hheight => hhead.coinsAfter_eq (hheight.trans hnext)
    have hsplit : ∀ {pindex' : CBlockIndex} (s : Store), pindex'.nHeight = pindex.nHeight →
        (TurnsGranted env pindexPrev pindex' (tx :: txs) acc.view s ↔ Turn pindex' tx acc.view s ∧
          TurnsGranted env pindexPrev pindex' txs acc₁.view (storeAfter env pindexPrev pindex' tx acc.view s)) := by
      intro pindex' s hheight
      unfold TurnsGranted
      rw [turns, List.forall_mem_cons, hview hheight]
    refine ⟨bacc', hfollows', fun s r s' => ?_, fun pindex' s t hheight hgranted => ?_⟩
    · rw [Proc.foldM_cons_ok_iff, hsplit s rfl, storeAfterTurns, hview rfl]
      constructor
      · rintro ⟨b, s₁, hconnect, hrest⟩
        obtain ⟨hrun, rfl⟩ := (hstep false s b s₁).mp hconnect
        have hstore : storeAfter env pindexPrev pindex tx acc.view s = s₁ := congrArg Prod.snd hrun
        obtain ⟨hgranted, hr, hs'⟩ := (hreal s₁ r s').mp hrest
        rw [hstore]
        exact ⟨⟨(serviceRules_up hcbHead hnext hrules).mp ⟨s₁, hrun⟩, hgranted⟩, hr, hs'⟩
      · rintro ⟨⟨hturn, hgranted⟩, hr, hs'⟩
        obtain ⟨s₁, hrun⟩ := (serviceRules_up hcbHead hnext hrules).mpr hturn
        have hstore : storeAfter env pindexPrev pindex tx acc.view s = s₁ := congrArg Prod.snd hrun
        rw [hstore] at hgranted hs'
        exact ⟨bacc₁, s₁, (hstep false s bacc₁ s₁).mpr ⟨hrun, rfl⟩, (hreal s₁ r s').mpr ⟨hgranted, hr, hs'⟩⟩
    · obtain ⟨hturn, hgranted⟩ := (hsplit s hheight).mp hgranted
      obtain ⟨t', hrun⟩ := serviceRules_check (s := t) hcbHead hnext hheight hrules hturn
      -- a dry run does not write, so that the rest sees the same store
      have hsame : SameStore t t' := serviceRules_unwritten.run hrun
      have ht' : t' = t := hsame
      subst ht'
      exact Proc.foldM_cons_ok_iff.mpr ⟨bacc₁, t', (hstep true t' bacc₁ t').mpr ⟨hrun, rfl⟩, hcheck _ _ t' hheight hgranted⟩

end Block

end Syscoin

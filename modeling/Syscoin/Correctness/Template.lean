import Syscoin.Correctness.DryRun

/-!
# `Correctness.Template` — does the miner's template connect

The selection pays itself a reward computed before the block's own fees are known, and its coinbase has a hash of its
own. With what the service rules ask of the turns (`TurnsGranted`), the reward (`RewardKept`) and what the coinbase
brings along, the list of what can go wrong is complete.
-/

namespace Syscoin

open Lib

/-! ## What the coinbase brings along -/

section Coinbase

variable {env : Env} {args : MinerArgs} {pindexPrev pindex : CBlockIndex} {scriptPubKey scriptSig : CScript}
  {nValue : Int} {txs : List CTransaction}

@[simp] theorem coinbaseTx_isCoinBase : (coinbaseTx scriptPubKey scriptSig nValue).isCoinBase = true := by
  simp [coinbaseTx, CTransaction.isCoinBase, COutPoint.isNull]

theorem coinbaseTx_sigOps : (coinbaseTx scriptPubKey scriptSig nValue).getLegacySigOpCount =
    getSigOpCount false scriptSig + getSigOpCount false scriptPubKey := by
  simp [coinbaseTx, CTransaction.getLegacySigOpCount]

/-- A coinbase passes `CheckTransaction` iff its value is in range. -/
theorem checkTransaction_coinbaseTx_iff (hlen : 2 ≤ scriptSig.length ∧ scriptSig.length ≤ 100)
    (hsize : (coinbaseTx scriptPubKey scriptSig nValue).getSerializeSize ≤ MAX_BLOCK_SIZE) :
    checkTransaction (coinbaseTx scriptPubKey scriptSig nValue) = .ok () ↔ moneyRange nValue := by
  have hver : (coinbaseTx scriptPubKey scriptSig nValue).nVersion ≠ SYSCOIN_TX_VERSION := by
    show (1 : Int) ≠ SYSCOIN_TX_VERSION
    decide
  have hvin : (coinbaseTx scriptPubKey scriptSig nValue).vin = [⟨⟨0, 2 ^ 32 - 1⟩, scriptSig, 2 ^ 32 - 1⟩] := rfl
  have hvout : (coinbaseTx scriptPubKey scriptSig nValue).vout = [⟨nValue, scriptPubKey⟩] := rfl
  have hout : checkOutputs 0 [⟨nValue, scriptPubKey⟩] = .ok () ↔ moneyRange nValue := by
    simp [checkOutputs, moneyRange]
    tauto
  unfold checkTransaction
  simp only [require_bind_ok_iff, if_pos hver, hvin, hvout, coinbaseTx_isCoinBase]
  constructor
  · rintro ⟨-, -, -, h⟩
    obtain ⟨_, h, -⟩ := Except.bind_ok_iff.mp h
    exact hout.mp h
  · intro hmoney
    refine ⟨by simp, by simp, hsize, Except.bind_ok_iff.mpr ⟨⟨⟩, hout.mpr hmoney, ?_⟩⟩
    simp only [require_bind_ok_iff]
    exact ⟨by simp, fun _ txin htxin => by rw [List.mem_singleton.mp htxin]; exact hlen, by simp, trivial⟩

theorem length_le_size (vtx : List CTransaction) : vtx.length ≤ (vtx.map (·.getSerializeSize)).sum := by
  induction vtx with
  | nil => simp
  | cons tx vtx ih =>
    have hpos : 1 ≤ tx.getSerializeSize := by
      unfold CTransaction.getSerializeSize
      omega
    rw [List.map_cons, List.sum_cons, List.length_cons]
    omega

/-- **`CheckBlock` on a coinbase with pool transactions.** What it may object to is the time, the value of the coinbase
    and its hash. -/
theorem checkBlock_coinbase_iff {nNow : Nat} {fCheckPOW fCheckMerkleRoot : Bool}
    (hvtx : pindex.block.vtx = coinbaseTx scriptPubKey scriptSig nValue :: txs)
    (hsize : pindex.block.getSerializeSize ≤ MAX_BLOCK_SIZE)
    (hlen : 2 ≤ scriptSig.length ∧ scriptSig.length ≤ 100)
    (hcb : ∀ tx ∈ txs, tx.isCoinBase = false) (hchecked : ∀ tx ∈ txs, checkTransaction tx = .ok ())
    (hdistinct : (txs.map env.getHash).Nodup)
    (hsigOps : ((coinbaseTx scriptPubKey scriptSig nValue).getLegacySigOpCount) +
      (txs.map (·.getLegacySigOpCount)).sum ≤ MAX_BLOCK_SIGOPS)
    (hwork : fCheckPOW = true → env.checkProofOfWork pindex.block pindex.nHeight = true)
    (hmerkle : fCheckMerkleRoot = true → pindex.block.hashMerkleRoot = pindex.block.buildMerkleTree env) :
    checkBlock env nNow pindex fCheckPOW fCheckMerkleRoot = .ok () ↔
      pindex.block.nTime ≤ nNow + 2 * 60 * 60 ∧ moneyRange nValue ∧
        env.getHash (coinbaseTx scriptPubKey scriptSig nValue) ∉ txs.map env.getHash := by
  have hsum : ((pindex.block.vtx).map (·.getSerializeSize)).sum ≤ MAX_BLOCK_SIZE := by
    unfold CBlock.getSerializeSize at hsize
    omega
  have hcount : pindex.block.vtx.length ≤ MAX_BLOCK_SIZE := le_trans (length_le_size _) hsum
  have hcoinbase : (coinbaseTx scriptPubKey scriptSig nValue).getSerializeSize ≤ MAX_BLOCK_SIZE := by
    rw [hvtx, List.map_cons, List.sum_cons] at hsum
    omega
  unfold checkBlock
  simp only [require_bind_ok_iff]
  rw [hvtx] at hcount ⊢
  simp only [List.head?_cons, Option.mem_some_iff, forall_eq', List.tail_cons, coinbaseTx_isCoinBase, List.map_cons,
    List.nodup_cons, List.sum_cons]
  constructor
  · rintro ⟨-, -, htime, -, -, h⟩
    obtain ⟨_, hall, h⟩ := Except.bind_ok_iff.mp h
    obtain ⟨hnodup, -⟩ := require_bind_ok_iff.mp h
    have hhead := Except.forM_ok_iff.mp hall _ List.mem_cons_self
    exact ⟨htime, (checkTransaction_coinbaseTx_iff hlen hcoinbase).mp hhead, hnodup.1⟩
  · rintro ⟨htime, hmoney, hnotin⟩
    refine ⟨⟨by simp, hcount, hsize⟩, hwork, htime, trivial, hcb, Except.bind_ok_iff.mpr ⟨⟨⟩, ?_, ?_⟩⟩
    · refine Except.forM_ok_iff.mpr (List.forall_mem_cons.mpr ⟨?_, hchecked⟩)
      exact (checkTransaction_coinbaseTx_iff hlen hcoinbase).mpr hmoney
    · refine require_bind_ok_iff.mpr ⟨⟨hnotin, hdistinct⟩, require_bind_ok_iff.mpr ⟨hsigOps, ?_⟩⟩
      exact require_ok_iff.mpr hmerkle

/-- The accumulator after the coinbase. -/
def afterCoinbase (env : Env) (pindex : CBlockIndex) (view : CoinsView) (coinbase : CTransaction) : ConnectAcc where
  view := Function.update view (env.getHash coinbase) (some (CCoins.ofTx coinbase pindex.nHeight))
  nFees := 0
  nSigOps := coinbase.getLegacySigOpCount
  checks := []
  blockundo := []

/-- The coinbase is the first transaction of the loop. -/
theorem connectTx_coinbase {fJustCheck : Bool} {view : CoinsView} {s s' : Store} {r : ConnectAcc}
    (hsigOps : (coinbaseTx scriptPubKey scriptSig nValue).getLegacySigOpCount ≤ 100) :
    connectTx env fJustCheck pindexPrev pindex ⟨view, 0, 0, [], []⟩ (coinbaseTx scriptPubKey scriptSig nValue) s =
        (.ok r, s') ↔
      r = afterCoinbase env pindex view (coinbaseTx scriptPubKey scriptSig nValue) ∧ s' = s := by
  have hmax : (100 : Nat) ≤ MAX_BLOCK_SIGOPS := by decide
  unfold connectTx
  rw [Proc.require_bind_ok_iff, if_pos coinbaseTx_isCoinBase, Proc.lift_ok_iff]
  simp only [finishTx, updateCoins, coinbaseTx_isCoinBase, if_true, Nat.zero_add, List.append_nil, afterCoinbase]
  constructor
  · rintro ⟨-, hr, rfl⟩
    exact ⟨(Except.ok.inj hr).symm, rfl⟩
  · rintro ⟨rfl, rfl⟩
    exact ⟨le_trans hsigOps hmax, rfl, rfl⟩

/-- The loop starts from where the selection started. -/
theorem tracks_coinbase {view : CoinsView} {coinbase : CTransaction} (hsigOps : coinbase.getLegacySigOpCount ≤ 100)
    (hfresh : ∀ coins ∈ view (env.getHash coinbase), coins.isPruned) :
    Tracks env (env.getHash coinbase) ⟨view, 0, 1000, 100, []⟩ (afterCoinbase env pindex view coinbase) where
  view := fun _ hne => Function.update_of_ne hne _ _
  unspendable := hfresh
  fees := rfl
  nonneg := le_refl _
  sigOps := hsigOps
  checks := rfl

/-- The coinbase pays at most what the block may claim over these fee lists. -/
def RewardKept (env : Env) (nHeight : Nat) (nFees nValue : Int) (s : Store) : Prop :=
  ∃ bValue, getBlockValue env s nHeight nFees = .ok bValue ∧
    (nHeight ≤ 1500 ∨ nValue ≤ if nHeight < hardforkLaunch then bValue + bValue * 8 else bValue)

theorem coinbaseTx_getValueOut : (coinbaseTx scriptPubKey scriptSig nValue).getValueOut = nValue := by
  simp [coinbaseTx, CTransaction.getValueOut]

theorem checkReward_iff {nFees : Int} {s : Store} (hnonneg : 0 ≤ nFees)
    (hvtx : pindex.block.vtx = coinbaseTx scriptPubKey scriptSig nValue :: txs) :
    checkReward env pindex nFees s = .ok () ↔ RewardKept env pindex.nHeight nFees nValue s := by
  have hvalue : (pindex.block.vtx.head?.map (·.getValueOut)).getD 0 = nValue := by
    rw [hvtx, List.head?_cons, Option.map_some, Option.getD_some, coinbaseTx_getValueOut]
  unfold checkReward RewardKept
  rw [hvalue, Except.bind_ok_iff]
  apply exists_congr
  intro bValue
  apply and_congr_right
  intro _
  rw [require_ok_iff, not_and_or, not_and_or, not_lt, not_lt]
  constructor
  · rintro (hneg | hle | hlow)
    · exact absurd hnonneg hneg
    · exact .inr hle
    · exact .inl hlow
  · rintro (hlow | hle)
    · exact .inr (.inr hlow)
    · exact .inr (.inl hle)

/-- What follows the loop fails over the reward only. -/
theorem connectEpilogue_isOk_iff {fJustCheck : Bool} {view : CoinsCache} {acc : TemplateAcc} {bacc : ConnectAcc}
    {h₀ : Uint256} {s : Store} (h : Tracks env h₀ acc bacc)
    (hvtx : pindex.block.vtx = coinbaseTx scriptPubKey scriptSig nValue :: txs) :
    (∃ r s', connectEpilogue env fJustCheck pindex view bacc s = (.ok r, s')) ↔
      RewardKept env pindex.nHeight acc.nFees nValue s := by
  have hnonneg : 0 ≤ bacc.nFees := by
    rw [h.fees]
    exact h.nonneg
  rw [← h.fees, ← checkReward_iff hnonneg hvtx]
  unfold connectEpilogue
  rw [if_neg (not_lt.mpr hnonneg)]
  constructor
  · rintro ⟨r, s', hrun⟩
    obtain ⟨s₁, hreward, -⟩ := Proc.update_bind_ok_iff.mp hrun
    obtain ⟨_, hreward, -⟩ := Except.bind_ok_iff.mp hreward
    exact hreward
  · intro hreward
    have hstart : ((checkReward env pindex bacc.nFees s).bind fun _ => .ok s) = .ok s :=
      Except.bind_ok_iff.mpr ⟨⟨⟩, hreward, rfl⟩
    cases fJustCheck with
    | true =>
      refine ⟨{ view with coins := bacc.view }, s, Proc.update_bind_ok_iff.mpr ⟨s, hstart, ?_⟩⟩
      exact Proc.require_bind_ok_iff.mpr ⟨h.checks, rfl⟩
    | false =>
      refine ⟨⟨bacc.view, some pindex⟩, writeBlock env pindex bacc.blockundo s,
        Proc.update_bind_ok_iff.mpr ⟨s, hstart, ?_⟩⟩
      exact Proc.require_bind_ok_iff.mpr ⟨h.checks, Proc.update_bind_ok_iff.mpr ⟨_, rfl, rfl⟩⟩

/-- **`ConnectBlock` on a coinbase with pool transactions.** -/
theorem connectBlock_coinbase_iff {fJustCheck : Bool} {nNow : Nat} {coins : CoinsView} {s : Store}
    (hgenesis : env.getBlockHash pindex.block ≠ env.hashGenesisBlock) (hpprev : pindex.pprev = some pindexPrev)
    (hvtx : pindex.block.vtx = coinbaseTx scriptPubKey scriptSig nValue :: txs)
    (hsigOps : (coinbaseTx scriptPubKey scriptSig nValue).getLegacySigOpCount ≤ 100) :
    (connectBlock env fJustCheck pindexPrev pindex nNow ⟨coins, some pindexPrev⟩ s).1.isOk = true ↔
      checkBlock env nNow pindex (!fJustCheck) (!fJustCheck) = .ok () ∧
      (∀ tx ∈ pindex.block.vtx, ∀ c ∈ coins (env.getHash tx), c.isPruned) ∧
      ∃ bacc s₁, Proc.foldM (connectTx env fJustCheck pindexPrev pindex) txs
          (afterCoinbase env pindex coins (coinbaseTx scriptPubKey scriptSig nValue)) s = (.ok bacc, s₁) ∧
        ∃ r s', connectEpilogue env fJustCheck pindex ⟨coins, some pindexPrev⟩ bacc s₁ = (.ok r, s') := by
  have hprologue : connectPrologue env fJustCheck pindex nNow ⟨coins, some pindexPrev⟩ = .ok () ↔
      checkBlock env nNow pindex (!fJustCheck) (!fJustCheck) = .ok () ∧
        ∀ tx ∈ pindex.block.vtx, ∀ c ∈ coins (env.getHash tx), c.isPruned := by
    unfold connectPrologue
    rw [Except.bind_ok_iff]
    constructor
    · rintro ⟨⟨⟩, hcheck, h⟩
      obtain ⟨-, h⟩ := require_bind_ok_iff.mp h
      exact ⟨hcheck, (require_ok_iff.mp h).resolve_left hgenesis⟩
    · rintro ⟨hcheck, hfresh⟩
      exact ⟨⟨⟩, hcheck, require_bind_ok_iff.mpr ⟨hpprev, require_ok_iff.mpr (.inr hfresh)⟩⟩
  rw [← and_assoc, ← hprologue]
  constructor
  · intro h
    obtain ⟨r, s', hrun⟩ := isOk_of_run h
    unfold connectBlock at hrun
    obtain ⟨⟨⟩, hpro, hrun⟩ := Proc.lift_bind_ok_iff.mp hrun
    rw [if_neg hgenesis] at hrun
    obtain ⟨bacc, s₁, hloop, hend⟩ := Proc.bind_ok_iff.mp hrun
    rw [hvtx, Proc.foldM_cons_ok_iff] at hloop
    obtain ⟨b, t, hfirst, hloop⟩ := hloop
    obtain ⟨rfl, rfl⟩ := (connectTx_coinbase hsigOps).mp hfirst
    exact ⟨hpro, bacc, s₁, hloop, r, s', hend⟩
  · rintro ⟨hpro, bacc, s₁, hloop, r, s', hend⟩
    have hrun : connectBlock env fJustCheck pindexPrev pindex nNow ⟨coins, some pindexPrev⟩ s = (.ok r, s') := by
      unfold connectBlock
      refine Proc.lift_bind_ok_iff.mpr ⟨⟨⟩, hpro, ?_⟩
      rw [if_neg hgenesis]
      refine Proc.bind_ok_iff.mpr ⟨bacc, s₁, ?_, hend⟩
      rw [hvtx, Proc.foldM_cons_ok_iff]
      exact ⟨_, s, (connectTx_coinbase hsigOps).mpr ⟨rfl, rfl⟩, hloop⟩
    rw [hrun]
    rfl

end Coinbase

/-! ## The template and the block -/

/-- The fees of transactions at their turns. -/
def turnFees (env : Env) (pindexBest pindex : CBlockIndex) (txs : List CTransaction) (view : CoinsView) (s : Store) :
    Int :=
  ((turns env pindexBest pindex txs view s).map fun site => site.tx.getValueIn site.inputs - site.tx.getValueOut).sum

/-- The inputs of a transaction with another script. -/
def CTransaction.withScriptSig (scriptSig : CScript) (tx : CTransaction) : CTransaction :=
  { tx with vin := tx.vin.map fun txin => { txin with scriptSig := scriptSig } }

/-- **What makes a template a block.** The worker is free in the script of the coinbase, as long as there is no
    signature operation in it, and in the header. -/
structure Solves (env : Env) (nNow : Nat) (pindexPrev : CBlockIndex) (template block : CBlock) : Prop where
  vtx : ∃ scriptSig : CScript, (2 ≤ scriptSig.length ∧ scriptSig.length ≤ 100) ∧ getSigOpCount false scriptSig = 0 ∧
    block.vtx = template.vtx.modifyHead (·.withScriptSig scriptSig)
  size : block.getSerializeSize ≤ MAX_BLOCK_SIZE
  time : block.nTime ≤ nNow + 2 * 60 * 60
  work : env.checkProofOfWork block (pindexPrev.nHeight + 1) = true
  merkle : block.hashMerkleRoot = block.buildMerkleTree env
  notGenesis : env.getBlockHash block ≠ env.hashGenesisBlock

/-- A payout script that leaves the coinbase within the thousand bytes and hundred signature operations that are set
    aside for it. A key or a key hash, or nothing, does. -/
structure MinerArgs.Payable (args : MinerArgs) : Prop where
  length : args.scriptPubKeyIn.length ≤ 800
  sigOps : getSigOpCount false args.scriptPubKeyIn ≤ 100

/-- **When a template connects**, and the block made from it. -/
structure Connectable (env : Env) (nNow : Nat) (pindexPrev : CBlockIndex) (coinsTip : CoinsView) (s : Store)
    (template block : CBlock) : Prop where
  clock : pindexPrev.getMedianTimePast + 1 ≤ nNow + 2 * 60 * 60
  fresh : ∀ tx ∈ template.vtx ++ block.vtx, ∀ c ∈ coinsTip (env.getHash tx), c.isPruned
  apart : (template.vtx.map env.getHash).Nodup ∧ (block.vtx.map env.getHash).Nodup
  granted : TurnsGranted env pindexPrev (indexOver pindexPrev block) template.vtx.tail coinsTip s
  reward : ∃ nValue,
    let nFees := turnFees env pindexPrev (indexOver pindexPrev block) template.vtx.tail coinsTip s
    getBlockValue env s (pindexPrev.nHeight + 1) nFees = .ok nValue ∧ moneyRange nValue ∧
      RewardKept env (pindexPrev.nHeight + 1) nFees nValue
        (storeAfterTurns env pindexPrev (indexOver pindexPrev block) template.vtx.tail coinsTip s)

@[simp] theorem indexOver_nHeight (pindexPrev : CBlockIndex) (block : CBlock) :
    (indexOver pindexPrev block).nHeight = pindexPrev.nHeight + 1 := rfl

section Template

variable {env : Env} {args : MinerArgs} {pindexPrev pindex : CBlockIndex} {s s₀ : Store} {coinsTip : CoinsView}
  {txs : List CTransaction} {acc acc' : TemplateAcc} {block : CBlock} {scriptSig : CScript} {nValue : Int}
  {nNow : Nat}

/-- The selection adds up the fees that the turns pay, whatever store the rules are run over. -/
theorem Selected.fees_eq (hnext : pindex.nHeight = pindexPrev.nHeight + 1)
    (h : Selected env args pindexPrev s₀ acc txs acc') (s : Store) :
    acc'.nFees = acc.nFees + turnFees env pindexPrev pindex txs acc.view s := by
  induction h generalizing s with
  | nil acc => simp [turnFees, turns]
  | @cons acc acc₁ acc' tx txs head _ ih =>
    have hfee := (addFee_ok_iff.mp head.fees).2
    have hview := head.coinsAfter_eq hnext
    rw [ih (storeAfter env pindexPrev pindex tx acc.view s), hfee, ← hview]
    show _ = acc.nFees + (List.map _ (_ :: _)).sum
    rw [List.map_cons, List.sum_cons, ← add_assoc]
    rfl

/-- What both runs of `ConnectBlock` are about: a coinbase over a selection that started from the coins of the tip. -/
structure Assembled (env : Env) (args : MinerArgs) (pindexPrev : CBlockIndex) (coinsTip : CoinsView) (s₀ : Store)
    (txs : List CTransaction) (acc' : TemplateAcc) : Prop where
  p2sh : P2SHOnTop env
  payable : args.Payable
  selected : Selected env args pindexPrev s₀ ⟨coinsTip, 0, 1000, 100, []⟩ txs acc'
  ordinary : ∀ tx ∈ txs, tx.isCoinBase = false
  checked : ∀ tx ∈ txs, checkTransaction tx = .ok ()
  distinct : (txs.map env.getHash).Nodup

/-- The signature operations of the coinbase are within what is set aside. -/
theorem Assembled.sigOps (h : Assembled env args pindexPrev coinsTip s₀ txs acc') (nValue : Int)
    (hsig : getSigOpCount false scriptSig = 0) :
    (coinbaseTx args.scriptPubKeyIn scriptSig nValue).getLegacySigOpCount ≤ 100 ∧
      (coinbaseTx args.scriptPubKeyIn scriptSig nValue).getLegacySigOpCount +
        (txs.map (·.getLegacySigOpCount)).sum ≤ MAX_BLOCK_SIGOPS := by
  have hpay := h.payable.sigOps
  have hsum := h.selected.sigOps_le (by show (100 : Nat) ≤ MAX_BLOCK_SIGOPS; decide)
  rw [coinbaseTx_sigOps, hsig, Nat.zero_add]
  exact ⟨hpay, le_trans (Nat.add_le_add_right hpay _) hsum⟩

/-- What the coinbase brings along fits. -/
structure CoinbaseFits (env : Env) (coinsTip : CoinsView) (vtx : List CTransaction) (nValue : Int) : Prop where
  money : moneyRange nValue
  apart : (vtx.map env.getHash).Nodup
  fresh : ∀ tx ∈ vtx, ∀ c ∈ coinsTip (env.getHash tx), c.isPruned

/-- `ConnectBlock` on such a block comes down to its loop and the reward. -/
theorem Assembled.connectBlock_iff {fJustCheck : Bool} (h : Assembled env args pindexPrev coinsTip s₀ txs acc')
    (hsig : getSigOpCount false scriptSig = 0) (hlen : 2 ≤ scriptSig.length ∧ scriptSig.length ≤ 100)
    (hvtx : block.vtx = coinbaseTx args.scriptPubKeyIn scriptSig nValue :: txs)
    (hsize : block.getSerializeSize ≤ MAX_BLOCK_SIZE)
    (hsolved : fJustCheck = false →
      env.checkProofOfWork block (pindexPrev.nHeight + 1) = true ∧ block.hashMerkleRoot = block.buildMerkleTree env)
    (hgenesis : env.getBlockHash block ≠ env.hashGenesisBlock) :
    (connectBlock env fJustCheck pindexPrev (indexOver pindexPrev block) nNow ⟨coinsTip, some pindexPrev⟩ s).1.isOk =
        true ↔
      block.nTime ≤ nNow + 2 * 60 * 60 ∧ CoinbaseFits env coinsTip block.vtx nValue ∧
      ∃ bacc s₁, Proc.foldM (connectTx env fJustCheck pindexPrev (indexOver pindexPrev block)) txs
          (afterCoinbase env (indexOver pindexPrev block) coinsTip
            (coinbaseTx args.scriptPubKeyIn scriptSig nValue)) s = (.ok bacc, s₁) ∧
        ∃ r s', connectEpilogue env fJustCheck (indexOver pindexPrev block) ⟨coinsTip, some pindexPrev⟩ bacc s₁ =
          (.ok r, s') := by
  obtain ⟨hops, hsum⟩ := h.sigOps nValue hsig
  have hcheck : checkBlock env nNow (indexOver pindexPrev block) (!fJustCheck) (!fJustCheck) = .ok () ↔
      block.nTime ≤ nNow + 2 * 60 * 60 ∧ moneyRange nValue ∧
        env.getHash (coinbaseTx args.scriptPubKeyIn scriptSig nValue) ∉ txs.map env.getHash :=
    checkBlock_coinbase_iff hvtx hsize hlen h.ordinary h.checked h.distinct hsum
      (fun hwork => (hsolved (by simpa using hwork)).1) (fun hroot => (hsolved (by simpa using hroot)).2)
  have hnodup : (block.vtx.map env.getHash).Nodup ↔
      env.getHash (coinbaseTx args.scriptPubKeyIn scriptSig nValue) ∉ txs.map env.getHash := by
    rw [hvtx, List.map_cons, List.nodup_cons]
    exact and_iff_left h.distinct
  rw [connectBlock_coinbase_iff hgenesis rfl hvtx hops, hcheck, ← hnodup]
  constructor
  · rintro ⟨⟨htime, hmoney, hapart⟩, hfresh, hrest⟩
    exact ⟨htime, ⟨hmoney, hapart, hfresh⟩, hrest⟩
  · rintro ⟨htime, hfits, hrest⟩
    exact ⟨⟨htime, hfits.money, hfits.apart⟩, hfits.fresh, hrest⟩

/-- The two loops on a block whose coinbase fits. -/
theorem Assembled.connectTxs (h : Assembled env args pindexPrev coinsTip s₀ txs acc')
    (hsig : getSigOpCount false scriptSig = 0)
    (hvtx : block.vtx = coinbaseTx args.scriptPubKeyIn scriptSig nValue :: txs)
    (hfits : CoinbaseFits env coinsTip block.vtx nValue) :
    ∃ bacc, Tracks env (env.getHash (coinbaseTx args.scriptPubKeyIn scriptSig nValue)) acc' bacc ∧
      (∀ s r s', Proc.foldM (connectTx env false pindexPrev (indexOver pindexPrev block)) txs
          (afterCoinbase env (indexOver pindexPrev block) coinsTip
            (coinbaseTx args.scriptPubKeyIn scriptSig nValue)) s = (.ok r, s') ↔
        TurnsGranted env pindexPrev (indexOver pindexPrev block) txs coinsTip s ∧ r = bacc ∧
          s' = storeAfterTurns env pindexPrev (indexOver pindexPrev block) txs coinsTip s) ∧
      (∀ pindex' s t, pindex'.nHeight = pindexPrev.nHeight + 1 → TurnsGranted env pindexPrev pindex' txs coinsTip s →
        Proc.foldM (connectTx env true pindexPrev (indexOver pindexPrev block)) txs
          (afterCoinbase env (indexOver pindexPrev block) coinsTip
            (coinbaseTx args.scriptPubKeyIn scriptSig nValue)) t = (.ok bacc, t)) := by
  obtain ⟨hops, -⟩ := h.sigOps nValue hsig
  have hapart := hfits.apart
  have hfresh := hfits.fresh
  rw [hvtx, List.map_cons, List.nodup_cons] at hapart
  rw [hvtx] at hfresh
  have hhash : ∀ tx ∈ txs, env.getHash tx ≠ env.getHash (coinbaseTx args.scriptPubKeyIn scriptSig nValue) := by
    intro tx htx heq
    exact hapart.1 (List.mem_map.mpr ⟨tx, htx, heq⟩)
  exact connectTxs_up h.p2sh (indexOver_nHeight _ _) h.ordinary hhash h.selected
    (tracks_coinbase hops (hfresh _ List.mem_cons_self))

/-- **The real run.** -/
theorem Assembled.connects_iff (h : Assembled env args pindexPrev coinsTip s₀ txs acc')
    (hsig : getSigOpCount false scriptSig = 0) (hlen : 2 ≤ scriptSig.length ∧ scriptSig.length ≤ 100)
    (hvtx : block.vtx = coinbaseTx args.scriptPubKeyIn scriptSig nValue :: txs)
    (hsize : block.getSerializeSize ≤ MAX_BLOCK_SIZE) (htime : block.nTime ≤ nNow + 2 * 60 * 60)
    (hwork : env.checkProofOfWork block (pindexPrev.nHeight + 1) = true)
    (hmerkle : block.hashMerkleRoot = block.buildMerkleTree env)
    (hgenesis : env.getBlockHash block ≠ env.hashGenesisBlock) :
    (connectBlock env false pindexPrev (indexOver pindexPrev block) nNow ⟨coinsTip, some pindexPrev⟩ s).1.isOk =
        true ↔
      CoinbaseFits env coinsTip block.vtx nValue ∧
      TurnsGranted env pindexPrev (indexOver pindexPrev block) txs coinsTip s ∧
      RewardKept env (pindexPrev.nHeight + 1) acc'.nFees nValue
        (storeAfterTurns env pindexPrev (indexOver pindexPrev block) txs coinsTip s) := by
  rw [h.connectBlock_iff hsig hlen hvtx hsize (fun _ => ⟨hwork, hmerkle⟩) hgenesis, and_iff_right htime]
  apply and_congr_right
  intro hfits
  obtain ⟨bacc, hfollows, hreal, -⟩ := h.connectTxs hsig hvtx hfits
  have hvtx' : (indexOver pindexPrev block).block.vtx = coinbaseTx args.scriptPubKeyIn scriptSig nValue :: txs := hvtx
  constructor
  · rintro ⟨bacc', s₁, hloop, hend⟩
    obtain ⟨hgranted, rfl, rfl⟩ := (hreal s bacc' s₁).mp hloop
    exact ⟨hgranted, (connectEpilogue_isOk_iff hfollows hvtx').mp hend⟩
  · rintro ⟨hgranted, hreward⟩
    exact ⟨bacc, _, (hreal s _ _).mpr ⟨hgranted, rfl, rfl⟩, (connectEpilogue_isOk_iff hfollows hvtx').mpr hreward⟩

/-- **The dry run.** -/
theorem Assembled.checks (h : Assembled env args pindexPrev coinsTip s₀ txs acc')
    (hsig : getSigOpCount false scriptSig = 0) (hlen : 2 ≤ scriptSig.length ∧ scriptSig.length ≤ 100)
    (hvtx : block.vtx = coinbaseTx args.scriptPubKeyIn scriptSig nValue :: txs)
    (hsize : block.getSerializeSize ≤ MAX_BLOCK_SIZE) (htime : block.nTime ≤ nNow + 2 * 60 * 60)
    (hgenesis : env.getBlockHash block ≠ env.hashGenesisBlock) (hfits : CoinbaseFits env coinsTip block.vtx nValue)
    (hnext : pindex.nHeight = pindexPrev.nHeight + 1) (hgranted : TurnsGranted env pindexPrev pindex txs coinsTip s)
    (hvalue : getBlockValue env s (pindexPrev.nHeight + 1) acc'.nFees = .ok nValue) :
    (connectBlock env true pindexPrev (indexOver pindexPrev block) nNow ⟨coinsTip, some pindexPrev⟩ s).1.isOk = true := by
  obtain ⟨bacc, hfollows, -, hcheck⟩ := h.connectTxs hsig hvtx hfits
  have hvtx' : (indexOver pindexPrev block).block.vtx = coinbaseTx args.scriptPubKeyIn scriptSig nValue :: txs := hvtx
  have hreward : RewardKept env (pindexPrev.nHeight + 1) acc'.nFees nValue s := by
    refine ⟨nValue, hvalue, .inr ?_⟩
    have hnonneg := hfits.money.1
    split
    · omega
    · exact le_refl _
  refine (h.connectBlock_iff hsig hlen hvtx hsize ?_ hgenesis).mpr ⟨htime, hfits, bacc, s, ?_, ?_⟩
  · intro hfalse
    cases hfalse
  · exact hcheck pindex s s hnext hgranted
  · exact (connectEpilogue_isOk_iff hfollows hvtx').mpr hreward

/-! ### The theorem -/

theorem assembleBlock_ok {order : List CTransaction} {template : CBlock} {s' : Store}
    (h : assembleBlock env args pindexPrev coinsTip order s = (.ok template, s')) :
    s' = s ∧ ∃ txs acc' nValue, txs.Sublist order ∧
      Selected env args pindexPrev { s with dummyTestPool := fun _ => none } ⟨coinsTip, 0, 1000, 100, []⟩ txs acc' ∧
      getBlockValue env s (pindexPrev.nHeight + 1) acc'.nFees = .ok nValue ∧
      template = templateBlock env args pindexPrev nValue txs := by
  unfold assembleBlock at h
  obtain ⟨acc', s₁, hown, h⟩ := Proc.bind_ok_iff.mp h
  obtain ⟨nValue, s₂, hvalue, h⟩ := Proc.bind_ok_iff.mp h
  simp only [Prod.mk.injEq] at hvalue
  obtain ⟨hvalue, rfl⟩ := hvalue
  simp only [Proc.pure_apply, Prod.mk.injEq, Except.ok.injEq] at h
  obtain ⟨rfl, rfl⟩ := h
  unfold withOwnTestPool at hown
  cases hloop : Proc.foldM (selectTx env args pindexPrev) order ⟨coinsTip, 0, 1000, 100, []⟩
      { s with dummyTestPool := fun _ => none } with
  | mk r t =>
    rw [hloop] at hown
    simp only [Prod.mk.injEq] at hown
    obtain ⟨rfl, rfl⟩ := hown
    obtain ⟨rfl, txs, hsub, hsel⟩ := selectTxs_ok hloop
    refine ⟨rfl, txs, acc', nValue, hsub, hsel, hvalue, ?_⟩
    rw [hsel.vtx_eq]
    rfl

theorem getSizeOfCompactSize_le (n : Nat) : getSizeOfCompactSize n ≤ 9 := by
  unfold getSizeOfCompactSize
  split_ifs <;> omega

/-- The coinbase and the header fit into the first thousand bytes. -/
theorem templateBlock_size (hpay : args.Payable)
    (hsel : Selected env args pindexPrev s₀ ⟨coinsTip, 0, 1000, 100, []⟩ txs acc') :
    (templateBlock env args pindexPrev nValue txs).getSerializeSize ≤ MAX_BLOCK_SIZE := by
  have hmax : args.nBlockMaxSize ≤ MAX_BLOCK_SIZE - 1000 := by
    unfold MinerArgs.nBlockMaxSize MAX_BLOCK_SIZE
    omega
  have hlimit : (1000 : Nat) ≤ args.nBlockMaxSize := le_max_left _ _
  have htxs : 1000 + (txs.map (·.getSerializeSize)).sum ≤ args.nBlockMaxSize := by
    rw [← show acc'.nBlockSize = _ from hsel.size_eq]
    exact hsel.size_lt hlimit
  have hblock := getSizeOfCompactSize_le (txs.length + 1)
  have hscript := getSizeOfCompactSize_le args.scriptPubKeyIn.length
  have hlength := hpay.length
  have hcoinbase : (coinbaseTx args.scriptPubKeyIn [OP_0, OP_0] nValue).getSerializeSize =
      62 + vchSize args.scriptPubKeyIn := by
    have hone : getSizeOfCompactSize 1 = 1 := rfl
    have hbare : vchSize [OP_0, OP_0] = 3 := rfl
    have hdata : vchSize [] = 1 := rfl
    show 4 + getSizeOfCompactSize 1 + (36 + vchSize [OP_0, OP_0] + 4 + 0) + getSizeOfCompactSize 1 +
      (8 + vchSize args.scriptPubKeyIn + 0) + 4 + vchSize [] = _
    omega
  unfold vchSize at hcoinbase
  show 80 + 0 + getSizeOfCompactSize (txs.length + 1) +
    ((coinbaseTx args.scriptPubKeyIn [OP_0, OP_0] nValue :: txs).map (·.getSerializeSize)).sum ≤ MAX_BLOCK_SIZE
  rw [List.map_cons, List.sum_cons, hcoinbase]
  unfold MAX_BLOCK_SIZE at *
  omega

/-- The pool's transactions are fit for a block. -/
theorem Selected.assembled {ops : List MempoolOp} {order : List CTransaction} (hp2sh : P2SHOnTop env)
    (hpay : args.Payable) (hnodup : order.Nodup)
    (hsub : order ⊆ (CTxMemPool.run env ops).candidates pindexPrev.nHeight args.nNow) (htxs : txs.Sublist order)
    (hsel : Selected env args pindexPrev s₀ ⟨coinsTip, 0, 1000, 100, []⟩ txs acc') :
    Assembled env args pindexPrev coinsTip s₀ txs acc' := by
  have hpool : (CTxMemPool.run env ops).Vetted env := vetted_run ops
  have hmem : ∀ tx ∈ txs, tx ∈ (CTxMemPool.run env ops).mapTx ∧ tx.isCoinBase = false := by
    intro tx htx
    obtain ⟨hin, hok⟩ := List.mem_filter.mp (hsub (htxs.subset htx))
    exact ⟨hin, (decide_eq_true_iff.mp hok).1⟩
  refine ⟨hp2sh, hpay, hsel, fun tx htx => (hmem tx htx).2, fun tx htx => hpool.checked tx (hmem tx htx).1, ?_⟩
  refine List.Nodup.map_on ?_ (hnodup.sublist htxs)
  intro tx htx tx' htx' hhash
  exact List.inj_on_of_nodup_map hpool.distinct (hmem tx htx).1 (hmem tx' htx').1 hhash

/-- `CreateNewBlock` hands the block out iff the dry run goes through. -/
theorem createNewBlock_ok_iff {order : List CTransaction} {template : CBlock}
    (h : assembleBlock env args pindexPrev coinsTip order s = (.ok template, s)) :
    (createNewBlock env args pindexPrev coinsTip order s).1 = .ok template ↔
      (connectBlock env true pindexPrev (indexOver pindexPrev template) args.nNow ⟨coinsTip, some pindexPrev⟩ s).1.isOk =
        true := by
  unfold createNewBlock
  show (Proc.bind _ _ s).1 = _ ↔ _
  unfold Proc.bind
  rw [h]
  dsimp only
  rcases connectBlock env true pindexPrev (indexOver pindexPrev template) args.nNow ⟨coinsTip, some pindexPrev⟩ s with
    ⟨e | view, s'⟩
  · constructor
    · intro hok
      cases hok
    · intro hok
      cases hok
  · exact ⟨fun _ => rfl, fun _ => rfl⟩

/-- **When the miner's template connects.** `CreateNewBlock` hands out a block that `ConnectBlock` accepts once it is
    solved iff the transactions are granted their turns at the block's own height over databases that the block itself
    changes, the coinbase stays within the block value over the fee lists as the block leaves them, the coinbase
    has a hash of its own, and the chain's time is not too far ahead. -/
theorem template_connectable_iff {ops : List MempoolOp} {order : List CTransaction} {template : CBlock} {s' : Store}
    (hp2sh : P2SHOnTop env) (hpay : args.Payable) (hnodup : order.Nodup)
    (hsub : order ⊆ (CTxMemPool.run env ops).candidates pindexPrev.nHeight args.nNow)
    (hassemble : assembleBlock env args pindexPrev coinsTip order s = (.ok template, s'))
    (hgenesis : env.getBlockHash template ≠ env.hashGenesisBlock)
    (hsolves : Solves env nNow pindexPrev template block) :
    ((createNewBlock env args pindexPrev coinsTip order s).1 = .ok template ∧
      (connectBlock env false pindexPrev (indexOver pindexPrev block) nNow ⟨coinsTip, some pindexPrev⟩ s).1.isOk =
        true) ↔
      Connectable env args.nNow pindexPrev coinsTip s template block := by
  obtain ⟨rfl, txs, acc', nValue, htxs, hsel, hvalue, rfl⟩ := assembleBlock_ok hassemble
  have hasm := Selected.assembled hp2sh hpay hnodup hsub htxs hsel
  obtain ⟨scriptSig, hlen, hsig, hvtx⟩ := hsolves.vtx
  have hvtx : block.vtx = coinbaseTx args.scriptPubKeyIn scriptSig nValue :: txs := hvtx
  have hsize : (templateBlock env args pindexPrev nValue txs).getSerializeSize ≤ MAX_BLOCK_SIZE :=
    templateBlock_size hpay hsel
  have hfees : acc'.nFees = turnFees env pindexPrev (indexOver pindexPrev block) txs coinsTip s' := by
    rw [hsel.fees_eq (indexOver_nHeight pindexPrev block) s']
    exact Int.zero_add _
  have hempty : getSigOpCount false [OP_0, OP_0] = 0 := by decide
  rw [createNewBlock_ok_iff hassemble,
    hasm.connects_iff hsig hlen hvtx hsolves.size hsolves.time hsolves.work hsolves.merkle hsolves.notGenesis]
  constructor
  · rintro ⟨hdry, hfits, hgranted, hreward⟩
    -- the dry run has checked the template, and what was connected the block with its own coinbase
    obtain ⟨htime, htemplate, -⟩ := (hasm.connectBlock_iff hempty (by decide) rfl hsize
      (fun hfalse => by cases hfalse) hgenesis).mp hdry
    refine ⟨le_trans (le_max_left _ _) htime, ?_, ⟨htemplate.apart, hfits.apart⟩, hgranted, nValue, ?_, hfits.money, ?_⟩
    · intro tx htx
      rcases List.mem_append.mp htx with htx | htx
      · exact htemplate.fresh tx htx
      · exact hfits.fresh tx htx
    · show getBlockValue env s' _ (turnFees env pindexPrev (indexOver pindexPrev block) txs coinsTip s') = _
      rw [← hfees]
      exact hvalue
    · show RewardKept env _ (turnFees env pindexPrev (indexOver pindexPrev block) txs coinsTip s') _ _
      rw [← hfees]
      exact hreward
  · rintro ⟨hclock, hfresh, ⟨hapart, hapart'⟩, hgranted, v, hv, hmoney, hkept⟩
    have hv : getBlockValue env s' (pindexPrev.nHeight + 1)
      (turnFees env pindexPrev (indexOver pindexPrev block) txs coinsTip s') = .ok v := hv
    have hreward : RewardKept env (pindexPrev.nHeight + 1)
      (turnFees env pindexPrev (indexOver pindexPrev block) txs coinsTip s') v
      (storeAfterTurns env pindexPrev (indexOver pindexPrev block) txs coinsTip s') := hkept
    rw [← hfees] at hv hreward
    -- both values are computed from the same store and the same fees
    obtain rfl : nValue = v := Except.ok.inj (hvalue.symm.trans hv)
    refine ⟨?_, ⟨hmoney, hapart', fun tx htx => hfresh tx (List.mem_append_right _ htx)⟩, hgranted, hreward⟩
    refine hasm.checks hempty (by decide) rfl hsize ?_ hgenesis
      ⟨hmoney, hapart, fun tx htx => hfresh tx (List.mem_append_left _ htx)⟩ (indexOver_nHeight pindexPrev block)
      hgranted hvalue
    exact max_le hclock (Nat.le_add_right _ _)

end Template

namespace Cakenet

/-- The hash of a template, which has no nonce yet, is not that of the genesis block. -/
def minerEnv : Env :=
  { env with getBlockHash := fun block => if block.nNonce = 0 then block.nTime - 1400000000 else block.nNonce }

def minerArgs : MinerArgs := ⟨[OP_1], 1000000, amb.nNow, 0⟩

def minerAt (pindexNew : CBlockIndex) : Node := (setBestChain minerEnv amb pindexNew (Node.init genesis)).2

/-- The pool after an acceptance. -/
def acceptOps (node : Node) (tx : CTransaction) : List MempoolOp :=
  [.accept relay node.pindexBest node ⟨true, false, false⟩ tx]

/-- The worker fills in a nonce, a script for the coinbase and the merkle root. -/
def solve (template : CBlock) (nNonce : Nat) : CBlock :=
  let block : CBlock := { template with
    nNonce := nNonce
    vtx := template.vtx.modifyHead (·.withScriptSig [OP_1, OP_1, OP_1]) }
  { block with hashMerkleRoot := block.buildMerkleTree minerEnv }

theorem solve_solves {pindexPrev : CBlockIndex} {template : CBlock} {nNonce : Nat} (hnonce : nNonce ≠ 0)
    (hsize : (solve template nNonce).getSerializeSize ≤ MAX_BLOCK_SIZE) (htime : template.nTime ≤ amb.nNow) :
    Solves minerEnv amb.nNow pindexPrev template (solve template nNonce) where
  vtx := ⟨[OP_1, OP_1, OP_1], by decide, by decide, rfl⟩
  size := hsize
  time := le_trans htime (Nat.le_add_right _ _)
  work := rfl
  merkle := rfl
  notGenesis := by
    show (if nNonce = 0 then _ else nNonce) ≠ 0
    rw [if_neg hnonce]
    exact hnonce

/-- The template with one pool transaction on top of a chain. -/
def templateOf (node : Node) (nValue : Int) (tx : CTransaction) : CBlock :=
  templateBlock minerEnv minerArgs node.pindexBest nValue [tx]

theorem history_minerAt {pindexNew : CBlockIndex} : History minerEnv genesis (minerAt pindexNew) :=
  History.init.call amb pindexNew

/-- A payment for an accept that the seller's offer has no record of: the selection does not look for the record, the
    dry run does not get to its own height, and no worker makes the template connect. -/
theorem template_pays_missing_accept :
    ∃ node ops order template block, History minerEnv genesis node ∧
      order ⊆ (CTxMemPool.run minerEnv ops).candidates node.pindexBest.nHeight minerArgs.nNow ∧
      (createNewBlock minerEnv minerArgs node.pindexBest node.coinsTip order node.store).1 = .ok template ∧
      Solves minerEnv amb.nNow node.pindexBest template block ∧
      (connectBlock minerEnv false node.pindexBest (indexOver node.pindexBest block) amb.nNow
        ⟨node.coinsTip, some node.pindexBest⟩ node.store).1.isOk = false := by
  refine ⟨minerAt greedyBlock11, acceptOps (minerAt greedyBlock11) greedyPayTx, [greedyPayTx],
    templateOf (minerAt greedyBlock11) 2012800000000 greedyPayTx,
    solve (templateOf (minerAt greedyBlock11) 2012800000000 greedyPayTx) 12, history_minerAt, ?_, ?_, ?_, ?_⟩
  · decide +kernel
  · decide +kernel
  · exact solve_solves (by decide) (by decide +kernel) (by decide +kernel)
  · decide +kernel

theorem run_of_fst {α : Type} {x : Proc Store Reject α} {s : Store} {r : Except Reject α} (h : (x s).1 = r) :
    ∃ s', x s = (r, s') := by
  refine ⟨(x s).2, ?_⟩
  rw [← h]

theorem template_accepts_offer :
    let node := minerAt offerBlock10
    let template := templateOf node 2012700000000 offerAcceptTx
    Connectable minerEnv minerArgs.nNow node.pindexBest node.coinsTip node.store template (solve template 12) := by
  intro node template
  have hp2sh : P2SHOnTop minerEnv := fun _ _ _ _ _ => rfl
  have hpay : minerArgs.Payable := ⟨by decide, by decide⟩
  have hsub : [offerAcceptTx] ⊆ (CTxMemPool.run minerEnv (acceptOps node offerAcceptTx)).candidates
      node.pindexBest.nHeight minerArgs.nNow := by decide +kernel
  obtain ⟨s', hassemble⟩ : ∃ s', assembleBlock minerEnv minerArgs node.pindexBest node.coinsTip [offerAcceptTx]
      node.store = (.ok template, s') := run_of_fst (by decide +kernel)
  have hsolves : Solves minerEnv amb.nNow node.pindexBest template (solve template 12) :=
    solve_solves (by decide) (by decide +kernel) (by decide +kernel)
  exact (template_connectable_iff hp2sh hpay (List.nodup_singleton _) hsub hassemble
    (by decide +kernel) hsolves).mp ⟨by decide +kernel, by decide +kernel⟩

end Cakenet

end Syscoin

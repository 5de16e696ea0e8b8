import Syscoin.Chain.Run
import Syscoin.Services.Cert

/-!
# `Correctness.Activation` — what opens a commitment

A name is reserved by the hash of a random value and the name, and activated by an output that shows both. The first part
says what a connecting block asks of an activation: the two walks along the chain come down to a window of heights. The
second part asks how far the hash commits. It hashes the random value and the name one behind the other, and both have
any length, so that it fixes the two together but not where the one ends and the other begins.
-/

namespace Syscoin

open Lib

variable {env : Env} {m : Mode} {pindexBest pindexBlock : CBlockIndex} {tx : CTransaction} {inputs : CoinsView}
  {s : AliasState} {mapTestPool : TestPool} {vvchArgs : List Bytes} {p : Prev}

/-! ## The window of heights -/

/-- Not within the first window and within the second one. A height above the block's is in neither. -/
theorem depthWindow_iff {nTxHeight nMin nMax : Nat} (hpos : 0 < nMin) :
    (relativeDepth pindexBlock nTxHeight nMin = none ∧ (relativeDepth pindexBlock nTxHeight nMax).isSome = true) ↔
      (nMin : Int) ≤ (pindexBlock.nHeight : Int) - nTxHeight ∧ (pindexBlock.nHeight : Int) - nTxHeight < nMax := by
  rw [relativeDepth_isSome_iff, relativeDepth_eq_none_iff]
  omega

theorem getMinActivateDepth_pos (env : Env) : 0 < getMinActivateDepth env := by
  unfold getMinActivateDepth
  split
  · decide
  · decide

/-- The tests behind the hash, for whoever connects: the test for an unexpired holder is for others. -/
theorem checkAliasActivation_block_iff (hblock : m.fBlock = true) :
    checkAliasActivation env m pindexBlock vvchArgs s p = .ok () ↔
      uint160 (arg p.vvchPrevArgs 0) = env.hash160 (arg vvchArgs 1 ++ arg vvchArgs 0) ∧
      relativeDepth pindexBlock p.prevCoins.nHeight (getMinActivateDepth env) = none ∧
      (relativeDepth pindexBlock p.prevCoins.nHeight
        (getAliasExpirationDepth pindexBlock.nHeight)).isSome = true := by
  simp [checkAliasActivation, hblock]

/-- **What activates a name in a block.** The checks of `CheckAliasInputs` on an activation whose first alias input
    spends a commitment: the fee, the lengths, the hash, and the age of the commitment. -/
theorem alias_activates_iff {fMiner : Bool} {nOut : Nat} (hcb : tx.isCoinBase = false)
    (hver : tx.nVersion = SYSCOIN_TX_VERSION) (hop : decodeAliasTx tx = some (.aliasActivate, nOut, vvchArgs))
    (hprev : findPrev decodeAliasScript inputs tx.vin = some p) (hnew : p.prevOp = .aliasNew) :
    (∃ r, checkAliasInputs env ⟨true, fMiner, false⟩ pindexBest pindexBlock tx inputs s mapTestPool = .ok r) ↔
      getAliasNetworkFee pindexBlock.nHeight ≤ getAliasNetFee tx ∧
      (arg vvchArgs 1).length ≤ 20 ∧ (arg vvchArgs 2).length ≤ 1023 ∧
      uint160 (arg p.vvchPrevArgs 0) = env.hash160 (arg vvchArgs 1 ++ arg vvchArgs 0) ∧
      (getMinActivateDepth env : Int) ≤ (pindexBlock.nHeight : Int) - p.prevCoins.nHeight ∧
      (pindexBlock.nHeight : Int) - p.prevCoins.nHeight < getAliasExpirationDepth pindexBlock.nHeight := by
  have hcheck : checkAliasActivate env ⟨true, fMiner, false⟩ pindexBlock tx (some p) vvchArgs s = .ok () ↔
      getAliasNetworkFee pindexBlock.nHeight ≤ getAliasNetFee tx ∧
      (arg vvchArgs 1).length ≤ 20 ∧ (arg vvchArgs 2).length ≤ 1023 ∧
      uint160 (arg p.vvchPrevArgs 0) = env.hash160 (arg vvchArgs 1 ++ arg vvchArgs 0) ∧
      (getMinActivateDepth env : Int) ≤ (pindexBlock.nHeight : Int) - p.prevCoins.nHeight ∧
      (pindexBlock.nHeight : Int) - p.prevCoins.nHeight < getAliasExpirationDepth pindexBlock.nHeight := by
    unfold checkAliasActivate
    rw [require_bind_ok_iff, require_bind_ok_iff, require_bind_ok_iff, require_bind_ok_iff]
    dsimp only
    rw [if_pos ⟨rfl, rfl⟩, checkAliasActivation_block_iff rfl, depthWindow_iff (getMinActivateDepth_pos env)]
    -- the second test, for the kind of the input, is what `p` is given to pass
    constructor
    · rintro ⟨hfee, -, hrest⟩
      exact ⟨hfee, hrest⟩
    · rintro ⟨hfee, hrest⟩
      exact ⟨hfee, .inr ⟨p, rfl, hnew⟩, hrest⟩
  rw [← hcheck]
  unfold checkAliasInputs
  rw [if_neg (by rw [hcb]; exact Bool.false_ne_true)]
  dsimp only
  rw [if_neg (not_not.mpr hver), hop, hprev]
  dsimp only [checkAliasOp]
  constructor
  · rintro ⟨r, hr⟩
    exact (Except.bind_ok_iff.mp hr).choose_spec.1
  · -- what comes behind the checks is the writing, which cannot fail
    intro hok
    rw [hok]
    show ∃ r, (if Op.aliasActivate ≠ Op.aliasNew ∧ Mode.writes _ pindexBlock pindexBest then _ else _) = Except.ok r
    split
    · exact ⟨_, rfl⟩
    · exact ⟨_, rfl⟩

namespace Cakenet

/-- The coins of the first commitment and of the funds. -/
def reserved : CoinsView := fun hash =>
  if hash = 100 then some (CCoins.ofTx aliasNewTx 9) else some (CCoins.ofTx fund 1)

def unwritten : AliasState := ⟨fun _ => none, none, [], fun _ => ∅⟩

/-- One block after the commitment the name is activated. -/
theorem alias_activates_next : ∃ r,
    checkAliasInputs Cakenet.env ⟨true, false, false⟩ aliasBlock9 aliasBlock10 aliasActivateTx reserved unwritten
      (fun _ => none)
      = .ok r := by
  have hop : decodeAliasTx aliasActivateTx = some (.aliasActivate, 0, [vchName, vchRand, [1]]) := by decide +kernel
  have hprev : findPrev decodeAliasScript reserved aliasActivateTx.vin =
      some ⟨⟨100, 0⟩, CCoins.ofTx aliasNewTx 9, .aliasNew, [vchRand ++ vchName]⟩ := rfl
  exact (alias_activates_iff rfl rfl hop hprev rfl).mpr (by decide +kernel)

end Cakenet

/-! ## The commitment -/

section Commitment

variable {offers : OfferState} {issuers : CertState}

/-- The answers of the three hash tests. -/
def aliasMismatch : Reject := error "CheckAliasInputs() : aliasactivate hash mismatch"

def offerMismatch : Reject := error "CheckOfferInputs() : offeractivate hash mismatch prev : %s cur %s"

def certMismatch : Reject := error "CheckCertInputs() : certissueractivate hash mismatch prev : %s cur %s"

/-- The arguments open the commitment: the random value and behind it the name. -/
def Opens (env : Env) (p : Prev) (vvchArgs : List Bytes) : Prop :=
  uint160 (arg p.vvchPrevArgs 0) = env.hash160 (arg vvchArgs 1 ++ arg vvchArgs 0)

theorem opens_of_alias (h : checkAliasActivation env m pindexBlock vvchArgs s p ≠ .error aliasMismatch) :
    Opens env p vvchArgs := by
  by_contra hnot
  exact h (require_bind_of_not hnot)

theorem opens_of_offer
    (h : checkOfferActivation env m pindexBest pindexBlock vvchArgs mapTestPool offers p ≠ .error offerMismatch) :
    Opens env p vvchArgs := by
  by_contra hnot
  exact h (require_bind_of_not hnot)

theorem opens_of_cert
    (h : checkCertissuerActivation env m pindexBest pindexBlock vvchArgs mapTestPool issuers p ≠ .error certMismatch) :
    Opens env p vvchArgs := by
  by_contra hnot
  exact h (require_bind_of_not hnot)

/-- Two openings show the same bytes, and are the same if they cut them at the same place. -/
def SameOpening (vvchArgs vvchArgs' : List Bytes) : Prop :=
  arg vvchArgs 1 ++ arg vvchArgs 0 = arg vvchArgs' 1 ++ arg vvchArgs' 0 ∧
    ((arg vvchArgs 1).length = (arg vvchArgs' 1).length →
      arg vvchArgs 1 = arg vvchArgs' 1 ∧ arg vvchArgs 0 = arg vvchArgs' 0)

theorem Opens.same {vvchArgs' : List Bytes} (hinj : Function.Injective env.hash160) (h : Opens env p vvchArgs)
    (h' : Opens env p vvchArgs') : SameOpening vvchArgs vvchArgs' := by
  have hbytes : arg vvchArgs 1 ++ arg vvchArgs 0 = arg vvchArgs' 1 ++ arg vvchArgs' 0 := hinj (h.symm.trans h')
  exact ⟨hbytes, fun hlen => List.append_inj hbytes hlen⟩

/-- **How far a commitment binds.** For the output that a service reserves with, all that passes the hash test of its
    activations is one string of bytes, cut into a random value and a name: once for each length of the random value. -/
theorem commitment_binds (hinj : Function.Injective env.hash160) (p : Prev) :
    (∀ m m' pindexBlock pindexBlock' vvchArgs vvchArgs' s s',
      checkAliasActivation env m pindexBlock vvchArgs s p ≠ .error aliasMismatch →
      checkAliasActivation env m' pindexBlock' vvchArgs' s' p ≠ .error aliasMismatch →
      SameOpening vvchArgs vvchArgs') ∧
    (∀ m m' pindexBest pindexBest' pindexBlock pindexBlock' vvchArgs vvchArgs' pool pool' offers offers',
      checkOfferActivation env m pindexBest pindexBlock vvchArgs pool offers p ≠ .error offerMismatch →
      checkOfferActivation env m' pindexBest' pindexBlock' vvchArgs' pool' offers' p ≠ .error offerMismatch →
      SameOpening vvchArgs vvchArgs') ∧
    (∀ m m' pindexBest pindexBest' pindexBlock pindexBlock' vvchArgs vvchArgs' pool pool' issuers issuers',
      checkCertissuerActivation env m pindexBest pindexBlock vvchArgs pool issuers p ≠ .error certMismatch →
      checkCertissuerActivation env m' pindexBest' pindexBlock' vvchArgs' pool' issuers' p ≠ .error certMismatch →
      SameOpening vvchArgs vvchArgs') := by
  refine ⟨?_, ?_, ?_⟩
  · intro m m' pindexBlock pindexBlock' vvchArgs vvchArgs' s s' h h'
    exact (opens_of_alias h).same hinj (opens_of_alias h')
  · intro m m' pindexBest pindexBest' pindexBlock pindexBlock' vvchArgs vvchArgs' pool pool' offers offers' h h'
    exact (opens_of_offer h).same hinj (opens_of_offer h')
  · intro m m' pindexBest pindexBest' pindexBlock pindexBlock' vvchArgs vvchArgs' pool pool' issuers issuers' h h'
    exact (opens_of_cert h).same hinj (opens_of_cert h')

end Commitment

/-! ## Two openings of one commitment -/

namespace Ambiguous

/-- A hash without collisions: the bytes with a mark for their end. -/
def hash160 (vch : Bytes) : Uint160 := fromLE (vch ++ [1])

theorem hash160_injective : Function.Injective hash160 := fromLE_mark_injective

def toyEnv : Env := { Cakenet.env with hash160 := hash160 }

/-- The commitment to the random value `1` and the name `23`, which is also one to `12` and the name `3`. -/
def prev : Prev where
  prevOutput := ⟨100, 0⟩
  prevCoins := ⟨false, [], 8, 1⟩
  prevOp := .aliasNew
  vvchPrevArgs := [toLE 20 (hash160 [1, 2, 3])]

theorem accepts_both :
    checkAliasActivation toyEnv Mode.connect Cakenet.aliasBlock9 [[2, 3], [1], [0]] Cakenet.unwritten prev = .ok () ∧
      checkAliasActivation toyEnv Mode.connect Cakenet.aliasBlock9 [[3], [1, 2], [0]] Cakenet.unwritten prev = .ok () := by
  constructor
  · exact (checkAliasActivation_block_iff rfl).mpr (by decide +kernel)
  · exact (checkAliasActivation_block_iff rfl).mpr (by decide +kernel)

/-- The name is not fixed by the commitment. -/
theorem commitment_ambiguous :
    ¬ ∀ (env : Env) (p : Prev) (m : Mode) (pindexBlock : CBlockIndex) (vvchArgs vvchArgs' : List Bytes)
      (s : AliasState), Function.Injective env.hash160 → p.prevOp = .aliasNew →
      (arg vvchArgs 1).length ≤ 20 → (arg vvchArgs' 1).length ≤ 20 →
      checkAliasActivation env m pindexBlock vvchArgs s p ≠ .error aliasMismatch →
      checkAliasActivation env m pindexBlock vvchArgs' s p ≠ .error aliasMismatch →
      arg vvchArgs 1 = arg vvchArgs' 1 ∧ arg vvchArgs 0 = arg vvchArgs' 0 := by
  intro h
  have hok := accepts_both
  have hsame := h toyEnv prev Mode.connect Cakenet.aliasBlock9 [[2, 3], [1], [0]] [[3], [1, 2], [0]] Cakenet.unwritten
    hash160_injective rfl (by decide) (by decide) (by rw [hok.1]; intro hbad; cases hbad)
    (by rw [hok.2]; intro hbad; cases hbad)
  exact absurd hsame.1 (by decide)

theorem commitment_binds_prev :
    (∀ m m' pindexBlock pindexBlock' vvchArgs vvchArgs' s s',
      checkAliasActivation toyEnv m pindexBlock vvchArgs s prev ≠ .error aliasMismatch →
      checkAliasActivation toyEnv m' pindexBlock' vvchArgs' s' prev ≠ .error aliasMismatch →
      SameOpening vvchArgs vvchArgs') ∧
    (∀ m m' pindexBest pindexBest' pindexBlock pindexBlock' vvchArgs vvchArgs' pool pool' offers offers',
      checkOfferActivation toyEnv m pindexBest pindexBlock vvchArgs pool offers prev ≠ .error offerMismatch →
      checkOfferActivation toyEnv m' pindexBest' pindexBlock' vvchArgs' pool' offers' prev ≠ .error offerMismatch →
      SameOpening vvchArgs vvchArgs') ∧
    (∀ m m' pindexBest pindexBest' pindexBlock pindexBlock' vvchArgs vvchArgs' pool pool' issuers issuers',
      checkCertissuerActivation toyEnv m pindexBest pindexBlock vvchArgs pool issuers prev ≠ .error certMismatch →
      checkCertissuerActivation toyEnv m' pindexBest' pindexBlock' vvchArgs' pool' issuers' prev ≠
        .error certMismatch →
      SameOpening vvchArgs vvchArgs') :=
  commitment_binds hash160_injective prev

end Ambiguous

end Syscoin

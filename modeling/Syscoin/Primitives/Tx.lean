import Mathlib.Algebra.Order.Ring.Int
import Syscoin.Lib.Proc
import Syscoin.Primitives.Script

/-!
# `Primitives.Tx` — transactions, blocks and the checks that need no context

The records of `main.h`, the sizes and amounts computed from them, the first service output of a transaction
(`DecodeAliasTx` and its copies), and `CheckTransaction`.

`Env` collects what these functions take from outside the modelled code: the hash functions, the script
interpreter, the proof of work and the configuration of the node. Amounts are integers and heights natural
numbers; the range tests that keep them inside the machine types are part of the model.
-/

namespace Syscoin

open Lib

/-! ## Amounts and limits -/

def COIN : Int := 100000000
def CENT : Int := 1000000
def MAX_MONEY : Int := 2000000000 * COIN
def DUST_SOFT_LIMIT : Int := 100000
def MAX_BLOCK_SIZE : Nat := 2 * 1024 * 1024
def MAX_BLOCK_SIZE_GEN : Nat := MAX_BLOCK_SIZE / 2
def DEFAULT_BLOCK_PRIORITY_SIZE : Nat := MAX_BLOCK_SIZE_GEN
def MAX_BLOCK_SIGOPS : Nat := MAX_BLOCK_SIZE / 50
def COINBASE_MATURITY : Nat := 60
def SYSCOIN_TX_VERSION : Int := 0x7400
def MAX_NAME_LENGTH : Nat := 255
def MAX_VALUE_LENGTH : Nat := 1023
def MIN_ACTIVATE_DEPTH : Nat := 120
def MIN_ACTIVATE_DEPTH_CAKENET : Nat := 1

def moneyRange (nValue : Int) : Prop := 0 ≤ nValue ∧ nValue ≤ MAX_MONEY

instance (nValue : Int) : Decidable (moneyRange nValue) :=
  inferInstanceAs (Decidable (_ ∧ _))

/-! ## Records -/

structure COutPoint where
  hash : Uint256
  n : Nat
deriving DecidableEq, Repr

/-- The outpoint of a coinbase input: hash zero and index `(unsigned int) -1`. -/
def COutPoint.isNull (o : COutPoint) : Prop := o.hash = 0 ∧ o.n = 2 ^ 32 - 1

instance (o : COutPoint) : Decidable o.isNull :=
  inferInstanceAs (Decidable (_ ∧ _))

structure CTxIn where
  prevout : COutPoint
  scriptSig : CScript
  nSequence : Nat
deriving DecidableEq, Repr

structure CTxOut where
  nValue : Int
  scriptPubKey : CScript
deriving DecidableEq, Repr

namespace CTxOut

/-- The default output, which `SetNull` writes over a spent one. -/
def null : CTxOut := ⟨-1, []⟩

def isNull (o : CTxOut) : Prop := o.nValue = -1

instance (o : CTxOut) : Decidable o.isNull :=
  inferInstanceAs (Decidable (_ = _))

end CTxOut

structure CTransaction where
  nVersion : Int
  vin : List CTxIn
  vout : List CTxOut
  nLockTime : Nat
  data : Bytes
deriving DecidableEq, Repr

structure CBlock where
  nTime : Nat
  nVersion : Int
  hashPrevBlock : Uint256
  hashMerkleRoot : Uint256
  nBits : Nat
  nNonce : Nat
  auxpow : Bytes
  vtx : List CTransaction
deriving DecidableEq, Repr

/-! ## What the model takes as given -/

/-- Hashing, script evaluation, proof of work, and the node's configuration. -/
structure Env where
  getHash : CTransaction → Uint256
  hash160 : Bytes → Uint160
  hashPair : Uint256 → Uint256 → Uint256
  getBlockHash : CBlock → Uint256
  hashGenesisBlock : Uint256
  checkProofOfWork : CBlock → Nat → Bool
  verifyScript : CScript → CScript → CTransaction → Nat → Bool → Bool
  fTestNet : Bool
  fCakeNet : Bool
  nMinTxFee : Int
  fTxIndex : Bool
  nScriptCheckThreads : Nat
  getTotalBlocksEstimate : Nat

/-- What a rejection does to the `CValidationState` it is reported in. `silent` is a bare `return false` or
    `return error(…)`, which leaves the state valid; `crash` is a failed assertion, a thrown exception or a
    division by zero. -/
inductive Fault where
  | silent | invalid | dos (level : Nat) | crash
deriving DecidableEq, Repr

/-- A failed check: the text it logs and what it does to the validation state. -/
structure Reject where
  text : String
  fault : Fault
deriving DecidableEq, Repr

def error (text : String) : Reject := ⟨text, .silent⟩

def invalid (text : String) : Reject := ⟨text, .invalid⟩

def DoS (level : Nat) (text : String) : Reject := ⟨text, .dos level⟩

def crash (text : String) : Reject := ⟨text, .crash⟩

/-! ## Sizes, amounts and hashes -/

def getSizeOfCompactSize (nSize : Nat) : Nat :=
  if nSize < 253 then 1 else if nSize ≤ 0xffff then 3 else if nSize ≤ 0xffffffff then 5 else 9

def vchSize (vch : Bytes) : Nat := getSizeOfCompactSize vch.length + vch.length

namespace CTransaction

def isCoinBase (tx : CTransaction) : Bool :=
  match tx.vin with
  | [txin] => txin.prevout.isNull
  | _ => false

def getSerializeSize (tx : CTransaction) : Nat :=
  4 + getSizeOfCompactSize tx.vin.length + (tx.vin.map fun i => 36 + vchSize i.scriptSig + 4).sum
    + getSizeOfCompactSize tx.vout.length + (tx.vout.map fun o => 8 + vchSize o.scriptPubKey).sum
    + 4 + vchSize tx.data

def getValueOut (tx : CTransaction) : Int := (tx.vout.map (·.nValue)).sum

def getLegacySigOpCount (tx : CTransaction) : Nat :=
  (tx.vin.map fun i => getSigOpCount false i.scriptSig).sum
    + (tx.vout.map fun o => getSigOpCount false o.scriptPubKey).sum

/-- **`GetMinFee`** as `CheckInputs` calls it: default block size one, free transactions allowed, block mode.
    A block size of one skips the rise towards a full block. -/
def getMinFee (env : Env) (tx : CTransaction) : Int :=
  let nBytes := tx.getSerializeSize
  let nMinFee :=
    if nBytes < DEFAULT_BLOCK_PRIORITY_SIZE - 1000 then 0 else (1 + (nBytes : Int) / 1000) * env.nMinTxFee
  let nMinFee := nMinFee + (tx.vout.countP fun o => o.nValue < DUST_SOFT_LIMIT) * env.nMinTxFee
  if moneyRange nMinFee then nMinFee else MAX_MONEY

/-- The amount burned in outputs whose script is a lone `OP_RETURN`: `GetAliasNetFee`, `GetOfferNetFee` and
    `GetCertNetFee` have this one body. -/
def getNetFee (tx : CTransaction) : Int :=
  ((tx.vout.filter fun o => o.scriptPubKey = [OP_RETURN]).map (·.nValue)).sum

end CTransaction

def getAliasNetFee : CTransaction → Int := CTransaction.getNetFee

def getOfferNetFee : CTransaction → Int := CTransaction.getNetFee

def getCertNetFee : CTransaction → Int := CTransaction.getNetFee

/-- One level of `BuildMerkleTree`: an odd last node is paired with itself. -/
def merkleLevel (env : Env) : List Uint256 → List Uint256
  | [] => []
  | [a] => [env.hashPair a a]
  | a :: b :: rest => env.hashPair a b :: merkleLevel env rest

/-- The levels up to the root; each halves the list, so its length is fuel enough. -/
def merkleRoot (env : Env) : Nat → List Uint256 → Uint256
  | _, [] => 0
  | _, [a] => a
  | 0, _ => 0
  | fuel + 1, level => merkleRoot env fuel (merkleLevel env level)

namespace CBlock

def getSerializeSize (block : CBlock) : Nat :=
  80 + block.auxpow.length + getSizeOfCompactSize block.vtx.length
    + (block.vtx.map (·.getSerializeSize)).sum

def buildMerkleTree (env : Env) (block : CBlock) : Uint256 :=
  merkleRoot env block.vtx.length (block.vtx.map env.getHash)

end CBlock

/-! ## The service output of a transaction -/

/-- The first output that `decode` accepts: its operation, its index and its arguments. -/
def decodeTx (decode : CScript → Option (Op × List Bytes)) :
    List CTxOut → Option (Op × Nat × List Bytes)
  | [] => none
  | out :: vout =>
    match decode out.scriptPubKey with
    | some (op, vvch) => some (op, 0, vvch)
    | none => (decodeTx decode vout).map fun (op, nOut, vvch) => (op, nOut + 1, vvch)

def decodeAliasTx (tx : CTransaction) : Option (Op × Nat × List Bytes) := decodeTx decodeAliasScript tx.vout

def decodeOfferTx (tx : CTransaction) : Option (Op × Nat × List Bytes) := decodeTx decodeOfferScript tx.vout

def decodeCertTx (tx : CTransaction) : Option (Op × Nat × List Bytes) := decodeTx decodeCertScript tx.vout

/-- The output that `decodeTx` reports is there, decodes to what is reported, and no earlier one decodes. -/
theorem decodeTx_eq_some {decode : CScript → Option (Op × List Bytes)} {vout : List CTxOut} {op : Op} {nOut : Nat}
    {vvch : List Bytes} (h : decodeTx decode vout = some (op, nOut, vvch)) :
    (∃ out, vout[nOut]? = some out ∧ decode out.scriptPubKey = some (op, vvch)) ∧
      ∀ j < nOut, ∀ out, vout[j]? = some out → decode out.scriptPubKey = none := by
  induction vout generalizing nOut with
  | nil => cases h
  | cons out vout ih =>
    unfold decodeTx at h
    cases hd : decode out.scriptPubKey with
    | some r =>
      obtain ⟨op', vvch'⟩ := r
      simp only [hd, Option.some.injEq, Prod.mk.injEq] at h
      obtain ⟨rfl, rfl, rfl⟩ := h
      exact ⟨⟨out, rfl, hd⟩, fun j hj => absurd hj (Nat.not_lt_zero j)⟩
    | none =>
      simp only [hd, Option.map_eq_some_iff] at h
      obtain ⟨⟨op', n, vvch'⟩, hrec, h⟩ := h
      simp only [Prod.mk.injEq] at h
      obtain ⟨rfl, rfl, rfl⟩ := h
      obtain ⟨hat, hbefore⟩ := ih hrec
      refine ⟨by simpa using hat, ?_⟩
      intro j hj o ho
      cases j with
      | zero => simp only [List.getElem?_cons_zero, Option.some.injEq] at ho; rw [← ho]; exact hd
      | succ j => exact hbefore j (by omega) o (by simpa using ho)

/-! ## `CheckTransaction` -/

/-- The length tests on the arguments of a service operation. The code logs every violated test and then
    fails; the model reports the first. -/
def checkOpArgs (op : Op) (vvch : List Bytes) : Except Reject Unit :=
  match op with
  | .aliasNew => do
    require ((arg vvch 0).length ≤ MAX_NAME_LENGTH) (error "alias transaction with alias too long")
    require ((arg vvch 0).length = 20) (error "aliasnew tx with incorrect hash length")
  | .aliasActivate => do
    require ((arg vvch 0).length ≤ MAX_NAME_LENGTH) (error "alias transaction with alias too long")
    require ((arg vvch 1).length ≤ 20) (error "aliasactivate tx with rand too big")
    require ((arg vvch 2).length ≤ MAX_VALUE_LENGTH) (error "aliasactivate tx with value too long")
  | .aliasUpdate => do
    require ((arg vvch 0).length ≤ MAX_NAME_LENGTH) (error "alias transaction with alias too long")
    require ((arg vvch 1).length ≤ MAX_VALUE_LENGTH) (error "aliasupdate tx with value too long")
  | .offerNew => do
    require ((arg vvch 0).length ≤ MAX_NAME_LENGTH) (error "offer transaction with offer title too long")
    require ((arg vvch 0).length = 20) (error "offernew tx with incorrect hash length")
  | .offerActivate => do
    require ((arg vvch 0).length ≤ MAX_NAME_LENGTH) (error "offer transaction with offer title too long")
    require ((arg vvch 1).length ≤ 20) (error "offeractivate tx with rand too big")
    require ((arg vvch 2).length ≤ MAX_VALUE_LENGTH) (error "offeractivate tx with value too long")
  | .offerUpdate => do
    require ((arg vvch 0).length ≤ MAX_NAME_LENGTH) (error "offer transaction with offer title too long")
    require ((arg vvch 1).length ≤ MAX_VALUE_LENGTH) (error "offerupdate tx with value too long")
  | .offerAccept => do
    require ((arg vvch 0).length ≤ MAX_NAME_LENGTH) (error "offer transaction with offer title too long")
    require ((arg vvch 0).length ≤ 20) (error "offeraccept tx with offer rand too big")
    require ((arg vvch 2).length ≤ 20) (error "offeraccept tx with invalid hash length")
    require ((arg vvch 1).length ≤ 20) (error "offeraccept tx with alias rand too big")
  | .offerPay => do
    require ((arg vvch 0).length ≤ MAX_NAME_LENGTH) (error "offer transaction with offer title too long")
    require ((arg vvch 0).length ≤ 20) (error "offerpay tx with offer rand too big")
    require ((arg vvch 1).length ≤ 20) (error "offeraccept tx with alias rand too big")
  | .certissuerNew => do
    require ((arg vvch 0).length ≤ MAX_NAME_LENGTH) (error "cert transaction with cert title too long")
    require ((arg vvch 0).length = 20) (error "cert tx with incorrect hash length")
  | .certissuerActivate => do
    require ((arg vvch 0).length ≤ MAX_NAME_LENGTH) (error "cert transaction with cert title too long")
    require ((arg vvch 1).length ≤ 20) (error "cert tx with rand too big")
    require ((arg vvch 2).length ≤ MAX_VALUE_LENGTH) (error "cert tx with value too long")
  | .certissuerUpdate => do
    require ((arg vvch 0).length ≤ MAX_NAME_LENGTH) (error "cert transaction with cert title too long")
    require ((arg vvch 1).length ≤ MAX_VALUE_LENGTH) (error "cert tx with value too long")
  | .certNew => do
    require ((arg vvch 0).length ≤ MAX_NAME_LENGTH) (error "cert transaction with cert title too long")
    require ((arg vvch 0).length ≤ 20) (error "cert tx with cert rand too big")
    require ((arg vvch 2).length ≤ 20) (error "cert tx with invalid hash length")
    require ((arg vvch 1).length ≤ 20) (error "cert tx with cert rand too big")
  | .certTransfer => do
    require ((arg vvch 0).length ≤ MAX_NAME_LENGTH) (error "cert transaction with cert title too long")
    require ((arg vvch 0).length ≤ 20) (error "cert tx with offer rand too big")
    require ((arg vvch 1).length ≤ 20) (error "cert tx with alias rand too big")

/-- The range tests on the outputs, with the running total. -/
def checkOutputs : Int → List CTxOut → Except Reject Unit
  | _, [] => .ok ()
  | nValueOut, txout :: vout => do
    require (0 ≤ txout.nValue) (DoS 100 "CTransaction::CheckTransaction() : txout.nValue negative")
    require (txout.nValue ≤ MAX_MONEY) (DoS 100 "CTransaction::CheckTransaction() : txout.nValue too high")
    require (moneyRange (nValueOut + txout.nValue))
      (DoS 100 "CTransaction::CheckTransaction() : txout total out of range")
    checkOutputs (nValueOut + txout.nValue) vout

/-- **`CheckTransaction`.** The service tests at the end go through `DecodeAliasTx` only, so they bind alias
    transactions; the two iterations of the code decode the same output and agree. -/
def checkTransaction (tx : CTransaction) : Except Reject Unit := do
  require (tx.vin ≠ []) (DoS 10 "CTransaction::CheckTransaction() : vin empty")
  require (tx.vout ≠ [] ∨ tx.data ≠ [])
    (DoS 10 "CTransaction::CheckTransaction() : vout empty and 0 == data.size()")
  require (tx.getSerializeSize ≤ MAX_BLOCK_SIZE)
    (DoS 100 "CTransaction::CheckTransaction() : size limits failed")
  checkOutputs 0 tx.vout
  require (tx.vin.map (·.prevout)).Nodup (DoS 100 "CTransaction::CheckTransaction() : duplicate inputs")
  require (tx.isCoinBase = true → ∀ txin ∈ tx.vin, 2 ≤ txin.scriptSig.length ∧ txin.scriptSig.length ≤ 100)
    (DoS 100 "CTransaction::CheckTransaction() : coinbase script size")
  require (tx.isCoinBase = false → ∀ txin ∈ tx.vin, ¬ txin.prevout.isNull)
    (DoS 10 "CTransaction::CheckTransaction() : prevout is null")
  if tx.nVersion ≠ SYSCOIN_TX_VERSION then .ok ()
  else
    match decodeAliasTx tx with
    | none => .ok ()
    | some (op, _, vvch) => checkOpArgs op vvch

end Syscoin

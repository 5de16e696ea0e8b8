import Syscoin.Network.BlockFormat
import Syscoin.Script.Interpreter

/-!
# `Script.SignatureHash` — what a signature is for

`SignatureHash` hashes a copy of the transaction that spends an output. The scripts of the inputs are blanked, but for that
of the signed input, which stands for the output it spends; the hash type says which outputs and inputs are blanked
besides. The hash function is a parameter.
-/

namespace Syscoin

def SIGHASH_NONE : UInt8 := 2

/-- `nHashType & 0x1f`, in two's complement -/
def baseType (nHashType : Int) : Int := nHashType % 32

/-- `nHashType & SIGHASH_ANYONECANPAY` -/
def anyoneCanPay (nHashType : Int) : Prop := nHashType / SIGHASH_ANYONECANPAY.toNat % 2 = 1

instance (nHashType : Int) : Decidable (anyoneCanPay nHashType) := inferInstanceAs (Decidable (_ = _))

/-- The inputs with their scripts blanked, but for the signed one's. -/
def blankScripts (scriptCode : CScript) (nIn : Nat) (vin : List CTxIn) : List CTxIn :=
  (vin.map fun txin => { txin with scriptSig := [] }).modify nIn fun txin => { txin with scriptSig := scriptCode }

/-- `nSequence = 0` in the inputs that are not signed. -/
def blankSequences (nIn : Nat) (vin : List CTxIn) : List CTxIn :=
  vin.mapIdx fun i txin => if i ≠ nIn then { txin with nSequence := 0 } else txin

/-- The outputs that the hash type leaves; `none` is an index out of range. -/
def blankOutputs (nIn : Nat) (nHashType : Int) (vout : List CTxOut) : Option (List CTxOut) :=
  if baseType nHashType = SIGHASH_NONE.toNat then some []
  else if baseType nHashType = SIGHASH_SINGLE.toNat then
    match vout[nIn]? with
    | none => none
    | some txout => some (List.replicate nIn CTxOut.null ++ [txout])
  else some vout

/-- The inputs that the hash type leaves, once their scripts are blanked. -/
def blankInputs (nIn : Nat) (nHashType : Int) (vin : List CTxIn) : List CTxIn :=
  let vin :=
    if baseType nHashType = SIGHASH_NONE.toNat ∨ baseType nHashType = SIGHASH_SINGLE.toNat then blankSequences nIn vin else vin
  if anyoneCanPay nHashType then vin[nIn]?.toList else vin

/-- `txTmp`; `none` is an index out of range. -/
def txTmp (scriptCode : CScript) (txTo : CTransaction) (nIn : Nat) (nHashType : Int) : Option CTransaction :=
  if txTo.vin.length ≤ nIn then none
  else
    (blankOutputs nIn nHashType txTo.vout).map fun vout =>
      { txTo with
        vin := blankInputs nIn nHashType (blankScripts (findAndDelete [OP_CODESEPARATOR] scriptCode) nIn txTo.vin)
        vout := vout }

/-- **`SignatureHash`** -/
def signatureHash (Hash : Bytes → Uint256) (scriptCode : CScript) (txTo : CTransaction) (nIn : Nat) (nHashType : Int) :
    Uint256 :=
  match txTmp scriptCode txTo nIn nHashType with
  | none => 1
  | some txTmp => Hash (txTmp.serialize SER_GETHASH ++ writeSigned 4 nHashType)

end Syscoin

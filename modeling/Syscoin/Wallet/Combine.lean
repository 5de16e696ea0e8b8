import Mathlib.Data.Finset.Sort
import Mathlib.Data.List.Lex
import Syscoin.Lib.Allot
import Syscoin.Script.Interpreter
import Syscoin.Services.Resolve

/-!
# `Wallet.Combine` — putting partial signatures together

`CombineSignatures` gets what two unlocking scripts leave on the stack, and writes one unlocking script. For a
multisignature it pools the signatures in a set, finds for each a key that has none yet (`Lib.Allot`), and writes those
that are required in the order of the keys. Behind a script hash the serialized script lies on top of both stacks: it is
taken off, the rest is combined for the script, and it is appended again. A list that is empty, or ends in something
empty, is dropped in favour of the other one.

As in `Script.Interpreter` the head of a stack is its `back()`, and a failed assertion is an error.
-/

namespace Syscoin

open Lib

/-- `vector<unsigned char>::operator<`, or equal: bytes are compared one after the other. -/
def lexLE (vch1 vch2 : Bytes) : Prop := vch1.map UInt8.toNat ≤ vch2.map UInt8.toNat

instance : DecidableRel lexLE := fun vch1 vch2 =>
  inferInstanceAs (Decidable (vch1.map UInt8.toNat ≤ vch2.map UInt8.toNat))

instance : IsTrans Bytes lexLE := ⟨fun _ _ _ h₁ h₂ => le_trans h₁ h₂⟩

instance : Std.Total lexLE := ⟨fun _ _ => le_total _ _⟩

instance : Std.Antisymm lexLE :=
  ⟨fun _ _ h₁ h₂ => List.map_injective_iff.mpr (fun _ _ h => UInt8.toNat_inj.mp h) (le_antisymm h₁ h₂)⟩

/-- What `Solver` leaves in the arguments that it returns its result in; no type is `TX_NONSTANDARD`. Counts that do not
    fit make it return `false`, but leave what was found. -/
def solve (scriptPubKey : CScript) : Option TxOutType × List Bytes :=
  let scan (template : CScript) := matchTemplate (scriptPubKey.length + 1) scriptPubKey template []
  if isPayToScriptHash scriptPubKey then (some .scripthash, [(scriptPubKey.drop 2).take 20])
  else
    match scan [OP_PUBKEY, OP_CHECKSIG] with
    | some vSolutions => (some .pubkey, vSolutions)
    | none =>
      match scan [OP_DUP, OP_HASH160, OP_PUBKEYHASH, OP_EQUALVERIFY, OP_CHECKSIG] with
      | some vSolutions => (some .pubkeyhash, vSolutions)
      | none =>
        match scan [OP_SMALLINTEGER, OP_PUBKEYS, OP_SMALLINTEGER, OP_CHECKMULTISIG] with
        | some vSolutions => (some .multisig, vSolutions)
        | none => (none, [])

/-- `PushAll` -/
def pushAll (values : Stack) : CScript := values.reverse.flatMap pushVch

/-- `vSolutions[1]` … `vSolutions[nPubKeys]` -/
def solvedKeys (vSolutions : List Bytes) : List Bytes := vSolutions.tail.dropLast

/-- `vSolutions.front()[0]` -/
def solvedRequired (vSolutions : List Bytes) : Nat := ((vSolutions.head?.getD []).head?.getD 0).toNat

/-- The set of all signatures that are not placeholders, in its order. -/
def allSigs (sigs1 sigs2 : Stack) : List Bytes := ((sigs1 ++ sigs2).filter (· ≠ [])).toFinset.sort lexLE

section

variable (crypto : Crypto) (txTo : CTransaction) (nIn : Nat)

/-- `CheckSig(sig, pubkey, scriptPubKey, txTo, nIn, 0, 0)` -/
def checkCombined (scriptPubKey : CScript) (sig pubkey : Bytes) : Bool :=
  checkSig crypto ⟨txTo, nIn, 0, 0⟩ sig pubkey scriptPubKey

/-- **`CombineMultisig`.** `OP_0` stands in front for the element too many that is taken off, and for what is missing. -/
def combineMultisig (scriptPubKey : CScript) (vSolutions : List Bytes) (sigs1 sigs2 : Stack) : Except String CScript :=
  if 1 < vSolutions.length then
    let nSigsRequired := solvedRequired vSolutions
    let pubkeys := solvedKeys vSolutions
    let sigs := allot (checkCombined crypto txTo nIn scriptPubKey) pubkeys (allSigs sigs1 sigs2)
    let result := gather (fun pubkey => sigs.lookup pubkey) pubkeys nSigsRequired
    .ok (OP_0 :: (result.flatMap pushVch ++ List.replicate (nSigsRequired - result.length) OP_0))
  else .error "assert(vSolutions.size() > 1)"

/-- **`CombineSignatures`**, on the stacks. -/
def combineSignatures (scriptPubKey : CScript) (solved : Option TxOutType × List Bytes) :
    (sigs1 sigs2 : Stack) → Except String CScript
  | sigs1, sigs2 =>
    match solved.1 with
    | none | some .pubkey | some .pubkeyhash =>
      -- "Signatures are bigger than placeholders or empty scripts"
      if sigs1.getLast?.getD [] = [] then .ok (pushAll sigs2) else .ok (pushAll sigs1)
    | some .multisig => combineMultisig crypto txTo nIn scriptPubKey solved.2 sigs1 sigs2
    | some .scripthash =>
      match sigs1 with
      | [] => .ok (pushAll sigs2)
      | spk :: sigs1 =>
        if spk = [] then .ok (pushAll sigs2)
        else if sigs2.head?.getD [] = [] then .ok (pushAll (spk :: sigs1))
        else (combineSignatures spk (solve spk) sigs1 sigs2.tail).map (· ++ pushVch spk)

end

end Syscoin

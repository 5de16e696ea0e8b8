import Syscoin.Lib.Machine
import Syscoin.Primitives.Tx
import Syscoin.Script.Builder

/-!
# `Script.Interpreter` — `EvalScript` and `VerifyScript`

A script is run on a stack of byte vectors. The machine is a `Frame`: the rest of the script, the two stacks, the
conditions of the open `OP_IF`s and two counters. `step` reads one instruction and carries it out, `evalScript` runs a
script to its end, and `verifyScript` runs the unlocking script, the locking script on what the first one left and, for
a pay-to-script-hash output, the redeem script.

* The top of a stack is the head of the list, so `stacktop stack i` is `stacktop(-i)`.
* There are three ways to stop: `return false`, an exception, which `EvalScript` turns into `false` as well, and an access
  outside a vector or a failed assertion. What was on the machine when it stopped is kept.
* `nCheckSig` counts the calls of `CheckSig`. The code does not have it.

Hashes, the hash that a signature signs and the verification of a signature are parameters. The signature cache only
remembers what the verification said, and is left out.
-/

namespace Syscoin

open Lib

/-! ## Opcodes -/

def OP_1NEGATE : UInt8 := 0x4f
def OP_IF : UInt8 := 0x63
def OP_NOTIF : UInt8 := 0x64
def OP_ELSE : UInt8 := 0x67
def OP_ENDIF : UInt8 := 0x68
def OP_VERIFY : UInt8 := 0x69
def OP_TOALTSTACK : UInt8 := 0x6b
def OP_FROMALTSTACK : UInt8 := 0x6c
def OP_2DUP : UInt8 := 0x6e
def OP_3DUP : UInt8 := 0x6f
def OP_2OVER : UInt8 := 0x70
def OP_2ROT : UInt8 := 0x71
def OP_2SWAP : UInt8 := 0x72
def OP_IFDUP : UInt8 := 0x73
def OP_DEPTH : UInt8 := 0x74
def OP_NIP : UInt8 := 0x77
def OP_OVER : UInt8 := 0x78
def OP_PICK : UInt8 := 0x79
def OP_ROLL : UInt8 := 0x7a
def OP_ROT : UInt8 := 0x7b
def OP_SWAP : UInt8 := 0x7c
def OP_TUCK : UInt8 := 0x7d
def OP_CAT : UInt8 := 0x7e
def OP_SUBSTR : UInt8 := 0x7f
def OP_LEFT : UInt8 := 0x80
def OP_RIGHT : UInt8 := 0x81
def OP_SIZE : UInt8 := 0x82
def OP_INVERT : UInt8 := 0x83
def OP_AND : UInt8 := 0x84
def OP_OR : UInt8 := 0x85
def OP_XOR : UInt8 := 0x86
def OP_1ADD : UInt8 := 0x8b
def OP_1SUB : UInt8 := 0x8c
def OP_2MUL : UInt8 := 0x8d
def OP_2DIV : UInt8 := 0x8e
def OP_NEGATE : UInt8 := 0x8f
def OP_ABS : UInt8 := 0x90
def OP_NOT : UInt8 := 0x91
def OP_0NOTEQUAL : UInt8 := 0x92
def OP_ADD : UInt8 := 0x93
def OP_SUB : UInt8 := 0x94
def OP_MUL : UInt8 := 0x95
def OP_DIV : UInt8 := 0x96
def OP_MOD : UInt8 := 0x97
def OP_LSHIFT : UInt8 := 0x98
def OP_RSHIFT : UInt8 := 0x99
def OP_BOOLAND : UInt8 := 0x9a
def OP_BOOLOR : UInt8 := 0x9b
def OP_NUMEQUAL : UInt8 := 0x9c
def OP_NUMEQUALVERIFY : UInt8 := 0x9d
def OP_NUMNOTEQUAL : UInt8 := 0x9e
def OP_LESSTHAN : UInt8 := 0x9f
def OP_GREATERTHAN : UInt8 := 0xa0
def OP_LESSTHANOREQUAL : UInt8 := 0xa1
def OP_GREATERTHANOREQUAL : UInt8 := 0xa2
def OP_MIN : UInt8 := 0xa3
def OP_MAX : UInt8 := 0xa4
def OP_WITHIN : UInt8 := 0xa5
def OP_RIPEMD160 : UInt8 := 0xa6
def OP_SHA1 : UInt8 := 0xa7
def OP_SHA256 : UInt8 := 0xa8
def OP_HASH256 : UInt8 := 0xaa
def OP_CODESEPARATOR : UInt8 := 0xab
def OP_NOP1 : UInt8 := 0xb0
def OP_NOP10 : UInt8 := 0xb9

def disabledOpcodes : List UInt8 :=
  [OP_CAT, OP_SUBSTR, OP_LEFT, OP_RIGHT, OP_INVERT, OP_AND, OP_OR, OP_XOR, OP_2MUL, OP_2DIV, OP_MUL, OP_DIV, OP_MOD,
    OP_LSHIFT, OP_RSHIFT]

def SCRIPT_VERIFY_P2SH : Nat := 1
def SCRIPT_VERIFY_STRICTENC : Nat := 2

def SIGHASH_ALL : UInt8 := 1
def SIGHASH_SINGLE : UInt8 := 3
def SIGHASH_ANYONECANPAY : UInt8 := 0x80

/-! ## Values -/

/-- Why the interpreter stops: `return false`, an exception that `EvalScript` catches, or an access outside a vector or a
    failed assertion. -/
inductive Stop where
  | failed | thrown | fault
deriving DecidableEq, Repr

def vchTrue : Bytes := [1]

def vchFalse : Bytes := []

def vchBool (fValue : Bool) : Bytes := if fValue then vchTrue else vchFalse

/-- **`CastToBool`.** Some byte is not zero; a sign bit alone, in the last byte, is negative zero. -/
def castToBool : Bytes → Bool
  | [] => false
  | b :: vch => if b = 0 then castToBool vch else !(vch = [] ∧ b = 0x80)

def nMaxNumSize : Nat := 4

/-- **`CastToBigNum`** -/
def castToBigNum (vch : Bytes) : Except Stop Int :=
  if nMaxNumSize < vch.length then .error .thrown
  else .ok (CBigNum.setvch (CBigNum.getvch (CBigNum.setvch vch)))

/-- `CBigNum::getint`, which saturates. -/
def CBigNum.getint (bn : Int) : Int :=
  if 0 ≤ bn then (if 2 ^ 31 - 1 < bn.natAbs then 2 ^ 31 - 1 else bn)
  else if 2 ^ 31 - 1 < bn.natAbs then -2 ^ 31 else bn

/-! ## The stack -/

abbrev Stack := List Bytes

/-- `stacktop(-i)` -/
def stacktop (stack : Stack) (i : Nat) : Except Stop Bytes :=
  match stack[i - 1]? with
  | some vch => .ok vch
  | none => .error .fault

def popstack : Stack → Except Stop Stack
  | [] => .error .fault
  | _ :: stack => .ok stack

/-- `while (i-- > 0) popstack(stack)` -/
def popMany : Nat → Stack → Except Stop Stack
  | 0, stack => .ok stack
  | i + 1, stack => popstack stack >>= popMany i

/-- `stack.erase(stack.end() - i)` -/
def eraseTop (stack : Stack) (i : Nat) : Except Stop Stack :=
  if 1 ≤ i ∧ i ≤ stack.length then .ok (stack.eraseIdx (i - 1)) else .error .fault

/-- `stack.insert(stack.end() - i, vch)` -/
def insertTop (stack : Stack) (i : Nat) (vch : Bytes) : Except Stop Stack :=
  if i ≤ stack.length then .ok (stack.insertIdx i vch) else .error .fault

/-- `swap(stacktop(-i), stacktop(-j))` -/
def swapTop (stack : Stack) (i j : Nat) : Except Stop Stack := do
  let vch1 ← stacktop stack i
  let vch2 ← stacktop stack j
  return (stack.set (i - 1) vch2).set (j - 1) vch1

/-- `if (stack.size() < n) return false` -/
def atLeast (n : Nat) (stack : Stack) : Except Stop Unit := require (n ≤ stack.length) .failed

/-- The second half of an opcode that ends in `VERIFY`: the result has to be true, and goes. -/
def verified (fVerify fSuccess : Bool) (stack : Stack) : Except Stop Stack :=
  if fVerify = true then (if fSuccess = true then popstack stack else .error .failed) else .ok stack

/-! ## Opcodes that work on the stack alone -/

/-- `OP_1NEGATE`, `OP_1` … `OP_16` -/
def opSmallInteger (opcode : UInt8) (stack : Stack) : Except Stop Stack :=
  .ok (CBigNum.getvch (opcode.toNat - (OP_1.toNat - 1)) :: stack)

def opVerify (stack : Stack) : Except Stop Stack := do
  atLeast 1 stack
  let fValue := castToBool (← stacktop stack 1)
  if fValue = true then popstack stack else .error .failed

def op2Drop (stack : Stack) : Except Stop Stack := do
  atLeast 2 stack
  let stack ← popstack stack
  popstack stack

def op2Dup (stack : Stack) : Except Stop Stack := do
  atLeast 2 stack
  let vch1 ← stacktop stack 2
  let vch2 ← stacktop stack 1
  return vch2 :: vch1 :: stack

def op3Dup (stack : Stack) : Except Stop Stack := do
  atLeast 3 stack
  let vch1 ← stacktop stack 3
  let vch2 ← stacktop stack 2
  let vch3 ← stacktop stack 1
  return vch3 :: vch2 :: vch1 :: stack

def op2Over (stack : Stack) : Except Stop Stack := do
  atLeast 4 stack
  let vch1 ← stacktop stack 4
  let vch2 ← stacktop stack 3
  return vch2 :: vch1 :: stack

def op2Rot (stack : Stack) : Except Stop Stack := do
  atLeast 6 stack
  let vch1 ← stacktop stack 6
  let vch2 ← stacktop stack 5
  let stack ← eraseTop stack 6
  let stack ← eraseTop stack 5
  return vch2 :: vch1 :: stack

def op2Swap (stack : Stack) : Except Stop Stack := do
  atLeast 4 stack
  let stack ← swapTop stack 4 2
  swapTop stack 3 1

def opIfDup (stack : Stack) : Except Stop Stack := do
  atLeast 1 stack
  let vch ← stacktop stack 1
  return if castToBool vch = true then vch :: stack else stack

def opDepth (stack : Stack) : Except Stop Stack := .ok (CBigNum.getvch stack.length :: stack)

def opDrop (stack : Stack) : Except Stop Stack := do
  atLeast 1 stack
  popstack stack

def opDup (stack : Stack) : Except Stop Stack := do
  atLeast 1 stack
  let vch ← stacktop stack 1
  return vch :: stack

def opNip (stack : Stack) : Except Stop Stack := do
  atLeast 2 stack
  eraseTop stack 2

def opOver (stack : Stack) : Except Stop Stack := do
  atLeast 2 stack
  let vch ← stacktop stack 2
  return vch :: stack

/-- `OP_PICK` and `OP_ROLL` -/
def opPick (opcode : UInt8) (stack : Stack) : Except Stop Stack := do
  atLeast 2 stack
  let bn ← castToBigNum (← stacktop stack 1)
  let n := CBigNum.getint bn
  let stack ← popstack stack
  require (0 ≤ n ∧ n < stack.length) .failed
  let vch ← stacktop stack (n.toNat + 1)
  let stack ← if opcode = OP_ROLL then eraseTop stack (n.toNat + 1) else .ok stack
  return vch :: stack

def opRot (stack : Stack) : Except Stop Stack := do
  atLeast 3 stack
  let stack ← swapTop stack 3 2
  swapTop stack 2 1

def opSwap (stack : Stack) : Except Stop Stack := do
  atLeast 2 stack
  swapTop stack 2 1

def opTuck (stack : Stack) : Except Stop Stack := do
  atLeast 2 stack
  let vch ← stacktop stack 1
  insertTop stack 2 vch

def opSize (stack : Stack) : Except Stop Stack := do
  atLeast 1 stack
  let vch ← stacktop stack 1
  return CBigNum.getvch vch.length :: stack

/-- `OP_EQUAL` and `OP_EQUALVERIFY` -/
def opEqual (fVerify : Bool) (stack : Stack) : Except Stop Stack := do
  atLeast 2 stack
  let vch1 ← stacktop stack 2
  let vch2 ← stacktop stack 1
  let fEqual : Bool := vch1 = vch2
  let stack ← popstack stack
  let stack ← popstack stack
  verified fVerify fEqual (vchBool fEqual :: stack)

/-- A number made of a truth value. -/
def bnBool (p : Prop) [Decidable p] : Int := if p then 1 else 0

def unaryValue (opcode : UInt8) (bn : Int) : Int :=
  if opcode = OP_1ADD then bn + 1
  else if opcode = OP_1SUB then bn - 1
  else if opcode = OP_NEGATE then -bn
  else if opcode = OP_ABS then (if bn < 0 then -bn else bn)
  else if opcode = OP_NOT then bnBool (bn = 0)
  else bnBool (bn ≠ 0)

/-- `OP_1ADD`, `OP_1SUB`, `OP_NEGATE`, `OP_ABS`, `OP_NOT`, `OP_0NOTEQUAL` -/
def opUnary (opcode : UInt8) (stack : Stack) : Except Stop Stack := do
  atLeast 1 stack
  let bn ← castToBigNum (← stacktop stack 1)
  let stack ← popstack stack
  return CBigNum.getvch (unaryValue opcode bn) :: stack

def binaryValue (opcode : UInt8) (bn1 bn2 : Int) : Int :=
  if opcode = OP_ADD then bn1 + bn2
  else if opcode = OP_SUB then bn1 - bn2
  else if opcode = OP_BOOLAND then bnBool (bn1 ≠ 0 ∧ bn2 ≠ 0)
  else if opcode = OP_BOOLOR then bnBool (bn1 ≠ 0 ∨ bn2 ≠ 0)
  else if opcode = OP_NUMEQUAL ∨ opcode = OP_NUMEQUALVERIFY then bnBool (bn1 = bn2)
  else if opcode = OP_NUMNOTEQUAL then bnBool (bn1 ≠ bn2)
  else if opcode = OP_LESSTHAN then bnBool (bn1 < bn2)
  else if opcode = OP_GREATERTHAN then bnBool (bn1 > bn2)
  else if opcode = OP_LESSTHANOREQUAL then bnBool (bn1 ≤ bn2)
  else if opcode = OP_GREATERTHANOREQUAL then bnBool (bn1 ≥ bn2)
  else if opcode = OP_MIN then (if bn1 < bn2 then bn1 else bn2)
  else (if bn1 > bn2 then bn1 else bn2)

/-- `OP_ADD` … `OP_MAX` -/
def opBinary (opcode : UInt8) (stack : Stack) : Except Stop Stack := do
  atLeast 2 stack
  let bn1 ← castToBigNum (← stacktop stack 2)
  let bn2 ← castToBigNum (← stacktop stack 1)
  let vch := CBigNum.getvch (binaryValue opcode bn1 bn2)
  let stack ← popstack stack
  let stack ← popstack stack
  verified (opcode = OP_NUMEQUALVERIFY) (castToBool vch) (vch :: stack)

def opWithin (stack : Stack) : Except Stop Stack := do
  atLeast 3 stack
  let bn1 ← castToBigNum (← stacktop stack 3)
  let bn2 ← castToBigNum (← stacktop stack 2)
  let bn3 ← castToBigNum (← stacktop stack 1)
  let fValue : Bool := bn2 ≤ bn1 ∧ bn1 < bn3
  let stack ← popMany 3 stack
  return vchBool fValue :: stack

/-! ## What the interpreter is given -/

/-- The hash functions, `SignatureHash` and `CPubKey::Verify`. A digest is the number of its bytes. -/
structure Crypto where
  ripemd160 : Bytes → Uint160
  sha1 : Bytes → Uint160
  sha256 : Bytes → Uint256
  hash160 : Bytes → Uint160
  hash : Bytes → Uint256
  signatureHash : CScript → CTransaction → Nat → Int → Uint256
  verify : Bytes → Uint256 → Bytes → Bool

/-- The arguments that go down to `CheckSig` unchanged. -/
structure Checker where
  txTo : CTransaction
  nIn : Nat
  flags : Nat
  nHashType : Int
deriving DecidableEq, Repr

def Checker.fStrictEncodings (check : Checker) : Bool := check.flags &&& SCRIPT_VERIFY_STRICTENC ≠ 0

def Checker.fP2SH (check : Checker) : Bool := check.flags &&& SCRIPT_VERIFY_P2SH ≠ 0

/-! ## Signatures -/

/-- `vch[i]` -/
def byteAt (vch : Bytes) (i : Nat) : Except Stop UInt8 :=
  match vch[i]? with
  | some b => .ok b
  | none => .error .fault

/-- **`IsCanonicalPubKey`** -/
def isCanonicalPubKey (vchPubKey : Bytes) : Except Stop Unit := do
  require (33 ≤ vchPubKey.length) .failed
  let header ← byteAt vchPubKey 0
  if header = 0x04 then require (vchPubKey.length = 65) .failed
  else if header = 0x02 ∨ header = 0x03 then require (vchPubKey.length = 33) .failed
  else .error .failed

/-- One of the two integers of a signature, `n` bytes from `pos` on: its type, not empty, not negative, and no zero in
    front that is not needed. -/
def isCanonicalInteger (vchSig : Bytes) (pos n : Nat) : Except Stop Unit := do
  let type ← byteAt vchSig (pos - 2)
  require (type = 0x02) .failed
  require (n ≠ 0) .failed
  let first ← byteAt vchSig pos
  require (first &&& 0x80 = 0) .failed
  if 1 < n ∧ first = 0 then
    let second ← byteAt vchSig (pos + 1)
    require (second &&& 0x80 ≠ 0) .failed
  else .ok ()

/-- **`IsCanonicalSignature`** -/
def isCanonicalSignature (vchSig : Bytes) : Except Stop Unit := do
  require (9 ≤ vchSig.length) .failed
  require (vchSig.length ≤ 73) .failed
  let last ← byteAt vchSig (vchSig.length - 1)
  let nHashType := last &&& ~~~SIGHASH_ANYONECANPAY
  require (SIGHASH_ALL ≤ nHashType ∧ nHashType ≤ SIGHASH_SINGLE) .failed
  let type ← byteAt vchSig 0
  require (type = 0x30) .failed
  let size ← byteAt vchSig 1
  require (size.toNat = vchSig.length - 3) .failed
  let nLenR ← byteAt vchSig 3
  require (5 + nLenR.toNat < vchSig.length) .failed
  let nLenS ← byteAt vchSig (5 + nLenR.toNat)
  require (nLenR.toNat + nLenS.toNat + 7 = vchSig.length) .failed
  isCanonicalInteger vchSig 4 nLenR.toNat
  isCanonicalInteger vchSig (6 + nLenR.toNat) nLenS.toNat

/-- `CPubKey::GetLen` -/
def CPubKey.getLen (chHeader : UInt8) : Nat :=
  if chHeader = 2 ∨ chHeader = 3 then 33
  else if chHeader = 4 ∨ chHeader = 6 ∨ chHeader = 7 then 65
  else 0

/-- `CPubKey(vch).IsValid()`: the header byte tells the length. -/
def CPubKey.isValid (vch : Bytes) : Bool :=
  match vch with
  | [] => false
  | chHeader :: _ => getLen chHeader ≠ 0 ∧ getLen chHeader = vch.length

/-- The loop of `FindAndDelete`: at every instruction boundary, `b` goes as often as it stands there. An instruction
    is at least one byte long, so the length of the script is fuel enough. -/
def deleteLoop (b : CScript) : Nat → CScript → CScript
  | 0, pc => pc
  | fuel + 1, pc =>
    if pc.take b.length = b then deleteLoop b fuel (pc.drop b.length)
    else
      match getOp pc with
      | none => pc
      | some (_, _, rest) => pc.take (pc.length - rest.length) ++ deleteLoop b fuel rest

/-- **`FindAndDelete`** -/
def findAndDelete (b script : CScript) : CScript := if b = [] then script else deleteLoop b script.length script

section

variable (crypto : Crypto) (check : Checker)

/-- **`CheckSig`** -/
def checkSig (vchSig vchPubKey : Bytes) (scriptCode : CScript) : Bool :=
  if CPubKey.isValid vchPubKey = false then false
  else
    match vchSig.getLast? with
    | none => false
    | some back =>
      let nHashType := if check.nHashType = 0 then (back.toNat : Int) else check.nHashType
      if nHashType ≠ back.toNat then false
      else crypto.verify vchPubKey (crypto.signatureHash scriptCode check.txTo check.nIn nHashType) vchSig.dropLast

/-- One signature against one key, if strict encoding allows to look at them, and how often `CheckSig` is called. -/
def checkPair (vchSig vchPubKey : Bytes) (scriptCode : CScript) : Bool × Nat :=
  if check.fStrictEncodings = false ∨
      (isCanonicalSignature vchSig = .ok () ∧ isCanonicalPubKey vchPubKey = .ok ()) then
    (checkSig crypto check vchSig vchPubKey scriptCode, 1)
  else
    (false, 0)

/-- The loop of `OP_CHECKMULTISIG`, with the number of calls of `CheckSig`. There are never more signatures left than
    keys. -/
def multiSigLoop (stack : Stack) (scriptCode : CScript) : Nat → Nat → Nat → Nat → Except Stop Bool × Nat
  | _, 0, _, _ => (.ok true, 0)
  | 0, _ + 1, _, _ => (.error .fault, 0)
  | nKeysCount + 1, nSigsCount + 1, isig, ikey =>
    match stacktop stack isig, stacktop stack ikey with
    | .ok vchSig, .ok vchPubKey =>
      let (fOk, n) := checkPair crypto check vchSig vchPubKey scriptCode
      let nSigsCount := if fOk = true then nSigsCount else nSigsCount + 1
      let isig := if fOk = true then isig + 1 else isig
      if nKeysCount < nSigsCount then (.ok false, n)
      else
        let (fSuccess, n') := multiSigLoop stack scriptCode nKeysCount nSigsCount isig (ikey + 1)
        (fSuccess, n + n')
    | _, _ => (.error .fault, 0)

/-! ## The machine -/

structure Frame where
  pc : CScript
  stack : Stack
  altstack : Stack
  vfExec : List Bool
  pbegincodehash : CScript
  nOpCount : Nat
  nCheckSig : Nat
deriving DecidableEq, Repr

/-- `OP_IF` and `OP_NOTIF` -/
def opIf (opcode : UInt8) (fExec : Bool) (f : Frame) : Except (Stop × Frame) Frame :=
  if fExec = true then do
    stay f (atLeast 1 f.stack)
    let vch ← stay f (stacktop f.stack 1)
    let fValue := if opcode = OP_NOTIF then !castToBool vch else castToBool vch
    let stack ← stay f (popstack f.stack)
    return { f with stack, vfExec := fValue :: f.vfExec }
  else
    .ok { f with vfExec := false :: f.vfExec }

def opElse (f : Frame) : Except (Stop × Frame) Frame :=
  match f.vfExec with
  | [] => .error (.failed, f)
  | back :: vfExec => .ok { f with vfExec := (!back) :: vfExec }

def opEndIf (f : Frame) : Except (Stop × Frame) Frame :=
  match f.vfExec with
  | [] => .error (.failed, f)
  | _ :: vfExec => .ok { f with vfExec }

def opToAltStack (f : Frame) : Except (Stop × Frame) Frame := do
  stay f (atLeast 1 f.stack)
  let vch ← stay f (stacktop f.stack 1)
  let stack ← stay f (popstack f.stack)
  return { f with stack, altstack := vch :: f.altstack }

def opFromAltStack (f : Frame) : Except (Stop × Frame) Frame := do
  stay f (atLeast 1 f.altstack)
  let vch ← stay f (stacktop f.altstack 1)
  let altstack ← stay f (popstack f.altstack)
  return { f with stack := vch :: f.stack, altstack }

/-- `OP_CHECKSIG` and `OP_CHECKSIGVERIFY` -/
def opCheckSig (fVerify : Bool) (f : Frame) : Except (Stop × Frame) Frame := do
  stay f (atLeast 2 f.stack)
  let vchSig ← stay f (stacktop f.stack 2)
  let vchPubKey ← stay f (stacktop f.stack 1)
  let scriptCode := findAndDelete (pushVch vchSig) f.pbegincodehash
  let (fSuccess, n) := checkPair crypto check vchSig vchPubKey scriptCode
  let f := { f with nCheckSig := f.nCheckSig + n }
  let stack ← stay f (popMany 2 f.stack)
  let stack ← stay f (verified fVerify fSuccess (vchBool fSuccess :: stack))
  return { f with stack }

/-- `scriptCode` without the signatures, the first of which is `stacktop(-isig)`. -/
def deleteSigs (stack : Stack) (isig nSigsCount : Nat) (scriptCode : CScript) : Except Stop CScript :=
  (List.range nSigsCount).foldlM (fun scriptCode k => do
    let vchSig ← stacktop stack (isig + k)
    return findAndDelete (pushVch vchSig) scriptCode) scriptCode

/-- `CastToBigNum(stacktop(-i)).getint()` -/
def intAt (stack : Stack) (i : Nat) : Except Stop Int := do
  let vch ← stacktop stack i
  let bn ← castToBigNum vch
  return CBigNum.getint bn

/-- What `OP_CHECKMULTISIG` does once the number of keys is known and counted. -/
def checkMultiSig (fVerify : Bool) (nKeysCount : Nat) (f : Frame) : Except (Stop × Frame) Frame := do
  let ikey := 2
  let i := ikey + nKeysCount
  stay f (atLeast i f.stack)
  let nSigsCount ← stay f (intAt f.stack i)
  stay f (require (0 ≤ nSigsCount ∧ nSigsCount ≤ nKeysCount) .failed)
  let isig := i + 1
  let i := isig + nSigsCount.toNat
  stay f (atLeast i f.stack)
  let scriptCode ← stay f (deleteSigs f.stack isig nSigsCount.toNat f.pbegincodehash)
  let (result, n) := multiSigLoop crypto check f.stack scriptCode nKeysCount nSigsCount.toNat isig ikey
  let f := { f with nCheckSig := f.nCheckSig + n }
  let fSuccess ← stay f result
  let stack ← stay f (popMany i f.stack)
  let stack ← stay f (verified fVerify fSuccess (vchBool fSuccess :: stack))
  return { f with stack }

/-- `OP_CHECKMULTISIG` and `OP_CHECKMULTISIGVERIFY` -/
def opCheckMultiSig (fVerify : Bool) (f : Frame) : Except (Stop × Frame) Frame := do
  stay f (atLeast 1 f.stack)
  let nKeysCount ← stay f (intAt f.stack 1)
  stay f (require (0 ≤ nKeysCount ∧ nKeysCount ≤ 20) .failed)
  let f := { f with nOpCount := f.nOpCount + nKeysCount.toNat }
  stay f (require (f.nOpCount ≤ 201) .failed)
  checkMultiSig crypto check fVerify nKeysCount.toNat f

/-- `OP_RIPEMD160` … `OP_HASH256` -/
def opHash (opcode : UInt8) (stack : Stack) : Except Stop Stack := do
  atLeast 1 stack
  let vch ← stacktop stack 1
  let vchHash :=
    if opcode = OP_RIPEMD160 then toLE 20 (crypto.ripemd160 vch)
    else if opcode = OP_SHA1 then toLE 20 (crypto.sha1 vch)
    else if opcode = OP_SHA256 then toLE 32 (crypto.sha256 vch)
    else if opcode = OP_HASH160 then toLE 20 (crypto.hash160 vch)
    else toLE 32 (crypto.hash vch)
  let stack ← popstack stack
  return vchHash :: stack

/-- The cases of the switch that change nothing but the stack. `OP_RETURN` does what an unknown opcode does. -/
def stackOp (opcode : UInt8) : Stack → Except Stop Stack :=
  if opcode = OP_1NEGATE ∨ (OP_1 ≤ opcode ∧ opcode ≤ OP_16) then opSmallInteger opcode
  else if opcode = OP_NOP ∨ (OP_NOP1 ≤ opcode ∧ opcode ≤ OP_NOP10) then .ok
  else if opcode = OP_VERIFY then opVerify
  else if opcode = OP_2DROP then op2Drop
  else if opcode = OP_2DUP then op2Dup
  else if opcode = OP_3DUP then op3Dup
  else if opcode = OP_2OVER then op2Over
  else if opcode = OP_2ROT then op2Rot
  else if opcode = OP_2SWAP then op2Swap
  else if opcode = OP_IFDUP then opIfDup
  else if opcode = OP_DEPTH then opDepth
  else if opcode = OP_DROP then opDrop
  else if opcode = OP_DUP then opDup
  else if opcode = OP_NIP then opNip
  else if opcode = OP_OVER then opOver
  else if opcode = OP_PICK ∨ opcode = OP_ROLL then opPick opcode
  else if opcode = OP_ROT then opRot
  else if opcode = OP_SWAP then opSwap
  else if opcode = OP_TUCK then opTuck
  else if opcode = OP_SIZE then opSize
  else if opcode = OP_EQUAL ∨ opcode = OP_EQUALVERIFY then opEqual (opcode = OP_EQUALVERIFY)
  else if opcode ∈ [OP_1ADD, OP_1SUB, OP_NEGATE, OP_ABS, OP_NOT, OP_0NOTEQUAL] then opUnary opcode
  else if opcode = OP_ADD ∨ opcode = OP_SUB ∨ (OP_BOOLAND ≤ opcode ∧ opcode ≤ OP_MAX) then opBinary opcode
  else if opcode = OP_WITHIN then opWithin
  else if OP_RIPEMD160 ≤ opcode ∧ opcode ≤ OP_HASH256 then opHash crypto opcode
  else fun _ => .error .failed

/-- The switch of `EvalScript`. -/
def execute (opcode : UInt8) (fExec : Bool) (f : Frame) : Except (Stop × Frame) Frame :=
  if opcode = OP_IF ∨ opcode = OP_NOTIF then opIf opcode fExec f
  else if opcode = OP_ELSE then opElse f
  else if opcode = OP_ENDIF then opEndIf f
  else if opcode = OP_TOALTSTACK then opToAltStack f
  else if opcode = OP_FROMALTSTACK then opFromAltStack f
  else if opcode = OP_CODESEPARATOR then .ok { f with pbegincodehash := f.pc }
  else if opcode = OP_CHECKSIG ∨ opcode = OP_CHECKSIGVERIFY then
    opCheckSig crypto check (opcode = OP_CHECKSIGVERIFY) f
  else if opcode = OP_CHECKMULTISIG ∨ opcode = OP_CHECKMULTISIGVERIFY then
    opCheckMultiSig crypto check (opcode = OP_CHECKMULTISIGVERIFY) f
  else do
    let stack ← stay f (stackOp crypto opcode f.stack)
    return { f with stack }

/-- A push, the switch, or nothing in a branch that is not taken. -/
def perform (opcode : UInt8) (vchPushValue : Bytes) (f : Frame) : Except (Stop × Frame) Frame :=
  let fExec := f.vfExec.all (· = true)
  if fExec = true ∧ opcode ≤ OP_PUSHDATA4 then .ok { f with stack := vchPushValue :: f.stack }
  else if fExec = true ∨ (OP_IF ≤ opcode ∧ opcode ≤ OP_ENDIF) then execute crypto check opcode fExec f
  else .ok f

/-- One turn of the loop of `EvalScript`. -/
def step (f : Frame) : Except (Stop × Frame) Frame :=
  match getOp f.pc with
  | none => .error (.failed, f)
  | some (opcode, vchPushValue, pc) => do
    let f := { f with pc }
    stay f (require (vchPushValue.length ≤ MAX_SCRIPT_ELEMENT_SIZE) .failed)
    let f := { f with nOpCount := if OP_16 < opcode then f.nOpCount + 1 else f.nOpCount }
    stay f (require (¬(OP_16 < opcode ∧ 201 < f.nOpCount)) .failed)
    stay f (require (opcode ∉ disabledOpcodes) .failed)
    let f ← perform crypto check opcode vchPushValue f
    stay f (require (f.stack.length + f.altstack.length ≤ 1000) .failed)
    return f

end

/-! ### An instruction is read once -/

section Pc

variable {crypto : Crypto} {check : Checker} {f g : Frame}

theorem opIf_pc {opcode : UInt8} {fExec : Bool} (h : opIf opcode fExec f = .ok g) : g.pc = f.pc := by
  unfold opIf at h
  split at h
  · simp only [Except.bind_ok_iff, stay_ok_iff] at h
    obtain ⟨-, -, vch, -, stack, -, h⟩ := h
    cases h
    rfl
  · cases h
    rfl

theorem opElse_pc (h : opElse f = .ok g) : g.pc = f.pc := by
  unfold opElse at h
  split at h
  · cases h
  · cases h
    rfl

theorem opEndIf_pc (h : opEndIf f = .ok g) : g.pc = f.pc := by
  unfold opEndIf at h
  split at h
  · cases h
  · cases h
    rfl

theorem opToAltStack_pc (h : opToAltStack f = .ok g) : g.pc = f.pc := by
  unfold opToAltStack at h
  simp only [Except.bind_ok_iff, stay_ok_iff] at h
  obtain ⟨-, -, vch, -, stack, -, h⟩ := h
  cases h
  rfl

theorem opFromAltStack_pc (h : opFromAltStack f = .ok g) : g.pc = f.pc := by
  unfold opFromAltStack at h
  simp only [Except.bind_ok_iff, stay_ok_iff] at h
  obtain ⟨-, -, vch, -, altstack, -, h⟩ := h
  cases h
  rfl

theorem opCheckSig_pc {fVerify : Bool} (h : opCheckSig crypto check fVerify f = .ok g) : g.pc = f.pc := by
  unfold opCheckSig at h
  simp only [Except.bind_ok_iff, stay_ok_iff] at h
  obtain ⟨-, -, vchSig, -, vchPubKey, -, stack, -, stack', -, h⟩ := h
  cases h
  rfl

theorem opCheckMultiSig_pc {fVerify : Bool} (h : opCheckMultiSig crypto check fVerify f = .ok g) : g.pc = f.pc := by
  unfold opCheckMultiSig checkMultiSig at h
  simp only [Except.bind_ok_iff, stay_ok_iff] at h
  obtain ⟨-, -, nKeysCount, -, -, -, -, -, -, -, nSigsCount, -, -, -, -, -, scriptCode, -, fSuccess, -, stack, -, stack', -,
    h⟩ := h
  cases h
  rfl

theorem perform_pc {opcode : UInt8} {vch : Bytes} (h : perform crypto check opcode vch f = .ok g) : g.pc = f.pc := by
  unfold perform at h
  dsimp only at h
  split at h
  · cases h
    rfl
  · split at h
    · unfold execute at h
      repeat' split at h
      · exact opIf_pc h
      · exact opElse_pc h
      · exact opEndIf_pc h
      · exact opToAltStack_pc h
      · exact opFromAltStack_pc h
      · cases h
        rfl
      · exact opCheckSig_pc h
      · exact opCheckMultiSig_pc h
      · obtain ⟨stack, -, h⟩ := Except.bind_ok_iff.mp h
        cases h
        rfl
    · cases h
      rfl

/-- **What a step does.** An instruction within the limits is carried out with the rest of the script still to come, and
    leaves the stacks within theirs. -/
theorem step_ok_iff {opcode : UInt8} {vch : Bytes} {pc : CScript} (hop : getOp f.pc = some (opcode, vch, pc)) :
    step crypto check f = .ok g ↔
      vch.length ≤ MAX_SCRIPT_ELEMENT_SIZE ∧
      ¬ (OP_16 < opcode ∧ 201 < f.nOpCount + 1) ∧
      opcode ∉ disabledOpcodes ∧
      perform crypto check opcode vch
        { f with pc, nOpCount := if OP_16 < opcode then f.nOpCount + 1 else f.nOpCount } = .ok g ∧
      g.stack.length + g.altstack.length ≤ 1000 := by
  have hcount : (OP_16 < opcode ∧ 201 < if OP_16 < opcode then f.nOpCount + 1 else f.nOpCount) ↔
      (OP_16 < opcode ∧ 201 < f.nOpCount + 1) := by
    constructor
    · rintro ⟨hhigh, hlt⟩
      rw [if_pos hhigh] at hlt
      exact ⟨hhigh, hlt⟩
    · rintro ⟨hhigh, hlt⟩
      rw [if_pos hhigh]
      exact ⟨hhigh, hlt⟩
  unfold step
  rw [hop]
  simp only [Except.bind_ok_iff, stay_ok_iff, require_ok_iff, hcount]
  constructor
  · rintro ⟨-, hvch, -, hops, -, hop', g', hperform, -, hsize, h⟩
    cases h
    exact ⟨hvch, hops, hop', hperform, hsize⟩
  · rintro ⟨hvch, hops, hop', hperform, hsize⟩
    exact ⟨⟨⟩, hvch, ⟨⟩, hops, ⟨⟩, hop', g, hperform, ⟨⟩, hsize, rfl⟩

/-- The instruction that a step which goes on has read and carried out. -/
theorem step_ok (h : step crypto check f = .ok g) :
    ∃ opcode vch pc, getOp f.pc = some (opcode, vch, pc) ∧
      perform crypto check opcode vch
        { f with pc, nOpCount := if OP_16 < opcode then f.nOpCount + 1 else f.nOpCount } = .ok g ∧
      g.pc = pc := by
  cases hop : getOp f.pc with
  | none =>
    unfold step at h
    rw [hop] at h
    cases h
  | some r =>
    obtain ⟨opcode, vch, pc⟩ := r
    obtain ⟨-, -, -, hperform, -⟩ := (step_ok_iff hop).mp h
    exact ⟨opcode, vch, pc, rfl, hperform, perform_pc hperform⟩

end Pc

/-! ## `EvalScript` and `VerifyScript` -/

section

variable (crypto : Crypto) (check : Checker)

def interpreter : Machine Frame Stop where
  step := step crypto check
  size f := f.pc.length
  size_lt f g h := by
    obtain ⟨opcode, vch, pc, hop, -, hpc⟩ := step_ok h
    rw [hpc]
    exact getOp_length hop

/-- The machine before the first instruction. -/
def Frame.start (nCheckSig : Nat) (stack : Stack) (script : CScript) : Frame :=
  { pc := script, stack, altstack := [], vfExec := [], pbegincodehash := script, nOpCount := 0, nCheckSig }

/-- **`EvalScript`**, after `nCheckSig` calls of `CheckSig`. -/
def evalScript (nCheckSig : Nat) (stack : Stack) (script : CScript) : Except (Stop × Frame) Frame := do
  let f := Frame.start nCheckSig stack script
  stay f (require (script.length ≤ 10000) .failed)
  let f ← (interpreter crypto check).exec f
  stay f (require (f.vfExec = []) .failed)
  return f

theorem evalScript_ok_iff {crypto : Crypto} {check : Checker} {nCheckSig : Nat} {stack : Stack} {script : CScript}
    {f : Frame} : evalScript crypto check nCheckSig stack script = .ok f ↔
      script.length ≤ 10000 ∧
      (interpreter crypto check).exec (Frame.start nCheckSig stack script) = .ok f ∧
      f.vfExec = [] := by
  unfold evalScript
  simp only [Except.bind_ok_iff, stay_ok_iff, require_ok_iff]
  constructor
  · rintro ⟨-, hsize, g, hrun, -, hvfExec, heq⟩
    cases heq
    exact ⟨hsize, hrun, hvfExec⟩
  · rintro ⟨hsize, hrun, hvfExec⟩
    exact ⟨⟨⟩, hsize, f, hrun, ⟨⟩, hvfExec, rfl⟩

/-- `IsPushOnly`, with the length of the script as fuel. -/
def pushOnlyLoop : Nat → CScript → Bool
  | 0, _ => true
  | _ + 1, [] => true
  | fuel + 1, pc =>
    match getOp pc with
    | none => false
    | some (opcode, _, pc) => if OP_16 < opcode then false else pushOnlyLoop fuel pc

def isPushOnly (script : CScript) : Bool := pushOnlyLoop script.length script

/-- `!stack.empty() && CastToBool(stack.back())` -/
def topIsTrue : Stack → Bool
  | [] => false
  | vch :: _ => castToBool vch

/-- The last part of `VerifyScript`: the script on top of `stack` is run on the rest of it. -/
def evalRedeemScript (nCheckSig : Nat) (f : Frame) (stack : Stack) : Except (Stop × Frame) Frame :=
  match stack with
  | [] => .error (.fault, f)
  | pubKeySerialized :: stackCopy => do
    let f ← evalScript crypto check nCheckSig stackCopy pubKeySerialized
    stay f (require (topIsTrue f.stack = true) .failed)
    return f

/-- **`VerifyScript`.** The output is spent if this does not stop. -/
def verifyScript (scriptSig scriptPubKey : CScript) : Except (Stop × Frame) Frame := do
  let f ← evalScript crypto check 0 [] scriptSig
  let g ← evalScript crypto check f.nCheckSig f.stack scriptPubKey
  stay g (require (topIsTrue g.stack = true) .failed)
  if check.fP2SH = true ∧ isPayToScriptHash scriptPubKey = true then do
    stay g (require (isPushOnly scriptSig = true) .failed)
    evalRedeemScript crypto check g.nCheckSig g f.stack
  else
    return g

/-- What `VerifyScript` returns. -/
def verifies (scriptSig scriptPubKey : CScript) : Bool := (verifyScript crypto check scriptSig scriptPubKey).isOk

end

theorem isOk_iff {ε α : Type} {x : Except ε α} : x.isOk = true ↔ ∃ a, x = .ok a := by
  cases x <;> simp [Except.isOk, Except.toBool]

theorem verifies_iff {crypto : Crypto} {check : Checker} {scriptSig scriptPubKey : CScript} :
    verifies crypto check scriptSig scriptPubKey = true ↔
      ∃ f g, evalScript crypto check 0 [] scriptSig = .ok f ∧
        evalScript crypto check f.nCheckSig f.stack scriptPubKey = .ok g ∧
        topIsTrue g.stack = true ∧
        (check.fP2SH = true ∧ isPayToScriptHash scriptPubKey = true →
          isPushOnly scriptSig = true ∧ (evalRedeemScript crypto check g.nCheckSig g f.stack).isOk = true) := by
  unfold verifies
  rw [isOk_iff]
  unfold verifyScript
  simp only [Except.bind_ok_iff, stay_ok_iff, require_ok_iff]
  constructor
  · rintro ⟨r, f, hf, g, hg, -, htop, h⟩
    refine ⟨f, g, hf, hg, htop, fun hp2sh => ?_⟩
    rw [if_pos hp2sh] at h
    obtain ⟨⟨⟩, hpush, hredeem⟩ := Except.bind_ok_iff.mp h
    exact ⟨require_ok_iff.mp (stay_ok_iff.mp hpush), isOk_iff.mpr ⟨r, hredeem⟩⟩
  · rintro ⟨f, g, hf, hg, htop, h⟩
    by_cases hp2sh : check.fP2SH = true ∧ isPayToScriptHash scriptPubKey = true
    · obtain ⟨hpush, hredeem⟩ := h hp2sh
      obtain ⟨r, hr⟩ := isOk_iff.mp hredeem
      refine ⟨r, f, hf, g, hg, ⟨⟩, htop, ?_⟩
      rw [if_pos hp2sh]
      exact Except.bind_ok_iff.mpr ⟨⟨⟩, stay_ok_iff.mpr (require_ok_iff.mpr hpush), hr⟩
    · refine ⟨g, f, hf, g, hg, ⟨⟩, htop, ?_⟩
      rw [if_neg hp2sh]
      rfl

end Syscoin

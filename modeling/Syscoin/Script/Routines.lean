import Syscoin.Lib.Record
import Syscoin.Script.Interpreter

/-!
# `Script.Routines` — the cases of the switch, command by command

`Script.Interpreter` says what an instruction leaves on the stacks. Here the same cases are written out as the source has
them: every `stacktop`, `push_back`, `popstack`, `erase`, `insert` and `swap` is a command of its own, in the order of the
code, and so is every increment of `nOpCount`. The commands are recorded, so that one can speak about every moment while
an instruction is carried out. An assertion that fails is a fault, like an access outside a stack.
-/

namespace Syscoin

open Lib

/-- What is done to the two stacks and to `nOpCount`. -/
inductive Command where
  | stacktop (i : Nat)
  | altstacktop (i : Nat)
  | push (vch : Bytes)
  | pop
  | altPush (vch : Bytes)
  | altPop
  | erase (i j : Nat)
  | insert (i : Nat) (vch : Bytes)
  | swap (i j : Nat)
  | count (n : Nat)
deriving DecidableEq, Repr

namespace Command

/-- The positions, from the top, that a command uses of the stack. -/
@[simp] def positions : Command → List Nat
  | stacktop i => [i]
  | pop => [1]
  | erase i j => [i, j + 1]
  | insert i _ => [i]
  | swap i j => [i, j]
  | _ => []

/-- The positions that it uses of the other stack. -/
@[simp] def altPositions : Command → List Nat
  | altstacktop i => [i]
  | altPop => [1]
  | _ => []

/-- What it puts on a stack. -/
@[simp] def pushed : Command → List Bytes
  | push vch => [vch]
  | altPush vch => [vch]
  | insert _ vch => [vch]
  | _ => []

end Command

/-- A piece of `EvalScript`. -/
abbrev Routine (α : Type) : Type := Recorded Frame Command Stop α

namespace Routine

open Recorded

/-! ## Commands -/

/-- `stacktop(-i)` -/
def stacktop (i : Nat) : Routine Bytes := act (.stacktop i) fun f => (Syscoin.stacktop f.stack i).map (·, f)

/-- `altstacktop(-i)` -/
def altstacktop (i : Nat) : Routine Bytes := act (.altstacktop i) fun f => (Syscoin.stacktop f.altstack i).map (·, f)

/-- `stack.push_back(vch)` -/
def push (vch : Bytes) : Routine Unit := act (.push vch) fun f => .ok ((), { f with stack := vch :: f.stack })

/-- `popstack(stack)` -/
def pop : Routine Unit := act .pop fun f => (popstack f.stack).map fun stack => ((), { f with stack })

/-- `altstack.push_back(vch)` -/
def altPush (vch : Bytes) : Routine Unit := act (.altPush vch) fun f => .ok ((), { f with altstack := vch :: f.altstack })

/-- `popstack(altstack)` -/
def altPop : Routine Unit := act .altPop fun f => (popstack f.altstack).map fun altstack => ((), { f with altstack })

/-- `stack.erase(stack.end() - i, stack.end() - j)` -/
def erase (i j : Nat) : Routine Unit :=
  act (.erase i j) fun f =>
    if j < i ∧ i ≤ f.stack.length then .ok ((), { f with stack := f.stack.take j ++ f.stack.drop i }) else .error .fault

/-- `stack.insert(stack.end() - i, vch)` -/
def insert (i : Nat) (vch : Bytes) : Routine Unit :=
  act (.insert i vch) fun f => (insertTop f.stack i vch).map fun stack => ((), { f with stack })

/-- `swap(stacktop(-i), stacktop(-j))` -/
def swap (i j : Nat) : Routine Unit :=
  act (.swap i j) fun f => (swapTop f.stack i j).map fun stack => ((), { f with stack })

/-- `nOpCount += n` -/
def count (n : Nat) : Routine Unit := act (.count n) fun f => .ok ((), { f with nOpCount := f.nOpCount + n })

/-- `if (stack.size() < n) return false` -/
def atLeast (n : Nat) : Routine Unit := do
  let stack ← read (·.stack)
  guard (n ≤ stack.length) .failed

/-- `assert(c)` -/
def assert (c : Prop) [Decidable c] : Routine Unit := guard c .fault

/-! ## The cases -/

def opSmallInteger (opcode : UInt8) : Routine Unit := push (CBigNum.getvch (opcode.toNat - (OP_1.toNat - 1)))

def opIf (opcode : UInt8) (fExec : Bool) : Routine Unit :=
  if fExec = true then do
    atLeast 1
    let vch ← stacktop 1
    let fValue := if opcode = OP_NOTIF then !castToBool vch else castToBool vch
    pop
    write fun f => { f with vfExec := fValue :: f.vfExec }
  else write fun f => { f with vfExec := false :: f.vfExec }

def opElse : Routine Unit := do
  let vfExec ← read (·.vfExec)
  match vfExec with
  | [] => stop .failed
  | back :: vfExec => write fun f => { f with vfExec := (!back) :: vfExec }

def opEndIf : Routine Unit := do
  let vfExec ← read (·.vfExec)
  match vfExec with
  | [] => stop .failed
  | _ :: vfExec => write fun f => { f with vfExec }

def opVerify : Routine Unit := do
  atLeast 1
  let vch ← stacktop 1
  if castToBool vch = true then pop else stop .failed

def opToAltStack : Routine Unit := do
  atLeast 1
  let vch ← stacktop 1
  altPush vch
  pop

def opFromAltStack : Routine Unit := do
  let altstack ← read (·.altstack)
  guard (1 ≤ altstack.length) .failed
  let vch ← altstacktop 1
  push vch
  altPop

def op2Drop : Routine Unit := do
  atLeast 2
  pop
  pop

def op2Dup : Routine Unit := do
  atLeast 2
  let vch1 ← stacktop 2
  let vch2 ← stacktop 1
  push vch1
  push vch2

def op3Dup : Routine Unit := do
  atLeast 3
  let vch1 ← stacktop 3
  let vch2 ← stacktop 2
  let vch3 ← stacktop 1
  push vch1
  push vch2
  push vch3

def op2Over : Routine Unit := do
  atLeast 4
  let vch1 ← stacktop 4
  let vch2 ← stacktop 3
  push vch1
  push vch2

def op2Rot : Routine Unit := do
  atLeast 6
  let vch1 ← stacktop 6
  let vch2 ← stacktop 5
  erase 6 4
  push vch1
  push vch2

def op2Swap : Routine Unit := do
  atLeast 4
  swap 4 2
  swap 3 1

def opIfDup : Routine Unit := do
  atLeast 1
  let vch ← stacktop 1
  if castToBool vch = true then push vch else pure ()

def opDepth : Routine Unit := do
  let stack ← read (·.stack)
  push (CBigNum.getvch stack.length)

def opDrop : Routine Unit := do
  atLeast 1
  pop

def opDup : Routine Unit := do
  atLeast 1
  let vch ← stacktop 1
  push vch

def opNip : Routine Unit := do
  atLeast 2
  erase 2 1

def opOver : Routine Unit := do
  atLeast 2
  let vch ← stacktop 2
  push vch

def opPick (opcode : UInt8) : Routine Unit := do
  atLeast 2
  let bn ← lift (castToBigNum (← stacktop 1))
  let n := CBigNum.getint bn
  pop
  let stack ← read (·.stack)
  guard (0 ≤ n ∧ n < stack.length) .failed
  let vch ← stacktop (n.toNat + 1)
  if opcode = OP_ROLL then erase (n.toNat + 1) n.toNat else pure ()
  push vch

def opRot : Routine Unit := do
  atLeast 3
  swap 3 2
  swap 2 1

def opSwap : Routine Unit := do
  atLeast 2
  swap 2 1

def opTuck : Routine Unit := do
  atLeast 2
  let vch ← stacktop 1
  insert 2 vch

def opSize : Routine Unit := do
  atLeast 1
  let vch ← stacktop 1
  push (CBigNum.getvch vch.length)

/-- The second half of an opcode that ends in `VERIFY`. -/
def verified (fVerify fSuccess : Bool) : Routine Unit :=
  if fVerify = true then (if fSuccess = true then pop else stop .failed) else pure ()

def opEqual (fVerify : Bool) : Routine Unit := do
  atLeast 2
  let vch1 ← stacktop 2
  let vch2 ← stacktop 1
  let fEqual : Bool := vch1 = vch2
  pop
  pop
  push (vchBool fEqual)
  verified fVerify fEqual

/-- The cases of the inner switch. -/
def unaryOpcodes : List UInt8 := [OP_1ADD, OP_1SUB, OP_NEGATE, OP_ABS, OP_NOT, OP_0NOTEQUAL]

def opUnary (opcode : UInt8) : Routine Unit := do
  atLeast 1
  let bn ← lift (castToBigNum (← stacktop 1))
  assert (opcode ∈ unaryOpcodes)
  pop
  push (CBigNum.getvch (unaryValue opcode bn))

/-- The cases of the inner switch. -/
def binaryOpcodes : List UInt8 :=
  [OP_ADD, OP_SUB, OP_BOOLAND, OP_BOOLOR, OP_NUMEQUAL, OP_NUMEQUALVERIFY, OP_NUMNOTEQUAL, OP_LESSTHAN, OP_GREATERTHAN,
    OP_LESSTHANOREQUAL, OP_GREATERTHANOREQUAL, OP_MIN, OP_MAX]

def opBinary (opcode : UInt8) : Routine Unit := do
  atLeast 2
  let bn1 ← lift (castToBigNum (← stacktop 2))
  let bn2 ← lift (castToBigNum (← stacktop 1))
  assert (opcode ∈ binaryOpcodes)
  pop
  pop
  push (CBigNum.getvch (binaryValue opcode bn1 bn2))
  if opcode = OP_NUMEQUALVERIFY then do
    let vch ← stacktop 1
    if castToBool vch = true then pop else stop .failed
  else pure ()

def opWithin : Routine Unit := do
  atLeast 3
  let bn1 ← lift (castToBigNum (← stacktop 3))
  let bn2 ← lift (castToBigNum (← stacktop 2))
  let bn3 ← lift (castToBigNum (← stacktop 1))
  let fValue : Bool := bn2 ≤ bn1 ∧ bn1 < bn3
  pop
  pop
  pop
  push (vchBool fValue)

section

variable (crypto : Crypto) (check : Checker)

def opHash (opcode : UInt8) : Routine Unit := do
  atLeast 1
  let vch ← stacktop 1
  let vchHash :=
    if opcode = OP_RIPEMD160 then toLE 20 (crypto.ripemd160 vch)
    else if opcode = OP_SHA1 then toLE 20 (crypto.sha1 vch)
    else if opcode = OP_SHA256 then toLE 32 (crypto.sha256 vch)
    else if opcode = OP_HASH160 then toLE 20 (crypto.hash160 vch)
    else toLE 32 (crypto.hash vch)
  pop
  push vchHash

def opCheckSig (fVerify : Bool) : Routine Unit := do
  atLeast 2
  let vchSig ← stacktop 2
  let vchPubKey ← stacktop 1
  let pbegincodehash ← read (·.pbegincodehash)
  let (fSuccess, n) := checkPair crypto check vchSig vchPubKey (findAndDelete (pushVch vchSig) pbegincodehash)
  write fun f => { f with nCheckSig := f.nCheckSig + n }
  pop
  pop
  push (vchBool fSuccess)
  verified fVerify fSuccess

/-- `CastToBigNum(stacktop(-i)).getint()` -/
def intAt (i : Nat) : Routine Int := do
  let bn ← lift (castToBigNum (← stacktop i))
  return CBigNum.getint bn

/-- "Drop the signatures, since there's no way for a signature to sign itself" -/
def deleteSigs (isig nSigsCount : Nat) (scriptCode : CScript) : Routine CScript :=
  (List.range nSigsCount).foldlM (fun scriptCode k => do
    let vchSig ← stacktop (isig + k)
    return findAndDelete (pushVch vchSig) scriptCode) scriptCode

/-- The loop over the signatures and the keys, with the number of calls of `CheckSig`. -/
def multiSigLoop (scriptCode : CScript) : Nat → Nat → Nat → Nat → Routine (Bool × Nat)
  | _, 0, _, _ => pure (true, 0)
  | 0, _ + 1, _, _ => stop .fault
  | nKeysCount + 1, nSigsCount + 1, isig, ikey => do
    let vchSig ← stacktop isig
    let vchPubKey ← stacktop ikey
    let (fOk, n) := checkPair crypto check vchSig vchPubKey scriptCode
    let nSigsCount := if fOk = true then nSigsCount else nSigsCount + 1
    let isig := if fOk = true then isig + 1 else isig
    if nKeysCount < nSigsCount then pure (false, n)
    else do
      let (fSuccess, n') ← multiSigLoop scriptCode nKeysCount nSigsCount isig (ikey + 1)
      pure (fSuccess, n + n')

def opCheckMultiSig (fVerify : Bool) : Routine Unit := do
  atLeast 1
  let nKeysCount ← intAt 1
  guard (0 ≤ nKeysCount ∧ nKeysCount ≤ 20) .failed
  let nKeysCount := nKeysCount.toNat
  count nKeysCount
  let nOpCount ← read (·.nOpCount)
  guard (nOpCount ≤ 201) .failed
  let ikey := 2
  let i := ikey + nKeysCount
  atLeast i
  let nSigsCount ← intAt i
  guard (0 ≤ nSigsCount ∧ nSigsCount ≤ nKeysCount) .failed
  let nSigsCount := nSigsCount.toNat
  let isig := i + 1
  let i := isig + nSigsCount
  atLeast i
  let pbegincodehash ← read (·.pbegincodehash)
  let scriptCode ← deleteSigs isig nSigsCount pbegincodehash
  let (fSuccess, n) ← multiSigLoop crypto check scriptCode nKeysCount nSigsCount isig ikey
  write fun f => { f with nCheckSig := f.nCheckSig + n }
  repeatM pop i
  push (vchBool fSuccess)
  verified fVerify fSuccess

/-! ## The loop of `EvalScript` -/

/-- The cases of the switch that change nothing but the stack. -/
def stackOp (opcode : UInt8) : Routine Unit :=
  if opcode = OP_1NEGATE ∨ (OP_1 ≤ opcode ∧ opcode ≤ OP_16) then opSmallInteger opcode
  else if opcode = OP_NOP ∨ (OP_NOP1 ≤ opcode ∧ opcode ≤ OP_NOP10) then pure ()
  else if opcode = OP_VERIFY then opVerify
  else if opcode = OP_2DROP then op2Drop
  else if opcode = OP_2DUP then op2Dup
  else if opcode = OP_3DUP then op3Dup
  else if opcode = OP_2OVER then op2Over
  else if opcode = OP_2ROT then op2Rot
  else if opcode = OP_2SWAP then op2Swap
  else if opcode = OP_IFDUP then opIfDup
  else if opcode = OP_DEPTH then opDepth
  else if opcode = OP_DROP then opDrop
  else if opcode = OP_DUP then opDup
  else if opcode = OP_NIP then opNip
  else if opcode = OP_OVER then opOver
  else if opcode = OP_PICK ∨ opcode = OP_ROLL then opPick opcode
  else if opcode = OP_ROT then opRot
  else if opcode = OP_SWAP then opSwap
  else if opcode = OP_TUCK then opTuck
  else if opcode = OP_SIZE then opSize
  else if opcode = OP_EQUAL ∨ opcode = OP_EQUALVERIFY then opEqual (opcode = OP_EQUALVERIFY)
  else if opcode ∈ [OP_1ADD, OP_1SUB, OP_NEGATE, OP_ABS, OP_NOT, OP_0NOTEQUAL] then opUnary opcode
  else if opcode = OP_ADD ∨ opcode = OP_SUB ∨ (OP_BOOLAND ≤ opcode ∧ opcode ≤ OP_MAX) then opBinary opcode
  else if opcode = OP_WITHIN then opWithin
  else if OP_RIPEMD160 ≤ opcode ∧ opcode ≤ OP_HASH256 then opHash crypto opcode
  else stop .failed

/-- The switch. -/
def execute (opcode : UInt8) (fExec : Bool) : Routine Unit :=
  if opcode = OP_IF ∨ opcode = OP_NOTIF then opIf opcode fExec
  else if opcode = OP_ELSE then opElse
  else if opcode = OP_ENDIF then opEndIf
  else if opcode = OP_TOALTSTACK then opToAltStack
  else if opcode = OP_FROMALTSTACK then opFromAltStack
  else if opcode = OP_CODESEPARATOR then write fun f => { f with pbegincodehash := f.pc }
  else if opcode = OP_CHECKSIG ∨ opcode = OP_CHECKSIGVERIFY then opCheckSig crypto check (opcode = OP_CHECKSIGVERIFY)
  else if opcode = OP_CHECKMULTISIG ∨ opcode = OP_CHECKMULTISIGVERIFY then
    opCheckMultiSig crypto check (opcode = OP_CHECKMULTISIGVERIFY)
  else stackOp crypto opcode

/-- A push, the switch, or nothing in a branch that is not taken. -/
def perform (opcode : UInt8) (vchPushValue : Bytes) : Routine Unit := do
  let vfExec ← read (·.vfExec)
  let fExec := vfExec.all (· = true)
  if fExec = true ∧ opcode ≤ OP_PUSHDATA4 then push vchPushValue
  else if fExec = true ∨ (OP_IF ≤ opcode ∧ opcode ≤ OP_ENDIF) then execute crypto check opcode fExec
  else pure ()

/-- One turn of the loop. -/
def turn : Routine Unit := do
  let pc ← read (·.pc)
  match getOp pc with
  | none => stop .failed
  | some (opcode, vchPushValue, pc) => do
    write fun f => { f with pc }
    guard (vchPushValue.length ≤ MAX_SCRIPT_ELEMENT_SIZE) .failed
    if OP_16 < opcode then do
      count 1
      let nOpCount ← read (·.nOpCount)
      guard (nOpCount ≤ 201) .failed
    else pure ()
    guard (opcode ∉ disabledOpcodes) .failed
    perform crypto check opcode vchPushValue
    let stack ← read (·.stack)
    let altstack ← read (·.altstack)
    guard (stack.length + altstack.length ≤ 1000) .failed

end

end Routine

end Syscoin

import Syscoin.Script.Interpreter

/-!
# `Script.Structured` — scripts with their conditionals as trees

`EvalScript` goes through a script from left to right, and `vfExec` says of each open `OP_IF` whether its branch is
taken. What a script is meant to do is said here without `vfExec`: a script is a `Code`, in which a conditional has a
body, and `Code.eval` evaluates the condition of a conditional and then its body. In a body, each `OP_ELSE` changes
over between the two branches.

`Code.flatten` writes a code down as a script. The instructions and their limits are those of the interpreter, and a
script that stops has no value.
-/

namespace Syscoin

/-! ## Syntax -/

/-- An instruction that is not part of a conditional, as it is written in a script. -/
structure Instruction where
  opcode : UInt8
  vch : Bytes
  bytes : CScript
  reads : ∀ pc, getOp (bytes ++ pc) = some (opcode, vch, pc)
  plain : opcode ∉ [OP_IF, OP_NOTIF, OP_ELSE, OP_ENDIF]

inductive Code where
  | nil
  | plain (i : Instruction) (rest : Code)
  /-- `OP_IF` or `OP_NOTIF`, a body and `OP_ENDIF`. -/
  | cond (notIf : Bool) (body rest : Code)
  /-- An `OP_ELSE` of the conditional that the code is the body of. -/
  | orElse (rest : Code)

def opcodeIf (notIf : Bool) : UInt8 := if notIf then OP_NOTIF else OP_IF

namespace Code

def flatten : Code → CScript
  | nil => []
  | plain i rest => i.bytes ++ rest.flatten
  | cond notIf body rest => opcodeIf notIf :: (body.flatten ++ OP_ENDIF :: rest.flatten)
  | orElse rest => OP_ELSE :: rest.flatten

/-- The code has no `OP_ELSE` outside its conditionals. -/
def closed : Code → Bool
  | nil => true
  | plain _ rest => rest.closed
  | cond _ _ rest => rest.closed
  | orElse _ => false

/-- How many operations a code has. -/
def ops : Code → Nat
  | nil => 0
  | plain i rest => (if OP_16 < i.opcode then 1 else 0) + rest.ops
  | cond _ body rest => body.ops + rest.ops + 2
  | orElse rest => rest.ops + 1

end Code

/-! ## Evaluation -/

/-- The machine behind an instruction that is within the limits. -/
def Frame.read (opcode : UInt8) (vch : Bytes) (pc : CScript) (f : Frame) : Option Frame :=
  if vch.length ≤ MAX_SCRIPT_ELEMENT_SIZE ∧ ¬ (OP_16 < opcode ∧ 201 < f.nOpCount + 1) ∧ opcode ∉ disabledOpcodes then
    some { f with pc, nOpCount := if OP_16 < opcode then f.nOpCount + 1 else f.nOpCount }
  else none

/-- The limit on the two stacks. -/
def Frame.settle (f : Frame) : Option Frame := if f.stack.length + f.altstack.length ≤ 1000 then some f else none

/-- The condition of an `OP_IF` or `OP_NOTIF`; where nothing is executed, no branch is taken. -/
def Frame.condition (notIf fExec : Bool) (f : Frame) : Option (Bool × Frame) :=
  if fExec = true then
    match f.stack with
    | [] => none
    | vch :: stack => some (castToBool vch != notIf, { f with stack })
  else some (false, f)

section

variable (crypto : Crypto) (check : Checker)

/-- What an instruction does. `OP_VERIF` and `OP_VERNOTIF` stop a script also where nothing is executed. -/
def Instruction.carryOut (i : Instruction) (fExec : Bool) (f : Frame) : Option Frame :=
  if fExec = true ∧ i.opcode ≤ OP_PUSHDATA4 then some { f with stack := i.vch :: f.stack }
  else if fExec = true ∨ (OP_IF ≤ i.opcode ∧ i.opcode ≤ OP_ENDIF) then (execute crypto check i.opcode fExec f).toOption
  else some f

namespace Code

/-- **Evaluation**, with `k` behind the code: `outer` says whether the code as a whole is executed, and `taken`
    whether the branch is. -/
def eval : Code → Bool → Bool → CScript → Frame → Option Frame
  | nil, _, _, _, f => some f
  | plain i rest, outer, taken, k, f => do
    let f ← f.read i.opcode i.vch (rest.flatten ++ k)
    let f ← i.carryOut crypto check (outer && taken) f
    let f ← f.settle
    rest.eval outer taken k f
  | cond notIf body rest, outer, taken, k, f => do
    let behind := OP_ENDIF :: (rest.flatten ++ k)
    let f ← f.read (opcodeIf notIf) [] (body.flatten ++ behind)
    let (fValue, f) ← f.condition notIf (outer && taken)
    let f ← f.settle
    let f ← body.eval (outer && taken) fValue behind f
    let f ← f.read OP_ENDIF [] (rest.flatten ++ k)
    let f ← f.settle
    rest.eval outer taken k f
  | orElse rest, outer, taken, k, f => do
    let f ← f.read OP_ELSE [] (rest.flatten ++ k)
    let f ← f.settle
    rest.eval outer (!taken) k f

end Code

end

end Syscoin

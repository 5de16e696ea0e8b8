import Syscoin.Primitives.Base58

/-!
# `Script.Builder` — scripts as the wallet writes them

`CScript::operator<<` appends an instruction. With it `SetDestination` writes the script that pays to a destination, and
the commands of the three services put the operation and its arguments in front: a small number, the arguments as
pushes, and drops that take all of them off the stack again.
-/

namespace Syscoin

def OP_DUP : UInt8 := 0x76
def OP_EQUALVERIFY : UInt8 := 0x88

/-- `EncodeOP_N` -/
def encodeOP_N (n : Nat) : UInt8 := if n = 0 then OP_0 else UInt8.ofNat (OP_1.toNat + n - 1)

/-- `operator<<` for a vector: the shortest push. -/
def pushVch (b : Bytes) : CScript :=
  if b.length < OP_PUSHDATA1.toNat then UInt8.ofNat b.length :: b
  else if b.length ≤ 0xff then OP_PUSHDATA1 :: UInt8.ofNat b.length :: b
  else if b.length ≤ 0xffff then OP_PUSHDATA2 :: toLE 2 b.length ++ b
  else OP_PUSHDATA4 :: toLE 4 b.length ++ b

/-- `operator<<` for a hash of 160 bits. -/
def pushUint160 (b : Uint160) : CScript := 20 :: toLE 20 b

/-- **`SetDestination`** -/
def setDestination : CTxDestination → CScript
  | .none => []
  | .keyID keyID => [OP_DUP, OP_HASH160] ++ pushUint160 keyID.id ++ [OP_EQUALVERIFY, OP_CHECKSIG]
  | .scriptID scriptID => OP_HASH160 :: pushUint160 scriptID.id ++ [OP_EQUAL]

/-! ## Service outputs -/

/-- The number that stands for an operation. -/
def Op.toN : Op → Nat
  | aliasNew => 1
  | aliasActivate => 2
  | aliasUpdate => 3
  | offerNew => 4
  | offerActivate => 5
  | offerUpdate => 6
  | offerAccept => 7
  | offerPay => 8
  | certissuerNew => 10
  | certissuerActivate => 11
  | certissuerUpdate => 12
  | certNew => 13
  | certTransfer => 14

/-- What takes the operation and `nArgs` arguments off the stack. -/
def drops : Nat → CScript
  | 1 => [OP_2DROP]
  | 2 => [OP_2DROP, OP_DROP]
  | _ => [OP_2DROP, OP_2DROP]

/-- An operation with as many arguments as it takes. -/
structure ServicePrefix where
  op : Op
  vvch : List Bytes
  arity : vvch.length = op.nArgs

/-- `CScript() << EncodeOP_N(op) << … << OP_2DROP …`, what the commands put in front of a destination. -/
def ServicePrefix.script (P : ServicePrefix) : CScript :=
  encodeOP_N P.op.toN :: P.vvch.flatMap pushVch ++ drops P.op.nArgs

end Syscoin

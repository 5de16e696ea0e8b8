import Syscoin.Chain.Coins
import Syscoin.Lib.Access
import Syscoin.Primitives.VarInt
import Syscoin.Script.Builder

/-!
# `Chain.CoinsFormat` — coins and undo records on disk

An amount drops its trailing zeros, a script that is one of the usual forms keeps only its hash or key, and of the
outputs of a transaction only those not yet spent are written, after a mask that says which they are. Numbers are
unbounded where the code's `unsigned int` could only overflow on more outputs than fit in memory.
-/

namespace Syscoin

open Lib Lib.Reader

/-- A signed number: one byte for a negative one. -/
def writeVarIntSigned (n : Int) : Bytes := if n < 0 then [UInt8.ofNat (n % 128).toNat] else writeVarInt n.toNat

def getSizeOfVarIntSigned (n : Int) : Nat := if n < 0 then 1 else getSizeOfVarInt n.toNat

def readVarIntSigned : Reader UInt8 Int := do
  let n ← readVarInt
  pure (n : Int)

/-! ## Scripts -/

/-- What `CPubKey` asks of the elliptic curve. A key that decompresses has 65 bytes, which the code asserts. -/
structure KeyCodec where
  isFullyValid : Bytes → Bool
  decompress : Bytes → Option Bytes

namespace CScriptCompressor

def nSpecialScripts : Nat := 6

def isToKeyID (script : CScript) : Option Bytes :=
  if script.length = 25 ∧ script[0]? = some OP_DUP ∧ script[1]? = some OP_HASH160 ∧ script[2]? = some 20 ∧
      script[23]? = some OP_EQUALVERIFY ∧ script[24]? = some OP_CHECKSIG then
    some ((script.drop 3).take 20)
  else none

def isToScriptID (script : CScript) : Option Bytes :=
  if script.length = 23 ∧ script[0]? = some OP_HASH160 ∧ script[1]? = some 20 ∧ script[22]? = some OP_EQUAL then
    some ((script.drop 2).take 20)
  else none

/-- Only an uncompressed key has to be valid: an invalid one could not be restored. -/
def isToPubKey (keys : KeyCodec) (script : CScript) : Option Bytes :=
  if script.length = 35 ∧ script[0]? = some 33 ∧ script[34]? = some OP_CHECKSIG ∧
      (script[1]? = some 2 ∨ script[1]? = some 3) then
    some ((script.drop 1).take 33)
  else if script.length = 67 ∧ script[0]? = some 65 ∧ script[66]? = some OP_CHECKSIG ∧ script[1]? = some 4 then
    let pubkey := (script.drop 1).take 65
    if keys.isFullyValid pubkey then some pubkey else none
  else none

/-- A key as one byte and its `x` coordinate. -/
def compressKey (pubkey : Bytes) : Option Bytes :=
  let x := (pubkey.drop 1).take 32
  if pubkey[0]? = some 2 ∨ pubkey[0]? = some 3 then some (pubkey.getD 0 0 :: x)
  else if pubkey[0]? = some 4 then some ((4 ||| (pubkey.getD 64 0 &&& 1)) :: x)
  else none

def compress (keys : KeyCodec) (script : CScript) : Option Bytes :=
  match isToKeyID script with
  | some keyID => some (0 :: keyID)
  | none =>
    match isToScriptID script with
    | some scriptID => some (1 :: scriptID)
    | none => (isToPubKey keys script).bind compressKey

def getSpecialSize (nSize : Nat) : Nat :=
  if nSize = 0 ∨ nSize = 1 then 20
  else if nSize = 2 ∨ nSize = 3 ∨ nSize = 4 ∨ nSize = 5 then 32
  else 0

/-- Where it fails the script that is read into keeps its value. -/
def decompress (keys : KeyCodec) (nSize : Nat) (vch : Bytes) : Option CScript :=
  match nSize with
  | 0 => some ([OP_DUP, OP_HASH160, 20] ++ (vch.take 20 ++ [OP_EQUALVERIFY, OP_CHECKSIG]))
  | 1 => some ([OP_HASH160, 20] ++ (vch.take 20 ++ [OP_EQUAL]))
  | 2 | 3 => some ([33, UInt8.ofNat nSize] ++ (vch.take 32 ++ [OP_CHECKSIG]))
  | 4 | 5 =>
    (keys.decompress (UInt8.ofNat (nSize - 2) :: vch.take 32)).map fun pubkey => [65] ++ (pubkey ++ [OP_CHECKSIG])
  | _ => none

def getSerializeSize (keys : KeyCodec) (script : CScript) : Nat :=
  match compress keys script with
  | some compr => compr.length
  | none => script.length + getSizeOfVarInt (script.length + nSpecialScripts)

def serialize (keys : KeyCodec) (script : CScript) : Bytes :=
  match compress keys script with
  | some compr => compr
  | none => writeVarInt (script.length + nSpecialScripts) ++ script

/-- `script` is what is read into. -/
def unserialize (keys : KeyCodec) (script : CScript) : Reader UInt8 CScript := do
  let nSize ← readVarInt
  if nSize < nSpecialScripts then do
    let vch ← take (getSpecialSize nSize)
    pure ((decompress keys nSize vch).getD script)
  else
    take (nSize - nSpecialScripts)

/-- `unsigned int nSize = script.size() + nSpecialScripts` -/
def nSize (script : CScript) : Nat := (script.length + nSpecialScripts) % 2 ^ 32

/-- `GetSerializeSize` with its `unsigned int`s. -/
def getSerializeSizeUint (keys : KeyCodec) (script : CScript) : Nat :=
  match compress keys script with
  | some compr => compr.length
  | none => (script.length + getSizeOfVarIntAs .uint32 (nSize script)) % 2 ^ 32

/-- `Serialize` with its `unsigned int`. -/
def serializeUint (keys : KeyCodec) (script : CScript) : Except Overrun Bytes :=
  match compress keys script with
  | some compr => .ok compr
  | none => do
    let code ← writeVarIntAs .uint32 (nSize script)
    pure (code ++ script)

/-- `Unserialize` with its `unsigned int`. -/
def unserializeUint (keys : KeyCodec) (script : CScript) : Reader UInt8 CScript := do
  let nSize ← readVarIntAs .uint32
  if nSize.toNat < nSpecialScripts then do
    let vch ← take (getSpecialSize nSize.toNat)
    pure ((decompress keys nSize.toNat vch).getD script)
  else
    take (nSize.toNat - nSpecialScripts)

end CScriptCompressor

/-! ## Outputs -/

namespace CTxOutCompressor

/-- `while (((n % 10) == 0) && e < 9)`, from `9 - e` down. -/
def stripZeros : Nat → Nat → Nat → Nat × Nat
  | 0, n, e => (n, e)
  | fuel + 1, n, e => if n % 10 = 0 then stripZeros fuel (n / 10) (e + 1) else (n, e)

def compressAmount (n : Nat) : Nat :=
  if n = 0 then 0
  else
    let (n, e) := stripZeros 9 n 0
    if e < 9 then
      let d := n % 10
      (1 + (n / 10 * 9 + d - 1) * 10 + e) % 2 ^ 64
    else (1 + (n - 1) * 10 + 9) % 2 ^ 64

def decompressAmount (x : Nat) : Nat :=
  if x = 0 then 0
  else
    let x := x - 1
    let e := x % 10
    let x := x / 10
    let n := if e < 9 then x / 9 * 10 + (x % 9 + 1) else x + 1
    (n * 10 ^ e) % 2 ^ 64

/-- A result leaves its 64 bits. -/
inductive Overflow where
  | uint64
deriving DecidableEq, Repr

/-- `CompressAmount`, each of its operations without a wrap. -/
def compressAmountExact (n : Nat) : Except Overflow Nat :=
  if n = 0 then .ok 0
  else
    let (n, e) := stripZeros 9 n 0
    if e < 9 then do
      let d := n % 10
      let tens ← Access.mul64 .uint64 (n / 10) 9
      let digits ← Access.add64 .uint64 tens d
      let digits ← Access.sub64 .uint64 digits 1
      let shifted ← Access.mul64 .uint64 digits 10
      let x ← Access.add64 .uint64 1 shifted
      Access.add64 .uint64 x e
    else do
      let rest ← Access.sub64 .uint64 n 1
      let shifted ← Access.mul64 .uint64 rest 10
      let x ← Access.add64 .uint64 1 shifted
      Access.add64 .uint64 x 9

/-- `while (e)` -/
def appendZeros : Nat → Nat → Except Overflow Nat
  | 0, n => .ok n
  | e + 1, n => do
    let n ← Access.mul64 .uint64 n 10
    appendZeros e n

/-- The number in front of the zeros. -/
def significandExact (e x : Nat) : Except Overflow Nat :=
  if e < 9 then do
    let tens ← Access.mul64 .uint64 (x / 9) 10
    Access.add64 .uint64 tens (x % 9 + 1)
  else Access.add64 .uint64 x 1

/-- `DecompressAmount`, each of its operations without a wrap. -/
def decompressAmountExact (x : Nat) : Except Overflow Nat :=
  if x = 0 then .ok 0
  else do
    let n ← significandExact ((x - 1) % 10) ((x - 1) / 10)
    appendZeros ((x - 1) % 10) n

/-- The `uint64` that an `int64` converts to. -/
def amountBits (nValue : Int) : Nat := (nValue % 2 ^ 64).toNat

def amountOfBits (n : Nat) : Int := if n < 2 ^ 63 then n else n - 2 ^ 64

def getSerializeSize (keys : KeyCodec) (txout : CTxOut) : Nat :=
  getSizeOfVarInt (compressAmount (amountBits txout.nValue)) + CScriptCompressor.getSerializeSize keys txout.scriptPubKey

def serialize (keys : KeyCodec) (txout : CTxOut) : Bytes :=
  writeVarInt (compressAmount (amountBits txout.nValue)) ++ CScriptCompressor.serialize keys txout.scriptPubKey

def unserialize (keys : KeyCodec) (txout : CTxOut) : Reader UInt8 CTxOut := do
  let nVal ← readVarInt
  let scriptPubKey ← CScriptCompressor.unserialize keys txout.scriptPubKey
  pure ⟨amountOfBits (decompressAmount nVal), scriptPubKey⟩

end CTxOutCompressor

/-! ## Undo records -/

namespace CTxInUndo

def serialize (keys : KeyCodec) (undo : CTxInUndo) : Bytes :=
  writeVarInt (undo.nHeight * 2 + (if undo.fCoinBase then 1 else 0)) ++
    ((if undo.nHeight > 0 then writeVarIntSigned undo.nVersion else []) ++ CTxOutCompressor.serialize keys undo.txout)

/-- The version is only read along with a height. -/
def unserialize (keys : KeyCodec) (undo : CTxInUndo) : Reader UInt8 CTxInUndo := do
  let nCode ← readVarInt
  let nHeight := nCode / 2
  let nVersion ← (if nHeight > 0 then readVarIntSigned else pure undo.nVersion)
  let txout ← CTxOutCompressor.unserialize keys undo.txout
  pure ⟨txout, decide (nCode % 2 = 1), nHeight, nVersion⟩

end CTxInUndo

/-! ## Coins -/

namespace CCoins

/-- `i < vout.size() && !vout[i].IsNull()`. -/
def unspentAt (vout : List CTxOut) (i : Nat) : Bool := decide (i < vout.length ∧ ¬ (vout.getD i CTxOut.null).isNull)

/-- The byte of the mask for eight outputs after the first two. -/
def chAvail (vout : List CTxOut) (b : Nat) : UInt8 := packByte ((List.range 8).map fun i => unspentAt vout (2 + b * 8 + i))

/-- One byte in the loop of `CalcMaskSize`. -/
def calcMaskStep (vout : List CTxOut) (size : Nat × Nat) (b : Nat) : Nat × Nat :=
  let (nLastUsedByte, nNonzeroBytes) := size
  let fZero := (List.range 8).all fun i => !unspentAt vout (2 + b * 8 + i)
  if fZero then (nLastUsedByte, nNonzeroBytes) else (b + 1, nNonzeroBytes + 1)

/-- **`CalcMaskSize`.** The bytes up to the last one that is not zero, and how many are not zero. -/
def calcMaskSize (vout : List CTxOut) : Nat × Nat :=
  (List.range ((vout.length - 2 + 7) / 8)).foldl (calcMaskStep vout) (0, 0)

/-- The header code; `none` is `assert(fFirst || fSecond || nMaskCode)`. -/
def headerCode (coins : CCoins) : Option Nat :=
  let nMaskCode := (calcMaskSize coins.vout).2
  let fFirst := unspentAt coins.vout 0
  let fSecond := unspentAt coins.vout 1
  if fFirst || fSecond || decide (nMaskCode ≠ 0) then
    some (8 * (nMaskCode - (if fFirst || fSecond then 0 else 1)) + (if coins.fCoinBase then 1 else 0) +
      (if fFirst then 2 else 0) + (if fSecond then 4 else 0))
  else none

def getSerializeSize (keys : KeyCodec) (coins : CCoins) : Option Nat :=
  coins.headerCode.map fun nCode =>
    getSizeOfVarIntSigned coins.nVersion + getSizeOfVarInt nCode + (calcMaskSize coins.vout).1 +
      (coins.vout.map fun o => if o.isNull then 0 else CTxOutCompressor.getSerializeSize keys o).sum +
      getSizeOfVarInt coins.nHeight

def serialize (keys : KeyCodec) (coins : CCoins) : Option Bytes :=
  coins.headerCode.map fun nCode =>
    writeVarIntSigned coins.nVersion ++ (writeVarInt nCode ++
      ((List.range (calcMaskSize coins.vout).1).map (chAvail coins.vout) ++
        ((coins.vout.flatMap fun o => if o.isNull then [] else CTxOutCompressor.serialize keys o) ++
          writeVarInt coins.nHeight)))

/-- `while (nMaskCode > 0)`: eight more outputs for each byte, counting down at the bytes that are not zero. -/
def readMaskLoop : Bytes → Nat → List Bool → Option (List Bool × Bytes)
  | s, 0, vAvail => some (vAvail, s)
  | [], _ + 1, _ => none
  | chAvail :: s, nMaskCode + 1, vAvail =>
    readMaskLoop s (if chAvail ≠ 0 then nMaskCode else nMaskCode + 1)
      (vAvail ++ (List.range 8).map fun p => chAvail.toNat.testBit p)

def readMask (nMaskCode : Nat) (vAvail : List Bool) : Reader UInt8 (List Bool) := fun s =>
  readMaskLoop s nMaskCode vAvail

/-- The outputs that are there, between nulls. -/
def readOutputs (keys : KeyCodec) : List Bool → Reader UInt8 (List CTxOut)
  | [] => pure []
  | f :: vAvail => do
    let txout ← (if f then CTxOutCompressor.unserialize keys CTxOut.null else pure CTxOut.null)
    let vout ← readOutputs keys vAvail
    pure (txout :: vout)

def unserialize (keys : KeyCodec) : Reader UInt8 CCoins := do
  let nVersion ← readVarIntSigned
  let nCode ← readVarInt
  let nMaskCode := nCode / 8 + (if nCode / 2 % 4 ≠ 0 then 0 else 1)
  let vAvail ← readMask nMaskCode [decide (nCode / 2 % 2 = 1), decide (nCode / 4 % 2 = 1)]
  let vout ← readOutputs keys vAvail
  let nHeight ← readVarInt
  pure ⟨decide (nCode % 2 = 1), cleanup vout, nHeight, nVersion⟩

end CCoins

end Syscoin

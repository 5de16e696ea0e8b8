import Mathlib.Algebra.Order.Ring.Int

/-!
# `Primitives.Script` — script bytes, instructions and the service prefixes

A `CScript` is a byte vector. `getOp` is `CScript::GetOp2`: it reads one instruction and fails on a truncated
push. On top of it live

* `decodeScript` — the reader that `DecodeAliasScript`, `DecodeOfferScript` and `DecodeCertScript` copy from one
  another: a small number `OP_1 … OP_16`, pushes, then a drop. The three members differ in the operations they
  accept, so each is `decodeScript` applied to its own predicate;
* the signature-operation counts that the block checks add up.

A program counter is the suffix of the script still to be read. The decoders also report where the prefix
ends; nothing here uses that position, so it is not returned.
-/

namespace Syscoin

abbrev Bytes := List UInt8

/-- A 256-bit hash, as the number it denotes. -/
abbrev Uint256 := Nat

abbrev Uint160 := Nat

abbrev CScript := Bytes

/-- What a push may put on the stack at most. -/
def MAX_SCRIPT_ELEMENT_SIZE : Nat := 520

/-- Little-endian value of a byte string, `memcpy` into an integer. -/
def fromLE : Bytes → Nat
  | []      => 0
  | b :: bs => b.toNat + 256 * fromLE bs

theorem fromLE_lt (vch : Bytes) : fromLE vch < 256 ^ vch.length := by
  induction vch with
  | nil => simp [fromLE]
  | cons b vch ih =>
    have hb := b.toNat_lt
    simp only [fromLE, List.length_cons, Nat.pow_succ]
    omega

/-- `uint160(vch)`: the bytes if there are exactly twenty of them, and zero otherwise. -/
def uint160 (vch : Bytes) : Uint160 :=
  if vch.length = 20 then fromLE vch else 0

/-! ## Opcodes -/

def OP_0 : UInt8 := 0x00
def OP_PUSHDATA1 : UInt8 := 0x4c
def OP_PUSHDATA2 : UInt8 := 0x4d
def OP_PUSHDATA4 : UInt8 := 0x4e
def OP_1 : UInt8 := 0x51
def OP_16 : UInt8 := 0x60
def OP_NOP : UInt8 := 0x61
def OP_RETURN : UInt8 := 0x6a
def OP_2DROP : UInt8 := 0x6d
def OP_DROP : UInt8 := 0x75
def OP_EQUAL : UInt8 := 0x87
def OP_HASH160 : UInt8 := 0xa9
def OP_CHECKSIG : UInt8 := 0xac
def OP_CHECKSIGVERIFY : UInt8 := 0xad
def OP_CHECKMULTISIG : UInt8 := 0xae
def OP_CHECKMULTISIGVERIFY : UInt8 := 0xaf
def OP_INVALIDOPCODE : UInt8 := 0xff

/-- `DecodeOP_N` on `OP_1 … OP_16`. -/
def decodeOP_N (opcode : UInt8) : Nat := opcode.toNat - (OP_1.toNat - 1)

/-! ## Reading one instruction -/

/-- The length of the immediate operand of a push, and the script after the length bytes. -/
def readSize (opcode : UInt8) (pc : CScript) : Option (Nat × CScript) :=
  let nWidth := if opcode = OP_PUSHDATA1 then 1 else if opcode = OP_PUSHDATA2 then 2 else 4
  if opcode < OP_PUSHDATA1 then
    some (opcode.toNat, pc)
  else if pc.length < nWidth then
    none
  else
    some (fromLE (pc.take nWidth), pc.drop nWidth)

/-- **`GetOp2`.** The opcode, its immediate operand and the rest of the script; `none` at the end of the
    script and on an operand that runs past it. -/
def getOp : CScript → Option (UInt8 × Bytes × CScript)
  | [] => none
  | opcode :: pc =>
    if opcode ≤ OP_PUSHDATA4 then
      match readSize opcode pc with
      | none => none
      | some (nSize, pc) =>
        if pc.length < nSize then none else some (opcode, pc.take nSize, pc.drop nSize)
    else
      some (opcode, [], pc)

theorem getOp_push {opcode : UInt8} (head vch : Bytes) {pc : CScript} (hopcode : opcode ≤ OP_PUSHDATA4)
    (hsize : readSize opcode (head ++ (vch ++ pc)) = some (vch.length, vch ++ pc)) :
    getOp (opcode :: (head ++ (vch ++ pc))) = some (opcode, vch, pc) := by
  rw [getOp, if_pos hopcode, hsize]
  dsimp only
  rw [if_neg (by rw [List.length_append]; omega), List.take_left' rfl, List.drop_left' rfl]

theorem getOp_opcode {opcode : UInt8} (h : ¬ opcode ≤ OP_PUSHDATA4) (pc : CScript) :
    getOp (opcode :: pc) = some (opcode, [], pc) := by
  rw [getOp, if_neg h]

/-- A length is read off the front of the script, and what follows it plays no part. -/
theorem readSize_split {opcode : UInt8} {script pc : CScript} {nSize : Nat}
    (h : readSize opcode script = some (nSize, pc)) :
    ∃ head : Bytes, head.length ≤ 4 ∧ script = head ++ pc ∧
      ∀ pc', readSize opcode (head ++ pc') = some (nSize, pc') := by
  have hwidth : (if opcode = OP_PUSHDATA1 then 1 else if opcode = OP_PUSHDATA2 then 2 else 4) ≤ 4 := by
    split
    · decide
    · split <;> decide
  unfold readSize at h ⊢
  generalize (if opcode = OP_PUSHDATA1 then 1 else if opcode = OP_PUSHDATA2 then 2 else 4) = nWidth at h hwidth ⊢
  dsimp only at h ⊢
  by_cases hshort : opcode < OP_PUSHDATA1
  · -- the opcode is the length
    rw [if_pos hshort] at h
    cases h
    refine ⟨[], Nat.zero_le _, rfl, ?_⟩
    intro pc'
    rw [if_pos hshort]
    rfl
  · rw [if_neg hshort] at h
    split at h
    · cases h
    · rename_i hroom
      cases h
      have htake : (script.take nWidth).length = nWidth := List.length_take_of_le (Nat.le_of_not_lt hroom)
      refine ⟨script.take nWidth, htake.le.trans hwidth, (List.take_append_drop nWidth script).symm, ?_⟩
      intro pc'
      rw [if_neg hshort, if_neg (by rw [List.length_append, htake]; omega), List.take_left' htake,
        List.drop_left' htake]

/-- **An instruction is read off the front of the script**: the opcode, the bytes of a length and the operand; nothing but
    the opcode if it is no push. -/
theorem getOp_split {script pc : CScript} {opcode : UInt8} {vch : Bytes} (h : getOp script = some (opcode, vch, pc)) :
    ∃ head : Bytes, head.length ≤ 4 ∧ script = opcode :: (head ++ (vch ++ pc)) ∧
      (¬ opcode ≤ OP_PUSHDATA4 → head ++ vch = []) ∧
      ∀ pc', getOp (opcode :: (head ++ (vch ++ pc'))) = some (opcode, vch, pc') := by
  cases script with
  | nil => cases h
  | cons b script =>
    rw [getOp] at h
    by_cases hpush : b ≤ OP_PUSHDATA4
    · rw [if_pos hpush] at h
      cases hsize : readSize b script with
      | none =>
        rw [hsize] at h
        cases h
      | some r =>
        obtain ⟨nSize, rest⟩ := r
        rw [hsize] at h
        dsimp only at h
        split at h
        · cases h
        · rename_i hroom
          cases h
          obtain ⟨head, hhead, rfl, hlocal⟩ := readSize_split hsize
          have htake : (rest.take nSize).length = nSize := List.length_take_of_le (Nat.le_of_not_lt hroom)
          refine ⟨head, hhead, ?_, fun hno => absurd hpush hno, ?_⟩
          · rw [List.take_append_drop]
          · intro pc'
            refine getOp_push head _ hpush ?_
            rw [htake]
            exact hlocal _
    · rw [if_neg hpush] at h
      cases h
      exact ⟨[], Nat.zero_le _, rfl, fun _ => rfl, getOp_opcode hpush⟩

/-- An instruction is at least one byte long. -/
theorem getOp_length {script pc : CScript} {opcode : UInt8} {vch : Bytes} (h : getOp script = some (opcode, vch, pc)) :
    pc.length < script.length := by
  obtain ⟨head, -, rfl, -⟩ := getOp_split h
  rw [List.length_cons, List.length_append, List.length_append]
  omega

/-! ## Service operations -/

/-- The operations of the three services, each with the small number that encodes it. -/
inductive Op where
  | aliasNew | aliasActivate | aliasUpdate
  | offerNew | offerActivate | offerUpdate | offerAccept | offerPay
  | certissuerNew | certissuerActivate | certissuerUpdate | certNew | certTransfer
deriving DecidableEq, Repr

namespace Op

/-- The operation a small number stands for; nine, fifteen and sixteen stand for none. -/
def ofN : Nat → Option Op
  | 1  => some aliasNew
  | 2  => some aliasActivate
  | 3  => some aliasUpdate
  | 4  => some offerNew
  | 5  => some offerActivate
  | 6  => some offerUpdate
  | 7  => some offerAccept
  | 8  => some offerPay
  | 10 => some certissuerNew
  | 11 => some certissuerActivate
  | 12 => some certissuerUpdate
  | 13 => some certNew
  | 14 => some certTransfer
  | _  => none

def isAliasOp : Op → Bool
  | aliasNew | aliasActivate | aliasUpdate => true
  | _ => false

def isOfferOp : Op → Bool
  | offerNew | offerActivate | offerUpdate | offerAccept | offerPay => true
  | _ => false

def isCertOp : Op → Bool
  | certissuerNew | certissuerActivate | certissuerUpdate | certNew | certTransfer => true
  | _ => false

/-- How many pushes the decoders demand after the operation. -/
def nArgs : Op → Nat
  | aliasNew | offerNew | certissuerNew => 1
  | aliasUpdate | offerUpdate | offerPay | certissuerUpdate | certTransfer => 2
  | aliasActivate | offerActivate | offerAccept | certissuerActivate | certNew => 3

theorem not_isOfferOp_of_isAliasOp {op : Op} (h : op.isAliasOp = true) : op.isOfferOp = false := by
  cases op <;> simp_all [isAliasOp, isOfferOp]

theorem not_isCertOp_of_isAliasOp {op : Op} (h : op.isAliasOp = true) : op.isCertOp = false := by
  cases op <;> simp_all [isAliasOp, isCertOp]

end Op

/-- `vvch[i]`; the decoders' arity test keeps every index the code uses in range. -/
def arg (vvch : List Bytes) (i : Nat) : Bytes := vvch.getD i []

/-- The pushes up to the first drop. The fuel is the length of the script: every instruction is at least one
    byte long, so it does not run out before the script does. -/
def readArgs : Nat → CScript → Option (List Bytes)
  | 0, _ => none
  | fuel + 1, pc =>
    match getOp pc with
    | none => none
    | some (opcode, vch, pc) =>
      if opcode = OP_DROP ∨ opcode = OP_2DROP ∨ opcode = OP_NOP then some []
      else if opcode ≤ OP_PUSHDATA4 then (readArgs fuel pc).map (vch :: ·)
      else none

/-- The common body of the three `Decode…Script` functions. -/
def decodeScript (isOp : Op → Bool) (script : CScript) : Option (Op × List Bytes) := do
  let (opcode, _, pc) ← getOp script
  if OP_1 ≤ opcode ∧ opcode ≤ OP_16 then
    let vvch ← readArgs pc.length pc
    let op ← Op.ofN (decodeOP_N opcode)
    if isOp op = true ∧ vvch.length = op.nArgs then some (op, vvch) else none
  else
    none

def decodeAliasScript : CScript → Option (Op × List Bytes) := decodeScript Op.isAliasOp

def decodeOfferScript : CScript → Option (Op × List Bytes) := decodeScript Op.isOfferOp

def decodeCertScript : CScript → Option (Op × List Bytes) := decodeScript Op.isCertOp

/-- What any of the decoders returns belongs to its own service and has the arity of its operation. -/
theorem decodeScript_spec {isOp : Op → Bool} {script : CScript} {op : Op} {vvch : List Bytes}
    (h : decodeScript isOp script = some (op, vvch)) : isOp op = true ∧ vvch.length = op.nArgs := by
  unfold decodeScript at h
  simp only [Option.bind_eq_bind, Option.bind_eq_some_iff] at h
  obtain ⟨⟨opcode, vch, pc⟩, -, h⟩ := h
  split at h
  · simp only [Option.bind_eq_some_iff] at h
    obtain ⟨args, -, op', -, h⟩ := h
    split at h
    · rename_i hok
      obtain ⟨rfl, rfl⟩ : op' = op ∧ args = vvch := by simpa using h
      exact hok
    · cases h
  · cases h

/-! ## Signature operations -/

/-- `GetSigOpCount(fAccurate)`, with the previous opcode carried along. -/
def sigOps (fAccurate : Bool) : Nat → UInt8 → CScript → Nat
  | 0, _, _ => 0
  | fuel + 1, lastOpcode, pc =>
    match getOp pc with
    | none => 0
    | some (opcode, _, pc) =>
      let n :=
        if opcode = OP_CHECKSIG ∨ opcode = OP_CHECKSIGVERIFY then 1
        else if opcode = OP_CHECKMULTISIG ∨ opcode = OP_CHECKMULTISIGVERIFY then
          if fAccurate = true ∧ OP_1 ≤ lastOpcode ∧ lastOpcode ≤ OP_16 then decodeOP_N lastOpcode else 20
        else 0
      n + sigOps fAccurate fuel opcode pc

def getSigOpCount (fAccurate : Bool) (script : CScript) : Nat :=
  sigOps fAccurate script.length OP_INVALIDOPCODE script

def isPayToScriptHash (script : CScript) : Bool :=
  script.length = 23 ∧ script.getD 0 0 = OP_HASH160 ∧ script.getD 1 0 = 0x14 ∧ script.getD 22 0 = OP_EQUAL

/-- The operand of the last instruction of a push-only script; `none` when it is not push-only. -/
def lastPush : Nat → Bytes → CScript → Option Bytes
  | 0, data, _ => some data
  | _ + 1, data, [] => some data
  | fuel + 1, _, pc =>
    match getOp pc with
    | none => none
    | some (opcode, vch, pc) => if OP_16 < opcode then none else lastPush fuel vch pc

/-- `GetSigOpCount(scriptSig)`: for a pay-to-script-hash output, the count of the redeem script. -/
def getSigOpCountP2SH (scriptPubKey scriptSig : CScript) : Nat :=
  if isPayToScriptHash scriptPubKey then
    match lastPush scriptSig.length [] scriptSig with
    | none => 0
    | some subscript => getSigOpCount true subscript
  else
    getSigOpCount true scriptPubKey

end Syscoin

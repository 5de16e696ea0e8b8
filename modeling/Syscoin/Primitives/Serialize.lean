import Mathlib.Tactic.IntervalCases
import Mathlib.Tactic.Ring
import Syscoin.Lib.Codec
import Syscoin.Primitives.Tx
import Syscoin.Primitives.Payload

/-!
# `Primitives.Serialize` — the basic types on a stream

Numbers of fixed width, compact sizes, byte vectors and vectors, and the variable-length integers of the coin database,
each with the lemma that reading gives back what was written. A vector is read in chunks so that a bogus size does
not allocate much; which bytes it consumes does not depend on the chunks.
-/

namespace Syscoin

open Lib Lib.Reader

/-! ## Fixed width -/

def readLE (width : Nat) : Reader UInt8 Nat := do
  let vch ← take width
  pure (fromLE vch)

theorem reads_readLE {width n : Nat} (h : n < 256 ^ width) : Reads (readLE width) (toLE width n) n := by
  have hread := (reads_take (toLE width n)).bind_pure (g := fromLE)
  rwa [length_toLE, fromLE_toLE, Nat.mod_eq_of_lt h] at hread

def readUint256 : Reader UInt8 Uint256 := readLE 32

/-- Two's complement. -/
def readSigned (width : Nat) : Reader UInt8 Int := do
  let n ← readLE width
  pure (if n < 256 ^ width / 2 then n else n - (256 ^ width : Nat))

def writeSigned (width : Nat) (n : Int) : Bytes := toLE width (n % (256 ^ width : Nat)).toNat

/-- A number survives being reduced modulo twice its range and read as signed. -/
theorem signed_emod {half : Nat} {n : Int} (hlow : -half ≤ n) (hhigh : n < half) :
    (n % (2 * half : Nat)).toNat < 2 * half ∧
      (if (n % (2 * half : Nat)).toNat < half then ((n % (2 * half : Nat)).toNat : Int)
        else (n % (2 * half : Nat)).toNat - (2 * half : Nat)) = n := by
  by_cases hn : 0 ≤ n
  · have heq : n % (2 * half : Nat) = n := Int.emod_eq_of_lt hn (by push_cast; omega)
    rw [heq]
    constructor
    · omega
    · rw [if_pos (by omega)]
      omega
  · have heq : n % (2 * half : Nat) = n + (2 * half : Nat) := by
      rw [← Int.add_emod_right]
      exact Int.emod_eq_of_lt (by push_cast; omega) (by omega)
    rw [heq]
    constructor
    · push_cast
      omega
    · rw [if_neg (by push_cast; omega)]
      push_cast
      omega

theorem reads_readSigned {width half : Nat} {n : Int} (hhalf : 256 ^ width = 2 * half) (hlow : -half ≤ n)
    (hhigh : n < half) : Reads (readSigned width) (writeSigned width n) n := by
  obtain ⟨hlt, heq⟩ := signed_emod hlow hhigh
  rw [← hhalf] at hlt heq
  have hread := (reads_readLE hlt).bind_pure
    (g := fun n : Nat => if n < 256 ^ width / 2 then (n : Int) else n - (256 ^ width : Nat))
  have hdiv : 256 ^ width / 2 = half := by omega
  simp only [hdiv] at hread
  rw [heq] at hread
  unfold readSigned
  simp only [hdiv]
  exact hread

/-! ## Compact sizes and vectors -/

theorem length_writeCompactSize (nSize : Nat) :
    (writeCompactSize nSize).length = getSizeOfCompactSize nSize := by
  unfold writeCompactSize getSizeOfCompactSize
  split
  · rfl
  · split
    · simp
    · split
      · simp
      · simp

theorem readCompactSize_wide {chSize : UInt8} {nWidth nSize : Nat} (rest : Bytes) (hch : ¬ chSize.toNat < 253)
    (hwidth : (if chSize.toNat = 253 then 2 else if chSize.toNat = 254 then 4 else 8) = nWidth)
    (hlt : nSize < 256 ^ nWidth) (h : nSize ≤ Field.MAX_SIZE) :
    Field.readCompactSize (chSize :: (toLE nWidth nSize ++ rest)) = some (nSize, rest) := by
  have hle : fromLE (toLE nWidth nSize) = nSize := by
    rw [fromLE_toLE, Nat.mod_eq_of_lt hlt]
  have htake : (toLE nWidth nSize ++ rest).take nWidth = toLE nWidth nSize := by
    rw [List.take_append_of_le_length (by simp), List.take_of_length_le (by simp)]
  have hdrop : (toLE nWidth nSize ++ rest).drop nWidth = rest := by
    rw [List.drop_append_of_le_length (by simp), List.drop_of_length_le (by simp), List.nil_append]
  simp only [Field.readCompactSize, if_neg hch, hwidth]
  rw [if_neg (by simp), htake, hdrop, hle, if_neg (Nat.not_lt.mpr h)]

theorem reads_readCompactSize {nSize : Nat} (h : nSize ≤ Field.MAX_SIZE) :
    Reads Field.readCompactSize (writeCompactSize nSize) nSize := by
  intro rest
  unfold writeCompactSize
  by_cases hbyte : nSize < 253
  · have hn : (UInt8.ofNat nSize).toNat = nSize := UInt8.toNat_ofNat_of_lt' (by show nSize < 256; omega)
    rw [if_pos hbyte]
    simp [Field.readCompactSize, hn, hbyte, Nat.not_lt.mpr h]
  · rw [if_neg hbyte]
    by_cases hshort : nSize ≤ 0xffff
    · rw [if_pos hshort]
      exact readCompactSize_wide rest (by decide) rfl (by show nSize < 65536; omega) h
    · rw [if_neg hshort]
      -- sizes that take more than four bytes are not read back
      have hmax : nSize ≤ 0x02000000 := h
      rw [if_pos (by omega)]
      exact readCompactSize_wide rest (by decide) rfl (by show nSize < 4294967296; omega) h

def readVch : Reader UInt8 Bytes := do
  let nSize ← Field.readCompactSize
  take nSize

theorem reads_readVch {vch : Bytes} (h : vch.length ≤ Field.MAX_SIZE) : Reads readVch (writeVch vch) vch :=
  (reads_readCompactSize h).bind (reads_take vch)

def readVector {α : Type} (read : Reader UInt8 α) : Reader UInt8 (List α) := do
  let nSize ← Field.readCompactSize
  many read nSize

theorem reads_readVector {α : Type} {read : Reader UInt8 α} {write : α → Bytes} {v : List α}
    (h : v.length ≤ Field.MAX_SIZE) (hread : ∀ a ∈ v, Reads read (write a) a) :
    Reads (readVector read) (writeVector write v) v :=
  (reads_readCompactSize h).bind (reads_many hread)

/-- The 36 bytes of an outpoint in memory. -/
def COutPoint.serialize (outpoint : COutPoint) : Bytes := toLE 32 outpoint.hash ++ toLE 4 outpoint.n

/-! ## Variable-length integers -/

/-- The digits before the last one, which each stand for one more than their low bits say. The recursion is on the
    number of digits, of which a number has no more than its value. -/
def varIntDigits : Nat → Nat → Bytes
  | 0, _ => []
  | fuel + 1, n =>
    (if n ≤ 0x7f then [] else varIntDigits fuel (n / 128 - 1)) ++ [UInt8.ofNat (n % 128 + 128)]

/-- `WriteVarInt`. The digits are found from the last to the first and written from the first to the last; all but the
    last have their high bit set. -/
def writeVarInt (n : Nat) : Bytes :=
  (if n ≤ 0x7f then [] else varIntDigits n (n / 128 - 1)) ++ [UInt8.ofNat (n % 128)]

/-- The loop of `GetSizeOfVarInt`. -/
def varIntSizeLoop : Nat → Nat → Nat
  | 0, _ => 0
  | fuel + 1, n => 1 + if n ≤ 0x7f then 0 else varIntSizeLoop fuel (n / 128 - 1)

def getSizeOfVarInt (n : Nat) : Nat := varIntSizeLoop (n + 1) n

/-- The loop of `ReadVarInt`. What a writer produced fits the variable read into; other streams may wrap there. -/
def readVarIntLoop (n : Nat) : Bytes → Option (Nat × Bytes)
  | [] => none
  | chData :: s =>
    let n := n * 128 + chData.toNat % 128
    if 128 ≤ chData.toNat then readVarIntLoop (n + 1) s else some (n, s)

def readVarInt : Reader UInt8 Nat := readVarIntLoop 0

theorem readVarIntLoop_high {acc d : Nat} (rest : Bytes) (hd : d < 128) :
    readVarIntLoop acc (UInt8.ofNat (d + 128) :: rest) = readVarIntLoop (acc * 128 + d + 1) rest := by
  have hn : (UInt8.ofNat (d + 128)).toNat = d + 128 := UInt8.toNat_ofNat_of_lt' (by show d + 128 < 256; omega)
  rw [readVarIntLoop, hn, if_pos (by omega)]
  congr 1
  omega

theorem readVarIntLoop_low {acc d : Nat} (rest : Bytes) (hd : d < 128) :
    readVarIntLoop acc (UInt8.ofNat d :: rest) = some (acc * 128 + d, rest) := by
  have hn : (UInt8.ofNat d).toNat = d := UInt8.toNat_ofNat_of_lt' (by show d < 256; omega)
  rw [readVarIntLoop, hn, if_neg (by omega), Nat.mod_eq_of_lt hd]

/-- After the leading digits the reader holds one more than what they stand for. -/
theorem readVarIntLoop_digits {fuel n : Nat} (hfuel : n < fuel) (rest : Bytes) :
    readVarIntLoop 0 (varIntDigits fuel n ++ rest) = readVarIntLoop (n + 1) rest := by
  induction fuel generalizing n rest with
  | zero => omega
  | succ fuel ih =>
    rw [varIntDigits]
    split
    · rename_i hlast
      have hd : n % 128 < 128 := Nat.mod_lt _ (by decide)
      rw [List.nil_append, List.singleton_append, readVarIntLoop_high rest hd]
      congr 1
      omega
    · have hd : n % 128 < 128 := Nat.mod_lt _ (by decide)
      rw [List.append_assoc, ih (by omega), List.singleton_append, readVarIntLoop_high rest hd]
      congr 1
      omega

theorem reads_readVarInt (n : Nat) : Reads readVarInt (writeVarInt n) n := by
  intro rest
  have hd : n % 128 < 128 := Nat.mod_lt _ (by decide)
  unfold readVarInt writeVarInt
  split
  · rw [List.nil_append, List.singleton_append, readVarIntLoop_low rest hd]
    congr 2
    omega
  · rw [List.append_assoc, readVarIntLoop_digits (by omega), List.singleton_append, readVarIntLoop_low rest hd]
    congr 2
    omega

theorem length_varIntDigits {fuel n : Nat} (hfuel : n < fuel) :
    (varIntDigits fuel n).length = varIntSizeLoop fuel n := by
  induction fuel generalizing n with
  | zero => rfl
  | succ fuel ih =>
    rw [varIntDigits, varIntSizeLoop, List.length_append, List.length_singleton, Nat.add_comm]
    split
    · rfl
    · rw [ih (by omega)]

theorem length_writeVarInt (n : Nat) : (writeVarInt n).length = getSizeOfVarInt n := by
  rw [writeVarInt, getSizeOfVarInt, varIntSizeLoop, List.length_append, List.length_singleton, Nat.add_comm]
  split
  · rfl
  · rw [length_varIntDigits (by omega)]

/-! ## Bits in a byte -/

/-- The bits of one byte, least significant first; what is missing reads as clear. -/
def packByte (vBits : List Bool) : UInt8 :=
  UInt8.ofNat ((List.range 8).map fun k => if vBits.getD k false then 2 ^ k else 0).sum

theorem testBit_packed : ∀ b₀ b₁ b₂ b₃ b₄ b₅ b₆ b₇ : Bool, ∀ k < 8,
    (UInt8.ofNat ((List.range 8).map fun k => if [b₀, b₁, b₂, b₃, b₄, b₅, b₆, b₇].getD k false then 2 ^ k else 0).sum
      ).toNat.testBit k = [b₀, b₁, b₂, b₃, b₄, b₅, b₆, b₇].getD k false := by
  decide +kernel

theorem testBit_packByte (vBits : List Bool) {k : Nat} (hk : k < 8) :
    (packByte vBits).toNat.testBit k = vBits.getD k false := by
  have hget : ∀ j < 8, vBits.getD j false =
      [vBits.getD 0 false, vBits.getD 1 false, vBits.getD 2 false, vBits.getD 3 false, vBits.getD 4 false,
        vBits.getD 5 false, vBits.getD 6 false, vBits.getD 7 false].getD j false := by
    intro j hj
    interval_cases j <;> rfl
  rw [hget k hk, ← testBit_packed _ _ _ _ _ _ _ _ k hk, packByte]
  rfl

end Syscoin

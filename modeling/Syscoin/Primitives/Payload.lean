import Mathlib.Algebra.Order.Ring.Int
import Syscoin.Primitives.Script

/-!
# `Primitives.Payload` — the object carried in a transaction's data field

Offers and certificate issuers travel as the base64 text of their serialization in `CTransaction::data`.
`UnserializeFromTx` decodes the text and reads the fields *in place*: when the stream ends early it throws,
the exception is swallowed, and the object keeps what was read so far. Its callers ignore the returned flag,
so the half-read object is what the rules see. `Field` models that: reading a field gives back the object,
modified or not, and the rest of the stream unless the read threw.

The writers are what `SerializeToString` is made of on the wallet's side.
-/

namespace Syscoin

/-! ## Base64 -/

/-- `decode64_table`. -/
def decode64 (c : UInt8) : Option Nat :=
  let n := c.toNat
  if 65 ≤ n ∧ n ≤ 90 then some (n - 65)
  else if 97 ≤ n ∧ n ≤ 122 then some (n - 71)
  else if 48 ≤ n ∧ n ≤ 57 then some (n + 4)
  else if n = 43 then some 62
  else if n = 47 then some 63
  else none

/-- The loop of `DecodeBase64`: `mode` counts the characters of the current group, `left` holds the bits kept
    back. It stops at the first character outside the alphabet. -/
def decodeBase64Loop : Nat → Nat → Bytes → Bytes
  | _, _, [] => []
  | mode, left, c :: p =>
    match decode64 c with
    | none => []
    | some dec =>
      match mode with
      | 0 => decodeBase64Loop 1 dec p
      | 1 => UInt8.ofNat (left * 4 + dec / 16) :: decodeBase64Loop 2 (dec % 16) p
      | 2 => UInt8.ofNat (left * 16 + dec / 4) :: decodeBase64Loop 3 (dec % 4) p
      | _ => UInt8.ofNat (left * 64 + dec) :: decodeBase64Loop 0 0 p

def decodeBase64 (text : Bytes) : Bytes := decodeBase64Loop 0 0 text

/-- `pbase64`. -/
def encode64 (n : Nat) : UInt8 :=
  if n < 26 then UInt8.ofNat (n + 65)
  else if n < 52 then UInt8.ofNat (n + 71)
  else if n < 62 then UInt8.ofNat (n - 4)
  else if n = 62 then 43
  else 47

/-- The loop of `EncodeBase64` with its padding: `mode` counts the bytes of the current group. -/
def encodeBase64Loop : Nat → Nat → Bytes → Bytes
  | 0, _, [] => []
  | 1, left, [] => [encode64 left, 61, 61]
  | _, left, [] => [encode64 left, 61]
  | mode, left, c :: pch =>
    let enc := c.toNat
    match mode with
    | 0 => encode64 (enc / 4) :: encodeBase64Loop 1 (enc % 4 * 16) pch
    | 1 => encode64 (left + enc / 16) :: encodeBase64Loop 2 (enc % 16 * 4) pch
    | _ => encode64 (left + enc / 64) :: encode64 (enc % 64) :: encodeBase64Loop 0 0 pch

def encodeBase64 (pch : Bytes) : Bytes := encodeBase64Loop 0 0 pch

/-! ## Reading fields in place -/

/-- A read step on an object: the object as the step leaves it, and the stream after it unless it threw. -/
def Field (α : Type) : Type := α → Bytes → α × Option Bytes

namespace Field

variable {α β : Type}

/-- Read the fields of a record one after the other; a throw skips the rest. -/
def seq : List (Field α) → Field α
  | [], a, s => (a, some s)
  | f :: fs, a, s =>
    match f a s with
    | (a, none)   => (a, none)
    | (a, some s) => seq fs a s

/-- A fixed-width read, which throws before it touches its target. -/
def fixed (width : Nat) (set : α → Bytes → α) : Field α := fun a s =>
  if s.length < width then (a, none) else (set a (s.take width), some (s.drop width))

def uint64 (set : α → Nat → α) : Field α := fixed 8 fun a b => set a (fromLE b)

/-- Two's complement. -/
def int64 (set : α → Int → α) : Field α := fixed 8 fun a b =>
  let n := fromLE b
  set a (if n < 2 ^ 63 then n else (n : Int) - 2 ^ 64)

def uint256 (set : α → Uint256 → α) : Field α := fixed 32 fun a b => set a (fromLE b)

def bool (set : α → Bool → α) : Field α := fixed 1 fun a b => set a (b ≠ [0])

def MAX_SIZE : Nat := 0x02000000

/-- `ReadCompactSize`. -/
def readCompactSize (s : Bytes) : Option (Nat × Bytes) :=
  match s with
  | [] => none
  | chSize :: s =>
    let nWidth := if chSize.toNat < 253 then 0 else if chSize.toNat = 253 then 2
      else if chSize.toNat = 254 then 4 else 8
    if s.length < nWidth then none
    else
      let nSizeRet := if chSize.toNat < 253 then chSize.toNat else fromLE (s.take nWidth)
      if MAX_SIZE < nSizeRet then none else some (nSizeRet, s.drop nWidth)

/-- A byte vector. It is cleared first; a size that the stream cannot fill leaves it as the zero bytes of the
    first chunk it was resized to. -/
def vch (set : α → Bytes → α) : Field α := fun a s =>
  match readCompactSize s with
  | none => (set a [], none)
  | some (nSize, s) =>
    if s.length < nSize then (set a (List.replicate (min nSize 5000000) 0), none)
    else (set a (s.take nSize), some (s.drop nSize))

/-- The elements of an object vector. After a throw the vector holds the elements read, the one being read as
    it was left, and default elements up to `nMid`, the size it had been grown to. -/
def elements (read : Field β) (dflt : β) (chunk : Nat) : Nat → Nat → Bytes → List β × Option Bytes
  | 0, _, s => ([], some s)
  | nLeft + 1, i, s =>
    match read dflt s with
    | (b, none) =>
      let nMid := min (i + nLeft + 1) ((i / chunk + 1) * chunk)
      (b :: List.replicate (nMid - i - 1) dflt, none)
    | (b, some s) =>
      let (bs, s) := elements read dflt chunk nLeft (i + 1) s
      (b :: bs, s)

/-- A vector of objects, grown `chunk` elements at a time (five million bytes of them in memory). -/
def vector (read : Field β) (dflt : β) (chunk : Nat) (set : α → List β → α) : Field α := fun a s =>
  match readCompactSize s with
  | none => (set a [], none)
  | some (nSize, s) =>
    let (bs, s) := elements read dflt chunk nSize 0 s
    (set a bs, s)

/-! What the object left in memory satisfies: `P` of the default and kept by every assignment that a read makes. -/

section Keeps

variable {P : α → Prop}

/-- The step keeps `P`, whether or not it throws. -/
def Keeps (P : α → Prop) (f : Field α) : Prop := ∀ a s, P a → P (f a s).1

theorem Keeps.seq {fs : List (Field α)} (h : ∀ f ∈ fs, Keeps P f) : Keeps P (Field.seq fs) := by
  induction fs with
  | nil => intro a s ha; exact ha
  | cons f fs ih =>
    obtain ⟨hhead, htail⟩ := List.forall_mem_cons.mp h
    intro a s ha
    have hf := hhead a s ha
    unfold Field.seq
    split
    · rename_i a' heq
      rwa [heq] at hf
    · rename_i a' s' heq
      rw [heq] at hf
      exact ih htail a' s' hf

theorem Keeps.fixed {width : Nat} {set : α → Bytes → α} (h : ∀ a b, b.length = width → P a → P (set a b)) :
    Keeps P (Field.fixed width set) := by
  intro a s ha
  unfold Field.fixed
  split
  · exact ha
  · rename_i hlen
    exact h a _ (by rw [List.length_take]; omega) ha

theorem Keeps.vch {set : α → Bytes → α} (h : ∀ a v, P a → P (set a v)) : Keeps P (Field.vch set) := by
  intro a s ha
  unfold Field.vch
  split
  · exact h a _ ha
  · split
    · exact h a _ ha
    · exact h a _ ha

theorem Keeps.vector {read : Field β} {dflt : β} {chunk : Nat} {set : α → List β → α}
    (h : ∀ a v, P a → P (set a v)) : Keeps P (Field.vector read dflt chunk set) := by
  intro a s ha
  unfold Field.vector
  split
  · exact h a _ ha
  · exact h a _ ha

/-- A 64-bit amount stays below `2 ^ 63`. -/
theorem Keeps.int64 {set : α → Int → α} (h : ∀ a v, v < 2 ^ 63 → P a → P (set a v)) : Keeps P (Field.int64 set) := by
  refine Keeps.fixed fun a b hlen ha => h a _ ?_ ha
  have hb := fromLE_lt b
  rw [hlen] at hb
  split <;> omega

end Keeps

end Field

/-- `UnserializeFromTx`: the object that is left in memory, whether or not the whole payload could be read. -/
def unserializeFromData {α : Type} (read : Field α) (dflt : α) (data : Bytes) : α :=
  (read dflt (decodeBase64 data)).1

/-! ## Writing fields -/

/-- The low bytes of a number, least significant first. -/
def toLE : Nat → Nat → Bytes
  | 0, _ => []
  | width + 1, n => UInt8.ofNat (n % 256) :: toLE width (n / 256)

@[simp] theorem length_toLE (width n : Nat) : (toLE width n).length = width := by
  induction width generalizing n with
  | zero => rfl
  | succ width ih =>
    rw [toLE, List.length_cons, ih]

theorem fromLE_toLE (width n : Nat) : fromLE (toLE width n) = n % 256 ^ width := by
  induction width generalizing n with
  | zero => simp [toLE, fromLE, Nat.mod_one]
  | succ width ih =>
    rw [toLE, fromLE, ih, UInt8.toNat_ofNat_of_lt' (Nat.mod_lt n (by decide)), pow_succ', Nat.mod_mul]

theorem toLE_inj {width n n' : Nat} (hn : n < 256 ^ width) (hn' : n' < 256 ^ width) (h : toLE width n = toLE width n') :
    n = n' := by
  have heq : fromLE (toLE width n) = fromLE (toLE width n') := by rw [h]
  rwa [fromLE_toLE, fromLE_toLE, Nat.mod_eq_of_lt hn, Nat.mod_eq_of_lt hn'] at heq

theorem fromLE_inj {vch vch' : Bytes} (hlen : vch.length = vch'.length) (h : fromLE vch = fromLE vch') : vch = vch' := by
  induction vch generalizing vch' with
  | nil =>
    obtain rfl : vch' = [] := List.length_eq_zero_iff.mp hlen.symm
    rfl
  | cons b vch ih =>
    cases vch' with
    | nil => cases hlen
    | cons b' vch' =>
      have hb := b.toNat_lt
      have hb' := b'.toNat_lt
      rw [fromLE, fromLE] at h
      have hhead : b = b' := UInt8.toNat_inj.mp (by omega)
      rw [hhead, ih (Nat.succ.inj hlen) (by omega)]

theorem fromLE_mark (vch : Bytes) : fromLE (vch ++ [1]) = fromLE vch + 256 ^ vch.length := by
  induction vch with
  | nil => rfl
  | cons b vch ih =>
    rw [List.cons_append, fromLE, ih, fromLE, List.length_cons, Nat.pow_succ]
    omega

/-- A hash without collisions: the bytes with a mark for their end. -/
theorem fromLE_mark_injective : Function.Injective fun vch : Bytes => fromLE (vch ++ [1]) := by
  intro vch vch' heq
  have h : fromLE vch + 256 ^ vch.length = fromLE vch' + 256 ^ vch'.length := by
    rw [← fromLE_mark, ← fromLE_mark]
    exact heq
  have hlt := fromLE_lt vch
  have hlt' := fromLE_lt vch'
  -- the mark tells the lengths apart, and strings of one length are told apart by their value
  have hlen : vch.length = vch'.length := by
    by_contra hne
    rcases Nat.lt_or_gt_of_ne hne with hless | hless
    · have hpow : 256 ^ (vch.length + 1) ≤ 256 ^ vch'.length := Nat.pow_le_pow_right (by decide) hless
      rw [Nat.pow_succ] at hpow
      omega
    · have hpow : 256 ^ (vch'.length + 1) ≤ 256 ^ vch.length := Nat.pow_le_pow_right (by decide) hless
      rw [Nat.pow_succ] at hpow
      omega
  refine fromLE_inj hlen ?_
  rw [hlen] at h
  omega

def writeCompactSize (nSize : Nat) : Bytes :=
  if nSize < 253 then [UInt8.ofNat nSize]
  else if nSize ≤ 0xffff then 253 :: toLE 2 nSize
  else if nSize ≤ 0xffffffff then 254 :: toLE 4 nSize
  else 255 :: toLE 8 nSize

def writeVch (vch : Bytes) : Bytes := writeCompactSize vch.length ++ vch

def writeUint64 (n : Nat) : Bytes := toLE 8 n

def writeInt64 (n : Int) : Bytes := toLE 8 (n % 2 ^ 64).toNat

def writeUint256 (n : Uint256) : Bytes := toLE 32 n

def writeBool (b : Bool) : Bytes := [if b then 1 else 0]

def writeVector {α : Type} (write : α → Bytes) (v : List α) : Bytes :=
  writeCompactSize v.length ++ v.flatMap write

end Syscoin

import Syscoin.Lib.Limbs
import Syscoin.Primitives.Base58
import Syscoin.Primitives.BaseCodes

/-!
# `Primitives.BaseUint` — the integers of fixed width

`base_uint<BITS>`, behind `uint160` and `uint256`: an array of `BITS / 32` words, the lowest first. The operators are
the loops over that array. One that changes the object it is called on gives the changed object here. Elsewhere a
`uint256` is the number that its words stand for.

`SetHex` and `GetHex` go through the memory of the array, byte by byte, and take the machine for a little-endian one.
-/

namespace Syscoin

open Lib Util

/-- `WIDTH` -/
abbrev WIDTH (BITS : Nat) : Nat := BITS / 32

structure BaseUint (BITS : Nat) where
  pn : List (BitVec 32)
  length_pn : pn.length = WIDTH BITS
deriving DecidableEq, Repr

abbrev BaseUint160 := BaseUint 160

abbrev BaseUint256 := BaseUint 256

namespace BaseUint

variable {BITS : Nat} (a b : BaseUint BITS)

/-- The number that is represented. -/
def toNat : Nat := value a.pn

/-! ## Constants and bits -/

/-- Every word is zero. -/
def zero (BITS : Nat) : BaseUint BITS := ⟨List.replicate (WIDTH BITS) 0, List.length_replicate⟩

/-- `operator!` -/
def isZero : Bool := a.pn.all (· = 0)

/-- `operator~` -/
def complement : BaseUint BITS := ⟨a.pn.map (~~~ ·), List.length_map _ |>.trans a.length_pn⟩

/-- The low word of a 64-bit integer, `(unsigned int)b`. -/
def low (b64 : BitVec 64) : BitVec 32 := b64.setWidth 32

/-- `(unsigned int)(b >> 32)` -/
def high (b64 : BitVec 64) : BitVec 32 := (b64 >>> 32).setWidth 32

def wordsOf64 (WIDTH : Nat) (b64 : BitVec 64) : List (BitVec 32) :=
  (low b64 :: high b64 :: List.replicate (WIDTH - 2) 0).take WIDTH

theorem length_wordsOf64 (WIDTH : Nat) (b64 : BitVec 64) : (wordsOf64 WIDTH b64).length = WIDTH := by
  rw [wordsOf64, List.length_take, List.length_cons, List.length_cons, List.length_replicate]
  omega

/-- `operator=(uint64)`. Both classes have more than two words. -/
def ofUInt64 (BITS : Nat) (b64 : BitVec 64) : BaseUint BITS := ⟨wordsOf64 (WIDTH BITS) b64, length_wordsOf64 _ b64⟩

theorem length_zipWith_pn (f : BitVec 32 → BitVec 32 → BitVec 32) : (List.zipWith f a.pn b.pn).length = WIDTH BITS := by
  rw [List.length_zipWith, a.length_pn, b.length_pn, Nat.min_self]

/-- The loop of `^=`, `&=` and `|=`. -/
def bitwise (f : BitVec 32 → BitVec 32 → BitVec 32) : BaseUint BITS :=
  ⟨List.zipWith f a.pn b.pn, length_zipWith_pn a b f⟩

def xor : BaseUint BITS := bitwise a b (· ^^^ ·)

def and : BaseUint BITS := bitwise a b (· &&& ·)

def or : BaseUint BITS := bitwise a b (· ||| ·)

/-! ## Arithmetic -/

/-- The loop of `+=`. -/
def addLoop : List (BitVec 32) → List (BitVec 32) → BitVec 64 → List (BitVec 32)
  | p :: pn, q :: bpn, carry =>
    let n := carry + p.setWidth 64 + q.setWidth 64
    (n &&& 0xffffffff).setWidth 32 :: addLoop pn bpn (n >>> 32)
  | _, _, _ => []

theorem length_addLoop (pn bpn : List (BitVec 32)) (carry : BitVec 64) :
    (addLoop pn bpn carry).length = min pn.length bpn.length := by
  induction pn generalizing bpn carry with
  | nil => simp [addLoop]
  | cons p pn ih =>
    cases bpn with
    | nil => simp [addLoop]
    | cons q bpn => rw [addLoop, List.length_cons, ih, List.length_cons, List.length_cons, Nat.succ_min_succ]

theorem length_addLoop_pn : (addLoop a.pn b.pn 0).length = WIDTH BITS := by
  rw [length_addLoop, a.length_pn, b.length_pn, Nat.min_self]

/-- `operator+=` -/
def add : BaseUint BITS := ⟨addLoop a.pn b.pn 0, length_addLoop_pn a b⟩

/-- The loop of `++`: to the next word where one wraps to zero, and not past the last. -/
def incLoop : List (BitVec 32) → List (BitVec 32)
  | [] => []
  | p :: pn => if p + 1 = 0 then (p + 1) :: incLoop pn else (p + 1) :: pn

@[simp] theorem length_incLoop (pn : List (BitVec 32)) : (incLoop pn).length = pn.length := by
  fun_induction incLoop pn with
  | case1 => rfl
  | case2 p pn hwrap ih => rw [List.length_cons, ih, List.length_cons]
  | case3 p pn hwrap => rfl

/-- The loop of `--`: to the next word where one wraps to all ones. -/
def decLoop : List (BitVec 32) → List (BitVec 32)
  | [] => []
  | p :: pn => if p - 1 = -1 then (p - 1) :: decLoop pn else (p - 1) :: pn

@[simp] theorem length_decLoop (pn : List (BitVec 32)) : (decLoop pn).length = pn.length := by
  fun_induction decLoop pn with
  | case1 => rfl
  | case2 p pn hwrap ih => rw [List.length_cons, ih, List.length_cons]
  | case3 p pn hwrap => rfl

/-- `operator++()` -/
def inc : BaseUint BITS := ⟨incLoop a.pn, (length_incLoop a.pn).trans a.length_pn⟩

/-- `operator--()` -/
def dec : BaseUint BITS := ⟨decLoop a.pn, (length_decLoop a.pn).trans a.length_pn⟩

/-- `operator++(int)`: what is returned, and the object behind it. -/
def postInc : BaseUint BITS × BaseUint BITS := (a, a.inc)

/-- `operator--(int)` -/
def postDec : BaseUint BITS × BaseUint BITS := (a, a.dec)

/-- `operator-()` -/
def neg : BaseUint BITS := (postInc (complement a)).2

/-- `operator-=` -/
def sub : BaseUint BITS := add a (neg b)

/-- `operator+=(uint64)` -/
def add64 (b64 : BitVec 64) : BaseUint BITS := add a (ofUInt64 BITS b64)

/-- `operator-=(uint64)` -/
def sub64 (b64 : BitVec 64) : BaseUint BITS := add a (neg (ofUInt64 BITS b64))

/-! ## Shifts -/

/-- `pn[j] |= x` -/
def orAt (pn : List (BitVec 32)) (j : Nat) (x : BitVec 32) : List (BitVec 32) := pn.modify j (· ||| x)

@[simp] theorem length_orAt (pn : List (BitVec 32)) (j : Nat) (x : BitVec 32) : (orAt pn j x).length = pn.length :=
  List.length_modify _ pn j

/-- One turn of the loop of `<<=`. -/
def shlStep (WIDTH k shift : Nat) (apn pn : List (BitVec 32)) (i : Nat) : List (BitVec 32) :=
  let pn := if i + k + 1 < WIDTH ∧ shift ≠ 0 then orAt pn (i + k + 1) (apn.getD i 0 >>> (32 - shift)) else pn
  if i + k < WIDTH then orAt pn (i + k) (apn.getD i 0 <<< shift) else pn

theorem length_shlStep (WIDTH k shift : Nat) (apn pn : List (BitVec 32)) (i : Nat) :
    (shlStep WIDTH k shift apn pn i).length = pn.length := by
  unfold shlStep
  split <;> split <;> simp

/-- One turn of the loop of `>>=`. -/
def shrStep (k shift : Nat) (apn pn : List (BitVec 32)) (i : Nat) : List (BitVec 32) :=
  let pn := if 0 ≤ (i : Int) - k - 1 ∧ shift ≠ 0 then orAt pn (i - k - 1) (apn.getD i 0 <<< (32 - shift)) else pn
  if 0 ≤ (i : Int) - k then orAt pn (i - k) (apn.getD i 0 >>> shift) else pn

theorem length_shrStep (k shift : Nat) (apn pn : List (BitVec 32)) (i : Nat) :
    (shrStep k shift apn pn i).length = pn.length := by
  unfold shrStep
  split <;> split <;> simp

/-- Turns of a loop over the words, from an array of zeros. -/
def shiftLoop (WIDTH : Nat) (step : List (BitVec 32) → Nat → List (BitVec 32)) (n : Nat) : List (BitVec 32) :=
  (List.range n).foldl step (List.replicate WIDTH 0)

theorem shiftLoop_succ (WIDTH : Nat) (step : List (BitVec 32) → Nat → List (BitVec 32)) (n : Nat) :
    shiftLoop WIDTH step (n + 1) = step (shiftLoop WIDTH step n) n := by
  rw [shiftLoop, shiftLoop, List.range_succ, List.foldl_append, List.foldl_cons, List.foldl_nil]

theorem length_shiftLoop {step : List (BitVec 32) → Nat → List (BitVec 32)}
    (hstep : ∀ pn i, (step pn i).length = pn.length) (WIDTH n : Nat) : (shiftLoop WIDTH step n).length = WIDTH := by
  induction n with
  | zero => exact List.length_replicate
  | succ n ih => rw [shiftLoop_succ, hstep, ih]

/-- `operator<<=` -/
def shl (shift : BitVec 32) : BaseUint BITS :=
  ⟨shiftLoop (WIDTH BITS) (shlStep (WIDTH BITS) (shift.toNat / 32) (shift.toNat % 32) a.pn) (WIDTH BITS),
    length_shiftLoop (length_shlStep _ _ _ a.pn) _ _⟩

/-- `operator>>=` -/
def shr (shift : BitVec 32) : BaseUint BITS :=
  ⟨shiftLoop (WIDTH BITS) (shrStep (shift.toNat / 32) (shift.toNat % 32) a.pn) (WIDTH BITS),
    length_shiftLoop (length_shrStep _ _ a.pn) _ _⟩

/-! ## Comparison -/

/-- The loop of the comparisons, from the last word down: the first words that differ decide. -/
def compareLoop (before : BitVec 32 → BitVec 32 → Bool) (atEnd : Bool) : List (BitVec 32 × BitVec 32) → Bool
  | [] => atEnd
  | (p, q) :: rest => if before p q then true else if before q p then false else compareLoop before atEnd rest

/-- The words of two objects, the last ones first. -/
def wordsDown : List (BitVec 32 × BitVec 32) := (a.pn.zip b.pn).reverse

/-- `operator<` -/
def lt : Bool := compareLoop (· < ·) false (wordsDown a b)

/-- `operator<=` -/
def le : Bool := compareLoop (· < ·) true (wordsDown a b)

/-- `operator>` -/
def gt : Bool := compareLoop (· > ·) false (wordsDown a b)

/-- `operator>=` -/
def ge : Bool := compareLoop (· > ·) true (wordsDown a b)

/-- `operator==` -/
def eq : Bool := (a.pn.zip b.pn).all fun p => p.1 = p.2

/-- `operator!=` -/
def ne : Bool := !eq a b

/-- `operator==(uint64)` -/
def eq64 (b64 : BitVec 64) : Bool :=
  if a.pn.getD 0 0 ≠ low b64 then false
  else if a.pn.getD 1 0 ≠ high b64 then false
  else (a.pn.drop 2).all (· = 0)

/-- `operator!=(uint64)` -/
def ne64 (b64 : BitVec 64) : Bool := !eq64 a b64

/-! ## Text -/

/-- The memory of the array. -/
def bytes : Bytes := a.pn.flatMap fun p => toLE 4 p.toNat

/-- `"%02x"` -/
def printByte (b : UInt8) : List Char := [Nat.digitChar (b.toNat / 16), Nat.digitChar (b.toNat % 16)]

/-- **`GetHex`**, and `ToString` -/
def getHex : List Char := a.bytes.reverse.flatMap printByte

/-- The entries that are not zero, up to the last of them. -/
def phexdigit : List Nat :=
  List.replicate 48 0 ++ [0, 1, 2, 3, 4, 5, 6, 7, 8, 9, 0, 0, 0, 0, 0, 0] ++
  [0, 0xa, 0xb, 0xc, 0xd, 0xe, 0xf] ++ List.replicate 25 0 ++ [0, 0xa, 0xb, 0xc, 0xd, 0xe, 0xf]

/-- `phexdigit[(unsigned char)c]` -/
def hexDigit (c : Char) : Nat := phexdigit.getD c.toNat 0

/-- The loop of `SetHex` over the digits from the last one down, with so many bytes to go. What it does not reach is
zero. -/
def setHexLoop : Nat → List Char → Bytes
  | 0, _ => []
  | n + 1, [] => 0 :: setHexLoop n []
  | n + 1, [c] => UInt8.ofNat (hexDigit c) :: setHexLoop n []
  | n + 1, c :: d :: psz => UInt8.ofNat (hexDigit c ||| hexDigit d <<< 4) :: setHexLoop n psz

/-- The words in a memory. -/
def wordsOf : Nat → Bytes → List (BitVec 32)
  | 0, _ => []
  | n + 1, p1 => BitVec.ofNat 32 (fromLE (p1.take 4)) :: wordsOf n (p1.drop 4)

@[simp] theorem length_wordsOf (n : Nat) (p1 : Bytes) : (wordsOf n p1).length = n := by
  induction n generalizing p1 with
  | zero => rfl
  | succ n ih => rw [wordsOf, List.length_cons, ih]

/-- Behind leading spaces and a `0x`. -/
def skipPrefix (psz : List Char) : List Char :=
  let psz := psz.dropWhile isspace
  if charAt psz 0 = '0' ∧ (charAt psz 1).toLower = 'x' then psz.drop 2 else psz

/-- The digits that are read. -/
def hexDigits (psz : List Char) : List Char := (skipPrefix (cStr psz)).takeWhile fun c => hexDigit c ≠ 0 ∨ c = '0'

/-- **`SetHex`** -/
def setHex (BITS : Nat) (psz : List Char) : BaseUint BITS :=
  ⟨wordsOf (WIDTH BITS) (setHexLoop (WIDTH BITS * 4) (hexDigits psz).reverse), length_wordsOf _ _⟩

end BaseUint

end Syscoin

import Mathlib.Data.List.TakeWhile
import Syscoin.Primitives.Base58
import Syscoin.Primitives.BaseCodes
import Syscoin.Primitives.Tx

/-!
# `Primitives.Text` — amounts as text, and masks

`FormatMoney` and `ParseMoney`, and `WildcardMatch`, by which the addresses of clients are compared with `-rpcallowip`.

A pointer into a text is the list of the characters from there to the end, behind which a zero stands. A string may hold
zeros, but the functions read it through `c_str`. Arithmetic of `int64` ends in a fault where it overflows.
-/

namespace Syscoin

open Lib

namespace Util

/-! ## Pointers -/

/-- `*p` -/
def deref (p : List Char) : Char := p.headD '\x00'

variable {p : List Char}

theorem toNat_ne_zero_iff {c : Char} : c.toNat ≠ 0 ↔ c ≠ '\x00' :=
  not_congr (Char.toNat_inj (d := '\x00'))

theorem cStr_of_deref_eq (h : deref p = '\x00') : cStr p = [] := by
  cases p with
  | nil => rfl
  | cons c p' =>
    have hc : ¬ c.toNat ≠ 0 := fun hne => toNat_ne_zero_iff.mp hne h
    rw [cStr, List.takeWhile_cons_of_neg (by simpa using hc)]

theorem cStr_of_deref_ne (h : deref p ≠ '\x00') : cStr p = deref p :: cStr p.tail := by
  cases p with
  | nil => exact absurd rfl h
  | cons c p' =>
    have hc : c.toNat ≠ 0 := toNat_ne_zero_iff.mpr h
    rw [cStr, List.takeWhile_cons_of_pos (by simpa using hc)]
    rfl

theorem length_tail_of_deref_ne (h : deref p ≠ '\x00') : p.tail.length + 1 = p.length := by
  cases p with
  | nil => exact absurd rfl h
  | cons c p' => rfl

/-- The next character is the one that is pointed to. -/
theorem cStr_cons_iff {Q : Char → List Char → Prop} :
    (∃ c rest, cStr p = c :: rest ∧ Q c rest) ↔ deref p ≠ '\x00' ∧ Q (deref p) (cStr p.tail) := by
  by_cases h : deref p = '\x00'
  · rw [cStr_of_deref_eq h]
    exact iff_of_false (fun ⟨c, rest, hcons, _⟩ => List.cons_ne_nil c rest hcons.symm) fun hne => hne.1 h
  · rw [cStr_of_deref_ne h]
    constructor
    · rintro ⟨c, rest, hcons, hQ⟩
      cases hcons
      exact ⟨h, hQ⟩
    · rintro ⟨-, hQ⟩
      exact ⟨_, _, rfl, hQ⟩

/-- A string without a zero is read as it is. -/
theorem cStr_eq_self (h : ∀ c ∈ p, c ≠ '\x00') : cStr p = p := by
  rw [cStr, List.takeWhile_eq_self_iff]
  intro c hc
  simpa using toNat_ne_zero_iff.mpr (h c hc)

/-! ## Masks -/

/-- **`WildcardMatch`**, with so many turns of the loop and calls inside each other at most. -/
def wildcardMatch : Nat → List Char → List Char → Option Bool
  | 0, _, _ => none
  | depth + 1, psz, mask =>
    if deref mask = '\x00' then some (deref psz = '\x00')
    else if deref mask = '*' then
      match wildcardMatch depth psz mask.tail with
      | none => none
      | some true => some true
      | some false => if deref psz ≠ '\x00' then wildcardMatch depth psz.tail mask else some false
    else if deref mask = '?' then
      if deref psz = '\x00' then some false else wildcardMatch depth psz.tail mask.tail
    else if deref psz ≠ deref mask then some false
    else wildcardMatch depth psz.tail mask.tail

/-! ## Amounts -/

/-- An operation on `int64` left its range. -/
inductive Overflow where
  | overflow
deriving DecidableEq, Repr

/-- The result of an operation on `int64`. -/
def int64 (n : Int) : Except Overflow Int := if -2 ^ 63 ≤ n ∧ n < 2 ^ 63 then .ok n else .error .overflow

theorem int64_eq {n : Int} (hmin : -2 ^ 63 ≤ n) (hmax : n < 2 ^ 63) : int64 n = .ok n := if_pos ⟨hmin, hmax⟩

def isdigit (c : Char) : Bool := c.isDigit

/-- `%08d` -/
def zeroPadded (width n : Nat) : List Char :=
  List.replicate (width - (Nat.toDigits 10 n).length) '0' ++ Nat.toDigits 10 n

/-- The loop that counts the zeros at the end, from `str[i]` on. The point stops it before the first two characters. -/
def trimLoop (str : List Char) : Nat → Nat
  | i + 2 => if charAt str (i + 2) = '0' ∧ isdigit (charAt str i) = true then trimLoop str (i + 1) + 1 else 0
  | _ => 0

/-- **`FormatMoney`** -/
def formatMoney (n : Int) (fPlus : Bool) : Except Overflow (List Char) := do
  let n_abs ← int64 (if n > 0 then n else -n)
  let quotient := n_abs / COIN
  let remainder := n_abs % COIN
  let str := Nat.toDigits 10 quotient.toNat ++ '.' :: zeroPadded 8 remainder.toNat
  let nTrim := trimLoop str (str.length - 1)
  let str := str.take (str.length - nTrim)
  .ok (if n < 0 then '-' :: str else if fPlus = true ∧ n > 0 then '+' :: str else str)

/-- `atoi64`, which is `strtoll`: a sign, digits up to another character, and the nearest number there is. -/
def atoi64 (psz : List Char) : Int :=
  let p := (cStr psz).dropWhile isspace
  let digits := if deref p = '-' ∨ deref p = '+' then p.tail else p
  let n : Int := Nat.ofDigitChars 10 (digits.takeWhile isdigit) 0
  max (-2 ^ 63) (min (2 ^ 63 - 1) (if deref p = '-' then -n else n))

/-- The loop behind the point. -/
def parseUnits : List Char → Int → Int → Except Overflow (Int × List Char)
  | [], _, nUnits => .ok (nUnits, [])
  | c :: p, nMult, nUnits =>
    if isdigit c = true ∧ nMult > 0 then do
      let nDigit ← int64 (nMult * (c.toNat - 48))
      let nUnits ← int64 (nUnits + nDigit)
      parseUnits p (nMult / 10) nUnits
    else .ok (nUnits, c :: p)

/-- The loop over the digits in front of the point. -/
def parseWhole : List Char → List Char → Except Overflow (Option (List Char × Int × List Char))
  | [], strWhole => .ok (some (strWhole, 0, []))
  | c :: p, strWhole =>
    if c = '.' then do
      let (nUnits, p) ← parseUnits p (CENT * 10) 0
      .ok (some (strWhole, nUnits, p))
    else if isspace c = true then .ok (some (strWhole, 0, c :: p))
    else if isdigit c = false then .ok none
    else parseWhole p (strWhole ++ [c])

/-- **`ParseMoney`**: the amount, or that there is none. -/
def parseMoney (str : List Char) : Except Overflow (Option Int) := do
  match ← parseWhole ((cStr str).dropWhile isspace) [] with
  | none => .ok none
  | some (strWhole, nUnits, p) =>
    if p.all isspace = false then .ok none
    else if strWhole.length > 10 then .ok none
    else if nUnits < 0 ∨ nUnits > COIN then .ok none
    else do
      let nWhole ← int64 (atoi64 strWhole * COIN)
      let nValue ← int64 (nWhole + nUnits)
      .ok (some nValue)

end Util

end Syscoin

import Mathlib.Algebra.Order.Group.Nat
import Mathlib.Algebra.Ring.Nat
import Mathlib.Data.List.TakeWhile
import Mathlib.Data.Nat.Digits.Lemmas
import Mathlib.Tactic.Ring

/-!
# `Lib.Radix` — numbers in a base

A string of digits in one base is written in another one: the number is converted, and every zero in front of it becomes
a zero in front of the result. Nothing is lost on the way, so that the same conversion leads back.

A format that stores a mantissa below `M` and an exponent of base `B` has room for the numbers `m * B ^ e` only. Other
numbers are rounded down, by dropping their lowest digits. As long as no more digits are dropped than the mantissa is
short of, a number of the format lies below a number iff it lies below what is left of it (`le_truncate_iff`).
-/

namespace Lib

/-! ## Strings of digits -/

section Radix

/-- The zeros in front of a string of digits. -/
def leadingZeros (l : List Nat) : Nat := (l.takeWhile (· = 0)).length

/-- Digits in base `b`, highest first, in base `c`. -/
def rebase (b c : Nat) (l : List Nat) : List Nat :=
  List.replicate (leadingZeros l) 0 ++ (c.digits (Nat.ofDigits b l.reverse)).reverse

/-- A string is its zeros and the rest. -/
theorem eq_zeros_append (l : List Nat) : l = List.replicate (leadingZeros l) 0 ++ l.dropWhile (· = 0) := by
  have hzeros : l.takeWhile (· = 0) = List.replicate (leadingZeros l) 0 := by
    rw [leadingZeros, List.eq_replicate_iff]
    refine ⟨rfl, ?_⟩
    intro d hd
    simpa using List.mem_takeWhile_imp hd
  rw [← hzeros, List.takeWhile_append_dropWhile]

/-- Zeros in front are counted up to the first other digit. -/
theorem leadingZeros_zeros_append (k : Nat) {l : List Nat} (hl : ∀ h : l ≠ [], l.head h ≠ 0) :
    leadingZeros (List.replicate k 0 ++ l) = k := by
  have hrest : l.takeWhile (· = 0) = [] := by
    cases l with
    | nil => rfl
    | cons d l =>
      have hd : d ≠ 0 := hl (by simp)
      simp [hd]
  rw [leadingZeros, List.takeWhile_append_of_pos (by simp), hrest]
  simp

/-- Zeros in front do not count. -/
theorem ofDigits_reverse_zeros_append (b k : Nat) (l : List Nat) :
    Nat.ofDigits b (List.replicate k 0 ++ l).reverse = Nat.ofDigits b l.reverse := by
  rw [List.reverse_append, Nat.ofDigits_append, List.reverse_replicate]
  have hzero : Nat.ofDigits b (List.replicate k 0) = 0 := by
    induction k with
    | zero => rfl
    | succ k ih => rw [List.replicate_succ, Nat.ofDigits_cons, ih, Nat.mul_zero]
  rw [hzero, Nat.mul_zero, Nat.add_zero]

/-- The digits of a number do not start with a zero. -/
theorem head_reverse_digits {c : Nat} (n : Nat) (h : (c.digits n).reverse ≠ []) : (c.digits n).reverse.head h ≠ 0 := by
  rw [List.head_reverse]
  apply Nat.getLast_digit_ne_zero
  rintro rfl
  simp at h

theorem leadingZeros_rebase (b c : Nat) (l : List Nat) : leadingZeros (rebase b c l) = leadingZeros l :=
  leadingZeros_zeros_append _ (head_reverse_digits _)

/-- The number stays the same. -/
theorem ofDigits_rebase (b c : Nat) (l : List Nat) :
    Nat.ofDigits c (rebase b c l).reverse = Nat.ofDigits b l.reverse := by
  rw [rebase, ofDigits_reverse_zeros_append, List.reverse_reverse, Nat.ofDigits_digits]

theorem rebase_lt {b c : Nat} (hc : 1 < c) {l : List Nat} {d : Nat} (hd : d ∈ rebase b c l) : d < c := by
  rcases List.mem_append.1 hd with hd | hd
  · rw [List.eq_of_mem_replicate hd]
    omega
  · exact Nat.digits_lt_base hc (List.mem_reverse.1 hd)

/-- **There and back.** -/
theorem rebase_rebase {b c : Nat} (hb : 1 < b) {l : List Nat} (hl : ∀ d ∈ l, d < b) : rebase c b (rebase b c l) = l := by
  have hdigits : b.digits (Nat.ofDigits b l.reverse) = (l.dropWhile (· = 0)).reverse := by
    conv_lhs => rw [eq_zeros_append l, ofDigits_reverse_zeros_append]
    apply Nat.digits_ofDigits b hb
    · intro d hd
      exact hl d (List.dropWhile_sublist _ |>.subset (List.mem_reverse.1 hd))
    · intro hne
      rw [List.getLast_reverse]
      have hhead := List.head_dropWhile_not (fun d : Nat => decide (d = 0)) (l := l) (by simpa using hne)
      simpa using hhead
  rw [rebase, leadingZeros_rebase, ofDigits_rebase, hdigits, List.reverse_reverse]
  exact (eq_zeros_append l).symm

end Radix

/-! ## Numbers of few digits -/

section Truncation

/-- The number has a mantissa below `M`. -/
def Representable (B M x : Nat) : Prop := ∃ m e, m < M ∧ x = m * B ^ e

/-- The number without its `u` lowest digits. -/
def truncate (B u y : Nat) : Nat := y / B ^ u * B ^ u

variable {B M u x y : Nat}

theorem truncate_le : truncate B u y ≤ y := Nat.div_mul_le_self y (B ^ u)

@[simp] theorem truncate_zero : truncate B 0 y = y := by simp [truncate]

/-- A multiple of the last digit that is kept loses nothing. -/
theorem le_truncate_of_dvd (hdvd : B ^ u ∣ x) (hle : x ≤ y) : x ≤ truncate B u y := by
  obtain ⟨q, rfl⟩ := hdvd
  rcases Nat.eq_zero_or_pos (B ^ u) with hzero | hpos
  · simp [hzero]
  · rw [truncate, Nat.mul_comm (B ^ u) q]
    apply Nat.mul_le_mul_right
    rw [Nat.le_div_iff_mul_le hpos, Nat.mul_comm]
    exact hle

/-- What is left after dropping `u` digits is the largest number of the format that is not above `y`, if the mantissa
    would not have had room for one digit more. -/
theorem le_truncate_iff (hx : Representable B M x) (hfull : u = 0 ∨ M ≤ y / B ^ u * B) : x ≤ truncate B u y ↔ x ≤ y := by
  constructor
  · intro h
    exact h.trans truncate_le
  · intro hle
    obtain ⟨m, e, hm, rfl⟩ := hx
    by_cases he : u ≤ e
    · exact le_truncate_of_dvd (Dvd.dvd.mul_left (Nat.pow_dvd_pow B he) m) hle
    · -- a smaller exponent: even the largest mantissa stays below
      obtain ⟨k, rfl⟩ : ∃ k, u = e + 1 + k := ⟨u - (e + 1), by omega⟩
      have hM : M ≤ y / B ^ (e + 1 + k) * B := hfull.resolve_left (by omega)
      rcases Nat.eq_zero_or_pos B with rfl | hB
      · omega
      · calc m * B ^ e ≤ y / B ^ (e + 1 + k) * B * B ^ e := Nat.mul_le_mul_right _ (hm.le.trans hM)
          _ = y / B ^ (e + 1 + k) * B ^ (e + 1) := by ring
          _ ≤ y / B ^ (e + 1 + k) * B ^ (e + 1 + k) :=
            Nat.mul_le_mul_left _ (Nat.pow_le_pow_right hB (Nat.le_add_right _ _))

end Truncation

end Lib

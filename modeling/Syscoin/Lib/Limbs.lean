import Mathlib.Data.Nat.Bitwise
import Mathlib.Tactic.Ring

/-!
# `Lib.Limbs` — numbers as equally wide words, the lowest first

`n` words of `w` bits are a number below `2 ^ (w * n)`, each such number once (`value_lt`, `value_inj`). Two numbers
compare like the highest words in which they differ (`value_lt_of_high_lt`). A bit is set where it is written
(`value_modify_or`), and a number is all its words in their places (`value_take_succ`): a loop that moves words one by
one moves the number.
-/

namespace Lib

variable {w : Nat} {l m : List (BitVec w)}

/-- The number that words stand for, the lowest first. -/
def value : List (BitVec w) → Nat
  | [] => 0
  | x :: l => x.toNat + 2 ^ w * value l

theorem pow_mul_succ (w n : Nat) : 2 ^ (w * (n + 1)) = 2 ^ w * 2 ^ (w * n) := by
  rw [Nat.mul_succ, Nat.add_comm, Nat.pow_add]

theorem value_lt (l : List (BitVec w)) : value l < 2 ^ (w * l.length) := by
  induction l with
  | nil => exact Nat.two_pow_pos _
  | cons x l ih =>
    have hx := x.isLt
    have hl : 2 ^ w * (value l + 1) ≤ 2 ^ w * 2 ^ (w * l.length) := Nat.mul_le_mul_left _ ih
    rw [value, List.length_cons, pow_mul_succ]
    rw [Nat.mul_succ] at hl
    omega

/-- The lowest word and the others are read off the number. -/
theorem value_cons_inj {x y : BitVec w} (h : value (x :: l) = value (y :: m)) : x = y ∧ value l = value m := by
  rw [value, value] at h
  have hmod := congrArg (· % 2 ^ w) h
  have hdiv := congrArg (· / 2 ^ w) h
  simp only [Nat.add_mul_mod_self_left, Nat.mod_eq_of_lt x.isLt, Nat.mod_eq_of_lt y.isLt] at hmod
  simp only [Nat.add_mul_div_left _ _ (Nat.two_pow_pos w), Nat.div_eq_of_lt x.isLt, Nat.div_eq_of_lt y.isLt,
    Nat.zero_add] at hdiv
  exact ⟨BitVec.eq_of_toNat_eq hmod, hdiv⟩

/-- As many words with one value are one number. -/
theorem value_inj (hlength : l.length = m.length) (h : value l = value m) : l = m := by
  induction l generalizing m with
  | nil => exact (List.length_eq_zero_iff.mp hlength.symm).symm
  | cons x l ih =>
    cases m with
    | nil => cases hlength
    | cons y m =>
      obtain ⟨rfl, hrest⟩ := value_cons_inj h
      rw [ih (Nat.succ.inj hlength) hrest]

theorem value_append (l m : List (BitVec w)) : value (l ++ m) = value l + 2 ^ (w * l.length) * value m := by
  induction l with
  | nil => simp [value]
  | cons x l ih =>
    rw [List.cons_append, value, value, ih, List.length_cons, pow_mul_succ]
    ring

theorem value_replicate_zero (n : Nat) : value (List.replicate n (0 : BitVec w)) = 0 := by
  induction n with
  | zero => rfl
  | succ n ih =>
    have hzero : (0 : BitVec w).toNat = 0 := BitVec.toNat_zero
    rw [List.replicate_succ, value, ih, hzero, Nat.mul_zero]

/-- A carry out of the lowest word is what the other words are counted by. -/
theorem low_add_mod {r y b c : Nat} (hr : r < b) : (r + b * y) % (b * c) = r + b * (y % c) := by
  have hb : 0 < b := Nat.zero_lt_of_lt hr
  rw [Nat.mod_mul, Nat.add_mul_mod_self_left, Nat.mod_eq_of_lt hr, Nat.add_mul_div_left _ _ hb, Nat.div_eq_of_lt hr,
    Nat.zero_add]

/-! ## Order -/

/-- **The higher word decides.** -/
theorem value_lt_of_high_lt {x y : BitVec w} (hlength : l.length = m.length) (h : x < y) :
    value (l ++ [x]) < value (m ++ [y]) := by
  have hl := value_lt l
  have hxy : 2 ^ (w * l.length) * (x.toNat + 1) ≤ 2 ^ (w * l.length) * y.toNat := Nat.mul_le_mul_left _ h
  rw [Nat.mul_succ] at hxy
  rw [value_append, value_append, ← hlength]
  simp only [value, Nat.mul_zero, Nat.add_zero]
  omega

/-- Equal high words leave it to the others. -/
theorem value_lt_iff_of_high_eq (x : BitVec w) (hlength : l.length = m.length) :
    value (l ++ [x]) < value (m ++ [x]) ↔ value l < value m := by
  rw [value_append, value_append, hlength]
  omega

/-! ## Bits -/

/-- Every word inverted is the distance to the highest number. -/
theorem value_map_not (l : List (BitVec w)) : value (l.map (~~~ ·)) + value l + 1 = 2 ^ (w * l.length) := by
  induction l with
  | nil => rfl
  | cons x l ih =>
    have hx := x.isLt
    have hpow : 2 ^ w * (value (l.map (~~~ ·)) + value l + 1) = 2 ^ w * 2 ^ (w * l.length) := by rw [ih]
    rw [List.map_cons, value, value, BitVec.toNat_not, List.length_cons, pow_mul_succ]
    rw [Nat.mul_add, Nat.mul_add, Nat.mul_one] at hpow
    omega

theorem toNat_shiftLeft_lt (x : BitVec w) (n : Nat) : x.toNat <<< (w * n) < 2 ^ (w * (n + 1)) := by
  rw [Nat.shiftLeft_eq, pow_mul_succ]
  exact Nat.mul_lt_mul_of_pos_right x.isLt (Nat.two_pow_pos _)

/-- **Bits are set where they are written**, and nowhere behind the last word. -/
theorem value_modify_or (l : List (BitVec w)) (j : Nat) (x : BitVec w) :
    value (l.modify j (· ||| x)) = value l ||| x.toNat <<< (w * j) % 2 ^ (w * l.length) := by
  induction l generalizing j with
  | nil => simp [value, Nat.mod_one]
  | cons y l ih =>
    cases j with
    | zero =>
      have hx : x.toNat <<< (w * 0) < 2 ^ (w * (y :: l).length) :=
        (toNat_shiftLeft_lt x 0).trans_le (Nat.pow_le_pow_right (by decide) (Nat.mul_le_mul_left w (by simp)))
      rw [List.modify_zero_cons, Nat.mod_eq_of_lt hx, Nat.mul_zero, Nat.shiftLeft_zero, value, value, BitVec.toNat_or,
        Nat.add_comm, Nat.add_comm y.toNat, Nat.two_pow_add_eq_or_of_lt (Nat.or_lt_two_pow y.isLt x.isLt),
        Nat.two_pow_add_eq_or_of_lt y.isLt, Nat.or_assoc]
    | succ j =>
      have hshift : x.toNat <<< (w * (j + 1)) = 2 ^ w * x.toNat <<< (w * j) := by
        rw [Nat.shiftLeft_eq, Nat.shiftLeft_eq, pow_mul_succ]
        ring
      rw [List.modify_succ_cons, value, value, ih, hshift, List.length_cons, pow_mul_succ, Nat.mul_mod_mul_left,
        Nat.add_comm, Nat.add_comm y.toNat, Nat.two_pow_add_eq_or_of_lt y.isLt, Nat.two_pow_add_eq_or_of_lt y.isLt,
        Nat.or_assoc, Nat.or_comm y.toNat, ← Nat.or_assoc]
      congr 1
      rw [Nat.mul_comm, ← Nat.shiftLeft_eq, Nat.shiftLeft_or_distrib, Nat.shiftLeft_eq, Nat.shiftLeft_eq, Nat.mul_comm,
        Nat.mul_comm _ (2 ^ w)]

/-- **One word more** of a number. -/
theorem value_take_succ {n : Nat} (hn : n < l.length) :
    value (l.take (n + 1)) = value (l.take n) ||| (l.getD n 0).toNat <<< (w * n) := by
  have hlength : (l.take n).length = n := List.length_take_of_le hn.le
  have hlow : value (l.take n) < 2 ^ (w * n) := by
    have h := value_lt (l.take n)
    rwa [hlength] at h
  have hword : value [l[n]] = l[n].toNat := by simp [value]
  rw [List.take_succ_eq_append_getElem hn, value_append, hlength, hword, List.getD_eq_getElem _ _ hn, Nat.add_comm,
    Nat.two_pow_add_eq_or_of_lt hlow, Nat.or_comm, Nat.shiftLeft_eq, Nat.mul_comm]

/-- **A shifted word lies across two words.** -/
theorem shiftLeft_across (x : BitVec w) {r : Nat} (hr : r ≤ w) :
    x.toNat <<< r = (x >>> (w - r)).toNat <<< w ||| (x <<< r).toNat := by
  rw [BitVec.toNat_ushiftRight, BitVec.toNat_shiftLeft]
  apply Nat.eq_of_testBit_eq
  intro i
  rw [Nat.testBit_or, Nat.testBit_shiftLeft, Nat.testBit_shiftLeft, Nat.testBit_shiftRight, Nat.testBit_mod_two_pow,
    Nat.testBit_shiftLeft]
  by_cases hi : i < w
  · simp [hi]
  · have hsub : w - r + (i - w) = i - r := by omega
    have hle : r ≤ i := by omega
    simp [hi, hsub, hle, Nat.not_lt.mp hi]

end Lib

import Mathlib.Data.List.Induction
import Mathlib.Data.List.TakeWhile
import Mathlib.Data.List.Zip
import Syscoin.Primitives.BaseUint

/-!
# `Correctness.BaseUint` — the integers of fixed width are the integers modulo `2 ^ BITS`

Every loop over words is followed through the number that the words stand for (`Lib.Limbs`). A carry is one at most, and
the words above it are one more for it (`value_addLoop`); `++` and `--` go on to the next word in the one case in which
something is carried (`value_incLoop`, `value_decLoop`). A turn of a shift writes one word of the argument to its new
place, across two words or over an end (`value_shlStep`, `value_shrStep`), and `n` turns have shifted the number of the
first `n` words (`value_shiftLoop`). The comparisons are decided by the highest words that differ (`compareLoop_iff`).
-/

namespace Syscoin

open Lib Util

namespace BaseUint

variable {BITS : Nat} {a b : BaseUint BITS} {pn bpn : List (BitVec 32)} {carry : BitVec 64}

theorem toNat_lt (a : BaseUint BITS) : a.toNat < 2 ^ (32 * WIDTH BITS) := by
  have h := value_lt a.pn
  rwa [a.length_pn] at h

/-- Objects are their numbers. -/
theorem toNat_inj : a.toNat = b.toNat ↔ a = b := by
  constructor
  · intro h
    have hpn : a.pn = b.pn := value_inj (a.length_pn.trans b.length_pn.symm) h
    cases a
    cases b
    cases hpn
    rfl
  · intro h
    rw [h]

theorem toNat_zero (BITS : Nat) : (zero BITS).toNat = 0 := value_replicate_zero (WIDTH BITS)

theorem isZero_iff : isZero a = true ↔ a.toNat = 0 := by
  rw [← toNat_zero BITS, toNat_inj]
  obtain ⟨pn, hpn⟩ := a
  rw [zero, mk.injEq, List.eq_replicate_iff]
  simp [isZero, hpn]

/-! ## Sums -/

/-- A word of the sum and what is carried out of it are the sum of the words and the carry. -/
theorem toNat_addWords (p q : BitVec 32) (hcarry : carry.toNat ≤ 1) :
    (carry + p.setWidth 64 + q.setWidth 64).toNat = carry.toNat + p.toNat + q.toNat := by
  have hp := p.isLt
  have hq := q.isLt
  rw [BitVec.toNat_add, BitVec.toNat_add, BitVec.toNat_setWidth_of_le (by decide),
    BitVec.toNat_setWidth_of_le (by decide), Nat.mod_add_mod, Nat.mod_eq_of_lt (by omega)]

theorem toNat_lowWord (n : BitVec 64) : ((n &&& 0xffffffff).setWidth 32).toNat = n.toNat % 2 ^ 32 := by
  have hmask : n.toNat &&& (0xffffffff : BitVec 64).toNat = n.toNat % 2 ^ 32 :=
    Nat.and_two_pow_sub_one_eq_mod n.toNat 32
  rw [BitVec.toNat_setWidth, BitVec.toNat_and, hmask, Nat.mod_mod]

theorem toNat_highWord (n : BitVec 64) : (n >>> 32).toNat = n.toNat / 2 ^ 32 := by
  rw [BitVec.toNat_ushiftRight, Nat.shiftRight_eq_div_pow]

theorem value_addLoop (hlength : pn.length = bpn.length) (hcarry : carry.toNat ≤ 1) :
    value (addLoop pn bpn carry) = (value pn + value bpn + carry.toNat) % 2 ^ (32 * pn.length) := by
  induction pn generalizing bpn carry with
  | nil => rw [addLoop.eq_def, value, List.length_nil, Nat.mul_zero, Nat.pow_zero, Nat.mod_one]
  | cons p pn ih =>
    cases bpn with
    | nil => cases hlength
    | cons q bpn =>
      have hp := p.isLt
      have hq := q.isLt
      have hn := toNat_addWords p q hcarry
      have hout : (carry.toNat + p.toNat + q.toNat) / 2 ^ 32 ≤ 1 := by omega
      have hsum : p.toNat + 2 ^ 32 * value pn + (q.toNat + 2 ^ 32 * value bpn) + carry.toNat =
          (carry.toNat + p.toNat + q.toNat) % 2 ^ 32 +
            2 ^ 32 * (value pn + value bpn + (carry.toNat + p.toNat + q.toNat) / 2 ^ 32) := by omega
      rw [addLoop, value, toNat_lowWord, ih (Nat.succ.inj hlength) (by rwa [toNat_highWord, hn]), toNat_highWord, hn,
        value, value, List.length_cons, pow_mul_succ, hsum, low_add_mod (Nat.mod_lt _ (by decide))]

theorem toNat_add (a b : BaseUint BITS) : (add a b).toNat = (a.toNat + b.toNat) % 2 ^ (32 * WIDTH BITS) := by
  have hcarry : (0 : BitVec 64).toNat ≤ 1 := Nat.zero_le 1
  have h := value_addLoop (a.length_pn.trans b.length_pn.symm) hcarry
  rwa [a.length_pn] at h

/-! ## One more and one less -/

theorem toNat_add_one (p : BitVec 32) : (p + 1).toNat = (p.toNat + 1) % 2 ^ 32 := BitVec.toNat_add p 1

theorem toNat_sub_one (p : BitVec 32) : (p - 1).toNat = (2 ^ 32 - 1 + p.toNat) % 2 ^ 32 := BitVec.toNat_sub p 1

theorem value_incLoop (pn : List (BitVec 32)) : value (incLoop pn) = (value pn + 1) % 2 ^ (32 * pn.length) := by
  fun_induction incLoop pn with
  | case1 => rfl
  | case2 p pn hwrap ih =>
    -- the word was full, and its place is carried
    have hp : p.toNat + 1 = 2 ^ 32 := by
      have h : (p + 1).toNat = 0 := congrArg BitVec.toNat hwrap
      have hlt := p.isLt
      rw [toNat_add_one] at h
      omega
    have hsum : p.toNat + 2 ^ 32 * value pn + 1 = 0 + 2 ^ 32 * (value pn + 1) := by omega
    rw [value, value, ih, hwrap, List.length_cons, pow_mul_succ, hsum, low_add_mod (by decide)]
    rfl
  | case3 p pn hwrap =>
    have hp : (p + 1).toNat = p.toNat + 1 ∧ p.toNat + 1 < 2 ^ 32 := by
      have hne : (p + 1).toNat ≠ 0 := fun h => hwrap (BitVec.eq_of_toNat_eq h)
      have hlt := p.isLt
      rw [toNat_add_one] at hne ⊢
      omega
    have hsum : p.toNat + 2 ^ 32 * value pn + 1 = p.toNat + 1 + 2 ^ 32 * value pn := by omega
    rw [value, value, hp.1, List.length_cons, pow_mul_succ, hsum, low_add_mod hp.2, Nat.mod_eq_of_lt (value_lt pn)]

theorem toNat_inc (a : BaseUint BITS) : (inc a).toNat = (a.toNat + 1) % 2 ^ (32 * WIDTH BITS) := by
  have h := value_incLoop a.pn
  rwa [a.length_pn] at h

/-- Every number below `2 ^ BITS` is represented: count up to it. -/
theorem exists_toNat_eq {n : Nat} (hn : n < 2 ^ (32 * WIDTH BITS)) : ∃ a : BaseUint BITS, a.toNat = n := by
  induction n with
  | zero => exact ⟨zero BITS, toNat_zero BITS⟩
  | succ n ih =>
    obtain ⟨a, ha⟩ := ih (Nat.lt_of_succ_lt hn)
    exact ⟨inc a, by rw [toNat_inc, ha, Nat.mod_eq_of_lt hn]⟩

theorem value_decLoop (pn : List (BitVec 32)) :
    value (decLoop pn) = (value pn + (2 ^ (32 * pn.length) - 1)) % 2 ^ (32 * pn.length) := by
  fun_induction decLoop pn with
  | case1 => rfl
  | case2 p pn hwrap ih =>
    -- the word was zero, and one is borrowed for it
    have hp : p.toNat = 0 ∧ (p - 1).toNat = 2 ^ 32 - 1 := by
      have h : (p - 1).toNat = 2 ^ 32 - 1 := congrArg BitVec.toNat hwrap
      have hlt := p.isLt
      rw [toNat_sub_one] at h ⊢
      omega
    have hpos := Nat.two_pow_pos (32 * pn.length)
    have hsum : p.toNat + 2 ^ 32 * value pn + (2 ^ 32 * 2 ^ (32 * pn.length) - 1) =
        2 ^ 32 - 1 + 2 ^ 32 * (value pn + (2 ^ (32 * pn.length) - 1)) := by omega
    rw [value, value, ih, hp.2, List.length_cons, pow_mul_succ, hsum, low_add_mod (by decide)]
  | case3 p pn hwrap =>
    have hp : 0 < p.toNat ∧ (p - 1).toNat = p.toNat - 1 := by
      have hne : (p - 1).toNat ≠ 2 ^ 32 - 1 := fun h => hwrap (BitVec.eq_of_toNat_eq h)
      have hlt := p.isLt
      rw [toNat_sub_one] at hne ⊢
      omega
    have hlow : p.toNat - 1 < 2 ^ 32 := (Nat.sub_le _ _).trans_lt p.isLt
    have hpos := Nat.two_pow_pos (32 * pn.length)
    have hsum : p.toNat + 2 ^ 32 * value pn + (2 ^ 32 * 2 ^ (32 * pn.length) - 1) =
        p.toNat - 1 + 2 ^ 32 * (value pn + 2 ^ (32 * pn.length)) := by omega
    rw [value, value, hp.2, List.length_cons, pow_mul_succ, hsum, low_add_mod hlow, Nat.add_mod_right,
      Nat.mod_eq_of_lt (value_lt pn)]

/-! ## Differences -/

/-- What is added in place of a number that is taken away. -/
theorem sub_emod {n x y : Nat} (hy : y ≤ n) : (((x + (n - y)) % n : Nat) : Int) = ((x : Int) - y) % n := by
  have h : ((x + (n - y) : Nat) : Int) = (x : Int) - y + n := by omega
  rw [Int.natCast_emod, h, Int.add_emod_right]

theorem toNat_dec (a : BaseUint BITS) :
    ((dec a).toNat : Int) = ((a.toNat : Int) - 1) % (2 ^ (32 * WIDTH BITS) : Nat) := by
  have h := value_decLoop a.pn
  rw [a.length_pn] at h
  exact (congrArg Nat.cast h).trans (sub_emod (Nat.two_pow_pos _))

theorem toNat_neg_nat (a : BaseUint BITS) :
    (neg a).toNat = (2 ^ (32 * WIDTH BITS) - a.toNat) % 2 ^ (32 * WIDTH BITS) := by
  have hnot := value_map_not a.pn
  have hinc := toNat_inc (complement a)
  rw [a.length_pn] at hnot
  have hsum : (complement a).toNat + 1 = 2 ^ (32 * WIDTH BITS) - a.toNat := by
    show value (a.pn.map (~~~ ·)) + 1 = 2 ^ (32 * WIDTH BITS) - value a.pn
    omega
  rwa [hsum] at hinc

theorem toNat_neg (a : BaseUint BITS) : ((neg a).toNat : Int) = (-(a.toNat : Int)) % (2 ^ (32 * WIDTH BITS) : Nat) := by
  have h := sub_emod (x := 0) (toNat_lt a).le
  rwa [Nat.zero_add, ← toNat_neg_nat, Nat.cast_zero, Int.zero_sub] at h

theorem toNat_sub (a b : BaseUint BITS) :
    ((sub a b).toNat : Int) = ((a.toNat : Int) - b.toNat) % (2 ^ (32 * WIDTH BITS) : Nat) := by
  rw [sub, toNat_add, toNat_neg_nat, Nat.add_mod_mod]
  exact sub_emod (toNat_lt b).le

/-! ## 64-bit operands -/

theorem low_add_high (b64 : BitVec 64) : (low b64).toNat + 2 ^ 32 * (high b64).toNat = b64.toNat := by
  have hlt := b64.isLt
  rw [low, high, BitVec.toNat_setWidth, BitVec.toNat_setWidth, toNat_highWord]
  omega

theorem wordsOf64_eq {n : Nat} (hn : 2 ≤ n) (b64 : BitVec 64) :
    wordsOf64 n b64 = low b64 :: high b64 :: List.replicate (n - 2) 0 := by
  rw [wordsOf64, List.take_of_length_le]
  rw [List.length_cons, List.length_cons, List.length_replicate]
  omega

theorem toNat_ofUInt64 (hwide : 2 ≤ WIDTH BITS) (b64 : BitVec 64) : (ofUInt64 BITS b64).toNat = b64.toNat := by
  show value (wordsOf64 (WIDTH BITS) b64) = b64.toNat
  rw [wordsOf64_eq hwide, value, value, value_replicate_zero, Nat.mul_zero, Nat.add_zero, low_add_high]

/-! ## Shifts -/

section Shifts

variable {k shift i n j W : Nat} {apn : List (BitVec 32)}

/-- Nothing is written behind the last word. -/
theorem place_eq_zero (hj : W ≤ j) (m : Nat) : m <<< (32 * j) % 2 ^ (32 * W) = 0 := by
  rw [Nat.shiftLeft_eq]
  exact Nat.mod_eq_zero_of_dvd (Dvd.dvd.mul_left (Nat.pow_dvd_pow 2 (Nat.mul_le_mul_left 32 hj)) m)

theorem place_eq_self (hj : j < W) (x : BitVec 32) : x.toNat <<< (32 * j) % 2 ^ (32 * W) = x.toNat <<< (32 * j) :=
  Nat.mod_eq_of_lt ((toNat_shiftLeft_lt x j).trans_le (Nat.pow_le_pow_right (by decide) (Nat.mul_le_mul_left 32 hj)))

theorem length_orAt_if {c : Prop} [Decidable c] {x : BitVec 32} (hlength : pn.length = W) :
    (if c then orAt pn j x else pn).length = W := by
  split <;> simp [hlength]

/-- A write that is skipped because it would change nothing. -/
theorem value_orAt_if {c : Prop} [Decidable c] {x : BitVec 32} (hlength : pn.length = W)
    (hskip : ¬ c → x.toNat <<< (32 * j) % 2 ^ (32 * W) = 0) :
    value (if c then orAt pn j x else pn) = value pn ||| x.toNat <<< (32 * j) % 2 ^ (32 * W) := by
  by_cases hc : c
  · rw [if_pos hc, orAt, value_modify_or, hlength]
  · rw [if_neg hc, hskip hc, Nat.or_zero]

/-- **A turn of `<<=`** writes a word to its new place, or as much of it as has one. -/
theorem value_shlStep (hshift : shift < 32) (hlength : pn.length = W) :
    value (shlStep W k shift apn pn i) =
      value pn ||| (apn.getD i 0).toNat <<< (32 * i) <<< (32 * k + shift) % 2 ^ (32 * W) := by
  have hplace : (apn.getD i 0).toNat <<< (32 * i) <<< (32 * k + shift) =
      ((apn.getD i 0 >>> (32 - shift)).toNat <<< (32 * (i + k + 1)) |||
        (apn.getD i 0 <<< shift).toNat <<< (32 * (i + k))) := by
    have hexp : 32 * i + (32 * k + shift) = shift + 32 * (i + k) := by ring
    rw [← Nat.shiftLeft_add, hexp, Nat.shiftLeft_add, shiftLeft_across _ hshift.le, Nat.shiftLeft_or_distrib,
      ← Nat.shiftLeft_add, Nat.mul_succ 32 (i + k), Nat.add_comm 32]
  have hhigh : value (if i + k + 1 < W ∧ shift ≠ 0 then orAt pn (i + k + 1) (apn.getD i 0 >>> (32 - shift)) else pn) =
      value pn ||| (apn.getD i 0 >>> (32 - shift)).toNat <<< (32 * (i + k + 1)) % 2 ^ (32 * W) := by
    apply value_orAt_if hlength
    intro hskip
    by_cases hzero : shift = 0
    · have hout : (apn.getD i 0 >>> (32 - shift)).toNat = 0 := by
        rw [hzero, BitVec.toNat_ushiftRight, Nat.shiftRight_eq_div_pow, Nat.div_eq_of_lt (BitVec.isLt _)]
      rw [hout, Nat.zero_shiftLeft, Nat.zero_mod]
    · exact place_eq_zero (Nat.not_lt.mp fun hlt => hskip ⟨hlt, hzero⟩) _
  rw [shlStep, value_orAt_if (length_orAt_if hlength) fun hskip => place_eq_zero (Nat.not_lt.mp hskip) _, hhigh, Nat.or_assoc,
    ← Nat.or_mod_two_pow, ← hplace]

/-- **A turn of `>>=`** writes a word to its new place, or as much of it as is not below the lowest. -/
theorem value_shrStep (hshift : shift < 32) (hlength : pn.length = W) (hi : i < W) :
    value (shrStep k shift apn pn i) = value pn ||| (apn.getD i 0).toNat <<< (32 * i) >>> (32 * k + shift) := by
  rcases Nat.lt_trichotomy i k with hlt | rfl | hgt
  · -- all of the word is below the lowest
    have hhigh : ¬ (0 ≤ (i : Int) - k - 1 ∧ shift ≠ 0) := by omega
    have hlow : ¬ 0 ≤ (i : Int) - k := by omega
    have hgone : (apn.getD i 0).toNat <<< (32 * i) < 2 ^ (32 * k + shift) :=
      (toNat_shiftLeft_lt _ i).trans_le (Nat.pow_le_pow_right (by decide) (by omega))
    rw [shrStep, if_neg hhigh, if_neg hlow, Nat.shiftRight_eq_div_pow, Nat.div_eq_of_lt hgone, Nat.or_zero]
  · -- its upper part becomes the lowest word
    have hhigh : ¬ (0 ≤ (i : Int) - i - 1 ∧ shift ≠ 0) := by omega
    have hplace : (apn.getD i 0).toNat <<< (32 * i) >>> (32 * i + shift) = (apn.getD i 0 >>> shift).toNat := by
      rw [Nat.shiftRight_add, Nat.shiftLeft_shiftRight, BitVec.toNat_ushiftRight]
    rw [shrStep, if_neg hhigh, value_orAt_if hlength fun hskip => absurd (by omega) hskip, Nat.sub_self,
      place_eq_self (Nat.zero_lt_of_lt hi), hplace, Nat.mul_zero, Nat.shiftLeft_zero]
  · -- it lies across two words
    obtain ⟨d, rfl⟩ := Nat.exists_eq_add_of_lt hgt
    have hsub : k + d + 1 - k - 1 = d ∧ k + d + 1 - k = d + 1 := by omega
    have hplace : (apn.getD (k + d + 1) 0).toNat <<< (32 * (k + d + 1)) >>> (32 * k + shift) =
        ((apn.getD (k + d + 1) 0 >>> shift).toNat <<< (32 * (d + 1)) |||
          (apn.getD (k + d + 1) 0 <<< (32 - shift)).toNat <<< (32 * d)) := by
      have hexp : 32 * (k + d + 1) = 32 - shift + 32 * d + (32 * k + shift) := by omega
      have hback : 32 - (32 - shift) = shift := by omega
      rw [hexp, Nat.shiftLeft_add, Nat.shiftLeft_shiftRight, Nat.shiftLeft_add,
        shiftLeft_across _ (Nat.sub_le 32 shift), hback, Nat.shiftLeft_or_distrib, ← Nat.shiftLeft_add,
        Nat.mul_succ 32 d, Nat.add_comm 32]
    have hhigh : value (if 0 ≤ ((k + d + 1 : Nat) : Int) - k - 1 ∧ shift ≠ 0 then
        orAt pn d (apn.getD (k + d + 1) 0 <<< (32 - shift)) else pn) =
        value pn ||| (apn.getD (k + d + 1) 0 <<< (32 - shift)).toNat <<< (32 * d) % 2 ^ (32 * W) := by
      apply value_orAt_if hlength
      intro hskip
      have hzero : shift = 0 := by omega
      have hout : (apn.getD (k + d + 1) 0 <<< (32 - shift)).toNat = 0 := by
        rw [hzero, BitVec.toNat_shiftLeft, Nat.shiftLeft_eq, Nat.sub_zero, Nat.mul_mod_left]
      rw [hout, Nat.zero_shiftLeft, Nat.zero_mod]
    rw [shrStep, hsub.1, hsub.2, value_orAt_if (length_orAt_if hlength) fun hskip => absurd (by omega) hskip, hhigh,
      place_eq_self (by omega), place_eq_self (by omega), Nat.or_assoc,
      Nat.or_comm ((apn.getD (k + d + 1) 0 <<< (32 - shift)).toNat <<< (32 * d)), ← hplace]

/-- **`n` turns** have moved the number of the first `n` words, where one turn moves one word. -/
theorem value_shiftLoop {step : List (BitVec 32) → Nat → List (BitVec 32)} {F : Nat → Nat} (hzero : F 0 = 0)
    (hor : ∀ x y, F (x ||| y) = F x ||| F y) (hlength : ∀ pn i, (step pn i).length = pn.length)
    (hstep : ∀ pn i, pn.length = W → i < W → value (step pn i) = value pn ||| F ((apn.getD i 0).toNat <<< (32 * i)))
    (hapn : apn.length = W) (hn : n ≤ W) : value (shiftLoop W step n) = F (value (apn.take n)) := by
  induction n with
  | zero => exact (value_replicate_zero W).trans hzero.symm
  | succ n ih =>
    rw [shiftLoop_succ, hstep _ n (length_shiftLoop hlength W n) hn, ih (Nat.le_of_succ_le hn), ← hor,
      ← value_take_succ (hapn ▸ hn)]

end Shifts

theorem toNat_shl (a : BaseUint BITS) (shift : BitVec 32) :
    (shl a shift).toNat = a.toNat * 2 ^ shift.toNat % 2 ^ (32 * WIDTH BITS) := by
  have hshift : shift.toNat % 32 < 32 := Nat.mod_lt _ (by decide)
  have h := value_shiftLoop (F := fun x => x <<< (32 * (shift.toNat / 32) + shift.toNat % 32) % 2 ^ (32 * WIDTH BITS))
    (by rw [Nat.zero_shiftLeft, Nat.zero_mod]) (fun x y => by rw [Nat.shiftLeft_or_distrib, Nat.or_mod_two_pow])
    (length_shlStep (WIDTH BITS) (shift.toNat / 32) (shift.toNat % 32) a.pn)
    (fun pn i hlength _ => value_shlStep hshift hlength) a.length_pn le_rfl
  rw [← a.length_pn, List.take_length, a.length_pn, Nat.div_add_mod, Nat.shiftLeft_eq] at h
  exact h

theorem toNat_shr (a : BaseUint BITS) (shift : BitVec 32) : (shr a shift).toNat = a.toNat / 2 ^ shift.toNat := by
  have hshift : shift.toNat % 32 < 32 := Nat.mod_lt _ (by decide)
  have h := value_shiftLoop (F := fun x => x >>> (32 * (shift.toNat / 32) + shift.toNat % 32))
    (Nat.zero_shiftRight _) (fun x y => Nat.shiftRight_or_distrib)
    (length_shrStep (shift.toNat / 32) (shift.toNat % 32) a.pn)
    (fun pn i hlength hi => value_shrStep hshift hlength hi) a.length_pn le_rfl
  rw [← a.length_pn, List.take_length, a.length_pn, Nat.div_add_mod, Nat.shiftRight_eq_div_pow] at h
  exact h

/-! ## Comparison -/

/-- **The highest words that differ decide.** -/
theorem compareLoop_iff (atEnd : Bool) (ps : List (BitVec 32 × BitVec 32)) :
    compareLoop (· < ·) atEnd ps.reverse = true ↔
      value (ps.map Prod.fst) < value (ps.map Prod.snd) ∨
        (atEnd = true ∧ value (ps.map Prod.fst) = value (ps.map Prod.snd)) := by
  induction ps using List.reverseRecOn with
  | nil => simp [compareLoop, value]
  | append_singleton ps p ih =>
    obtain ⟨p, q⟩ := p
    have hlength : (ps.map Prod.fst).length = (ps.map Prod.snd).length := by rw [List.length_map, List.length_map]
    rw [List.reverse_concat, compareLoop, List.map_append, List.map_append, List.map_singleton, List.map_singleton]
    by_cases hlt : p < q
    · have h := value_lt_of_high_lt hlength hlt
      simp [hlt, h]
    · by_cases hgt : q < p
      · have h := value_lt_of_high_lt hlength.symm hgt
        simp [hlt, hgt, h.not_gt, h.ne']
      · have heq : p = q := BitVec.le_antisymm (BitVec.not_lt.mp hgt) (BitVec.not_lt.mp hlt)
        have hsum : value (ps.map Prod.fst ++ [q]) = value (ps.map Prod.snd ++ [q]) ↔
            value (ps.map Prod.fst) = value (ps.map Prod.snd) := by
          rw [value_append, value_append, hlength]
          omega
        subst heq
        simpa [value_lt_iff_of_high_eq p hlength, hsum] using ih

theorem compareLoop_wordsDown_iff (a b : BaseUint BITS) (atEnd : Bool) :
    compareLoop (· < ·) atEnd (wordsDown a b) = true ↔
      a.toNat < b.toNat ∨ (atEnd = true ∧ a.toNat = b.toNat) := by
  have hlength : a.pn.length = b.pn.length := a.length_pn.trans b.length_pn.symm
  have h := compareLoop_iff atEnd (a.pn.zip b.pn)
  rwa [List.map_fst_zip hlength.le, List.map_snd_zip hlength.ge] at h

theorem compareLoop_swap (atEnd : Bool) (ps : List (BitVec 32 × BitVec 32)) :
    compareLoop (· > ·) atEnd ps = compareLoop (· < ·) atEnd (ps.map Prod.swap) := by
  induction ps with
  | nil => rfl
  | cons p ps ih =>
    obtain ⟨p, q⟩ := p
    rw [compareLoop, List.map_cons, Prod.swap_prod_mk, compareLoop, ih]

/-- `>` and `>=` look at the same words the other way round. -/
theorem compareLoop_wordsDown_swap (a b : BaseUint BITS) (atEnd : Bool) :
    compareLoop (· > ·) atEnd (wordsDown a b) = compareLoop (· < ·) atEnd (wordsDown b a) := by
  rw [compareLoop_swap, wordsDown, List.map_reverse, List.zip_swap, wordsDown]

theorem lt_iff : lt a b = true ↔ a.toNat < b.toNat := by
  rw [lt, compareLoop_wordsDown_iff]
  simp

theorem le_iff : le a b = true ↔ a.toNat ≤ b.toNat := by
  rw [le, compareLoop_wordsDown_iff, Nat.le_iff_lt_or_eq]
  simp

theorem gt_iff : gt a b = true ↔ b.toNat < a.toNat := by
  rw [gt, compareLoop_wordsDown_swap]
  exact lt_iff

theorem ge_iff : ge a b = true ↔ b.toNat ≤ a.toNat := by
  rw [ge, compareLoop_wordsDown_swap]
  exact le_iff

theorem all_zip_eq_iff (hlength : pn.length = bpn.length) :
    ((pn.zip bpn).all fun p => p.1 = p.2) = true ↔ pn = bpn := by
  induction pn generalizing bpn with
  | nil => simp [List.length_eq_zero_iff.mp hlength.symm]
  | cons p pn ih =>
    cases bpn with
    | nil => cases hlength
    | cons q bpn => simp [← ih (Nat.succ.inj hlength)]

theorem eq_iff : eq a b = true ↔ a.toNat = b.toNat := by
  rw [toNat_inj, eq, all_zip_eq_iff (a.length_pn.trans b.length_pn.symm)]
  cases a
  cases b
  simp

/-- Equality with 64 bits is equality with the object that is made of them. -/
theorem eq64_iff (hwide : 2 ≤ WIDTH BITS) (b64 : BitVec 64) : eq64 a b64 = true ↔ a.toNat = b64.toNat := by
  rw [← toNat_ofUInt64 hwide b64, toNat_inj]
  obtain ⟨pn, hpn⟩ := a
  match pn, hpn with
  | [], hpn => exact absurd (hwide.trans_eq hpn.symm) (by decide)
  | [p], hpn => exact absurd (hwide.trans_eq hpn.symm) (Nat.not_succ_le_self 1)
  | p :: q :: rest, hpn =>
    have hrest : rest.length = WIDTH BITS - 2 := by
      rw [List.length_cons, List.length_cons] at hpn
      omega
    have hzero : rest.all (fun x => decide (x = 0)) = true ↔ rest = List.replicate (WIDTH BITS - 2) 0 := by
      rw [List.eq_replicate_iff]
      simp [hrest]
    rw [ofUInt64, mk.injEq, wordsOf64_eq hwide, List.cons.injEq, List.cons.injEq, ← hzero]
    by_cases hp : p = low b64
    · by_cases hq : q = high b64
      · simp [eq64, hp, hq]
      · simp [eq64, hp, hq]
    · simp [eq64, hp]

/-! ## Bits -/

/-! ## Text -/

/-- What every digit that is printed is when it is read. -/
theorem digitChar_read : ∀ d < 16, hexDigit (Nat.digitChar d) = d ∧ (Nat.digitChar d).toNat ≠ 0 ∧
    isspace (Nat.digitChar d) = false ∧ (Nat.digitChar d).toLower ≠ 'x' ∧
    (hexDigit (Nat.digitChar d) ≠ 0 ∨ Nat.digitChar d = '0') := by decide

/-- A text of digits as they are printed. -/
def Printed (text : List Char) : Prop := ∀ c ∈ text, ∃ d < 16, c = Nat.digitChar d

theorem printed_getHex (a : BaseUint BITS) : Printed (getHex a) := by
  intro c hc
  obtain ⟨byte, -, hbyte⟩ := List.mem_flatMap.mp hc
  have hlt := byte.toNat_lt
  rcases List.mem_cons.mp hbyte with rfl | hlow
  · exact ⟨byte.toNat / 16, by omega, rfl⟩
  · exact ⟨byte.toNat % 16, Nat.mod_lt _ (by decide), List.mem_singleton.mp hlow⟩

/-- There are no spaces, no prefix and no other characters to skip or to stop at. -/
theorem hexDigits_of_printed {text : List Char} (h : Printed text) : hexDigits text = text := by
  have hcStr : cStr text = text := by
    rw [cStr, List.takeWhile_eq_self_iff]
    intro c hc
    obtain ⟨d, hd, rfl⟩ := h c hc
    simpa using (digitChar_read d hd).2.1
  have hspace : text.dropWhile isspace = text := by
    rw [List.dropWhile_eq_self_iff]
    intro hl
    obtain ⟨d, hd, hc⟩ := h _ (List.getElem_mem hl)
    rw [hc]
    exact Bool.eq_false_iff.mp (digitChar_read d hd).2.2.1
  have hx : (charAt text 1).toLower ≠ 'x' := by
    rw [charAt, List.getD_eq_getElem?_getD]
    cases hget : text[1]? with
    | none => decide
    | some c =>
      obtain ⟨d, hd, rfl⟩ := h c (List.mem_of_getElem? hget)
      exact (digitChar_read d hd).2.2.2.1
  have hskip : skipPrefix text = text := by
    rw [skipPrefix, hspace, if_neg fun hprefix => hx hprefix.2]
  rw [hexDigits, hcStr, hskip, List.takeWhile_eq_self_iff]
  intro c hc
  obtain ⟨d, hd, rfl⟩ := h c hc
  exact decide_eq_true (digitChar_read d hd).2.2.2.2

/-- The two digits of a byte are put together again. -/
theorem readByte (byte : UInt8) :
    UInt8.ofNat (hexDigit (Nat.digitChar (byte.toNat % 16)) ||| hexDigit (Nat.digitChar (byte.toNat / 16)) <<< 4) =
      byte := by
  have hlt := byte.toNat_lt
  have hlow : byte.toNat % 16 < 2 ^ 4 := Nat.mod_lt _ (by decide)
  rw [(digitChar_read _ hlow).1, (digitChar_read _ (by omega)).1, Nat.or_comm, ← Nat.shiftLeft_add_eq_or_of_lt hlow,
    Nat.shiftLeft_eq, Nat.div_add_mod', UInt8.ofNat_toNat]

theorem setHexLoop_printed (memory : Bytes) :
    setHexLoop memory.length (memory.flatMap fun byte => (printByte byte).reverse) = memory := by
  induction memory with
  | nil => rfl
  | cons byte memory ih =>
    show UInt8.ofNat (hexDigit (Nat.digitChar (byte.toNat % 16)) |||
        hexDigit (Nat.digitChar (byte.toNat / 16)) <<< 4) ::
      setHexLoop memory.length (memory.flatMap fun byte => (printByte byte).reverse) = byte :: memory
    rw [readByte, ih]

theorem wordsOf_memory (pn : List (BitVec 32)) : wordsOf pn.length (pn.flatMap fun p => toLE 4 p.toNat) = pn := by
  induction pn with
  | nil => rfl
  | cons p pn ih =>
    have hp : p.toNat % 256 ^ 4 = p.toNat := Nat.mod_eq_of_lt p.isLt
    rw [List.flatMap_cons, List.length_cons, wordsOf, List.take_left' (length_toLE 4 _),
      List.drop_left' (length_toLE 4 _), ih, fromLE_toLE, hp, BitVec.ofNat_toNat, BitVec.setWidth_eq]

theorem length_bytes (a : BaseUint BITS) : a.bytes.length = WIDTH BITS * 4 := by
  rw [bytes, List.length_flatMap, ← a.length_pn]
  simp

theorem setHex_getHex (a : BaseUint BITS) : setHex BITS (getHex a) = a := by
  have hdigits : (getHex a).reverse = a.bytes.flatMap fun byte => (printByte byte).reverse := by
    rw [getHex, List.reverse_flatMap, List.reverse_reverse]
    rfl
  have hwords := wordsOf_memory a.pn
  obtain ⟨pn, hpn⟩ := a
  rw [setHex, mk.injEq, hexDigits_of_printed (printed_getHex _), hdigits, ← length_bytes ⟨pn, hpn⟩, setHexLoop_printed,
    ← hpn]
  exact hwords

/-! ## Modulo `2 ^ BITS` -/

/-- The operators of the class compute modulo `2 ^ BITS` on the numbers that are represented, each of which has one
object; comparisons compare the numbers; and what is printed is read again. -/
structure Modular (BITS : Nat) : Prop where
  toNat_lt : ∀ a : BaseUint BITS, a.toNat < 2 ^ BITS
  toNat_inj : ∀ a b : BaseUint BITS, a.toNat = b.toNat → a = b
  toNat_surj : ∀ n < 2 ^ BITS, ∃ a : BaseUint BITS, a.toNat = n
  add : ∀ a b : BaseUint BITS, (add a b).toNat = (a.toNat + b.toNat) % 2 ^ BITS
  sub : ∀ a b : BaseUint BITS, ((sub a b).toNat : Int) = ((a.toNat : Int) - b.toNat) % 2 ^ BITS
  add64 : ∀ (a : BaseUint BITS) (b64 : BitVec 64), (add64 a b64).toNat = (a.toNat + b64.toNat) % 2 ^ BITS
  sub64 : ∀ (a : BaseUint BITS) (b64 : BitVec 64),
    ((sub64 a b64).toNat : Int) = ((a.toNat : Int) - b64.toNat) % 2 ^ BITS
  neg : ∀ a : BaseUint BITS, ((neg a).toNat : Int) = -(a.toNat : Int) % 2 ^ BITS
  inc : ∀ a : BaseUint BITS, (inc a).toNat = (a.toNat + 1) % 2 ^ BITS
  dec : ∀ a : BaseUint BITS, ((dec a).toNat : Int) = ((a.toNat : Int) - 1) % 2 ^ BITS
  postInc : ∀ a : BaseUint BITS, (postInc a).1 = a ∧ (postInc a).2.toNat = (a.toNat + 1) % 2 ^ BITS
  postDec : ∀ a : BaseUint BITS, (postDec a).1 = a ∧ ((postDec a).2.toNat : Int) = ((a.toNat : Int) - 1) % 2 ^ BITS
  shl : ∀ (a : BaseUint BITS) (shift : BitVec 32), (shl a shift).toNat = a.toNat * 2 ^ shift.toNat % 2 ^ BITS
  shr : ∀ (a : BaseUint BITS) (shift : BitVec 32), (shr a shift).toNat = a.toNat / 2 ^ shift.toNat
  lt : ∀ a b : BaseUint BITS, lt a b = true ↔ a.toNat < b.toNat
  le : ∀ a b : BaseUint BITS, le a b = true ↔ a.toNat ≤ b.toNat
  gt : ∀ a b : BaseUint BITS, gt a b = true ↔ a.toNat > b.toNat
  ge : ∀ a b : BaseUint BITS, ge a b = true ↔ a.toNat ≥ b.toNat
  eq : ∀ a b : BaseUint BITS, eq a b = true ↔ a.toNat = b.toNat
  ne : ∀ a b : BaseUint BITS, ne a b = true ↔ a.toNat ≠ b.toNat
  eq64 : ∀ (a : BaseUint BITS) (b64 : BitVec 64), eq64 a b64 = true ↔ a.toNat = b64.toNat
  ne64 : ∀ (a : BaseUint BITS) (b64 : BitVec 64), ne64 a b64 = true ↔ a.toNat ≠ b64.toNat
  isZero : ∀ a : BaseUint BITS, isZero a = true ↔ a.toNat = 0
  hex : ∀ a : BaseUint BITS, setHex BITS (getHex a) = a

/-- **A width in whole words, two or more of them**, as `uint160` and `uint256` have it. -/
theorem base_uint_modular (hwords : 32 ∣ BITS) (hwide : 64 ≤ BITS) : Modular BITS := by
  have hbits : 32 * WIDTH BITS = BITS := Nat.mul_div_cancel' hwords
  have hwidth : 2 ≤ WIDTH BITS := (Nat.le_div_iff_mul_le (by decide)).mpr hwide
  have hcast : ((2 ^ BITS : Nat) : Int) = 2 ^ BITS := by rw [Nat.cast_pow, Nat.cast_ofNat]
  have hlt : ∀ a : BaseUint BITS, a.toNat < 2 ^ BITS := by
    intro a
    have h := toNat_lt a
    rwa [hbits] at h
  have hinc : ∀ a : BaseUint BITS, (inc a).toNat = (a.toNat + 1) % 2 ^ BITS := by
    intro a
    rw [toNat_inc, hbits]
  have hdec : ∀ a : BaseUint BITS, ((dec a).toNat : Int) = ((a.toNat : Int) - 1) % 2 ^ BITS := by
    intro a
    rw [toNat_dec, hbits, hcast]
  have hadd : ∀ a b : BaseUint BITS, (add a b).toNat = (a.toNat + b.toNat) % 2 ^ BITS := by
    intro a b
    rw [toNat_add, hbits]
  have hsub : ∀ a b : BaseUint BITS, ((sub a b).toNat : Int) = ((a.toNat : Int) - b.toNat) % 2 ^ BITS := by
    intro a b
    rw [toNat_sub, hbits, hcast]
  exact {
    toNat_lt := hlt
    toNat_inj := fun a b => toNat_inj.mp
    toNat_surj := fun n hn => exists_toNat_eq (hbits.symm ▸ hn)
    add := hadd
    sub := hsub
    add64 := fun a b64 => toNat_ofUInt64 hwidth b64 ▸ hadd a (ofUInt64 BITS b64)
    sub64 := fun a b64 => toNat_ofUInt64 hwidth b64 ▸ hsub a (ofUInt64 BITS b64)
    neg := fun a => by rw [toNat_neg, hbits, hcast]
    inc := hinc
    dec := hdec
    postInc := fun a => ⟨rfl, hinc a⟩
    postDec := fun a => ⟨rfl, hdec a⟩
    shl := fun a shift => by rw [toNat_shl, hbits]
    shr := toNat_shr
    lt := fun a b => lt_iff
    le := fun a b => le_iff
    gt := fun a b => gt_iff
    ge := fun a b => ge_iff
    eq := fun a b => eq_iff
    ne := fun a b => by rw [ne, Bool.not_eq_true', ← Bool.not_eq_true, eq_iff]
    eq64 := fun a b64 => eq64_iff hwidth b64
    ne64 := fun a b64 => by rw [ne64, Bool.not_eq_true', ← Bool.not_eq_true, eq64_iff hwidth]
    isZero := fun a => isZero_iff
    hex := setHex_getHex }

theorem base_uint_modular_classes : Modular 160 ∧ Modular 256 :=
  ⟨base_uint_modular (by decide) (by decide), base_uint_modular (by decide) (by decide)⟩

end BaseUint

end Syscoin

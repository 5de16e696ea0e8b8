import Mathlib.Data.Nat.Bitwise

/-!
# `Lib.Regroup` — the same bits in groups of another size

A number of so many bits is written as the list of them, highest first. Shifting and masking cut such a list in two
(`bits_add`), shifting and adding puts two of them together (`bits_append`). A list of bits is the bits of equally long
numbers, with fewer bits behind them than one number has, in one way only (`groups_inj`): whoever regroups bits and says
which bits are left over has said everything.
-/

namespace Lib

variable {a b k m n : Nat}

/-- The `k` lowest bits of a number, highest first. -/
def bits : Nat → Nat → List Bool
  | 0, _ => []
  | k + 1, n => n.testBit k :: bits k n

@[simp] theorem length_bits (k n : Nat) : (bits k n).length = k := by
  induction k with
  | zero => rfl
  | succ k ih => rw [bits, List.length_cons, ih]

theorem bits_congr (h : ∀ i < k, m.testBit i = n.testBit i) : bits k m = bits k n := by
  induction k with
  | zero => rfl
  | succ k ih =>
    rw [bits, bits, h k (Nat.lt_succ_self k), ih]
    intro i hi
    exact h i (Nat.lt_succ_of_lt hi)

theorem testBit_eq_of_bits_eq (h : bits k m = bits k n) {i : Nat} (hi : i < k) : m.testBit i = n.testBit i := by
  induction k with
  | zero => exact absurd hi (Nat.not_lt_zero i)
  | succ k ih =>
    rw [bits, bits] at h
    obtain ⟨hhead, htail⟩ := List.cons.inj h
    rcases Nat.lt_succ_iff_lt_or_eq.mp hi with hlt | rfl
    · exact ih htail hlt
    · exact hhead

/-- Numbers of `k` bits are their bits. -/
theorem bits_inj (hm : m < 2 ^ k) (hn : n < 2 ^ k) (h : bits k m = bits k n) : m = n := by
  apply Nat.eq_of_testBit_eq
  intro i
  rcases Nat.lt_or_ge i k with hi | hi
  · exact testBit_eq_of_bits_eq h hi
  · have hpow : 2 ^ k ≤ 2 ^ i := Nat.pow_le_pow_right (by decide) hi
    rw [Nat.testBit_lt_two_pow (hm.trans_le hpow), Nat.testBit_lt_two_pow (hn.trans_le hpow)]

theorem bits_zero (k : Nat) : bits k 0 = List.replicate k false := by
  induction k with
  | zero => rfl
  | succ k ih => rw [bits, ih, Nat.zero_testBit, List.replicate_succ]

/-- What is taken away is not looked at. -/
theorem bits_mod (k n : Nat) : bits k (n % 2 ^ k) = bits k n := by
  apply bits_congr
  intro i hi
  rw [Nat.testBit_mod_two_pow, decide_eq_true hi, Bool.true_and]

theorem bits_mask (k n : Nat) : bits k (n &&& (2 ^ k - 1)) = bits k n := by
  rw [Nat.and_two_pow_sub_one_eq_mod, bits_mod]

/-- **Cut in two**: the high bits by a shift, the low ones as they are. -/
theorem bits_add (a b n : Nat) : bits (a + b) n = bits a (n >>> b) ++ bits b n := by
  induction a with
  | zero => rw [Nat.zero_add, bits, List.nil_append]
  | succ a ih => rw [Nat.succ_add, bits, bits, ih, Nat.testBit_shiftRight, Nat.add_comm b a, List.cons_append]

/-- **Put together.** -/
theorem bits_append (hn : n < 2 ^ b) : bits a m ++ bits b n = bits (a + b) (m <<< b ||| n) := by
  have hhigh : (m <<< b ||| n) >>> b = m := by
    rw [Nat.shiftRight_or_distrib, Nat.shiftLeft_shiftRight, Nat.shiftRight_eq_div_pow, Nat.div_eq_of_lt hn,
      Nat.or_zero]
  have hlow : bits b (m <<< b ||| n) = bits b n := by
    apply bits_congr
    intro i hi
    rw [Nat.testBit_or, Nat.testBit_shiftLeft, decide_eq_false (Nat.not_le.mpr hi), Bool.false_and, Bool.false_or]
  rw [bits_add, hhigh, hlow]

theorem shiftRight_lt (hn : n < 2 ^ (a + b)) : n >>> b < 2 ^ a := by
  rw [Nat.shiftRight_eq_div_pow]
  exact Nat.div_lt_of_lt_mul (by rwa [← Nat.pow_add, Nat.add_comm b a])

theorem shiftLeft_or_lt (hm : m < 2 ^ a) (hn : n < 2 ^ b) : m <<< b ||| n < 2 ^ (a + b) := by
  apply Nat.or_lt_two_pow
  · rw [Nat.shiftLeft_eq, Nat.pow_add]
    exact Nat.mul_lt_mul_of_pos_right hm (Nat.two_pow_pos b)
  · exact hn.trans_le (Nat.pow_le_pow_right (by decide) (Nat.le_add_left b a))

/-- **Held bits go in front of the high ones**, and the low ones are held next. -/
theorem bits_regroup (k m : Nat) (hn : n < 2 ^ (a + b)) :
    bits k m ++ bits (a + b) n = bits (k + a) (m <<< a ||| n >>> b) ++ bits b n := by
  rw [bits_add, ← List.append_assoc, bits_append (shiftRight_lt hn)]

/-! ## Lists of groups -/

variable {ns ms : List Nat} {t u : List Bool}

/-- **There is one way to group bits**, with less than a group left over. -/
theorem groups_inj (hns : ∀ n ∈ ns, n < 2 ^ k) (hms : ∀ m ∈ ms, m < 2 ^ k) (ht : t.length < k) (hu : u.length < k)
    (h : ns.flatMap (bits k) ++ t = ms.flatMap (bits k) ++ u) : ns = ms ∧ t = u := by
  induction ns generalizing ms with
  | nil =>
    cases ms with
    | nil => exact ⟨rfl, h⟩
    | cons m ms =>
      have hlength := congrArg List.length h
      simp only [List.flatMap_nil, List.nil_append, List.flatMap_cons, List.length_append, length_bits] at hlength
      omega
  | cons n ns ih =>
    cases ms with
    | nil =>
      have hlength := congrArg List.length h
      simp only [List.flatMap_nil, List.nil_append, List.flatMap_cons, List.length_append, length_bits] at hlength
      omega
    | cons m ms =>
      rw [List.flatMap_cons, List.flatMap_cons, List.append_assoc, List.append_assoc] at h
      obtain ⟨hhead, htail⟩ := List.append_inj h (by rw [length_bits, length_bits])
      have hnm : n = m := bits_inj (hns n List.mem_cons_self) (hms m List.mem_cons_self) hhead
      obtain ⟨hrest, hleft⟩ := ih (fun x hx => hns x (List.mem_cons_of_mem n hx))
        (fun x hx => hms x (List.mem_cons_of_mem m hx)) htail
      exact ⟨by rw [hnm, hrest], hleft⟩

end Lib

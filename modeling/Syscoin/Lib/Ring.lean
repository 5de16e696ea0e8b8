import Mathlib.Data.List.Basic
import Mathlib.Data.Nat.ModEq

/-!
# `Lib.Ring` — a window on a sequence, in a ring

The items of a sequence are put into a ring one after the other, each at its position modulo the size of the ring. What
was put there last is a window of the sequence (`Holds`). Putting more items there moves the window on (`Holds.splice`),
and what is inside of the window is read back (`Holds.slice`).
-/

namespace Lib

variable {α : Type*} {ring seq items : List α} {lo hi pos i k : Nat}

/-- `ring` with `items` from `pos` on. -/
def splice (pos : Nat) (items ring : List α) : List α := ring.take pos ++ (items ++ ring.drop (pos + items.length))

theorem length_splice (h : pos + items.length ≤ ring.length) : (splice pos items ring).length = ring.length := by
  unfold splice
  rw [List.length_append, List.length_append, List.length_take, List.length_drop]
  omega

theorem getElem?_splice_inside (h : pos + items.length ≤ ring.length) (hi : i < items.length) :
    (splice pos items ring)[pos + i]? = items[i]? := by
  have hfront : (ring.take pos).length = pos := by
    rw [List.length_take]
    omega
  unfold splice
  rw [List.getElem?_append_right (by omega), hfront, Nat.add_sub_cancel_left, List.getElem?_append_left hi]

/-- The rest of the ring stays as it is. -/
theorem getElem?_splice_outside (h : pos + items.length ≤ ring.length) (hi : i < pos ∨ pos + items.length ≤ i) :
    (splice pos items ring)[i]? = ring[i]? := by
  have hfront : (ring.take pos).length = pos := by
    rw [List.length_take]
    omega
  unfold splice
  rcases hi with hi | hi
  · rw [List.getElem?_append_left (by omega), List.getElem?_take_of_lt hi]
  · rw [List.getElem?_append_right (by omega), hfront, List.getElem?_append_right (by omega), List.getElem?_drop]
    congr 1
    omega

/-- The items of `seq` from `lo` to `hi` are in the ring. -/
def Holds (ring seq : List α) (lo hi : Nat) : Prop := ∀ i, lo ≤ i → i < hi → ring[i % ring.length]? = seq[i]?

theorem Holds.mono {lo' hi' : Nat} (h : Holds ring seq lo hi) (hlo : lo ≤ lo') (hhi : hi' ≤ hi) : Holds ring seq lo' hi' := by
  intro i hge hlt
  exact h i (hlo.trans hge) (Nat.lt_of_lt_of_le hlt hhi)

theorem holds_empty (ring seq : List α) (lo : Nat) : Holds ring seq lo lo := by
  intro i hge hlt
  omega

/-- A position a little further on, if the end of the ring is not passed. -/
theorem mod_add_of_lt {n p j : Nat} (h : p % n + j < n) : (p + j) % n = p % n + j := by
  rw [Nat.add_mod, Nat.mod_eq_of_lt (by omega : j < n), Nat.mod_eq_of_lt h]

/-- A position a little further back. -/
theorem mod_sub_of_le {n p d : Nat} (hpos : 0 < d) (hd : d ≤ p) (hn : d < n) :
    (p - d) % n < p % n ∧ d ≤ p % n ∨ (p - d) % n = p % n + (n - d) ∧ p % n < d := by
  have hlt : p % n < n := Nat.mod_lt _ (by omega)
  by_cases hle : d ≤ p % n
  · have hmod : (p - d) % n = p % n - d := by
      have hsplit : p - d = n * (p / n) + (p % n - d) := by
        have := Nat.div_add_mod p n
        omega
      rw [hsplit, Nat.mul_add_mod, Nat.mod_eq_of_lt (by omega)]
    exact .inl ⟨by omega, hle⟩
  · -- the ring is passed once
    have hquot : 0 < p / n := by
      have := Nat.div_add_mod p n
      by_contra hzero
      rw [Nat.eq_zero_of_not_pos hzero] at this
      omega
    have hmod : (p - d) % n = p % n + (n - d) := by
      have hmul : n * (p / n) = n * (p / n - 1) + n := by
        rw [Nat.mul_sub, Nat.mul_one, Nat.sub_add_cancel (Nat.le_mul_of_pos_right n hquot)]
      have hsplit : p - d = n * (p / n - 1) + (p % n + (n - d)) := by
        have := Nat.div_add_mod p n
        omega
      rw [hsplit, Nat.mul_add_mod, Nat.mod_eq_of_lt (by omega)]
    exact .inr ⟨hmod, by omega⟩

/-- **More items move the window on**: what they overwrite lies a whole ring behind them. -/
theorem Holds.splice (h : Holds ring seq lo hi) (hitems : items = (seq.drop hi).take items.length)
    (hroom : hi % ring.length + items.length ≤ ring.length) :
    Holds (Lib.splice (hi % ring.length) items ring) seq (max lo (hi + items.length - ring.length)) (hi + items.length) := by
  intro i hge hlt
  rw [length_splice hroom]
  by_cases hnew : hi ≤ i
  · obtain ⟨j, rfl⟩ := Nat.exists_eq_add_of_le hnew
    have hj : j < items.length := by omega
    rw [mod_add_of_lt (by omega), getElem?_splice_inside hroom hj]
    calc items[j]? = ((seq.drop hi).take items.length)[j]? := by rw [← hitems]
      _ = seq[hi + j]? := by rw [List.getElem?_take_of_lt hj, List.getElem?_drop]
  · obtain ⟨d, hd, rfl⟩ : ∃ d, d ≤ hi ∧ i = hi - d := ⟨hi - i, by omega, by omega⟩
    have houtside : (hi - d) % ring.length < hi % ring.length ∨
        hi % ring.length + items.length ≤ (hi - d) % ring.length := by
      rcases Nat.eq_zero_or_pos items.length with hzero | hsome
      · omega
      · have hback := mod_sub_of_le (by omega : 0 < d) hd (by omega : d < ring.length)
        omega
    rw [getElem?_splice_outside hroom houtside]
    exact h _ (by omega) (by omega)

/-- **What is inside of the window is read back**, as far as the end of the ring. -/
theorem Holds.slice (h : Holds ring seq lo hi) (hlo : lo ≤ i) (hhi : i + k ≤ hi) (hroom : i % ring.length + k ≤ ring.length) :
    (ring.drop (i % ring.length)).take k = (seq.drop i).take k := by
  apply List.ext_getElem?
  intro j
  by_cases hj : j < k
  · rw [List.getElem?_take_of_lt hj, List.getElem?_take_of_lt hj, List.getElem?_drop, List.getElem?_drop,
      ← mod_add_of_lt (by omega)]
    exact h (i + j) (by omega) (by omega)
  · rw [List.getElem?_eq_none (by rw [List.length_take]; omega), List.getElem?_eq_none (by rw [List.length_take]; omega)]

end Lib

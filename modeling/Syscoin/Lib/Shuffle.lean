import Mathlib.Data.List.GetD
import Mathlib.Data.List.Nodup
import Mathlib.Order.Lattice

/-!
# `Lib.Shuffle` — the first places of a list filled at random

In round `i` the element at position `p i` changes places with the one at position `i`. If no round looks back
(`Ahead`), what was drawn stays where it was put: after `k` rounds the first `k` places hold what the rounds have drawn
(`take_shuffle`). `firstLeast` is the first of the rounds that have the least value, as a search finds it that keeps what
it has unless something is less.
-/

namespace Lib

variable {α : Type} (d : α) (p : Nat → Nat)

/-- Positions `i` and `j` change places. -/
def exchangeAt (l : List α) (i j : Nat) : List α := (l.set j (l.getD i d)).set i (l.getD j d)

/-- The list after so many rounds. -/
def shuffle (l : List α) : Nat → List α
  | 0 => l
  | k + 1 => exchangeAt d (shuffle l k) k (p k)

/-- What round `i` draws. -/
def drawn (l : List α) (i : Nat) : α := (shuffle d p l i).getD (p i) d

/-- No round draws from a place that was filled, or from beyond the list. -/
def Ahead (p : Nat → Nat) (n k : Nat) : Prop := ∀ i < k, i ≤ p i ∧ p i < n

section

variable {d p} {l : List α} {i j k : Nat}

theorem Ahead.mono {n : Nat} (h : Ahead p n k) (hj : j ≤ k) : Ahead p n j := fun i hi => h i (Nat.lt_of_lt_of_le hi hj)

@[simp] theorem length_exchangeAt : (exchangeAt d l i j).length = l.length := by
  rw [exchangeAt, List.length_set, List.length_set]

theorem exchangeAt_getD_fst (hi : i < l.length) : (exchangeAt d l i j).getD i d = l.getD j d := by
  rw [exchangeAt, List.getD_eq_getElem?_getD, List.getElem?_set_self (by simpa using hi)]
  rfl

theorem exchangeAt_getD_of_ne {q : Nat} (hi : q ≠ i) (hj : q ≠ j) : (exchangeAt d l i j).getD q d = l.getD q d := by
  rw [exchangeAt, List.getD_eq_getElem?_getD, List.getElem?_set_ne (Ne.symm hi), List.getElem?_set_ne (Ne.symm hj),
    ← List.getD_eq_getElem?_getD]

theorem exchangeAt_perm (hi : i < l.length) (hj : j < l.length) : (exchangeAt d l i j).Perm l := by
  rw [exchangeAt, List.getD_eq_getElem _ _ hi, List.getD_eq_getElem _ _ hj]
  exact List.set_set_perm hj hi

@[simp] theorem length_shuffle : (shuffle d p l k).length = l.length := by
  induction k with
  | zero => rfl
  | succ k ih => rw [shuffle, length_exchangeAt, ih]

theorem shuffle_perm (h : Ahead p l.length k) : (shuffle d p l k).Perm l := by
  induction k with
  | zero => exact .refl _
  | succ k ih =>
    obtain ⟨hle, hlt⟩ := h k (Nat.lt_succ_self k)
    refine (exchangeAt_perm ?_ ?_).trans (ih (h.mono (Nat.le_succ k)))
    · rw [length_shuffle]
      omega
    · rw [length_shuffle]
      exact hlt

/-- **What was drawn stays where it was put.** -/
theorem shuffle_getD (h : Ahead p l.length k) (hi : i < k) : (shuffle d p l k).getD i d = drawn d p l i := by
  induction k with
  | zero => omega
  | succ k ih =>
    obtain ⟨hle, hlt⟩ := h k (Nat.lt_succ_self k)
    rcases Nat.lt_succ_iff_lt_or_eq.mp hi with hik | rfl
    · rw [shuffle, exchangeAt_getD_of_ne (by omega) (by omega)]
      exact ih (h.mono (Nat.le_succ k)) hik
    · rw [shuffle, exchangeAt_getD_fst (by rw [length_shuffle]; omega)]
      rfl

theorem take_shuffle (h : Ahead p l.length k) (hk : k ≤ l.length) :
    (shuffle d p l k).take k = (List.range k).map (drawn d p l) := by
  refine List.ext_getElem ?_ ?_
  · rw [List.length_take, length_shuffle, List.length_map, List.length_range, Nat.min_eq_left hk]
  · intro i h₁ h₂
    have hi : i < k := by simpa using h₂
    rw [List.getElem_take, List.getElem_map, List.getElem_range, ← shuffle_getD h hi,
      List.getD_eq_getElem _ _ (by rw [length_shuffle]; omega)]

/-- A place behind those that were filled holds nothing that was drawn. -/
theorem shuffle_getD_not_drawn (h : Ahead p l.length k) (hnodup : l.Nodup) {q : Nat} (hk : k ≤ q) (hq : q < l.length)
    (hi : i < k) : (shuffle d p l k).getD q d ≠ drawn d p l i := by
  intro heq
  have hnodup' : (shuffle d p l k).Nodup := (shuffle_perm h).nodup_iff.mpr hnodup
  rw [← shuffle_getD h hi, List.getD_eq_getElem _ _ (by rw [length_shuffle]; omega),
    List.getD_eq_getElem _ _ (by rw [length_shuffle]; omega)] at heq
  have := (hnodup'.getElem_inj_iff).mp heq
  omega

end

/-! ## The least of some values -/

section

variable {β : Type} [LinearOrder β] (t : Nat → β)

/-- The first of the first `k` indices whose value is least, zero if there are none. -/
def firstLeast : Nat → Nat
  | 0 => 0
  | k + 1 => if t k < t (firstLeast k) then k else firstLeast k

variable {t} {i k : Nat}

theorem firstLeast_lt (hk : 0 < k) : firstLeast t k < k := by
  induction k with
  | zero => omega
  | succ k ih =>
    rw [firstLeast]
    split
    · exact Nat.lt_succ_self k
    · cases k with
      | zero => exact Nat.zero_lt_one
      | succ k => exact Nat.lt_succ_of_lt (ih (Nat.succ_pos k))

theorem firstLeast_le (hi : i < k) : t (firstLeast t k) ≤ t i := by
  induction k with
  | zero => omega
  | succ k ih =>
    rw [firstLeast]
    rcases Nat.lt_succ_iff_lt_or_eq.mp hi with hik | rfl
    · split
      · rename_i hless
        exact hless.le.trans (ih hik)
      · exact ih hik
    · split
      · exact le_rfl
      · rename_i hnot
        exact le_of_not_gt hnot

end

end Lib

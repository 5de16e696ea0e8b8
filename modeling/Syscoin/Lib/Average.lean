import Mathlib.Algebra.Order.Ring.Int
import Mathlib.Data.List.Sort
import Mathlib.Tactic.Linarith

/-!
# `Lib.Average` — averages, and positions in a sorted list

An average that is kept while the samples come in: the next sample moves it by the difference over the number of
samples so far, rounded towards zero. The rounding can only keep it nearer to where it was, so it never leaves the
range of the samples (`runningAverage_between`). It is not the average of the samples: what is rounded away is lost.

In a sorted list the entries up to a bound come first, so the entry at a position is within the bound exactly when more
entries are than the position says (`getElem_le_iff`).
-/

namespace Lib

/-! ## Averages -/

section Average

/-- The average of `count` samples, the last of which is `sample`, from the average of the others. -/
def nextAverage (count : Nat) (average sample : Int) : Int := (sample - average).tdiv count + average

/-- The average of the samples, the last one first. -/
def runningAverage : List Int → Int
  | [] => 0
  | sample :: samples => nextAverage (samples.length + 1) (runningAverage samples) sample

/-- The first sample is the average. -/
theorem nextAverage_one (average sample : Int) : nextAverage 1 average sample = sample := by
  simp [nextAverage]

section Step

variable {count : Nat} {average sample : Int}

/-- A sample that is not below the average does not lower it, and it is not overtaken. -/
theorem nextAverage_of_le (count : Nat) (h : average ≤ sample) :
    average ≤ nextAverage count average sample ∧ nextAverage count average sample ≤ sample := by
  have hdiff : 0 ≤ sample - average := by omega
  have hnonneg : 0 ≤ (sample - average).tdiv count := Int.tdiv_nonneg hdiff (Int.natCast_nonneg count)
  have hle : (sample - average).tdiv count ≤ sample - average := by
    rw [Int.tdiv_eq_ediv_of_nonneg hdiff]
    exact Int.ediv_le_self _ hdiff
  unfold nextAverage
  omega

/-- Rounding towards zero makes it the same for a sample below the average. -/
theorem nextAverage_neg : nextAverage count (-average) (-sample) = -nextAverage count average sample := by
  unfold nextAverage
  have hdiff : -sample - -average = -(sample - average) := by omega
  rw [hdiff, Int.neg_tdiv]
  omega

theorem nextAverage_of_ge (count : Nat) (h : sample ≤ average) :
    sample ≤ nextAverage count average sample ∧ nextAverage count average sample ≤ average := by
  have hneg := nextAverage_of_le count (neg_le_neg h)
  rw [nextAverage_neg] at hneg
  omega

end Step

/-- **The average stays between two of the samples.** -/
theorem runningAverage_between {samples : List Int} (h : samples ≠ []) :
    ∃ lo ∈ samples, ∃ hi ∈ samples, lo ≤ runningAverage samples ∧ runningAverage samples ≤ hi := by
  induction samples with
  | nil => exact absurd rfl h
  | cons sample samples ih =>
    by_cases hnil : samples = []
    · subst hnil
      have heq : runningAverage [sample] = sample := nextAverage_one _ _
      refine ⟨sample, List.mem_singleton_self _, sample, List.mem_singleton_self _, ?_, ?_⟩
      · rw [heq]
      · rw [heq]
    · obtain ⟨lo, hlo, hi, hhi, hlower, hupper⟩ := ih hnil
      have hrun : runningAverage (sample :: samples) =
          nextAverage (samples.length + 1) (runningAverage samples) sample := rfl
      rw [hrun]
      -- one bound is an old one, the other is the old one or the new sample
      rcases le_total (runningAverage samples) sample with hle | hge
      · have hmove := nextAverage_of_le (samples.length + 1) hle
        exact ⟨lo, List.mem_cons_of_mem _ hlo, sample, List.mem_cons_self, hlower.trans hmove.1, hmove.2⟩
      · have hmove := nextAverage_of_ge (samples.length + 1) hge
        exact ⟨sample, List.mem_cons_self, hi, List.mem_cons_of_mem _ hhi, hmove.1, hmove.2.trans hupper⟩

end Average

/-! ## Positions -/

section Rank

variable {α : Type} [LinearOrder α] {s : List α} {a x : α} {i : Nat}

theorem countP_le_eq_zero (h : (a :: s).Pairwise (· ≤ ·)) (hx : x < a) : (a :: s).countP (· ≤ x) = 0 := by
  refine List.countP_eq_zero.mpr fun b hb => ?_
  rcases List.mem_cons.mp hb with rfl | hb
  · simpa using hx
  · simpa using hx.trans_le ((List.pairwise_cons.mp h).1 b hb)

/-- **The entry at a position is within a bound** if the entries within it reach beyond the position. -/
theorem getElem_le_iff (h : s.Pairwise (· ≤ ·)) (hi : i < s.length) : s[i] ≤ x ↔ i < s.countP (· ≤ x) := by
  induction s generalizing i with
  | nil => exact absurd hi (Nat.not_lt_zero i)
  | cons a rest ih =>
    obtain ⟨hfirst, hrest⟩ := List.pairwise_cons.mp h
    by_cases ha : a ≤ x
    · rw [List.countP_cons_of_pos (by simpa using ha)]
      cases i with
      | zero => simpa using ha
      | succ i =>
        rw [List.getElem_cons_succ, ih hrest (Nat.lt_of_succ_lt_succ hi), Nat.succ_lt_succ_iff]
    · rw [countP_le_eq_zero h (not_le.mp ha)]
      refine iff_of_false ?_ (Nat.not_lt_zero i)
      cases i with
      | zero => simpa using ha
      | succ i =>
        rw [List.getElem_cons_succ]
        have hlater := hfirst _ (List.getElem_mem (Nat.lt_of_succ_lt_succ hi))
        exact fun hle => ha (hlater.trans hle)

end Rank

end Lib

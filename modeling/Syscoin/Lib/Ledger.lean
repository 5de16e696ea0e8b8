import Mathlib.Algebra.BigOperators.Finprod
import Mathlib.Algebra.BigOperators.Group.Finset.Piecewise
import Mathlib.Algebra.Order.BigOperators.Group.Finset

/-!
# `Lib.Ledger` — amounts and their totals

A ledger assigns an amount to every key, zero to all but finitely many. `Ledger.total` sums it up. The one rule about
it says what changing a single entry does to the total; everything else about a sequence of entries follows by
induction over the sequence.

Finitely many parties, each in a state of its own, and a quantity that each holds in its state. When one party changes
its state, the total changes by the difference.
-/

namespace Lib

universe u v

/-! ## Amounts under keys -/

section Ledger

variable {κ : Type u} {M : Type v} [AddCommGroup M]

/-- Amounts under keys, of which all but finitely many are zero. -/
structure Ledger (κ : Type u) (M : Type v) [AddCommGroup M] where
  amount : κ → M
  finite : (Function.support amount).Finite

namespace Ledger

noncomputable def total (ledger : Ledger κ M) : M := ∑ᶠ k, ledger.amount k

/-- The ledger in which nothing is owned. -/
def empty : Ledger κ M := ⟨fun _ => 0, by simp⟩

variable [DecidableEq κ]

/-- One entry changed. -/
def set (ledger : Ledger κ M) (k : κ) (x : M) : Ledger κ M where
  amount := Function.update ledger.amount k x
  finite := by
    refine (ledger.finite.insert k).subset fun k' hk' => ?_
    by_cases h : k' = k
    · exact .inl h
    · rw [Function.mem_support, Function.update_of_ne h] at hk'
      exact .inr hk'

/-- The total changes by what the entry changes. -/
theorem total_set (ledger : Ledger κ M) (k : κ) (x : M) :
    (ledger.set k x).total = ledger.total + (x - ledger.amount k) := by
  have hsplit : ∀ k', (ledger.set k x).amount k' =
      ledger.amount k' + Pi.single (M := fun _ => M) k (x - ledger.amount k) k' := by
    intro k'
    by_cases h : k' = k
    · subst h
      simp [set]
    · simp [set, h]
  have hfinite : (Function.support (Pi.single (M := fun _ => M) k (x - ledger.amount k))).Finite :=
    (Set.finite_singleton k).subset (Function.support_subset_iff'.mpr fun k' h => by simp_all)
  unfold total
  rw [finsum_congr hsplit, finsum_add_distrib ledger.finite hfinite]
  congr 1
  rw [finsum_eq_single _ k fun k' h => by simp [h], Pi.single_eq_same]

end Ledger

end Ledger

/-! ## Amounts of parties -/

section Tally

variable {ι α M : Type} [Fintype ι]

def tally [AddCommMonoid M] (g : α → M) (f : ι → α) : M := ∑ i, g (f i)

theorem tally_update [DecidableEq ι] [AddCommMonoid M] (g : α → M) (f : ι → α) (i : ι) (a : α) :
    tally g (Function.update f i a) + g (f i) = tally g f + g a := by
  have hsplit : ∀ f : ι → α, tally g f = g (f i) + ∑ j ∈ Finset.univ \ {i}, g (f j) := by
    intro f
    rw [tally, ← Finset.sum_sdiff (Finset.subset_univ {i}), Finset.sum_singleton, add_comm]
  have hrest : ∑ j ∈ Finset.univ \ {i}, g (Function.update f i a j) = ∑ j ∈ Finset.univ \ {i}, g (f j) := by
    apply Finset.sum_congr rfl
    intro j hj
    rw [Finset.mem_sdiff, Finset.mem_singleton] at hj
    rw [Function.update_of_ne hj.2]
  rw [hsplit f, hsplit (Function.update f i a), hrest, Function.update_self, add_right_comm, add_comm (g a), add_right_comm]

/-- Nothing changes in total if the party holds the same as before. -/
theorem tally_update_of_eq [DecidableEq ι] [AddCancelCommMonoid M] {g : α → M} {f : ι → α} {i : ι} {a : α}
    (h : g a = g (f i)) : tally g (Function.update f i a) = tally g f := by
  have hupdate := tally_update g f i a
  rw [h] at hupdate
  exact add_right_cancel hupdate

theorem le_tally (g : α → ℕ) (f : ι → α) (i : ι) : g (f i) ≤ tally g f :=
  Finset.single_le_sum (f := fun i => g (f i)) (fun _ _ => Nat.zero_le _) (Finset.mem_univ i)

theorem tally_congr [AddCommMonoid M] {g g' : α → M} {f : ι → α} (h : ∀ i, g (f i) = g' (f i)) :
    tally g f = tally g' f :=
  Finset.sum_congr rfl fun i _ => h i

theorem tally_const_zero [AddCommMonoid M] {g : α → M} {f : ι → α} (h : ∀ i, g (f i) = 0) : tally g f = 0 :=
  Finset.sum_eq_zero fun i _ => h i

end Tally

end Lib

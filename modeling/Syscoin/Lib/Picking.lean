import Mathlib.Algebra.BigOperators.Group.List.Basic
import Mathlib.Algebra.Order.BigOperators.Group.List

/-!
# `Lib.Picking` — the elements of a list that are flagged

A list of flags beside a list of elements picks some of them. Setting one flag adds one element to what is picked, so that
a total over the picked elements can be kept up to date while flags are set and cleared.
-/

namespace Lib

variable {α M : Type}

/-- The elements whose flags are set. -/
def pick : List Bool → List α → List α
  | true :: flags, a :: l => a :: pick flags l
  | false :: flags, _ :: l => pick flags l
  | _, _ => []

theorem pick_sublist (flags : List Bool) (l : List α) : (pick flags l).Sublist l := by
  induction l generalizing flags with
  | nil => cases flags with
    | nil => exact List.Sublist.slnil
    | cons flag flags => cases flag <;> exact List.Sublist.slnil
  | cons a l ih =>
    match flags with
    | [] => exact List.nil_sublist _
    | true :: flags => exact (ih flags).cons_cons a
    | false :: flags => exact (ih flags).cons a

@[simp] theorem pick_replicate_true (l : List α) : pick (List.replicate l.length true) l = l := by
  induction l with
  | nil => rfl
  | cons a l ih =>
    rw [List.length_cons, List.replicate_succ, pick, ih]

@[simp] theorem pick_replicate_false (n : Nat) (l : List α) : pick (List.replicate n false) l = [] := by
  induction l generalizing n with
  | nil => cases n <;> rfl
  | cons a l ih =>
    cases n with
    | zero => rfl
    | succ n =>
      rw [List.replicate_succ, pick]
      exact ih n

/-- Setting a flag adds its element to the total. -/
theorem sum_pick_set [AddCommMonoid M] (f : α → M) {flags : List Bool} {l : List α} {i : Nat} {a : α}
    (hflag : flags[i]? = some false) (ha : l[i]? = some a) :
    ((pick (flags.set i true) l).map f).sum = ((pick flags l).map f).sum + f a := by
  induction l generalizing flags i with
  | nil => cases ha
  | cons b l ih =>
    match flags, i with
    | false :: flags, 0 =>
      cases ha
      rw [List.set_cons_zero, pick, pick, List.map_cons, List.sum_cons, add_comm]
    | true :: flags, 0 => cases hflag
    | true :: flags, i + 1 =>
      rw [List.getElem?_cons_succ] at hflag ha
      rw [List.set_cons_succ, pick, pick, List.map_cons, List.map_cons, List.sum_cons, List.sum_cons,
        ih hflag ha, add_assoc]
    | false :: flags, i + 1 =>
      rw [List.getElem?_cons_succ] at hflag ha
      rw [List.set_cons_succ, pick, pick]
      exact ih hflag ha

/-- A flag that is set and cleared again. -/
theorem set_set_false {flags : List Bool} {i : Nat} (hflag : flags[i]? = some false) :
    (flags.set i true).set i false = flags := by
  rw [List.set_set]
  obtain ⟨hi, hget⟩ := List.getElem?_eq_some_iff.mp hflag
  rw [← hget, List.set_getElem_self]

/-- What is picked of elements without negative weights weighs at most as much as all of them. -/
theorem sum_pick_le [AddCommMonoid M] [PartialOrder M] [IsOrderedAddMonoid M] {f : α → M} {l : List α}
    (h : ∀ a ∈ l, 0 ≤ f a) (flags : List Bool) : ((pick flags l).map f).sum ≤ (l.map f).sum := by
  refine ((pick_sublist flags l).map f).sum_le_sum fun x hx => ?_
  obtain ⟨a, ha, rfl⟩ := List.mem_map.mp hx
  exact h a ha

end Lib

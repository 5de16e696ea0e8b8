import Mathlib.Logic.Basic

/-!
# `Lib.Turnover` — items that are given in groups and taken one by one

A log of events, latest first. What is `held` is the value an item has after the log; a log is `Sound` if nobody takes
what is not held, and a group is given only when nothing of it is held. In a sound log an item that is taken twice was
given again in between.
-/

namespace Lib

/-- An item is taken, or the items of a group are given. -/
inductive Turnover (κ γ ν : Type*) where
  | take (k : κ)
  | give (g : γ) (items : κ → Option ν)

namespace Turnover

variable {κ γ ν : Type*} [DecidableEq κ] [DecidableEq γ] (group : κ → γ)

/-- The value of an item after the events. -/
def held : List (Turnover κ γ ν) → κ → Option ν
  | [], _ => none
  | .take k' :: earlier, k => if k = k' then none else held earlier k
  | .give g items :: earlier, k => if group k = g then items k else held earlier k

def Sound : List (Turnover κ γ ν) → Prop
  | [] => True
  | .take k :: earlier => (held group earlier k).isSome = true ∧ Sound earlier
  | .give g _ :: earlier => (∀ k, group k = g → held group earlier k = none) ∧ Sound earlier

variable {group} {later between earlier : List (Turnover κ γ ν)} {k : κ}

theorem Sound.of_append (h : Sound group (later ++ earlier)) : Sound group earlier := by
  induction later with
  | nil => exact h
  | cons event later ih =>
    cases event with
    | take k' => exact ih h.2
    | give g items => exact ih h.2

/-- What came to be held was given. -/
theorem give_of_held (hsome : (held group (between ++ earlier) k).isSome = true) (hnone : held group earlier k = none) :
    ∃ items, .give (group k) items ∈ between := by
  induction between with
  | nil =>
    rw [List.nil_append, hnone] at hsome
    cases hsome
  | cons event between ih =>
    cases event with
    | take k' =>
      by_cases hk : k = k'
      · simp [held, hk] at hsome
      · simp only [List.cons_append, held, if_neg hk] at hsome
        obtain ⟨items, hmem⟩ := ih hsome
        exact ⟨items, List.mem_cons_of_mem _ hmem⟩
    | give g items =>
      by_cases hg : group k = g
      · exact ⟨items, hg ▸ List.mem_cons_self⟩
      · simp only [List.cons_append, held, if_neg hg] at hsome
        obtain ⟨items, hmem⟩ := ih hsome
        exact ⟨items, List.mem_cons_of_mem _ hmem⟩

/-- **Nothing is taken twice**: it was given again in between. -/
theorem Sound.give_between (h : Sound group (later ++ .take k :: (between ++ .take k :: earlier))) :
    ∃ items, .give (group k) items ∈ between := by
  have htake := h.of_append.1
  exact give_of_held htake (by simp [held])

end Turnover

end Lib

import Mathlib.Order.Defs.LinearOrder

/-!
# `Lib.Assign` — assignment in an ordered map

A map that is walked in the order of its keys is a list of pairs. `assign` puts a value under a key: in place of the one
that is there, or where the key belongs. What a lookup finds does not depend on the list being in order
(`lookup_assign`).
-/

namespace Lib

variable {κ ν : Type*} [DecidableEq κ] [LT κ] [DecidableLT κ]

/-- `map[key] = value` -/
def assign (key : κ) (value : ν) : List (κ × ν) → List (κ × ν)
  | [] => [(key, value)]
  | (k, v) :: rest =>
    if key = k then (key, value) :: rest
    else if key < k then (key, value) :: (k, v) :: rest
    else (k, v) :: assign key value rest

variable {key k : κ} {value : ν} {entry : κ × ν} {entries : List (κ × ν)}

omit [DecidableEq κ] [LT κ] [DecidableLT κ] in
theorem mem_of_lookup [BEq κ] [LawfulBEq κ] (h : entries.lookup key = some value) : (key, value) ∈ entries := by
  obtain ⟨before, after, rfl, -⟩ := List.lookup_eq_some_iff.mp h
  exact List.mem_append_right _ List.mem_cons_self

theorem mem_assign (h : entry ∈ assign key value entries) : entry = (key, value) ∨ entry ∈ entries := by
  induction entries with
  | nil => exact .inl (List.mem_singleton.mp h)
  | cons head rest ih =>
    unfold assign at h
    split at h
    · exact (List.mem_cons.mp h).imp_right (List.mem_cons_of_mem _)
    · split at h
      · exact List.mem_cons.mp h
      · rcases List.mem_cons.mp h with rfl | h
        · exact .inr List.mem_cons_self
        · exact (ih h).imp_right (List.mem_cons_of_mem _)

theorem lookup_assign [BEq κ] [LawfulBEq κ] : (assign key value entries).lookup k = if k = key then some value else entries.lookup k := by
  induction entries with
  | nil =>
    by_cases hk : k = key
    · simp [assign, hk]
    · have hne : (k == key) = false := by simpa using hk
      simp [assign, List.lookup_cons, hne, hk]
  | cons head rest ih =>
    obtain ⟨k', v⟩ := head
    unfold assign
    split
    · rename_i hkey
      subst hkey
      rw [List.lookup_cons, List.lookup_cons]
      by_cases hk : k = key
      · simp [hk]
      · have hne : (k == key) = false := by simpa using hk
        simp [hne, hk]
    · rename_i hkey
      split
      · rw [List.lookup_cons]
        by_cases hk : k = key
        · simp [hk]
        · have hne : (k == key) = false := by simpa using hk
          simp [hne, hk]
      · -- the key comes later: what stands here has another one
        rw [List.lookup_cons, List.lookup_cons, ih]
        by_cases hk : k = key
        · subst hk
          have hne : (k == k') = false := by simpa using hkey
          simp [hne]
        · simp [hk]

/-! ## Lists in order -/

section Order

variable (htrans : ∀ a b c : κ, a < b → b < c → a < c) (htotal : ∀ a b : κ, a ≠ b → ¬ a < b → b < a)

include htrans htotal in
/-- An assignment keeps the order, with every key there once. -/
theorem pairwise_assign (h : entries.Pairwise fun a b => a.1 < b.1) :
    (assign key value entries).Pairwise fun a b => a.1 < b.1 := by
  induction entries with
  | nil => exact List.pairwise_singleton _ _
  | cons head rest ih =>
    obtain ⟨k', v⟩ := head
    obtain ⟨hhead, hrest⟩ := List.pairwise_cons.mp h
    unfold assign
    split
    · rename_i hkey
      rw [List.pairwise_cons, hkey]
      exact ⟨hhead, hrest⟩
    · rename_i hkey
      split
      · rename_i hlt
        rw [List.pairwise_cons]
        refine ⟨?_, h⟩
        intro entry hentry
        rcases List.mem_cons.mp hentry with rfl | hentry
        · exact hlt
        · exact htrans _ _ _ hlt (hhead entry hentry)
      · rename_i hnot
        rw [List.pairwise_cons]
        refine ⟨?_, ih hrest⟩
        intro entry hentry
        rcases mem_assign hentry with rfl | hentry
        · exact htotal _ _ hkey hnot
        · exact hhead entry hentry

end Order

omit [DecidableEq κ] [DecidableLT κ] in
/-- Where every key is there once, a lookup finds each entry. -/
theorem lookup_of_mem [BEq κ] [LawfulBEq κ] (hirrefl : ∀ a : κ, ¬ a < a) (h : entries.Pairwise fun a b => a.1 < b.1) (hmem : entry ∈ entries) :
    entries.lookup entry.1 = some entry.2 := by
  induction entries with
  | nil => cases hmem
  | cons head rest ih =>
    obtain ⟨hhead, hrest⟩ := List.pairwise_cons.mp h
    rw [List.lookup_cons]
    rcases List.mem_cons.mp hmem with rfl | hmem
    · simp
    · have hne : entry.1 ≠ head.1 := by
        intro heq
        have hlt := hhead entry hmem
        rw [heq] at hlt
        exact hirrefl _ hlt
      have hno : (entry.1 == head.1) = false := by simpa using hne
      rw [hno]
      exact ih hrest hmem

end Lib

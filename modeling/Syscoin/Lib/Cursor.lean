import Syscoin.Lib.Assign

/-!
# `Lib.Cursor` — walking an ordered map

A cursor stands at an entry of an ordered map: it is the list of the entries from there on. `seek` puts it at the first key
that is not below a given one. What lies behind it is found by the order alone: an entry that no other key comes before is
next (`next_of_mem`). The keys may themselves be strings, which are ordered by their first difference.
-/

namespace Lib

variable {κ ν : Type*} [DecidableEq κ] [LT κ] [DecidableLT κ]

/-- Every key is there once, and the keys ascend. -/
def Ascending (entries : List (κ × ν)) : Prop := entries.Pairwise fun a b => a.1 < b.1

def unassign (key : κ) (entries : List (κ × ν)) : List (κ × ν) := entries.filter fun entry => entry.1 ≠ key

/-- The entries from the first key on that is not below `key`. -/
def seek (key : κ) (entries : List (κ × ν)) : List (κ × ν) := entries.dropWhile fun entry => entry.1 < key

variable {key k : κ} {value : ν} {entry : κ × ν} {entries : List (κ × ν)}

omit [DecidableLT κ] in
theorem Ascending.unassign (h : Ascending entries) : Ascending (unassign key entries) :=
  List.Pairwise.filter _ h

omit [LT κ] [DecidableLT κ] in
theorem lookup_unassign [BEq κ] [LawfulBEq κ] : (unassign key entries).lookup k = if k = key then none else entries.lookup k := by
  induction entries with
  | nil => simp [unassign]
  | cons head rest ih =>
    unfold unassign at ih ⊢
    rw [List.filter_cons, List.lookup_cons]
    by_cases hhead : head.1 = key
    · rw [if_neg (by simp [hhead]), ih]
      by_cases hk : k = key
      · simp [hk]
      · have hne : (k == head.1) = false := by simpa [hhead] using hk
        simp [hne, hk]
    · rw [if_pos (by simp [hhead]), List.lookup_cons, ih]
      by_cases hk : k = key
      · subst hk
        have hne : (k == head.1) = false := by simpa using fun h : k = head.1 => hhead h.symm
        simp [hne]
      · simp [hk]

omit [DecidableEq κ] in
theorem Ascending.seek (h : Ascending entries) : Ascending (seek key entries) :=
  List.Pairwise.sublist (List.dropWhile_sublist _) h

omit [DecidableEq κ] in
/-- A cursor passes over no key that is not below the one it was put at. -/
theorem mem_seek (hmem : entry ∈ entries) (hkey : ¬ entry.1 < key) : entry ∈ seek key entries := by
  induction entries with
  | nil => cases hmem
  | cons head rest ih =>
    unfold Lib.seek at ih ⊢
    rw [List.dropWhile_cons]
    split
    · rename_i hbelow
      rcases List.mem_cons.mp hmem with rfl | hmem
      · exact absurd (of_decide_eq_true hbelow) hkey
      · exact ih hmem
    · exact hmem

omit [DecidableEq κ] in
/-- What a cursor comes to is not below the key it was put at. -/
theorem not_lt_of_mem_seek (htrans : ∀ a b c : κ, a < b → b < c → a < c) (h : Ascending entries)
    (hmem : entry ∈ seek key entries) : ¬ entry.1 < key := by
  induction entries with
  | nil => cases hmem
  | cons head rest ih =>
    obtain ⟨hhead, hrest⟩ := List.pairwise_cons.mp h
    unfold Lib.seek at ih hmem
    rw [List.dropWhile_cons] at hmem
    split at hmem
    · exact ih hrest hmem
    · rename_i hstop
      have hnot : ¬ head.1 < key := by simpa using hstop
      rcases List.mem_cons.mp hmem with rfl | hmem
      · exact hnot
      · exact fun hlt => hnot (htrans _ _ _ (hhead entry hmem) hlt)

omit [DecidableEq κ] [DecidableLT κ] in
/-- An entry that no other key comes before is where the cursor stands. -/
theorem next_of_mem (h : Ascending entries) (hmem : entry ∈ entries) (hfirst : ∀ other ∈ entries, ¬ other.1 < entry.1) :
    ∃ rest, entries = entry :: rest := by
  cases entries with
  | nil => cases hmem
  | cons head rest =>
    rcases List.mem_cons.mp hmem with rfl | hmem
    · exact ⟨rest, rfl⟩
    · have hlt := (List.pairwise_cons.mp h).1 entry hmem
      exact absurd hlt (hfirst head List.mem_cons_self)

/-! ## Keys that are strings -/

section Strings

variable {σ : Type*} [LT σ] {a : σ} {p q s t l : List σ}

theorem append_lt_append_iff (hlen : p.length = q.length) : p ++ s < q ++ t ↔ p < q ∨ p = q ∧ s < t := by
  induction p generalizing q with
  | nil =>
    obtain rfl : q = [] := List.length_eq_zero_iff.mp hlen.symm
    simp
  | cons a p ih =>
    cases q with
    | nil => cases hlen
    | cons b q =>
      rw [List.cons_append, List.cons_append, List.cons_lt_cons_iff, List.cons_lt_cons_iff, ih (Nat.succ.inj hlen)]
      rw [List.cons.injEq, and_or_left, ← and_assoc, or_assoc]

/-- What lies between two strings with one first symbol starts with it. -/
theorem head_of_between (hasymm : ∀ a b : σ, a < b → ¬ b < a) (hirrefl : ∀ a : σ, ¬ a < a) (hs : a :: s < l)
    (ht : l < a :: t) : ∃ rest, l = a :: rest := by
  cases l with
  | nil => cases hs
  | cons b l =>
    rw [List.cons_lt_cons_iff] at hs ht
    rcases hs with hab | ⟨rfl, -⟩
    · rcases ht with hba | ⟨rfl, -⟩
      · exact absurd hba (hasymm a b hab)
      · exact absurd hab (hirrefl b)
    · exact ⟨l, rfl⟩

theorem not_lt_replicate (hleast : ∀ b : σ, ¬ b < a) {n : Nat} (hlen : l.length = n) : ¬ l < List.replicate n a := by
  induction l generalizing n with
  | nil =>
    subst hlen
    exact List.not_lt_nil _
  | cons b l ih =>
    subst hlen
    rw [List.length_cons, List.replicate_succ, List.cons_lt_cons_iff]
    rintro (hlt | ⟨-, hlt⟩)
    · exact hleast b hlt
    · exact ih rfl hlt

end Strings

end Lib

import Mathlib.Data.Finmap

/-!
# `Lib.Multimap` — a finite map whose values are finite sets

The reverse index of a table is kept as a map from keys to sets. Such a map can say "nothing under this key" in two
ways, by having no entry and by having an empty one. `elems` does not see the difference and `Tidy` asks for the first
way; each operation has a lemma about both.
-/

namespace Lib

section Finmap

variable {κ β : Type} [DecidableEq κ]

theorem lookup_insert_eq (m : Finmap fun _ : κ => β) (k j : κ) (x : β) :
    (m.insert k x).lookup j = if j = k then some x else m.lookup j := by
  by_cases h : j = k
  · rw [if_pos h, h, Finmap.lookup_insert]
  · rw [if_neg h, Finmap.lookup_insert_of_ne _ h]

theorem lookup_erase_eq (m : Finmap fun _ : κ => β) (k j : κ) :
    Finmap.lookup j (Finmap.erase k m) = if j = k then none else m.lookup j := by
  by_cases h : j = k
  · rw [if_pos h, h, Finmap.lookup_erase]
  · rw [if_neg h, Finmap.lookup_erase_ne h]

end Finmap

/-- A finite map from keys to finite sets. -/
abbrev Multimap (κ α : Type) : Type := Finmap fun _ : κ => Finset α

namespace Multimap

variable {κ α : Type} [DecidableEq κ]

/-- What is under a key. -/
def elems (m : Multimap κ α) (k : κ) : Finset α := (m.lookup k).getD ∅

/-- No key has an empty entry. -/
def Tidy (m : Multimap κ α) : Prop := ∀ k, m.lookup k ≠ some ∅

/-- Read with a subscript that makes an entry where there is none. -/
def touch (m : Multimap κ α) (k : κ) : Multimap κ α := m.insert k (m.elems k)

@[simp] theorem elems_empty (k : κ) : elems (∅ : Multimap κ α) k = ∅ := by
  rw [elems, Finmap.lookup_empty]
  rfl

theorem elems_insert (m : Multimap κ α) (k j : κ) (s : Finset α) :
    elems (m.insert k s) j = if j = k then s else elems m j := by
  rw [elems, lookup_insert_eq]
  split
  · rfl
  · rfl

@[simp] theorem elems_touch (m : Multimap κ α) (k j : κ) : (m.touch k).elems j = m.elems j := by
  rw [touch, elems_insert]
  split
  · rename_i h
    rw [h]
  · rfl

theorem tidy_empty : Tidy (∅ : Multimap κ α) := by
  intro k
  rw [Finmap.lookup_empty]
  simp

variable [DecidableEq α]

def add (m : Multimap κ α) (k : κ) (a : α) : Multimap κ α := m.insert k (insert a (m.elems k))

/-- Take an element out, and the entry with it when nothing else is there. -/
def drop (m : Multimap κ α) (k : κ) (a : α) : Multimap κ α :=
  let m : Multimap κ α := m.insert k ((m.elems k).erase a)
  if m.elems k = ∅ then m.erase k else m

theorem mem_elems_add {m : Multimap κ α} {k j : κ} {a b : α} :
    b ∈ (m.add k a).elems j ↔ b ∈ m.elems j ∨ (j = k ∧ b = a) := by
  rw [add, elems_insert]
  by_cases h : j = k
  · rw [if_pos h, h, Finset.mem_insert, or_comm]
    simp
  · rw [if_neg h]
    simp [h]

/-- The two steps of `drop` under each key. -/
theorem lookup_drop (m : Multimap κ α) (k j : κ) (a : α) :
    (m.drop k a).lookup j =
      if j = k then (if (m.elems k).erase a = ∅ then none else some ((m.elems k).erase a)) else m.lookup j := by
  have hself : elems (m.insert k ((m.elems k).erase a)) k = (m.elems k).erase a := by rw [elems_insert, if_pos rfl]
  unfold drop
  dsimp only
  rw [hself]
  by_cases hempty : (m.elems k).erase a = ∅
  · rw [if_pos hempty, if_pos hempty, lookup_erase_eq, lookup_insert_eq]
    split
    · rfl
    · rfl
  · rw [if_neg hempty, if_neg hempty, lookup_insert_eq]

theorem mem_elems_drop {m : Multimap κ α} {k j : κ} {a b : α} :
    b ∈ (m.drop k a).elems j ↔ b ∈ m.elems j ∧ ¬ (j = k ∧ b = a) := by
  rw [elems, lookup_drop]
  by_cases h : j = k
  · rw [if_pos h, h]
    have hmem : b ∈ (m.elems k).erase a ↔ b ∈ m.elems k ∧ ¬ (k = k ∧ b = a) := by
      rw [Finset.mem_erase, and_comm]
      simp
    rw [← hmem]
    split
    · rename_i hempty
      rw [hempty]
      rfl
    · rfl
  · rw [if_neg h]
    simp [elems, h]

theorem Tidy.add {m : Multimap κ α} (h : m.Tidy) (k : κ) (a : α) : (m.add k a).Tidy := by
  intro j
  rw [Multimap.add, lookup_insert_eq]
  split
  · intro hempty
    exact Finset.insert_ne_empty a _ (Option.some.inj hempty)
  · exact h j

/-- `drop` leaves no empty entry under its key. -/
theorem lookup_drop_ne {m : Multimap κ α} {k j : κ} {a : α} (h : j = k ∨ m.lookup j ≠ some ∅) :
    (m.drop k a).lookup j ≠ some ∅ := by
  rw [lookup_drop]
  by_cases hj : j = k
  · rw [if_pos hj]
    split
    · simp
    · rename_i hne
      exact fun heq => hne (Option.some.inj heq)
  · rw [if_neg hj]
    exact h.resolve_left hj

theorem Tidy.drop {m : Multimap κ α} (h : m.Tidy) (k : κ) (a : α) : (m.drop k a).Tidy :=
  fun j => lookup_drop_ne (.inr (h j))

end Multimap

end Lib

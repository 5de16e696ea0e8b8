import Mathlib.Algebra.Order.Ring.Int

/-!
# `Lib.Upsert` — lists used as small keyed tables

A vector that is scanned for an entry with a given key, overwritten there if one is found and extended
otherwise. `replaceFirst` is the scan; `upsert` appends when it fails, `upsertFront` prepends, and
`upsertLast` scans from the back. The key is any Boolean predicate.

The lemmas say what a table can contain afterwards (`mem_upsert`, `mem_upsertLast`), that the new entry is in
it, what a lookup finds (`find?_upsert`), which entries a key has (`filter_upsertFront`), what becomes of a total
(`sum_upsert`), when nothing changes (`upsertFront_eq_self_iff`), and what happens when no entry matches (`upsertLast_of_none`) or when only the last one does
(`upsertLast_concat`): the two cases a history that grows at its end needs.
-/

namespace Lib

universe u

variable {α : Type u} {p : α → Bool} {a x : α} {l : List α}

/-- Overwrite the first entry that satisfies `p`; `none` when there is none. -/
def replaceFirst (p : α → Bool) (a : α) : List α → Option (List α)
  | [] => none
  | x :: xs => if p x then some (a :: xs) else (replaceFirst p a xs).map (x :: ·)

/-- Overwrite the first entry that satisfies `p`, or append. -/
def upsert (p : α → Bool) (a : α) (l : List α) : List α := (replaceFirst p a l).getD (l ++ [a])

/-- Overwrite the first entry that satisfies `p`, or prepend. -/
def upsertFront (p : α → Bool) (a : α) (l : List α) : List α := (replaceFirst p a l).getD (a :: l)

/-- Overwrite the last entry that satisfies `p`, or append. -/
def upsertLast (p : α → Bool) (a : α) (l : List α) : List α :=
  ((replaceFirst p a l.reverse).map List.reverse).getD (l ++ [a])

theorem replaceFirst_of_none (h : ∀ x ∈ l, p x = false) : replaceFirst p a l = none := by
  induction l with
  | nil => rfl
  | cons y l ih =>
    unfold replaceFirst
    rw [if_neg (by simp [h y List.mem_cons_self]), ih (fun x hx => h x (List.mem_cons_of_mem y hx))]
    rfl

theorem mem_replaceFirst {l' : List α} (h : replaceFirst p a l = some l') :
    a ∈ l' ∧ ∀ x ∈ l', x = a ∨ x ∈ l := by
  induction l generalizing l' with
  | nil => cases h
  | cons y l ih =>
    unfold replaceFirst at h
    split at h
    · rw [Option.some.injEq] at h
      subst h
      refine ⟨List.mem_cons_self, fun x hx => ?_⟩
      rcases List.mem_cons.mp hx with hx | hx
      · exact .inl hx
      · exact .inr (List.mem_cons_of_mem y hx)
    · obtain ⟨xs, hxs, rfl⟩ := Option.map_eq_some_iff.mp h
      obtain ⟨ha, hrest⟩ := ih hxs
      refine ⟨List.mem_cons_of_mem y ha, fun x hx => ?_⟩
      rcases List.mem_cons.mp hx with rfl | hx
      · exact .inr List.mem_cons_self
      · exact (hrest x hx).imp_right (List.mem_cons_of_mem y)

theorem mem_upsert (h : x ∈ upsert p a l) : x = a ∨ x ∈ l := by
  unfold upsert at h
  cases hr : replaceFirst p a l with
  | none => simpa [hr, or_comm] using h
  | some l' => exact (mem_replaceFirst hr).2 x (by simpa [hr] using h)

theorem self_mem_upsert : a ∈ upsert p a l := by
  unfold upsert
  cases hr : replaceFirst p a l with
  | none => simp
  | some l' => exact (mem_replaceFirst hr).1

/-- Looking a key up after an upsert under the new entry's own key. -/
theorem find?_upsert {κ : Type u} [DecidableEq κ] (key : α → κ) (k : κ) :
    (upsert (fun y => key a = key y) a l).find? (fun y => key y = k) =
      if key a = k then some a else l.find? fun y => key y = k := by
  unfold upsert
  induction l with
  | nil => by_cases h : key a = k <;> simp [replaceFirst, h]
  | cons y l ih =>
    unfold replaceFirst
    by_cases hy : key a = key y
    · -- the entry found here has the key of the new one
      by_cases h : key a = k
      · simp [hy, hy ▸ h]
      · simp [hy, hy ▸ h]
    · cases hr : replaceFirst (fun y => decide (key a = key y)) a l with
      | none =>
        rw [hr] at ih
        by_cases hk : key y = k
        · simp [hk, show key a ≠ k from fun h => hy (h.trans hk.symm)]
        · simpa [hy, hk] using ih
      | some l' =>
        rw [hr] at ih
        by_cases hk : key y = k
        · simp [hk, show key a ≠ k from fun h => hy (h.trans hk.symm)]
        · simpa [hy, hk] using ih

/-- What an upsert adds to a total: the new entry in place of the one it overwrites, if any. -/
theorem sum_upsert (f : α → Int) :
    ((upsert p a l).map f).sum = (l.map f).sum + f a - ((l.find? p).map f).getD 0 := by
  unfold upsert
  induction l with
  | nil => simp [replaceFirst]
  | cons y l ih =>
    by_cases hy : p y = true
    · simp only [replaceFirst, hy, if_true, Option.getD_some, List.map_cons, List.sum_cons, List.find?_cons_of_pos,
        Option.map_some]
      omega
    · rw [List.find?_cons_of_neg hy, List.map_cons, List.sum_cons, replaceFirst, if_neg hy]
      cases hr : replaceFirst p a l with
      | none =>
        rw [hr] at ih
        simp only [Option.getD_none, Option.map_none, List.cons_append, List.map_cons, List.sum_cons] at ih ⊢
        omega
      | some l' =>
        rw [hr] at ih
        simp only [Option.getD_some, Option.map_some, List.map_cons, List.sum_cons] at ih ⊢
        omega

theorem mem_upsertLast (h : x ∈ upsertLast p a l) : x = a ∨ x ∈ l := by
  unfold upsertLast at h
  cases hr : replaceFirst p a l.reverse with
  | none => simpa [hr, or_comm] using h
  | some l' =>
    have hx : x ∈ l' := by simpa [hr] using h
    simpa using (mem_replaceFirst hr).2 x hx

theorem self_mem_upsertLast : a ∈ upsertLast p a l := by
  unfold upsertLast
  cases hr : replaceFirst p a l.reverse with
  | none => simp
  | some l' => simpa using (mem_replaceFirst hr).1

/-- The scan fails iff no entry matches. -/
theorem replaceFirst_eq_none_iff : replaceFirst p a l = none ↔ ∀ x ∈ l, p x = false := by
  constructor
  · intro h
    induction l with
    | nil => simp
    | cons y l ih =>
      unfold replaceFirst at h
      split at h
      · cases h
      · rename_i hy
        exact List.forall_mem_cons.mpr ⟨by simpa using hy, ih (Option.map_eq_none_iff.mp h)⟩
  · exact replaceFirst_of_none

section Keyed

variable {κ : Type u} [DecidableEq κ] {f : α → κ} {k : κ}

/-- The entries under a key after the entry found under the new one's own key has been overwritten. -/
theorem filter_replaceFirst {l' : List α} (hp : ∀ y, p y = decide (f y = f a))
    (huniq : (l.filter fun y => f y = f a).length ≤ 1) (h : replaceFirst p a l = some l') :
    (l'.filter fun y => f y = k) = if f a = k then [a] else l.filter fun y => f y = k := by
  induction l generalizing l' with
  | nil => cases h
  | cons y l ih =>
    unfold replaceFirst at h
    rw [hp] at h
    by_cases hy : f y = f a
    · -- this is the entry that is overwritten, and there is no other
      rw [if_pos (by simpa using hy), Option.some.injEq] at h
      subst h
      rw [List.filter_cons_of_pos (by simpa using hy)] at huniq
      have hnone : (l.filter fun y => f y = f a) = [] := List.length_eq_zero_iff.mp (by simpa using huniq)
      by_cases hk : f a = k
      · rw [if_pos hk, List.filter_cons_of_pos (by simpa using hk), ← hk, hnone]
      · rw [if_neg hk, List.filter_cons_of_neg (by simpa using hk), List.filter_cons_of_neg (by simpa [hy] using hk)]
    · rw [if_neg (by simpa using hy)] at h
      obtain ⟨xs, hxs, rfl⟩ := Option.map_eq_some_iff.mp h
      rw [List.filter_cons_of_neg (by simpa using hy)] at huniq
      have hrest := ih huniq hxs
      by_cases hk : f a = k
      · rw [if_pos hk] at hrest ⊢
        rw [List.filter_cons_of_neg (by simpa [← hk] using hy), hrest]
      · rw [if_neg hk] at hrest ⊢
        by_cases hyk : f y = k
        · rw [List.filter_cons_of_pos (by simpa using hyk), List.filter_cons_of_pos (by simpa using hyk), hrest]
        · rw [List.filter_cons_of_neg (by simpa using hyk), List.filter_cons_of_neg (by simpa using hyk), hrest]

/-- **A table with one entry for each key** after an upsert: the new entry under its own key, the old ones elsewhere. -/
theorem filter_upsertFront (hp : ∀ y, p y = decide (f y = f a))
    (huniq : (l.filter fun y => f y = f a).length ≤ 1) :
    ((upsertFront p a l).filter fun y => f y = k) = if f a = k then [a] else l.filter fun y => f y = k := by
  unfold upsertFront
  cases hr : replaceFirst p a l with
  | some l' => exact filter_replaceFirst hp huniq hr
  | none =>
    have hnone := replaceFirst_eq_none_iff.mp hr
    by_cases hk : f a = k
    · rw [if_pos hk, Option.getD_none, List.filter_cons_of_pos (by simpa using hk), List.cons.injEq]
      refine ⟨rfl, List.filter_eq_nil_iff.mpr fun y hy => ?_⟩
      rw [← hk, ← hp, hnone y hy]
      exact Bool.false_ne_true
    · rw [if_neg hk, Option.getD_none, List.filter_cons_of_neg (by simpa using hk)]

end Keyed

/-- A replacement in place, of the entry that a lookup finds. -/
theorem replaceFirst_eq_some {l' : List α} (h : replaceFirst p a l = some l') :
    ∃ l₁ x l₂, l = l₁ ++ x :: l₂ ∧ l' = l₁ ++ a :: l₂ ∧ p x = true ∧ l.find? p = some x := by
  induction l generalizing l' with
  | nil => cases h
  | cons y l ih =>
    unfold replaceFirst at h
    by_cases hy : p y = true
    · rw [if_pos hy, Option.some.injEq] at h
      exact ⟨[], y, l, rfl, h.symm, hy, by simp [hy]⟩
    · rw [if_neg hy] at h
      obtain ⟨l'', hrest, rfl⟩ := Option.map_eq_some_iff.mp h
      obtain ⟨l₁, x, l₂, rfl, rfl, hx, hfind⟩ := ih hrest
      exact ⟨y :: l₁, x, l₂, rfl, rfl, hx, by simpa [hy] using hfind⟩

/-- Nothing changes iff the entry is there already. -/
theorem upsertFront_eq_self_iff : upsertFront p a l = l ↔ l.find? p = some a := by
  unfold upsertFront
  cases hr : replaceFirst p a l with
  | none =>
    have hnone := replaceFirst_eq_none_iff.mp hr
    refine iff_of_false (fun h => ?_) fun h => ?_
    · have hlen := congrArg List.length h
      simp at hlen
    · have htrue := List.find?_some h
      rw [hnone a (List.mem_of_find?_eq_some h)] at htrue
      cases htrue
  | some l' =>
    obtain ⟨l₁, x, l₂, rfl, rfl, -, hfind⟩ := replaceFirst_eq_some hr
    rw [hfind, Option.getD_some, Option.some.injEq, List.append_cancel_left_eq, List.cons.injEq]
    exact ⟨fun h => h.1.symm, fun h => ⟨h.symm, rfl⟩⟩

/-- Where the entry is the only one under its key that satisfies `q`, putting it in either changes nothing or makes the
    table longer or richer in such entries. -/
theorem upsertFront_grows {q : α → Bool} (hq : q a = true) (honly : ∀ x, p x = true → q x = true → x = a) :
    upsertFront p a l = l ∨ l.length + l.countP q < (upsertFront p a l).length + (upsertFront p a l).countP q := by
  unfold upsertFront
  cases hr : replaceFirst p a l with
  | none =>
    right
    simp only [Option.getD_none, List.length_cons, List.countP_cons, hq, if_true]
    omega
  | some l' =>
    obtain ⟨l₁, x, l₂, rfl, rfl, hx, -⟩ := replaceFirst_eq_some hr
    by_cases hqx : q x = true
    · left
      rw [honly x hx hqx]
      rfl
    · right
      simp only [Option.getD_some, List.length_append, List.length_cons, List.countP_append, List.countP_cons, hq, hqx,
        if_true, Bool.false_eq_true, if_false]
      omega

/-- No entry matches: the new one goes to the end. -/
theorem upsertLast_of_none (h : ∀ x ∈ l, p x = false) : upsertLast p a l = l ++ [a] := by
  unfold upsertLast
  rw [replaceFirst_of_none (fun x hx => h x (List.mem_reverse.mp hx))]
  rfl

/-- The last entry matches: it is overwritten. -/
theorem upsertLast_concat (h : p x = true) : upsertLast p a (l ++ [x]) = l ++ [a] := by
  simp [upsertLast, replaceFirst, h]

end Lib

import Mathlib.Data.List.NodupEquivFin

/-!
# `Lib.Matching` — one pass that matches two lists in order

The elements of one list are to be assigned to elements of another that fit them, in the same order. `greedy` goes
through the second list once, gives every element to the first that still waits if it fits, and gives up when fewer are
left than wait. That is enough: `greedy_iff`. From which end the lists are gone through makes no difference
(`sublistForall₂_reverse_iff`), and `sublistForall₂_iff_strictMono` says what was found as an increasing function.
-/

namespace Lib

open List

variable {α β : Type}

/-- Those that still wait after an element was offered to the first of them. -/
def offer (fits : α → β → Bool) (a : α) (as : List α) (b : β) : List α := if fits a b = true then as else a :: as

def greedy (fits : α → β → Bool) : List α → List β → Bool
  | [], _ => true
  | _ :: _, [] => false
  | a :: as, b :: bs =>
    if bs.length < (offer fits a as b).length then false else greedy fits (offer fits a as b) bs

section

variable {fits : α → β → Bool} {R : α → β → Prop} {a : α} {b : β} {as : List α} {bs : List β}

@[simp] theorem greedy_nil : greedy fits [] bs = true := by cases bs <;> rfl

theorem length_le_of_sublistForall₂ (h : SublistForall₂ R as bs) : as.length ≤ bs.length := by
  obtain ⟨l, hall, hsub⟩ := sublistForall₂_iff.mp h
  rw [hall.length_eq]
  exact hsub.length_le

theorem exists_of_sublistForall₂ (h : SublistForall₂ R as bs) (ha : a ∈ as) : ∃ b ∈ bs, R a b := by
  obtain ⟨l, hall, hsub⟩ := sublistForall₂_iff.mp h
  obtain ⟨hlen, hget⟩ := forall₂_iff_get.mp hall
  obtain ⟨i, rfl⟩ := get_of_mem ha
  exact ⟨l.get (i.cast hlen), hsub.subset (get_mem l _), hget i.1 i.2 (hlen ▸ i.2)⟩

/-- An assignment of more is an assignment of the rest, also without the first element of the second list. -/
theorem sublistForall₂_tail (h : SublistForall₂ R (a :: as) (b :: bs)) : SublistForall₂ R as bs := by
  cases h with
  | cons _ h => exact h
  | cons_right h =>
    obtain ⟨l, hall, hsub⟩ := sublistForall₂_iff.mp h
    cases hall with
    | cons _ hall => exact sublistForall₂_iff.mpr ⟨_, hall, (sublist_cons_self _ _).trans hsub⟩

/-- **The exchange argument**: who waits first may as well take the first that fits. -/
theorem sublistForall₂_offer_iff :
    SublistForall₂ (fits · · = true) (a :: as) (b :: bs) ↔ SublistForall₂ (fits · · = true) (offer fits a as b) bs := by
  unfold offer
  by_cases hfits : fits a b = true
  · rw [if_pos hfits]
    exact ⟨sublistForall₂_tail, .cons hfits⟩
  · rw [if_neg hfits]
    refine ⟨fun h => ?_, .cons_right⟩
    cases h with
    | cons hab _ => exact absurd hab hfits
    | cons_right h => exact h

/-- **One pass finds an assignment if there is one.** -/
theorem greedy_iff : greedy fits as bs = true ↔ SublistForall₂ (fits · · = true) as bs := by
  induction bs generalizing as with
  | nil =>
    cases as with
    | nil => exact ⟨fun _ => .nil, fun _ => rfl⟩
    | cons a as => exact ⟨fun h => (nomatch h), fun h => (nomatch h)⟩
  | cons b bs ih =>
    cases as with
    | nil => exact ⟨fun _ => .nil, fun _ => rfl⟩
    | cons a as =>
      rw [greedy, sublistForall₂_offer_iff]
      split
      · rename_i hshort
        refine ⟨fun h => (nomatch h), fun h => ?_⟩
        exact absurd (length_le_of_sublistForall₂ h) (Nat.not_le_of_lt hshort)
      · exact ih

theorem sublistForall₂_reverse_iff : SublistForall₂ R as.reverse bs.reverse ↔ SublistForall₂ R as bs := by
  have hreverse : ∀ {as : List α} {bs : List β}, SublistForall₂ R as bs → SublistForall₂ R as.reverse bs.reverse := by
    intro as bs h
    obtain ⟨l, hall, hsub⟩ := sublistForall₂_iff.mp h
    exact sublistForall₂_iff.mpr ⟨l.reverse, forall₂_reverse_iff.mpr hall, hsub.reverse⟩
  refine ⟨fun h => ?_, hreverse⟩
  have h := hreverse h
  rwa [reverse_reverse, reverse_reverse] at h

theorem sublistForall₂_iff_strictMono :
    SublistForall₂ R as bs ↔ ∃ φ : Fin as.length → Fin bs.length, StrictMono φ ∧ ∀ i, R (as.get i) (bs.get (φ i)) := by
  rw [sublistForall₂_iff]
  constructor
  · rintro ⟨l, hall, hsub⟩
    obtain ⟨φ, hφ⟩ := sublist_iff_exists_fin_orderEmbedding_get_eq.mp hsub
    obtain ⟨hlen, hget⟩ := forall₂_iff_get.mp hall
    refine ⟨fun i => φ (i.cast hlen), fun i j hij => φ.strictMono hij, fun i => ?_⟩
    rw [← hφ]
    exact hget i.1 i.2 (hlen ▸ i.2)
  · rintro ⟨φ, hmono, hφ⟩
    refine ⟨ofFn fun i => bs.get (φ i), forall₂_iff_get.mpr ⟨(length_ofFn).symm, ?_⟩, ?_⟩
    · intro i h₁ h₂
      simpa using hφ ⟨i, h₁⟩
    · refine sublist_iff_exists_fin_orderEmbedding_get_eq.mpr ⟨?_, ?_⟩
      · exact (Fin.castOrderIso length_ofFn).toOrderEmbedding.trans (OrderEmbedding.ofStrictMono φ hmono)
      · intro i
        rw [get_ofFn]
        rfl

end

end Lib

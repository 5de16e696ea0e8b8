import Mathlib.Algebra.BigOperators.Fin
import Mathlib.Data.Finset.Card
import Mathlib.Data.Fintype.Basic
import Mathlib.Data.List.Nodup

/-!
# `Lib.Placement` — where the members of a table are

A table that is drawn from at random keeps its keys in a list too, and with each key its position there, so that a key is
found and taken out in constant time. `Positions` says that the two agree; pushing, swapping and popping keep it.

The keys also lie in buckets. `holding` is the set of buckets a key lies in; overwriting one bucket adds it or takes it
away.
-/

namespace Lib

universe u v w

/-! ## Positions in a list -/

section Positions

variable {α : Type u}

/-- `pos` is the inverse of the list `l`: it knows exactly the members, each with the only place where it stands. -/
def Positions (l : List α) (pos : α → Option Int) : Prop :=
  ∀ a z, pos a = some z ↔ ∃ p : Nat, z = p ∧ l[p]? = some a

namespace Positions

variable {l : List α} {pos : α → Option Int}

theorem nil : Positions ([] : List α) (fun _ => none) := by
  intro a z
  simp

/-- The place of a known key. -/
theorem get (h : Positions l pos) {a : α} {z : Int} (ha : pos a = some z) : ∃ p : Nat, z = p ∧ l[p]? = some a :=
  (h a z).1 ha

theorem pos_eq (h : Positions l pos) {a : α} {p : Nat} (hp : l[p]? = some a) : pos a = some (p : Int) :=
  (h a p).2 ⟨p, rfl, hp⟩

theorem mem_iff (h : Positions l pos) {a : α} : a ∈ l ↔ (pos a).isSome := by
  constructor
  · intro ha
    obtain ⟨p, hp⟩ := List.mem_iff_getElem?.1 ha
    rw [h.pos_eq hp]
    rfl
  · intro ha
    obtain ⟨z, hz⟩ := Option.isSome_iff_exists.1 ha
    obtain ⟨p, -, hp⟩ := h.get hz
    exact List.mem_of_getElem? hp

/-- Nothing stands in two places. -/
theorem unique (h : Positions l pos) {i j : Nat} {a : α} (hi : l[i]? = some a) (hj : l[j]? = some a) : i = j := by
  have hpos : some (i : Int) = some (j : Int) := (h.pos_eq hi).symm.trans (h.pos_eq hj)
  exact Int.ofNat.inj (Option.some.inj hpos)

theorem nodup (h : Positions l pos) : l.Nodup := by
  rw [List.nodup_iff_injective_get]
  intro i j hij
  have hi : l[(i : Nat)]? = some (l.get i) := List.getElem?_eq_getElem i.isLt
  have hj : l[(j : Nat)]? = some (l.get i) := by
    rw [hij]
    exact List.getElem?_eq_getElem j.isLt
  exact Fin.ext (h.unique hi hj)

variable [DecidableEq α]

theorem push (h : Positions l pos) {a : α} (ha : pos a = none) :
    Positions (l ++ [a]) (Function.update pos a (some (l.length : Int))) := by
  have hnew : a ∉ l := by
    rw [h.mem_iff, ha]
    simp
  intro b z
  by_cases hb : b = a
  · subst hb
    rw [Function.update_self]
    constructor
    · intro hz
      exact ⟨l.length, (Option.some.inj hz).symm, by simp⟩
    · rintro ⟨p, rfl, hp⟩
      rcases Nat.lt_trichotomy p l.length with hlt | rfl | hgt
      · rw [List.getElem?_append_left hlt] at hp
        exact absurd (List.mem_of_getElem? hp) hnew
      · rfl
      · rw [List.getElem?_eq_none (by simp; omega)] at hp
        exact absurd hp (by simp)
  · rw [Function.update_of_ne hb, h b z]
    constructor
    · rintro ⟨p, hz, hp⟩
      exact ⟨p, hz, by rw [List.getElem?_append_left (List.getElem?_eq_some_iff.1 hp).1, hp]⟩
    · rintro ⟨p, hz, hp⟩
      refine ⟨p, hz, ?_⟩
      rw [List.getElem?_append] at hp
      split at hp
      · exact hp
      · have : b = a := by
          have := List.mem_of_getElem? hp
          simpa using this
        exact absurd this hb

/-- Two keys change places. -/
theorem swap (h : Positions l pos) {i j : Nat} {a b : α} (hi : l[i]? = some a) (hj : l[j]? = some b) (hij : i ≠ j) :
    Positions ((l.set i b).set j a) (Function.update (Function.update pos a (some (j : Int))) b (some (i : Int))) := by
  have hil : i < l.length := (List.getElem?_eq_some_iff.1 hi).1
  have hjl : j < l.length := (List.getElem?_eq_some_iff.1 hj).1
  have hab : a ≠ b := by
    rintro rfl
    exact hij (h.unique hi hj)
  have hget : ∀ p, ((l.set i b).set j a)[p]? = if p = j then some a else if p = i then some b else l[p]? := by
    intro p
    rw [List.getElem?_set, List.length_set, List.getElem?_set]
    by_cases hp : p = j
    · subst hp
      simp [hjl]
    · by_cases hq : p = i
      · subst hq
        rw [if_neg (Ne.symm hp), if_pos rfl, if_pos hil, if_neg hp, if_pos rfl]
      · rw [if_neg (Ne.symm hp), if_neg (Ne.symm hq), if_neg hp, if_neg hq]
  intro c z
  simp only [hget]
  -- one of the two keys, the other, or a third that stays where it is
  by_cases hcb : c = b
  · subst hcb
    rw [Function.update_self]
    constructor
    · intro hz
      exact ⟨i, (Option.some.inj hz).symm, by rw [if_neg hij, if_pos rfl]⟩
    · rintro ⟨p, rfl, hp⟩
      split at hp
      · exact absurd (Option.some.inj hp) hab
      · split at hp
        · rename_i hpi
          rw [hpi]
        · rename_i hpj hpi
          exact absurd (h.unique hp hj) hpj
  · rw [Function.update_of_ne hcb]
    by_cases hca : c = a
    · subst hca
      rw [Function.update_self]
      constructor
      · intro hz
        exact ⟨j, (Option.some.inj hz).symm, by rw [if_pos rfl]⟩
      · rintro ⟨p, rfl, hp⟩
        split at hp
        · rename_i hpj
          rw [hpj]
        · split at hp
          · exact absurd (Option.some.inj hp).symm hcb
          · rename_i hpj hpi
            exact absurd (h.unique hp hi) hpi
    · rw [Function.update_of_ne hca, h c z]
      constructor
      · rintro ⟨p, hz, hp⟩
        have hpj : p ≠ j := by
          rintro rfl
          exact hcb (Option.some.inj (hp.symm.trans hj))
        have hpi : p ≠ i := by
          rintro rfl
          exact hca (Option.some.inj (hp.symm.trans hi))
        exact ⟨p, hz, by rw [if_neg hpj, if_neg hpi, hp]⟩
      · rintro ⟨p, hz, hp⟩
        split at hp
        · exact absurd (Option.some.inj hp).symm hca
        · split at hp
          · exact absurd (Option.some.inj hp).symm hcb
          · exact ⟨p, hz, hp⟩

/-- The last key goes. -/
theorem pop (h : Positions l pos) {a : α} (ha : l[l.length - 1]? = some a) :
    Positions l.dropLast (Function.update pos a none) := by
  have hlen : 0 < l.length := by
    have := (List.getElem?_eq_some_iff.1 ha).1
    omega
  intro b z
  by_cases hb : b = a
  · subst hb
    rw [Function.update_self]
    constructor
    · intro hz
      exact absurd hz (by simp)
    · rintro ⟨p, rfl, hp⟩
      rw [List.getElem?_dropLast] at hp
      split at hp
      · rename_i hlt
        have := h.unique hp ha
        omega
      · exact absurd hp (by simp)
  · rw [Function.update_of_ne hb, h b z]
    constructor
    · rintro ⟨p, hz, hp⟩
      refine ⟨p, hz, ?_⟩
      rw [List.getElem?_dropLast, if_pos, hp]
      have hlt := (List.getElem?_eq_some_iff.1 hp).1
      have hne : p ≠ l.length - 1 := by
        rintro rfl
        exact hb (Option.some.inj (hp.symm.trans ha))
      omega
    · rintro ⟨p, hz, hp⟩
      rw [List.getElem?_dropLast] at hp
      split at hp
      · exact ⟨p, hz, hp⟩
      · exact absurd hp (by simp)

end Positions

end Positions

/-- To overwrite a place is to take one member out and put another in. -/
theorem perm_set {α : Type u} {l : List α} {i : Nat} {a : α} (h : l[i]? = some a) :
    ∃ rest, l.Perm (a :: rest) ∧ ∀ b, (l.set i b).Perm (b :: rest) := by
  obtain ⟨hi, ha⟩ := List.getElem?_eq_some_iff.1 h
  refine ⟨l.take i ++ l.drop (i + 1), ?_, ?_⟩
  · have hsplit : l.take i ++ a :: l.drop (i + 1) = l := by
      rw [← ha, ← List.drop_eq_getElem_cons hi, List.take_append_drop]
    nth_rewrite 1 [← hsplit]
    exact List.perm_middle
  · intro b
    rw [List.set_eq_take_append_cons_drop, if_pos hi]
    exact List.perm_middle

/-! ## Buckets -/

section Buckets

variable {α : Type u} {ι : Type v} {S : Type w} [Membership α S] [Fintype ι]

/-- The buckets that hold a key. -/
def holding (vv : ι → S) (a : α) [DecidablePred fun b => a ∈ vv b] : Finset ι := Finset.univ.filter fun b => a ∈ vv b

variable [∀ (a : α) (s : S), Decidable (a ∈ s)]

@[simp] theorem mem_holding {vv : ι → S} {a : α} {b : ι} : b ∈ holding vv a ↔ a ∈ vv b := by
  simp [holding]

theorem card_holding_pos {vv : ι → S} {a : α} {b : ι} (h : a ∈ vv b) : 0 < (holding vv a).card :=
  Finset.card_pos.2 ⟨b, mem_holding.2 h⟩

theorem holding_eq_empty_iff {vv : ι → S} {a : α} : holding vv a = ∅ ↔ ∀ b, a ∉ vv b := by
  simp [Finset.eq_empty_iff_forall_notMem]

/-- To go through all buckets is to meet a key once in each that holds it. -/
theorem count_flatMap [DecidableEq α] {n : Nat} (vv : Fin n → List α) (hnodup : ∀ b, (vv b).Nodup) (a : α) :
    ((List.finRange n).flatMap vv).count a = (holding vv a).card := by
  rw [List.count_flatMap, holding, Finset.card_filter, ← Fin.sum_univ_def]
  apply Finset.sum_congr rfl
  intro b _
  show (vv b).count a = _
  split
  · rename_i hmem
    exact List.count_eq_one_of_mem (hnodup b) hmem
  · rename_i hnot
    exact List.count_eq_zero_of_not_mem hnot

/-- A key is taken out of all buckets. -/
theorem holding_erase [DecidableEq α] (vv : ι → Finset α) (a x : α) :
    holding (fun b => (vv b).erase x) a = if a = x then ∅ else holding vv a := by
  split
  · rename_i heq
    rw [holding_eq_empty_iff, heq]
    exact fun b => Finset.notMem_erase x (vv b)
  · rename_i hne
    ext b
    rw [mem_holding, mem_holding, Finset.mem_erase, and_iff_right hne]

variable [DecidableEq ι]

omit [Membership α S] [Fintype ι] [∀ (a : α) (s : S), Decidable (a ∈ s)] in
/-- What holds of all buckets and of what one is overwritten with holds of all buckets afterwards. -/
theorem forall_update (P : S → Prop) {vv : ι → S} (h : ∀ b, P (vv b)) {b : ι} {s : S} (hs : P s) :
    ∀ c, P (Function.update vv b s c) := by
  intro c
  rw [Function.update_apply]
  split
  · exact hs
  · exact h c

/-- A bucket that is overwritten holds the key from then on, or no longer does. -/
theorem holding_update (vv : ι → S) (b : ι) (s : S) (a : α) :
    holding (Function.update vv b s) a = if a ∈ s then insert b (holding vv a) else (holding vv a).erase b := by
  ext c
  by_cases hc : c = b
  · subst hc
    rw [mem_holding, Function.update_self]
    split
    · simpa
    · simpa
  · rw [mem_holding, Function.update_of_ne hc]
    split
    · simp [hc]
    · simp [hc]

/-- Nothing changes for a key on which the old and the new bucket agree. -/
theorem holding_update_of_iff {vv : ι → S} {b : ι} {s : S} {a : α} (h : a ∈ s ↔ a ∈ vv b) :
    holding (Function.update vv b s) a = holding vv a := by
  ext c
  by_cases hc : c = b
  · subst hc
    rw [mem_holding, mem_holding, Function.update_self, h]
  · rw [mem_holding, mem_holding, Function.update_of_ne hc]

/-- A key goes into one more bucket. -/
theorem card_holding_update_add {vv : ι → S} {b : ι} {s : S} {a : α} (hs : a ∈ s) (hb : a ∉ vv b) :
    (holding (Function.update vv b s) a).card = (holding vv a).card + 1 := by
  rw [holding_update, if_pos hs, Finset.card_insert_of_notMem]
  rw [mem_holding]
  exact hb

/-- A key leaves one of its buckets. -/
theorem card_holding_update_drop {vv : ι → S} {b : ι} {s : S} {a : α} (hs : a ∉ s) (hb : a ∈ vv b) :
    (holding (Function.update vv b s) a).card + 1 = (holding vv a).card := by
  rw [holding_update, if_neg hs]
  exact Finset.card_erase_add_one (mem_holding.2 hb)

end Buckets

end Lib

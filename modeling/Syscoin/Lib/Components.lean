import Mathlib.Data.Set.Lattice
import Mathlib.Data.Set.Pairwise.Lattice
import Mathlib.Logic.Relation

/-!
# `Lib.Components` — what chains of overlapping sets connect

Two elements are linked by a family of sets if a chain of its sets leads from one to the other, each of them overlapping
with the next. Groups that cover the sets of the family, are disjoint, and hold linked elements only are the classes of
this relation (`Components.same_iff`). They can be found one set at a time: the groups that a new set hits are merged with
it, and the others stay (`Components.merge`).
-/

namespace Lib

variable {α ι : Type*} {F F' : Set (Set α)} {a b c : α} {S T : Set α}

/-- The next set of a chain. -/
def Overlaps (F : Set (Set α)) (S T : Set α) : Prop := T ∈ F ∧ (S ∩ T).Nonempty

/-- A chain of sets of the family leads from `a` to `b`. -/
def Chained (F : Set (Set α)) (a b : α) : Prop :=
  ∃ S ∈ F, ∃ T ∈ F, a ∈ S ∧ b ∈ T ∧ Relation.ReflTransGen (Overlaps F) S T

theorem Chained.of_mem (hS : S ∈ F) (ha : a ∈ S) (hb : b ∈ S) : Chained F a b := ⟨S, hS, S, hS, ha, hb, .refl⟩

theorem Chained.mono (hF : F ⊆ F') (h : Chained F a b) : Chained F' a b := by
  obtain ⟨S, hS, T, hT, ha, hb, hchain⟩ := h
  exact ⟨S, hF hS, T, hF hT, ha, hb, Relation.ReflTransGen.mono (fun _ _ hstep => ⟨hF hstep.1, hstep.2⟩) S T hchain⟩

theorem Chained.trans (hab : Chained F a b) (hbc : Chained F b c) : Chained F a c := by
  obtain ⟨S, hS, T, -, ha, hb, hfirst⟩ := hab
  obtain ⟨T', hT', U, hU, hb', hc, hsecond⟩ := hbc
  exact ⟨S, hS, U, hU, ha, hc, (hfirst.tail ⟨hT', b, hb, hb'⟩).trans hsecond⟩

theorem Chained.mem_left (h : Chained F a b) : ∃ S ∈ F, a ∈ S := by
  obtain ⟨S, hS, -, -, ha, -⟩ := h
  exact ⟨S, hS, ha⟩

/-- The groups at the places `live`. -/
structure Components (F : Set (Set α)) (live : Set ι) (group : ι → Set α) : Prop where
  nonempty : ∀ p ∈ live, (group p).Nonempty
  disjoint : ∀ p ∈ live, ∀ q ∈ live, ∀ a, a ∈ group p → a ∈ group q → p = q
  covered : ∀ S ∈ F, ∃ p ∈ live, S ⊆ group p
  linked : ∀ p ∈ live, ∀ a ∈ group p, ∀ b ∈ group p, Chained F a b

variable {live live' : Set ι} {group group' : ι → Set α} {p q m : ι} {G : Set α}

theorem Components.empty : Components (∅ : Set (Set α)) (∅ : Set ι) group where
  nonempty _ hp := hp.elim
  disjoint _ hp := hp.elim
  covered _ hS := hS.elim
  linked _ hp := hp.elim

/-- A chain does not leave its group. -/
theorem Components.chain (h : Components F live group) (hp : p ∈ live) (hS : S ⊆ group p)
    (hchain : Relation.ReflTransGen (Overlaps F) S T) : T ⊆ group p := by
  induction hchain with
  | refl => exact hS
  | tail _ hstep ih =>
    obtain ⟨hT, a, ha, ha'⟩ := hstep
    obtain ⟨q, hq, hsub⟩ := h.covered _ hT
    obtain rfl := h.disjoint p hp q hq a (ih ha) (hsub ha')
    exact hsub

/-- **The groups are the classes of the linked elements.** -/
theorem Components.same_iff (h : Components F live group) :
    (∃ p ∈ live, a ∈ group p ∧ b ∈ group p) ↔ Chained F a b := by
  constructor
  · rintro ⟨p, hp, ha, hb⟩
    exact h.linked p hp a ha b hb
  · rintro ⟨S, hS, T, -, ha, hb, hchain⟩
    obtain ⟨p, hp, hsub⟩ := h.covered S hS
    exact ⟨p, hp, hsub ha, h.chain hp hsub hchain hb⟩

theorem Components.mem_iff (h : Components F live group) : (∃ p ∈ live, a ∈ group p) ↔ ∃ S ∈ F, a ∈ S := by
  constructor
  · rintro ⟨p, hp, ha⟩
    exact (h.linked p hp a ha a ha).mem_left
  · rintro ⟨S, hS, ha⟩
    obtain ⟨p, hp, hsub⟩ := h.covered S hS
    exact ⟨p, hp, hsub ha⟩

/-- **Another set joins the groups that it hits**: they are replaced by one group, and the others stay. -/
theorem Components.merge (h : Components F live group) (hG : G.Nonempty)
    (hgroup : ∀ a, a ∈ group' m ↔ a ∈ G ∨ ∃ p ∈ live, a ∈ group p ∧ (group p ∩ G).Nonempty)
    (hlive : ∀ p, p ∈ live' ↔ p = m ∨ p ∈ live ∧ ¬ (group p ∩ G).Nonempty)
    (hsame : ∀ p ∈ live, ¬ (group p ∩ G).Nonempty → p ≠ m ∧ group' p = group p) :
    Components (insert G F) live' group' where
  nonempty p hp := by
    rcases (hlive p).mp hp with rfl | ⟨hp, hmiss⟩
    · obtain ⟨a, ha⟩ := hG
      exact ⟨a, (hgroup a).mpr (.inl ha)⟩
    · rw [(hsame p hp hmiss).2]
      exact h.nonempty p hp
  disjoint := by
    -- what is left does not meet the new group
    have hapart : ∀ q ∈ live, ¬ (group q ∩ G).Nonempty → ∀ a, a ∈ group' m → a ∈ group' q → False := by
      intro q hq hmiss a ha haq
      rw [(hsame q hq hmiss).2] at haq
      rcases (hgroup a).mp ha with haG | ⟨p, hp, hap, hhit⟩
      · exact hmiss ⟨a, haq, haG⟩
      · obtain rfl := h.disjoint p hp q hq a hap haq
        exact hmiss hhit
    intro p hp q hq a hap haq
    rcases (hlive p).mp hp with rfl | ⟨hp, hpmiss⟩
    · rcases (hlive q).mp hq with rfl | ⟨hq, hqmiss⟩
      · rfl
      · exact (hapart q hq hqmiss a hap haq).elim
    · rcases (hlive q).mp hq with rfl | ⟨hq, hqmiss⟩
      · exact (hapart p hp hpmiss a haq hap).elim
      · rw [(hsame p hp hpmiss).2] at hap
        rw [(hsame q hq hqmiss).2] at haq
        exact h.disjoint p hp q hq a hap haq
  covered S hS := by
    have hnew : m ∈ live' := (hlive m).mpr (.inl rfl)
    rcases hS with rfl | hS
    · exact ⟨m, hnew, fun a ha => (hgroup a).mpr (.inl ha)⟩
    · obtain ⟨p, hp, hsub⟩ := h.covered S hS
      by_cases hhit : (group p ∩ G).Nonempty
      · exact ⟨m, hnew, fun a ha => (hgroup a).mpr (.inr ⟨p, hp, hsub ha, hhit⟩)⟩
      · refine ⟨p, (hlive p).mpr (.inr ⟨hp, hhit⟩), ?_⟩
        rw [(hsame p hp hhit).2]
        exact hsub
  linked p hp := by
    have hold : ∀ {a b}, Chained F a b → Chained (insert G F) a b := fun h => h.mono (Set.subset_insert G F)
    rcases (hlive p).mp hp with rfl | ⟨hp, hmiss⟩
    · -- every element of the new group is linked with one of the set, in both directions
      have hjoin : ∀ a, a ∈ group' p → ∃ x ∈ G, Chained (insert G F) a x ∧ Chained (insert G F) x a := by
        intro a ha
        rcases (hgroup a).mp ha with haG | ⟨q, hq, haq, x, hxq, hxG⟩
        · exact ⟨a, haG, .of_mem (Set.mem_insert G F) haG haG, .of_mem (Set.mem_insert G F) haG haG⟩
        · exact ⟨x, hxG, hold (h.linked q hq a haq x hxq), hold (h.linked q hq x hxq a haq)⟩
      intro a ha b hb
      obtain ⟨x, hx, hax, -⟩ := hjoin a ha
      obtain ⟨y, hy, -, hyb⟩ := hjoin b hb
      exact (hax.trans (.of_mem (Set.mem_insert G F) hx hy)).trans hyb
    · rw [(hsame p hp hmiss).2]
      intro a ha b hb
      exact hold (h.linked p hp a ha b hb)

/-- Which groups there are does not depend on how they were found. -/
theorem Components.unique {ι' : Type*} {live₂ : Set ι'} {group₂ : ι' → Set α} (h : Components F live group)
    (h₂ : Components F live₂ group₂) : group '' live ⊆ group₂ '' live₂ := by
  rintro - ⟨p, hp, rfl⟩
  obtain ⟨a, ha⟩ := h.nonempty p hp
  obtain ⟨q, hq, haq⟩ := h₂.mem_iff.mpr (h.mem_iff.mp ⟨p, hp, ha⟩)
  refine ⟨q, hq, ?_⟩
  ext b
  constructor
  · intro hb
    obtain ⟨p', hp', ha', hb'⟩ := h.same_iff.mpr (h₂.linked q hq a haq b hb)
    rwa [h.disjoint p hp p' hp' a ha ha']
  · intro hb
    obtain ⟨q', hq', ha', hb'⟩ := h₂.same_iff.mpr (h.linked p hp a ha b hb)
    rwa [h₂.disjoint q hq q' hq' a haq ha']

end Lib

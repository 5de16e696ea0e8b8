import Mathlib.Data.List.Basic
import Mathlib.Data.Set.Basic
import Mathlib.Order.Basic

/-!
# `Lib.Attach` — attaching to what is there, and taking out

Items arrive one after the other. Each has an id and names the id of a parent, and can be attached once its parent is;
until then it waits. If nothing waits for a parent that is attached, then the ids that are attached are those that can be
reached from the first ones through items that have arrived (`Settled.attached_eq`). The order in which they came has no
part in that (`Settled.unique`).

A collection loses members. It is detached if nothing that is left depends on a member that went. Detaching is done piece
by piece, and a member may go once nothing is left that depends on it. Where dependence has no cycles, a recursion into
the dependents of a member ends: their number above a rank falls with each step.
-/

namespace Lib

universe u v

/-! ## Attaching -/

section Attach

variable {α : Type u} {κ : Type v} {ident parent : α → κ} {start attached attached' : Set κ}
  {arrived arrived' waiting waiting' : Set α}

/-- The id is among the first ones, or that of an item on top of another such id. -/
inductive Attachable (ident parent : α → κ) (start : Set κ) (arrived : Set α) : κ → Prop where
  | start {k : κ} (h : k ∈ start) : Attachable ident parent start arrived k
  | item {a : α} (h : a ∈ arrived) (below : Attachable ident parent start arrived (parent a)) :
      Attachable ident parent start arrived (ident a)

theorem Attachable.mono {k : κ} (h : Attachable ident parent start arrived k) (hsub : arrived ⊆ arrived') :
    Attachable ident parent start arrived' k := by
  induction h with
  | start h => exact .start h
  | item h _ ih => exact .item (hsub h) ih

/-- What has come, what is attached and what waits, when nothing waits in vain. -/
structure Settled (ident parent : α → κ) (start : Set κ) (arrived : Set α) (attached : Set κ) (waiting : Set α) :
    Prop where
  kept : start ⊆ attached
  sound : ∀ k ∈ attached, Attachable ident parent start arrived k
  covered : ∀ a ∈ arrived, ident a ∈ attached ∨ ∃ b ∈ waiting, ident b = ident a
  known : waiting ⊆ arrived
  apart : ∀ b ∈ waiting, parent b ∉ attached

/-- **What is attached is what can be attached**, if an id names one parent only. -/
theorem Settled.attached_eq (h : Settled ident parent start arrived attached waiting)
    (hkeyed : ∀ a ∈ arrived, ∀ b ∈ arrived, ident a = ident b → parent a = parent b) :
    attached = { k | Attachable ident parent start arrived k } := by
  apply Set.Subset.antisymm h.sound
  intro k hk
  induction hk with
  | start hk => exact h.kept hk
  | item ha _ ih =>
    refine (h.covered _ ha).resolve_right ?_
    rintro ⟨b, hb, heq⟩
    -- an item that waits under the same id has the same parent, which is attached
    rw [← hkeyed b (h.known hb) _ ha heq] at ih
    exact h.apart b hb ih

/-- **Any two orders lead to the same ids.** -/
theorem Settled.unique (h : Settled ident parent start arrived attached waiting)
    (h' : Settled ident parent start arrived' attached' waiting')
    (hkeyed : ∀ a ∈ arrived, ∀ b ∈ arrived, ident a = ident b → parent a = parent b) (hsame : arrived = arrived') :
    attached = attached' := by
  subst hsame
  rw [h.attached_eq hkeyed, h'.attached_eq hkeyed]

end Attach

/-! ## Detaching -/

section Detach

variable {α : Type} {dep : α → α → Prop} {p q r : List α} {a b : α}

/-- `q` is what is left of `p`, and nothing in it depends on what went. -/
structure Detached (dep : α → α → Prop) (p q : List α) : Prop where
  sublist : q.Sublist p
  closed : ∀ a ∈ p, a ∉ q → ∀ b ∈ q, ¬ dep b a

theorem Detached.refl (p : List α) : Detached dep p p :=
  ⟨List.Sublist.refl p, fun _ ha hna => absurd ha hna⟩

theorem Detached.trans (h : Detached dep p q) (h' : Detached dep q r) : Detached dep p r where
  sublist := h'.sublist.trans h.sublist
  closed := by
    intro a ha hna b hb
    by_cases hq : a ∈ q
    · exact h'.closed a hq hna b hb
    · exact h.closed a ha hq b (h'.sublist.subset hb)

/-- A member without dependents may go. -/
theorem Detached.drop (h : Detached dep p q) (hsub : r.Sublist q) (honly : ∀ b ∈ q, b ∉ r → b = a)
    (hfree : ∀ b ∈ q, ¬ dep b a) : Detached dep p r := by
  refine h.trans ⟨hsub, fun b hb hnb c hc => ?_⟩
  rw [honly b hb hnb]
  exact hfree c (hsub.subset hc)

section Rank

variable {rank : α → Nat}

/-- How many members rank above `a`. -/
def countAbove (rank : α → Nat) (p : List α) (a : α) : Nat := p.countP fun b => rank a < rank b

theorem countAbove_le_length (p : List α) (a : α) : countAbove rank p a ≤ p.length := List.countP_le_length

theorem countAbove_sublist (h : q.Sublist p) (a : α) : countAbove rank q a ≤ countAbove rank p a :=
  h.countP_le

/-- There are fewer above a member that ranks higher. -/
theorem countAbove_lt (hb : b ∈ p) (hrank : rank a < rank b) : countAbove rank p b < countAbove rank p a := by
  induction p with
  | nil => cases hb
  | cons c p ih =>
    unfold countAbove at ih ⊢
    rw [List.countP_cons, List.countP_cons]
    rcases List.mem_cons.mp hb with rfl | hb
    · -- `b` is above `a` and not above itself
      have hmono : p.countP (fun d => rank b < rank d) ≤ p.countP (fun d => rank a < rank d) := by
        refine List.countP_mono_left fun d _ hd => ?_
        rw [decide_eq_true_eq] at hd ⊢
        omega
      rw [if_neg (by simp), if_pos (by simpa using hrank)]
      omega
    · have hrec := ih hb
      by_cases hc : rank b < rank c
      · rw [if_pos (by simpa using hc), if_pos (by simp; omega)]
        omega
      · rw [if_neg (by simpa using hc)]
        omega

end Rank

end Detach

end Lib

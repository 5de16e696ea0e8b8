import Mathlib.Data.Fintype.Order
import Mathlib.Data.List.Nodup
import Mathlib.Logic.Relation
import Mathlib.Order.WellFoundedSet

/-!
# `Lib.Descent` — following a partial function to its end

A partial function leads from an element to the next one. `Ends` says that following it comes to an end. Where the
function has finitely many values, it ends exactly where no circle is reached (`ends_iff`), and within as many turns as
there are values (`Ends.within`).
-/

namespace Lib

section

variable {α : Type*} {next : α → Option α} {a b : α}

/-- Following `next` comes to an end. -/
inductive Ends (next : α → Option α) : α → Prop where
  | stop {a : α} (hstop : next a = none) : Ends next a
  | step {a b : α} (hstep : next a = some b) (rest : Ends next b) : Ends next a

def Leads (next : α → Option α) (a b : α) : Prop := next a = some b

/-- Following `next` leads back. -/
def OnCircle (next : α → Option α) (a : α) : Prop := Relation.TransGen (Leads next) a a

/-- A circle is reached. -/
def Circles (next : α → Option α) (a : α) : Prop := ∃ b, Relation.ReflTransGen (Leads next) a b ∧ OnCircle next b

theorem Leads.unique {c : α} (h : Leads next a b) (h' : Leads next a c) : b = c := Option.some.inj (h.symm.trans h')

theorem Ends.of_leads (h : Ends next a) (hleads : Leads next a b) : Ends next b := by
  cases h with
  | stop hstop => cases hstop.symm.trans hleads
  | step hstep rest =>
    cases Leads.unique hstep hleads
    exact rest

theorem Ends.of_reaches (h : Ends next a) (hreach : Relation.ReflTransGen (Leads next) a b) : Ends next b := by
  induction hreach with
  | refl => exact h
  | tail _ hleads ih => exact ih.of_leads hleads

/-- **What ends is on no circle.** -/
theorem Ends.not_onCircle (h : Ends next a) : ¬ OnCircle next a := by
  induction h with
  | stop hstop =>
    intro hcircle
    obtain ⟨b, hleads, -⟩ := Relation.TransGen.head'_iff.mp hcircle
    cases hstop.symm.trans hleads
  | @step a b hstep rest ih =>
    intro hcircle
    -- the circle goes through the next element
    obtain ⟨c, hleads, hback⟩ := Relation.TransGen.head'_iff.mp hcircle
    cases Leads.unique hstep hleads
    exact ih (Relation.TransGen.tail' hback hstep)

/-! ## Finitely many values -/

variable {values : List α}

/-- What is reached is where one started, or a value. -/
theorem mem_of_reaches (hvalues : ∀ a b, next a = some b → b ∈ values)
    (hreach : Relation.ReflTransGen (Leads next) a b) : b ∈ a :: values := by
  cases hreach with
  | refl => exact List.mem_cons_self
  | tail _ hleads => exact List.mem_cons_of_mem _ (hvalues _ _ hleads)

/-- **Without a circle it ends.** Among finitely many elements, leading on is well-founded. -/
theorem ends_of_not_circles (hvalues : ∀ a b, next a = some b → b ∈ values) (h : ¬ Circles next a) : Ends next a := by
  let S := {b // Relation.ReflTransGen (Leads next) a b}
  have hfinite : Finite S := by
    refine Set.Finite.subset (List.finite_toSet (a :: values)) ?_
    intro b hreach
    exact mem_of_reaches hvalues hreach
  let r : S → S → Prop := fun x y => Relation.TransGen (Leads next) y.1 x.1
  have htrans : IsTrans S r := ⟨fun _ _ _ hxy hyz => hyz.trans hxy⟩
  have hirrefl : Std.Irrefl r := ⟨fun x hcircle => h ⟨x.1, x.2, hcircle⟩⟩
  have hwf : WellFounded r := Finite.wellFounded_of_trans_of_irrefl r
  have hall : ∀ x : S, Ends next x.1 := by
    intro x
    induction x using hwf.induction with
    | _ x ih =>
      cases hnext : next x.1 with
      | none => exact .stop hnext
      | some b => exact .step hnext (ih ⟨b, x.2.tail hnext⟩ (.single hnext))
  exact hall ⟨a, .refl⟩

/-- **Following a function with finitely many values ends, or reaches a circle.** -/
theorem ends_iff (hvalues : ∀ a b, next a = some b → b ∈ values) : Ends next a ↔ ¬ Circles next a := by
  constructor
  · rintro hends ⟨b, hreach, hcircle⟩
    exact (hends.of_reaches hreach).not_onCircle hcircle
  · exact ends_of_not_circles hvalues

/-- Following `next` ends within a number of turns. -/
def EndsWithin (next : α → Option α) : Nat → α → Prop
  | 0, a => next a = none
  | n + 1, a => ∀ b, next a = some b → EndsWithin next n b

theorem endsWithin_of_stop (hstop : next a = none) (n : Nat) : EndsWithin next n a := by
  cases n with
  | zero => exact hstop
  | succ n =>
    intro b hnext
    cases hstop.symm.trans hnext

/-- **No turn comes to a value again**, so that there are at most as many turns as values. -/
theorem Ends.within [DecidableEq α] (h : Ends next a) (hvalues : ∀ b, Relation.TransGen (Leads next) a b → b ∈ values) :
    EndsWithin next values.length a := by
  induction h generalizing values with
  | stop hstop => exact endsWithin_of_stop hstop _
  | @step a b hstep rest ih =>
    have hb : b ∈ values := hvalues b (.single hstep)
    have hrest : EndsWithin next (values.erase b).length b := by
      refine ih fun c hreach => ?_
      have hne : c ≠ b := by
        rintro rfl
        exact rest.not_onCircle hreach
      exact (List.mem_erase_of_ne hne).mpr (hvalues c (.head hstep hreach))
    have hlength : values.length = (values.erase b).length + 1 := by
      rw [List.length_erase_of_mem hb]
      have hpos := List.length_pos_of_mem hb
      omega
    rw [hlength]
    intro c hnext
    cases Leads.unique hstep hnext
    exact hrest

end

end Lib

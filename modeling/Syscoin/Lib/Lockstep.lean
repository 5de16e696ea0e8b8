import Syscoin.Lib.Proc

/-!
# `Lib.Lockstep` — two runs of a procedure side by side

Does the outcome depend on a part of the state? To show that it does not, run the procedure from two states that
agree on the rest and compare. `Agree R` compares the results of two checks: both succeed, with values related by
`R`, or both fail. `Lockstep S R` compares two procedures: from states related by `S` they agree, and after a
success the states are related by `S` again. What a failure leaves in the state is not compared.

The rules follow the shape of a procedure: `Lockstep.lift`, `Lockstep.pure`, `Lockstep.update`, `Lockstep.bind` and
`Lockstep.foldM`, with `Agree.bind` and `Agree.require` for the checks inside.
-/

namespace Lib

universe u

variable {σ ε α α' β β' : Type u}

/-! ## Checks -/

/-- Both succeed with related values, or both fail. -/
inductive Agree (R : α → β → Prop) : Except ε α → Except ε β → Prop where
  | ok {a : α} {b : β} (h : R a b) : Agree R (.ok a) (.ok b)
  | error {e e' : ε} : Agree R (.error e) (.error e')

namespace Agree

variable {R : α → β → Prop} {Q : α' → β' → Prop}

theorem refl {R : α → α → Prop} (hR : ∀ a, R a a) (x : Except ε α) : Agree R x x := by
  cases x with
  | error e => exact .error
  | ok a => exact .ok (hR a)

theorem bind {x : Except ε α} {y : Except ε β} {f : α → Except ε α'} {g : β → Except ε β'} (hxy : Agree R x y)
    (hfg : ∀ a b, R a b → Agree Q (f a) (g b)) : Agree Q (x >>= f) (y >>= g) := by
  cases hxy with
  | ok h => exact hfg _ _ h
  | error => exact .error

/-- Equivalent guards. -/
theorem require {c c' : Prop} [Decidable c] [Decidable c'] {e e' : ε} (h : c ↔ c') :
    Agree (fun _ _ => True) (Lib.require c e) (Lib.require c' e') := by
  unfold Lib.require
  by_cases hc : c
  · rw [if_pos hc, if_pos (h.mp hc)]
    exact .ok trivial
  · rw [if_neg hc, if_neg (hc ∘ h.mpr)]
    exact .error

end Agree

/-! ## Procedures -/

/-- The outcomes agree, and so do the states after a success. -/
inductive Paired (S : σ → σ → Prop) (R : α → β → Prop) : Except ε α × σ → Except ε β × σ → Prop where
  | ok {a : α} {b : β} {s t : σ} (h : R a b) (hs : S s t) : Paired S R (.ok a, s) (.ok b, t)
  | error {e e' : ε} {s t : σ} : Paired S R (.error e, s) (.error e', t)

theorem Paired.isOk_eq {S : σ → σ → Prop} {R : α → β → Prop} {x : Except ε α × σ} {y : Except ε β × σ}
    (h : Paired S R x y) : x.1.isOk = y.1.isOk := by
  cases h <;> rfl

/-- From related states the procedures agree. -/
def Lockstep (S : σ → σ → Prop) (R : α → β → Prop) (x : Proc σ ε α) (y : Proc σ ε β) : Prop :=
  ∀ s t, S s t → Paired S R (x s) (y t)

namespace Lockstep

variable {S : σ → σ → Prop} {R : α → β → Prop} {Q : α' → β' → Prop}

theorem pure {a : α} {b : β} (h : R a b) : Lockstep S R (Pure.pure a : Proc σ ε α) (Pure.pure b) :=
  fun _ _ hs => .ok h hs

theorem lift {x : Except ε α} {y : Except ε β} (h : Agree R x y) : Lockstep S R (Proc.lift x) (Proc.lift y) := by
  intro s t hs
  cases h with
  | ok h => exact .ok h hs
  | error => exact .error

theorem update {f g : σ → Except ε σ} (h : ∀ s t, S s t → Agree S (f s) (g t)) :
    Lockstep S (fun _ _ => True) (Proc.update f) (Proc.update g) := by
  intro s t hs
  have hfg := h s t hs
  unfold Proc.update
  revert hfg
  generalize f s = x
  generalize g t = y
  rintro (h | _)
  · exact .ok trivial h
  · exact .error

theorem bind {x : Proc σ ε α} {y : Proc σ ε β} {f : α → Proc σ ε α'} {g : β → Proc σ ε β'} (hxy : Lockstep S R x y)
    (hfg : ∀ a b, R a b → Lockstep S Q (f a) (g b)) : Lockstep S Q (x >>= f) (y >>= g) := by
  intro s t hs
  have hrun := hxy s t hs
  show Paired S Q (Proc.bind x f s) (Proc.bind y g t)
  unfold Proc.bind
  revert hrun
  generalize x s = r
  generalize y t = r'
  rintro (⟨h, hs'⟩ | _)
  · exact hfg _ _ h _ _ hs'
  · exact .error

theorem foldM {α : Type u} {β β' : Type u} {R : β → β' → Prop} {f : β → α → Proc σ ε β} {g : β' → α → Proc σ ε β'}
    {as : List α} (hfg : ∀ a ∈ as, ∀ b b', R b b' → Lockstep S R (f b a) (g b' a)) :
    ∀ b b', R b b' → Lockstep S R (Proc.foldM f as b) (Proc.foldM g as b') := by
  induction as with
  | nil => exact fun b b' h => Lockstep.pure h
  | cons a as ih =>
    intro b b' h
    have hrest := ih fun a' ha' => hfg a' (List.mem_cons_of_mem a ha')
    exact Lockstep.bind (hfg a List.mem_cons_self b b' h) hrest

end Lockstep

end Lib

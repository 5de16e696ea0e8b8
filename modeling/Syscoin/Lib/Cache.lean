import Mathlib.Logic.Basic

/-!
# `Lib.Cache` — a result that is kept beside a flag

A result that is expensive to compute is kept together with a flag that says whether it was. Whoever asks for it gets what
is kept when the flag is set; otherwise it is computed and, unless that fails, kept. Nothing here says when the flag is
cleared: that is up to the owner, and the one thing to prove is that the cell *agrees* with the computation at the time
that it is asked.
-/

namespace Lib

variable {ε α : Type}

/-- A kept result and its flag. -/
structure Cached (α : Type) where
  fCached : Bool
  nCached : α
deriving DecidableEq, Repr

namespace Cached

/-- The flag is cleared, the result stays. -/
def clear (c : Cached α) : Cached α := { c with fCached := false }

/-- What the owner is told, and the cell that it leaves. A computation that fails keeps nothing. The owner may ask past
    what is kept. -/
def get (fUseCache : Bool) (fresh : Except ε α) (c : Cached α) : Except ε α × Cached α :=
  if fUseCache && c.fCached then (.ok c.nCached, c)
  else
    match fresh with
    | .ok a => (.ok a, ⟨true, a⟩)
    | .error e => (.error e, c)

/-- What is kept is what the computation would give. -/
def Agrees (fresh : Except ε α) (c : Cached α) : Prop := c.fCached = true → fresh = .ok c.nCached

theorem agrees_of_not_cached {fresh : Except ε α} {c : Cached α} (h : c.fCached = false) : c.Agrees fresh := by
  intro hset
  rw [h] at hset
  cases hset

/-- The cell tells the truth just when it agrees. -/
theorem get_eq_iff {fresh : Except ε α} {c : Cached α} : (c.get true fresh).1 = fresh ↔ c.Agrees fresh := by
  unfold get Agrees
  cases hset : c.fCached with
  | true => exact ⟨fun h _ => h.symm, fun h => (h rfl).symm⟩
  | false =>
    refine ⟨fun _ h => absurd h Bool.false_ne_true, fun _ => ?_⟩
    cases fresh with
    | error e => rfl
    | ok a => rfl

/-- Asking leaves a cell that agrees as one that agrees. -/
theorem Agrees.get {fresh : Except ε α} {c : Cached α} (h : c.Agrees fresh) (fUseCache : Bool) :
    (c.get fUseCache fresh).2.Agrees fresh := by
  unfold Cached.get
  by_cases hkept : (fUseCache && c.fCached) = true
  · rw [if_pos hkept]
    exact h
  · rw [if_neg hkept]
    cases fresh with
    | error e => exact h
    | ok a => exact fun _ => rfl

/-- A flag that is clear leaves nothing to tell but what is computed. -/
@[simp] theorem get_clear (fUseCache : Bool) (fresh : Except ε α) (c : Cached α) :
    (c.clear.get fUseCache fresh).1 = fresh := by
  unfold get
  rw [if_neg (by simp [clear])]
  cases fresh with
  | error e => rfl
  | ok a => rfl

end Cached

end Lib

/-! ## Layers of partial values

A stack of layers, top first, each with a value or without one. The stack shows the first value there is, and what lies
at the bottom if there is none. A layer can be merged into the one below it without changing what shows.
-/

namespace Lib

variable {α : Type}

def overlay (layers : List (Option α)) (bottom : Option α) : Option α := layers.foldr Option.or bottom

@[simp] theorem overlay_nil (bottom : Option α) : overlay [] bottom = bottom := rfl

@[simp] theorem overlay_cons (x : Option α) (layers : List (Option α)) (bottom : Option α) :
    overlay (x :: layers) bottom = x.or (overlay layers bottom) := rfl

theorem overlay_append (upper lower : List (Option α)) (bottom : Option α) :
    overlay (upper ++ lower) bottom = overlay upper (overlay lower bottom) :=
  List.foldr_append

theorem overlay_of_clear {layers : List (Option α)} (h : ∀ x ∈ layers, x = none) (bottom : Option α) :
    overlay layers bottom = bottom := by
  induction layers with
  | nil => rfl
  | cons x layers ih =>
    rw [List.forall_mem_cons] at h
    rw [overlay_cons, h.1, Option.none_or, ih h.2]

/-- Layers either show through or hide what is below. -/
theorem overlay_clear_or (layers : List (Option α)) :
    (∀ bottom, overlay layers bottom = bottom) ∨ ∀ bottom bottom', overlay layers bottom = overlay layers bottom' := by
  induction layers with
  | nil => exact .inl fun _ => rfl
  | cons x layers ih =>
    cases x with
    | some a => exact .inr fun _ _ => rfl
    | none => exact ih

theorem eq_none_of_overlay_clear {layers : List (Option α)} (h : ∀ bottom, overlay layers bottom = bottom)
    {x : Option α} (hx : x ∈ layers) : x = none := by
  induction layers with
  | nil => cases hx
  | cons y layers ih =>
    have hnone := h none
    rw [overlay_cons, Option.or_eq_none_iff] at hnone
    rcases List.mem_cons.mp hx with rfl | hx
    · exact hnone.1
    · apply ih _ hx
      intro bottom
      have hbottom := h bottom
      rwa [overlay_cons, hnone.1, Option.none_or] at hbottom

theorem overlay_merge (x y : Option α) (layers : List (Option α)) (bottom : Option α) :
    overlay (none :: x.or y :: layers) bottom = overlay (x :: y :: layers) bottom := by
  simp only [overlay_cons, Option.none_or, Option.or_assoc]

end Lib

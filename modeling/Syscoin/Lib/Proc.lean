import Mathlib.Logic.Relation

/-!
# `Lib.Proc` — procedures whose writes survive a failed return

Two ways for a check to fail, kept apart:

* **pure checks** are `Except ε α` values; `require` is the guard, and `Except.bind_ok_iff` peels a
  sequence of guards apart without unfolding anything;
* **procedures** are `Proc σ ε α`, state transformers that return a result *and* a state even when they
  fail. A thrown error stops the procedure but does not roll back what it already wrote — the reason
  why `Except ε (α × σ)` would be the wrong model of a routine that writes to a database as it goes.

Nothing here knows what the state is. Clients use `Proc.bind_ok_iff` (a sequence succeeds iff its parts
do) and the `Keeps` rules: `Proc.Keeps R x` says that `x` relates the state before to the state after by
`R`, whether it succeeds or fails. `Proc.bind_ends` follows a single run into both outcomes.
-/

namespace Lib

universe u

/-! ## Guards -/

section Guards

variable {ε α β : Type u}

/-- Succeed iff `c` holds; otherwise fail with `e`. -/
def require (c : Prop) [Decidable c] (e : ε) : Except ε PUnit :=
  if c then .ok ⟨⟩ else .error e

@[simp] theorem require_ok_iff {c : Prop} [Decidable c] {e : ε} {x : PUnit} :
    require c e = .ok x ↔ c := by
  unfold require
  by_cases h : c <;> simp [h]

/-- A sequence of two checks succeeds iff the first does and the second does on its result. -/
theorem Except.bind_ok_iff {x : Except ε α} {f : α → Except ε β} {b : β} :
    (x >>= f) = .ok b ↔ ∃ a, x = .ok a ∧ f a = .ok b := by
  cases x with
  | error e => simp [bind, Except.bind]
  | ok a => simp [bind, Except.bind]

/-- A check fails iff it does not succeed. -/
theorem Except.isError_iff {x : Except ε α} : (∃ e, x = .error e) ↔ ¬ ∃ a, x = .ok a := by
  cases x <;> simp

/-- A check followed by something that cannot fail succeeds iff the check does. -/
theorem Except.exists_bind_ok_iff {x : Except ε PUnit} {f : PUnit → Except ε β} (hf : ∃ b, f ⟨⟩ = .ok b) :
    (∃ b, (x >>= f) = .ok b) ↔ x = .ok ⟨⟩ := by
  obtain ⟨b, hb⟩ := hf
  constructor
  · rintro ⟨b', h⟩
    obtain ⟨⟨⟩, hx, -⟩ := Except.bind_ok_iff.mp h
    exact hx
  · intro hx
    exact ⟨b, Except.bind_ok_iff.mpr ⟨⟨⟩, hx, hb⟩⟩

/-- A guard in front of a check: the guard holds and the rest succeeds. -/
@[simp] theorem require_bind_ok_iff {c : Prop} [Decidable c] {e : ε} {f : PUnit → Except ε β} {b : β} :
    (require c e >>= f) = .ok b ↔ c ∧ f ⟨⟩ = .ok b := by
  rw [Except.bind_ok_iff]
  constructor
  · rintro ⟨⟨⟩, hc, hf⟩; exact ⟨require_ok_iff.mp hc, hf⟩
  · rintro ⟨hc, hf⟩; exact ⟨⟨⟩, require_ok_iff.mpr hc, hf⟩

/-- A check of every member of a list. -/
theorem Except.forM_ok_iff {f : α → Except ε PUnit.{u + 1}} {as : List α} :
    as.forM f = .ok ⟨⟩ ↔ ∀ a ∈ as, f a = .ok ⟨⟩ := by
  induction as with
  | nil => simp [List.forM, pure, Except.pure]
  | cons a as ih =>
    show (f a >>= fun _ => as.forM f) = .ok ⟨⟩ ↔ _
    rw [Except.bind_ok_iff, List.forall_mem_cons, ← ih]
    constructor
    · rintro ⟨⟨⟩, ha, has⟩
      exact ⟨ha, has⟩
    · rintro ⟨ha, has⟩
      exact ⟨⟨⟩, ha, has⟩

/-- The failing counterpart of `require_bind_ok_iff`, used where rejection is what has to be shown. -/
theorem require_bind_of_not {c : Prop} [Decidable c] {e : ε} {f : PUnit → Except ε β} (h : ¬ c) :
    (require c e >>= f) = .error e := by
  unfold require
  rw [if_neg h]
  rfl

/-! ## Which errors come out -/

/-- Whatever a check fails with satisfies `P`. -/
def Except.Throws (P : ε → Prop) (x : Except ε α) : Prop := ∀ e, x = .error e → P e

section Throws

variable {P : ε → Prop}

theorem Except.Throws.of_ok {a : α} : Except.Throws P (.ok a : Except ε α) := by
  intro e h
  cases h

theorem Except.Throws.of_error {e : ε} (h : P e) : Except.Throws P (.error e : Except ε α) := by
  intro e' he
  cases he
  exact h

theorem Except.Throws.of_require {c : Prop} [Decidable c] {e : ε} (h : P e) : Except.Throws P (require c e) := by
  unfold require
  split
  · exact .of_ok
  · exact .of_error h

theorem Except.Throws.bind {x : Except ε α} {f : α → Except ε β} (hx : Except.Throws P x)
    (hf : ∀ a, x = .ok a → Except.Throws P (f a)) : Except.Throws P (x >>= f) := by
  cases x with
  | error e => exact .of_error (hx e rfl)
  | ok a => exact hf a rfl

/-- A guard in front of a check. -/
theorem Except.Throws.guard {c : Prop} [Decidable c] {e : ε} {f : PUnit → Except ε β} (h : P e)
    (hf : c → Except.Throws P (f ⟨⟩)) : Except.Throws P (require c e >>= f) :=
  (Except.Throws.of_require h).bind fun _ hc => hf (require_ok_iff.mp hc)

theorem Except.Throws.forM {f : α → Except ε PUnit} {as : List α} (hf : ∀ a ∈ as, Except.Throws P (f a)) :
    Except.Throws P (as.forM f) := by
  induction as with
  | nil => exact .of_ok
  | cons a as ih =>
    obtain ⟨hhead, htail⟩ := List.forall_mem_cons.mp hf
    exact hhead.bind fun _ _ => ih htail

end Throws

end Guards

/-! ## Procedures -/

/-- A procedure over a global state `σ`: it returns a result or an error, and a state in both cases. -/
def Proc (σ ε α : Type u) : Type u := σ → Except ε α × σ

namespace Proc

variable {σ ε α β : Type u}

/-- Return `a` and write nothing. -/
protected def pure (a : α) : Proc σ ε α := fun s => (.ok a, s)

/-- Run `x`; on success continue with `f` from the state `x` left, on failure stop *in that state*. -/
protected def bind (x : Proc σ ε α) (f : α → Proc σ ε β) : Proc σ ε β := fun s =>
  match x s with
  | (.ok a, s₁)    => f a s₁
  | (.error e, s₁) => (.error e, s₁)

instance : Monad (Proc σ ε) where
  pure := Proc.pure
  bind := Proc.bind

/-- A check that only reads its arguments, run as a procedure. -/
def lift (x : Except ε α) : Proc σ ε α := fun s => (x, s)

/-- Replace the state by what a check computes from it; a failed check leaves the state alone. -/
def update (f : σ → Except ε σ) : Proc σ ε PUnit := fun s =>
  match f s with
  | .ok s'   => (.ok ⟨⟩, s')
  | .error e => (.error e, s)

/-- Run `f` for every element of a list, stopping at the first failure. -/
def foldM (f : β → α → Proc σ ε β) : List α → β → Proc σ ε β
  | [],      b => Proc.pure b
  | a :: as, b => Proc.bind (f b a) (fun b' => foldM f as b')

@[simp] theorem pure_apply (a : α) (s : σ) : (Pure.pure a : Proc σ ε α) s = (.ok a, s) := rfl

@[simp] theorem lift_apply (x : Except ε α) (s : σ) : (lift x : Proc σ ε α) s = (x, s) := rfl

/-- A first part that succeeds is followed by the second. -/
theorem bind_of_ok {x : Proc σ ε α} {f : α → Proc σ ε β} {s s₁ : σ} {a : α} (h : x s = (.ok a, s₁)) :
    (x >>= f) s = f a s₁ := by
  show Proc.bind x f s = f a s₁
  unfold Proc.bind
  rw [h]

/-- A first part that fails is all that happens. -/
theorem bind_of_error {x : Proc σ ε α} {f : α → Proc σ ε β} {s s₁ : σ} {e : ε} (h : x s = (.error e, s₁)) :
    (x >>= f) s = (.error e, s₁) := by
  show Proc.bind x f s = (.error e, s₁)
  unfold Proc.bind
  rw [h]

/-- A sequence succeeds iff both parts do, the second from the state the first left. -/
theorem bind_ok_iff {x : Proc σ ε α} {f : α → Proc σ ε β} {s s' : σ} {b : β} :
    (x >>= f) s = (.ok b, s') ↔ ∃ a s₁, x s = (.ok a, s₁) ∧ f a s₁ = (.ok b, s') := by
  show (match x s with
        | (.ok a, s₁)    => f a s₁
        | (.error e, s₁) => (.error e, s₁)) = (.ok b, s') ↔ _
  rcases x s with ⟨_ | a, s₁⟩
  · simp
  · constructor
    · intro h; exact ⟨a, s₁, rfl, h⟩
    · rintro ⟨_, _, h₁, h⟩; cases h₁; exact h

/-- Sequencing is associative: a part of a procedure can be named on its own. -/
theorem bind_assoc {γ : Type u} {x : Proc σ ε α} {f : α → Proc σ ε β} {g : β → Proc σ ε γ} :
    (x >>= f) >>= g = x >>= fun a => f a >>= g := by
  funext s
  show Proc.bind (Proc.bind x f) g s = Proc.bind x (fun a => Proc.bind (f a) g) s
  unfold Proc.bind
  rcases x s with ⟨e | a, s₁⟩ <;> rfl

/-- A sequence fails iff its first part does, or the second does from the state the first left. -/
theorem bind_error_iff {x : Proc σ ε α} {f : α → Proc σ ε β} {s s' : σ} {e : ε} :
    (x >>= f) s = (.error e, s') ↔
      x s = (.error e, s') ∨ ∃ a s₁, x s = (.ok a, s₁) ∧ f a s₁ = (.error e, s') := by
  show (match x s with
        | (.ok a, s₁)    => f a s₁
        | (.error e, s₁) => (.error e, s₁)) = (.error e, s') ↔ _
  rcases x s with ⟨_ | a, s₁⟩
  · simp
  · constructor
    · intro h; exact .inr ⟨a, s₁, rfl, h⟩
    · rintro (h₁ | ⟨_, _, h₁, h⟩)
      · cases h₁
      · cases h₁; exact h

theorem lift_ok_iff {x : Except ε α} {s s' : σ} {a : α} :
    (lift x : Proc σ ε α) s = (.ok a, s') ↔ x = .ok a ∧ s' = s := by
  simp [eq_comm]

theorem update_ok_iff {f : σ → Except ε σ} {s s' : σ} {x : PUnit} :
    (update f : Proc σ ε PUnit) s = (.ok x, s') ↔ f s = .ok s' := by
  unfold update
  rcases f s with e | s₁
  · simp
  · simp

theorem lift_error_iff {x : Except ε α} {s s' : σ} {e : ε} :
    (lift x : Proc σ ε α) s = (.error e, s') ↔ x = .error e ∧ s' = s := by
  simp [eq_comm]

theorem update_error_iff {f : σ → Except ε σ} {s s' : σ} {e : ε} :
    (update f : Proc σ ε PUnit) s = (.error e, s') ↔ f s = .error e ∧ s' = s := by
  unfold update
  rcases f s with e | s₁
  · simp [eq_comm]
  · simp

/-- A check in front of a procedure: it succeeds, and the rest runs from the same state. -/
theorem lift_bind_ok_iff {x : Except ε α} {f : α → Proc σ ε β} {s s' : σ} {b : β} :
    (lift x >>= f) s = (.ok b, s') ↔ ∃ a, x = .ok a ∧ f a s = (.ok b, s') := by
  rw [bind_ok_iff]
  constructor
  · rintro ⟨a, s₁, hx, hf⟩
    obtain ⟨ha, hs⟩ := lift_ok_iff.mp hx
    exact ⟨a, ha, hs ▸ hf⟩
  · rintro ⟨a, hx, hf⟩
    exact ⟨a, s, lift_ok_iff.mpr ⟨hx, rfl⟩, hf⟩

/-- A guard in front of a procedure. -/
theorem require_bind_ok_iff {c : Prop} [Decidable c] {e : ε} {f : PUnit → Proc σ ε β} {s s' : σ} {b : β} :
    (lift (require c e) >>= f) s = (.ok b, s') ↔ c ∧ f ⟨⟩ s = (.ok b, s') := by
  rw [lift_bind_ok_iff]
  constructor
  · rintro ⟨⟨⟩, hc, hf⟩; exact ⟨require_ok_iff.mp hc, hf⟩
  · rintro ⟨hc, hf⟩; exact ⟨⟨⟩, require_ok_iff.mpr hc, hf⟩

/-- A state update in front of a procedure. -/
theorem update_bind_ok_iff {g : σ → Except ε σ} {f : PUnit → Proc σ ε β} {s s' : σ} {b : β} :
    (update g >>= f) s = (.ok b, s') ↔ ∃ s₁, g s = .ok s₁ ∧ f ⟨⟩ s₁ = (.ok b, s') := by
  rw [bind_ok_iff]
  constructor
  · rintro ⟨⟨⟩, s₁, hg, hf⟩; exact ⟨s₁, update_ok_iff.mp hg, hf⟩
  · rintro ⟨s₁, hg, hf⟩; exact ⟨⟨⟩, s₁, update_ok_iff.mpr hg, hf⟩

theorem foldM_nil (f : β → α → Proc σ ε β) (b : β) (s : σ) : foldM f [] b s = (.ok b, s) := rfl

theorem foldM_cons (f : β → α → Proc σ ε β) (a : α) (as : List α) (b : β) (s : σ) :
    foldM f (a :: as) b s = match f b a s with
      | (.ok b', s₁)   => foldM f as b' s₁
      | (.error e, s₁) => (.error e, s₁) := rfl

theorem foldM_cons_ok_iff {f : β → α → Proc σ ε β} {a : α} {as : List α} {b b' : β} {s s' : σ} :
    foldM f (a :: as) b s = (.ok b', s') ↔
      ∃ b₁ s₁, f b a s = (.ok b₁, s₁) ∧ foldM f as b₁ s₁ = (.ok b', s') :=
  bind_ok_iff

theorem foldM_append_ok_iff {f : β → α → Proc σ ε β} {as as' : List α} {b b' : β} {s s' : σ} :
    foldM f (as ++ as') b s = (.ok b', s') ↔
      ∃ b₁ s₁, foldM f as b s = (.ok b₁, s₁) ∧ foldM f as' b₁ s₁ = (.ok b', s') := by
  induction as generalizing b s with
  | nil => simp [foldM_nil, and_assoc]
  | cons a as ih =>
    rw [List.cons_append, foldM_cons_ok_iff]
    constructor
    · rintro ⟨b₁, s₁, hd, tl⟩
      obtain ⟨b₂, s₂, hl, hr⟩ := ih.mp tl
      exact ⟨b₂, s₂, foldM_cons_ok_iff.mpr ⟨b₁, s₁, hd, hl⟩, hr⟩
    · rintro ⟨b₂, s₂, hl, hr⟩
      obtain ⟨b₁, s₁, hd, tl⟩ := foldM_cons_ok_iff.mp hl
      exact ⟨b₁, s₁, hd, ih.mpr ⟨b₂, s₂, tl, hr⟩⟩

theorem foldM_snoc_ok_iff {f : β → α → Proc σ ε β} {a : α} {as : List α} {b b' : β} {s s' : σ} :
    foldM f (as ++ [a]) b s = (.ok b', s') ↔
      ∃ b₁ s₁, foldM f as b s = (.ok b₁, s₁) ∧ f b₁ a s₁ = (.ok b', s') := by
  simp only [foldM_append_ok_iff, foldM_cons_ok_iff, foldM_nil, Prod.mk.injEq, Except.ok.injEq]
  constructor
  · rintro ⟨b₁, s₁, hl, b₂, s₂, hr, rfl, rfl⟩
    exact ⟨b₁, s₁, hl, hr⟩
  · rintro ⟨b₁, s₁, hl, hr⟩
    exact ⟨b₁, s₁, hl, b', s', hr, rfl, rfl⟩

/-- What every iteration that goes through keeps, the whole loop keeps. -/
theorem foldM_ok_invariant {J : β → σ → Prop} {f : β → α → Proc σ ε β} {as : List α}
    (hstep : ∀ a ∈ as, ∀ {b s b' s'}, J b s → f b a s = (.ok b', s') → J b' s') {b b' : β} {s s' : σ}
    (hJ : J b s) (h : foldM f as b s = (.ok b', s')) : J b' s' := by
  induction as generalizing b s with
  | nil =>
    rw [foldM_nil] at h
    simp only [Prod.mk.injEq, Except.ok.injEq] at h
    obtain ⟨rfl, rfl⟩ := h
    exact hJ
  | cons a as ih =>
    obtain ⟨b₁, s₁, hd, tl⟩ := foldM_cons_ok_iff.mp h
    exact ih (fun a' ha' => hstep a' (List.mem_cons_of_mem a ha')) (hstep a List.mem_cons_self hJ hd) tl

/-! ## One run, step by step -/

/-- The state a sequence ends in: the one its first part failed in, or the one the second ends in. -/
theorem bind_ends {P : σ → Prop} {x : Proc σ ε α} {f : α → Proc σ ε β} {s : σ}
    (herror : ∀ e s₁, x s = (.error e, s₁) → P s₁) (hok : ∀ a s₁, x s = (.ok a, s₁) → P (f a s₁).2) :
    P ((x >>= f) s).2 := by
  show P (match x s with
        | (.ok a, s₁)    => f a s₁
        | (.error e, s₁) => (.error e, s₁)).2
  rcases hx : x s with ⟨e | a, s₁⟩
  · exact herror e s₁ hx
  · exact hok a s₁ hx

/-- A check in front: the state stays, or the rest runs from it. -/
theorem lift_bind_ends {P : σ → Prop} {x : Except ε α} {f : α → Proc σ ε β} {s : σ}
    (herror : ∀ e, x = .error e → P s) (hok : ∀ a, x = .ok a → P (f a s).2) : P ((lift x >>= f) s).2 := by
  refine bind_ends (fun e s₁ hrun => ?_) (fun a s₁ hrun => ?_)
  · obtain ⟨hx, rfl⟩ := lift_error_iff.mp hrun
    exact herror e hx
  · obtain ⟨hx, rfl⟩ := lift_ok_iff.mp hrun
    exact hok a hx

/-- A state update ends in the state it started from, or in the one it computed. -/
theorem update_ends {P : σ → Prop} {f : σ → Except ε σ} {s : σ} (hs : P s) (hok : ∀ s', f s = .ok s' → P s') :
    P ((update f : Proc σ ε PUnit) s).2 := by
  unfold update
  rcases hf : f s with e | s'
  · exact hs
  · exact hok s' hf

/-! ## Which errors come out of a procedure -/

/-- Whatever the procedure fails with, started from `s`, satisfies `P`. -/
def Throws (P : ε → Prop) (x : Proc σ ε α) (s : σ) : Prop := Except.Throws P (x s).1

theorem Throws.of_pure {P : ε → Prop} {a : α} {s : σ} : Throws P (Pure.pure a : Proc σ ε α) s :=
  Except.Throws.of_ok

theorem Throws.of_run {P : ε → Prop} {x : Proc σ ε α} {s s' : σ} {a : α} (h : x s = (.ok a, s')) :
    Throws P x s := by
  unfold Throws
  rw [h]
  exact .of_ok

theorem Throws.lift {P : ε → Prop} {x : Except ε α} {s : σ} (h : Except.Throws P x) : Throws P (Proc.lift x) s := h

theorem Throws.update {P : ε → Prop} {f : σ → Except ε σ} {s : σ} (h : Except.Throws P (f s)) :
    Throws P (Proc.update f) s := by
  unfold Throws Proc.update
  cases hf : f s with
  | ok s' => exact .of_ok
  | error e => exact .of_error (h e hf)

theorem Throws.bind {P : ε → Prop} {x : Proc σ ε α} {f : α → Proc σ ε β} {s : σ} (hx : Throws P x s)
    (hf : ∀ a s₁, x s = (.ok a, s₁) → Throws P (f a) s₁) : Throws P (x >>= f) s := by
  show Except.Throws P (match x s with
        | (.ok a, s₁)    => f a s₁
        | (.error e, s₁) => (.error e, s₁)).1
  rcases hrun : x s with ⟨e | a, s₁⟩
  · exact .of_error (hx e (congrArg Prod.fst hrun))
  · exact hf a s₁ hrun

/-- A guard in front of a procedure. -/
theorem Throws.guard {P : ε → Prop} {c : Prop} [Decidable c] {e : ε} {f : PUnit → Proc σ ε β} {s : σ} (h : P e)
    (hf : c → Throws P (f ⟨⟩) s) : Throws P (Proc.lift (require c e) >>= f) s := by
  refine Throws.bind (Except.Throws.of_require h) fun _ s₁ hrun => ?_
  obtain ⟨hc, rfl⟩ := lift_ok_iff.mp hrun
  exact hf (require_ok_iff.mp hc)

/-! ## What a procedure keeps, on success and on failure -/

/-- `x` relates the state it starts from to the state it ends in, whatever it returns. -/
def Keeps (R : σ → σ → Prop) (x : Proc σ ε α) : Prop := ∀ s, R s (x s).2

variable {R : σ → σ → Prop}

/-- The relation, read off one run. -/
theorem Keeps.run {x : Proc σ ε α} (h : Keeps R x) {s s' : σ} {r : Except ε α} (hx : x s = (r, s')) : R s s' := by
  have hs := h s
  rwa [hx] at hs

theorem Keeps.pure (hrefl : ∀ s, R s s) (a : α) : Keeps R (Pure.pure a : Proc σ ε α) := hrefl

theorem Keeps.lift (hrefl : ∀ s, R s s) (x : Except ε α) : Keeps R (Proc.lift x) := hrefl

theorem Keeps.bind (htrans : ∀ ⦃a b c⦄, R a b → R b c → R a c) {x : Proc σ ε α} {f : α → Proc σ ε β}
    (hx : Keeps R x) (hf : ∀ a, Keeps R (f a)) : Keeps R (x >>= f) := by
  intro s
  show R s (match x s with
        | (.ok a, s₁)    => f a s₁
        | (.error e, s₁) => (.error e, s₁)).2
  have h := hx s
  rcases hxs : x s with ⟨_ | a, s₁⟩
  · rw [hxs] at h; exact h
  · rw [hxs] at h; exact htrans h (hf a s₁)

theorem Keeps.update (hrefl : ∀ s, R s s) {f : σ → Except ε σ}
    (hf : ∀ s s', f s = .ok s' → R s s') : Keeps R (Proc.update f) := by
  intro s
  exact update_ends (hrefl s) (hf s)

theorem Keeps.foldM (hrefl : ∀ s, R s s) (htrans : ∀ ⦃a b c⦄, R a b → R b c → R a c)
    {f : β → α → Proc σ ε β} {as : List α} (hf : ∀ a ∈ as, ∀ b, Keeps R (f b a)) :
    ∀ b, Keeps R (Proc.foldM f as b) := by
  induction as with
  | nil => intro b; exact hrefl
  | cons a as ih =>
    intro b
    have hrest : ∀ b', Keeps R (Proc.foldM f as b') :=
      ih (fun a' ha' => hf a' (List.mem_cons_of_mem a ha'))
    exact Keeps.bind htrans (hf a List.mem_cons_self b) hrest

end Proc

end Lib

import Syscoin.Lib.Proc

/-!
# `Lib.Record` — computations that leave a record

A computation works on a state by commands. Each command is recorded with the state before and the state after it, the
one that fails as well, so that a claim about every moment of a run is a claim about its record.

`Recorded.Holds I E Q x s` is about the run of `x` from `s`: every event satisfies `I`, an error that it ends in satisfies
`E`, and a result with the state that it leaves satisfies `Q`. It is computed backwards over a program by one rule for
each construct (`holds_pure`, `holds_stop`, `holds_bind`, `holds_guard`, `holds_read`, `holds_act`, …), all of them
equivalences, so that `simp` turns a program without loops into its conditions. `Holds.repeatM` and `Holds.foldlM` are the
rules for loops.
-/

namespace Lib

variable {σ κ ε α β : Type}

/-- A command that was carried out, or tried. -/
structure Event (σ κ : Type) where
  command : κ
  before : σ
  after : σ
deriving DecidableEq, Repr

/-- A computation with its record. -/
def Recorded (σ κ ε α : Type) : Type := σ → List (Event σ κ) × Except ε (α × σ)

namespace Recorded

protected def pure (a : α) : Recorded σ κ ε α := fun s => ([], .ok (a, s))

protected def bind (x : Recorded σ κ ε α) (f : α → Recorded σ κ ε β) : Recorded σ κ ε β := fun s =>
  match x s with
  | (events, .ok (a, s')) => (events ++ (f a s').1, (f a s').2)
  | (events, .error e) => (events, .error e)

instance : Monad (Recorded σ κ ε) where
  pure := Recorded.pure
  bind := Recorded.bind

def stop (e : ε) : Recorded σ κ ε α := fun _ => ([], .error e)

/-- Go on if `c` holds. -/
def guard (c : Prop) [Decidable c] (e : ε) : Recorded σ κ ε Unit := fun s => ([], if c then .ok ((), s) else .error e)

/-- Look at the state. -/
def read (f : σ → α) : Recorded σ κ ε α := fun s => ([], .ok (f s, s))

/-- Change the state without a record. -/
def write (f : σ → σ) : Recorded σ κ ε Unit := fun s => ([], .ok ((), f s))

/-- The result of something that does not touch the state. -/
def lift (x : Except ε α) : Recorded σ κ ε α := fun s =>
  match x with
  | .ok a => ([], .ok (a, s))
  | .error e => ([], .error e)

/-- Carry out a command. -/
def act (command : κ) (run : σ → Except ε (α × σ)) : Recorded σ κ ε α := fun s =>
  match run s with
  | .ok (a, s') => ([⟨command, s, s'⟩], .ok (a, s'))
  | .error e => ([⟨command, s, s⟩], .error e)

/-- `for (; n > 0; n--)` -/
def repeatM (x : Recorded σ κ ε Unit) : Nat → Recorded σ κ ε Unit
  | 0 => pure ()
  | n + 1 => do
    x
    repeatM x n

/-! ## Rules -/

/-- What is true of a run: of its events, of an error at its end, and of a result. -/
def Holds (I : Event σ κ → Prop) (E : ε → Prop) (Q : α → σ → Prop) (x : Recorded σ κ ε α) (s : σ) : Prop :=
  (∀ event ∈ (x s).1, I event) ∧
    match (x s).2 with
    | .ok (a, s') => Q a s'
    | .error e => E e

variable {I : Event σ κ → Prop} {E : ε → Prop} {Q : α → σ → Prop} {R : β → σ → Prop} {s : σ}

@[simp] theorem holds_pure {a : α} : Holds I E Q (pure a) s ↔ Q a s := by
  constructor
  · intro h
    exact h.2
  · intro h
    exact ⟨fun event hevent => (nomatch hevent), h⟩

@[simp] theorem holds_stop {e : ε} : Holds I E Q (stop e) s ↔ E e := by
  constructor
  · intro h
    exact h.2
  · intro h
    exact ⟨fun event hevent => (nomatch hevent), h⟩

/-- **Sequences**: the second part runs from the state that the first one leaves. -/
@[simp] theorem holds_bind {x : Recorded σ κ ε α} {f : α → Recorded σ κ ε β} :
    Holds I E R (x >>= f) s ↔ Holds I E (fun a s' => Holds I E R (f a) s') x s := by
  show Holds I E R (Recorded.bind x f) s ↔ _
  unfold Holds Recorded.bind
  rcases x s with ⟨events, e | ⟨a, s'⟩⟩
  · exact Iff.rfl
  · simp only [List.mem_append]
    constructor
    · rintro ⟨hevents, hend⟩
      exact ⟨fun event h => hevents event (.inl h), fun event h => hevents event (.inr h), hend⟩
    · rintro ⟨hfirst, hsecond, hend⟩
      exact ⟨fun event h => h.elim (hfirst event) (hsecond event), hend⟩

@[simp] theorem holds_guard {c : Prop} [Decidable c] {e : ε} {Q : Unit → σ → Prop} :
    Holds I E Q (guard c e) s ↔ (c → Q () s) ∧ (¬ c → E e) := by
  unfold Holds guard
  by_cases hc : c
  · simp [hc]
  · simp [hc]

@[simp] theorem holds_read {f : σ → α} : Holds I E Q (read f) s ↔ Q (f s) s := by
  simp [Holds, read]

@[simp] theorem holds_write {f : σ → σ} {Q : Unit → σ → Prop} : Holds I E Q (write f) s ↔ Q () (f s) := by
  simp [Holds, write]

@[simp] theorem holds_lift {x : Except ε α} :
    Holds I E Q (lift x) s ↔ (∀ a, x = .ok a → Q a s) ∧ ∀ e, x = .error e → E e := by
  cases x with
  | ok a => simp [Holds, lift]
  | error e => simp [Holds, lift]

theorem holds_act {command : κ} {run : σ → Except ε (α × σ)} :
    Holds I E Q (act command run) s ↔
      match run s with
      | .ok (a, s') => I ⟨command, s, s'⟩ ∧ Q a s'
      | .error e => I ⟨command, s, s⟩ ∧ E e := by
  unfold Holds act
  rcases run s with e | ⟨a, s'⟩
  · simp
  · simp

@[simp] theorem holds_ite {c : Prop} [Decidable c] {x y : Recorded σ κ ε α} :
    Holds I E Q (if c then x else y) s ↔ (c → Holds I E Q x s) ∧ (¬ c → Holds I E Q y s) := by
  by_cases hc : c
  · simp [hc]
  · simp [hc]

theorem Holds.mono {E' : ε → Prop} {Q' : α → σ → Prop} {x : Recorded σ κ ε α} (h : Holds I E Q x s)
    (hE : ∀ e, E e → E' e) (hQ : ∀ a s', Q a s' → Q' a s') : Holds I E' Q' x s := by
  obtain ⟨hevents, hend⟩ := h
  refine ⟨hevents, ?_⟩
  revert hend
  rcases (x s).2 with e | ⟨a, s'⟩
  · exact hE e
  · exact hQ a s'

/-- **A loop that counts down.** `J n` holds when there are `n` rounds to go. -/
theorem Holds.repeatM {J : Nat → σ → Prop} {x : Recorded σ κ ε Unit}
    (hstep : ∀ n s, J (n + 1) s → Holds I E (fun _ => J n) x s) {n : Nat} (h : J n s) :
    Holds I E (fun _ => J 0) (Recorded.repeatM x n) s := by
  induction n generalizing s with
  | zero => exact holds_pure.mpr h
  | succ n ih =>
    refine holds_bind.mpr ((hstep n s h).mono (fun _ he => he) ?_)
    intro _ s' hs'
    exact ih hs'

/-- **A loop that only reads** does what the same loop of checks does. -/
theorem Holds.foldlM {γ : Type} {f : β → γ → Recorded σ κ ε β} {g : β → γ → Except ε β} {l : List γ}
    (hstep : ∀ b, ∀ c ∈ l, Holds I (fun e => g b c = .error e ∧ E e) (fun b' s' => g b c = .ok b' ∧ s' = s) (f b c) s)
    (b : β) :
    Holds I (fun e => l.foldlM g b = .error e ∧ E e) (fun b' s' => l.foldlM g b = .ok b' ∧ s' = s) (l.foldlM f b) s := by
  induction l generalizing b with
  | nil => exact holds_pure.mpr ⟨rfl, rfl⟩
  | cons c l ih =>
    obtain ⟨hhead, htail⟩ := List.forall_mem_cons.mp fun c hc => fun b => hstep b c hc
    simp only [List.foldlM_cons]
    refine holds_bind.mpr ((hhead b).mono ?_ ?_)
    · rintro e ⟨he, hE⟩
      rw [he]
      exact ⟨rfl, hE⟩
    · rintro b' s' ⟨hb', rfl⟩
      rw [hb']
      exact ih (fun b c hc => htail c hc b) b'

end Recorded

end Lib

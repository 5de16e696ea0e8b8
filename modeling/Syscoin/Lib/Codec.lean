import Mathlib.Data.List.Basic

/-!
# `Lib.Codec` — reading back what was written

A `Reader` takes what it needs from the front of a stream and leaves the rest. `Reads r s a` says that on a stream that
starts with `s` it gives `a` and consumes exactly `s`. A format is then verified piece by piece: `Reads.bind` puts two
pieces together, `reads_many` a counted sequence of them.
-/

namespace Lib

/-- A failed read throws. -/
def Reader (σ α : Type) : Type := List σ → Option (α × List σ)

namespace Reader

variable {σ α β : Type}

instance : Monad (Reader σ) where
  pure a := fun s => some (a, s)
  bind r f := fun s => (r s).bind fun p => f p.1 p.2

def fail : Reader σ α := fun _ => none

/-- A fixed number of symbols. -/
def take (n : Nat) : Reader σ (List σ) := fun s => if s.length < n then none else some (s.take n, s.drop n)

def one : Reader σ σ := fun s =>
  match s with
  | [] => none
  | a :: s => some (a, s)

def many (r : Reader σ α) : Nat → Reader σ (List α)
  | 0 => pure []
  | n + 1 => do
    let a ← r
    let as ← many r n
    pure (a :: as)

def Reads (r : Reader σ α) (s : List σ) (a : α) : Prop := ∀ rest, r (s ++ rest) = some (a, rest)

theorem reads_pure (a : α) : Reads (pure a : Reader σ α) [] a := fun _ => rfl

variable {r : Reader σ α} {f : α → Reader σ β} {s t : List σ} {a : α} {b : β}

theorem Reads.bind (h : Reads r s a) (hf : Reads (f a) t b) : Reads (r >>= f) (s ++ t) b := by
  intro rest
  show (r (s ++ t ++ rest)).bind _ = _
  rw [List.append_assoc, h]
  exact hf rest

/-- The last read of a record, with what is then made of it. -/
theorem Reads.bind_nil (h : Reads r s a) (hf : Reads (f a) [] b) : Reads (r >>= f) s b := by
  have hbind := Reads.bind h hf
  rwa [List.append_nil] at hbind

theorem Reads.bind_pure {g : α → β} (h : Reads r s a) : Reads (r >>= fun a => Pure.pure (g a)) s (g a) :=
  Reads.bind_nil h (reads_pure (g a))

theorem reads_take (s : List σ) : Reads (take s.length) s s := by
  intro rest
  rw [Reader.take, if_neg (by simp)]
  simp

theorem reads_one (a : σ) : Reads one [a] a := fun _ => rfl

theorem reads_many {w : α → List σ} {l : List α} (h : ∀ a ∈ l, Reads r (w a) a) :
    Reads (many r l.length) (l.flatMap w) l := by
  induction l with
  | nil => exact reads_pure _
  | cons a l ih =>
    rw [List.forall_mem_cons] at h
    exact h.1.bind (Reads.bind_pure (ih h.2))

/-- A counted loop each of whose rounds reads one of the things that were written. The invariant knows which ones have
    been read. -/
theorem reads_rounds {step : β → Nat → Reader σ β} {w : α → List σ} {l : List α} {I : List α → β → Prop} {b : β}
    (hstart : I [] b)
    (hround : ∀ done a b, done ++ [a] <+: l → I done b →
      ∃ b', Reads (step b done.length) (w a) b' ∧ I (done ++ [a]) b') :
    ∃ b', Reads ((List.range l.length).foldlM step b) (l.flatMap w) b' ∧ I l b' := by
  have hrest : ∀ (rest done : List α) (b : β), done ++ rest = l → I done b →
      ∃ b', Reads ((List.range' done.length rest.length).foldlM step b) (rest.flatMap w) b' ∧ I l b' := by
    intro rest
    induction rest with
    | nil =>
      intro done b hl hI
      rw [List.append_nil] at hl
      exact ⟨b, reads_pure b, hl ▸ hI⟩
    | cons a rest ih =>
      intro done b hl hI
      have hl' : done ++ [a] ++ rest = l := by rw [List.append_assoc, List.singleton_append, hl]
      obtain ⟨b1, hread, hI1⟩ := hround done a b ⟨rest, hl'⟩ hI
      obtain ⟨b2, hreads, hI2⟩ := ih (done ++ [a]) b1 hl' hI1
      rw [List.length_append, List.length_singleton] at hreads
      rw [List.length_cons, List.range'_succ, List.foldlM_cons, List.flatMap_cons]
      exact ⟨b2, hread.bind hreads, hI2⟩
  rw [List.range_eq_range']
  exact hrest l [] b rfl hstart

/-! ## What can be read -/

/-- Whatever the reader gives has the property. -/
def Yields (P : α → Prop) (r : Reader σ α) : Prop := ∀ s a t, r s = some (a, t) → P a

theorem yields_pure {P : α → Prop} (h : P a) : Yields P (pure a : Reader σ α) := by
  intro s b t hrun
  cases hrun
  exact h

theorem Yields.bind {P : α → Prop} {Q : β → Prop} (h : Yields P r) (hf : ∀ a, P a → Yields Q (f a)) :
    Yields Q (r >>= f) := by
  intro s b t hrun
  obtain ⟨⟨a, u⟩, hfirst, hsecond⟩ := Option.bind_eq_some_iff.mp hrun
  exact hf a (h s a u hfirst) u b t hsecond

/-- Where the first read does not matter. -/
theorem Yields.seq {Q : β → Prop} (hf : ∀ a, Yields Q (f a)) : Yields Q (r >>= f) :=
  Yields.bind (P := fun _ => True) (fun _ _ _ _ => trivial) fun a _ => hf a

end Reader

end Lib

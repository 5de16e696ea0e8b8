/-!
# `Lib.Extent` — pieces of files

A file is filled from its start. What has been given out of it lies below a mark; a piece that begins at the mark is apart
from everything given out before.
-/

namespace Lib

variable {F : Type}

/-- The positions of a file from `start` on and before `stop`. -/
structure Extent (F : Type) where
  file : F
  start : Nat
  stop : Nat
deriving DecidableEq, Repr

/-- In one file, one ends before the other starts. -/
def Extent.Apart (e e' : Extent F) : Prop := e.file = e'.file → e.stop ≤ e'.start ∨ e'.stop ≤ e.start

instance [DecidableEq F] (e e' : Extent F) : Decidable (e.Apart e') :=
  inferInstanceAs (Decidable (_ → _))

/-- Everything ends below the mark of its file. -/
def Covered (mark : F → Nat) (extents : List (Extent F)) : Prop := ∀ e ∈ extents, e.stop ≤ mark e.file

variable {mark mark' : F → Nat} {e : Extent F} {extents : List (Extent F)}

theorem Covered.mono (h : Covered mark extents) (hle : ∀ f, mark f ≤ mark' f) : Covered mark' extents :=
  fun e he => Nat.le_trans (h e he) (hle e.file)

theorem Covered.cons (h : Covered mark extents) (he : e.stop ≤ mark e.file) : Covered mark (e :: extents) := by
  intro e' he'
  rcases List.mem_cons.mp he' with rfl | hold
  · exact he
  · exact h e' hold

theorem Covered.apart (h : Covered mark extents) (he : mark e.file ≤ e.start) {e' : Extent F} (he' : e' ∈ extents) :
    e.Apart e' := by
  intro hfile
  right
  have hstop := h e' he'
  rw [← hfile] at hstop
  exact Nat.le_trans hstop he

end Lib

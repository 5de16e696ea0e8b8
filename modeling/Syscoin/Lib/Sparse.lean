import Syscoin.Lib.Forest

/-!
# `Lib.Sparse` — a short list of ancestors

A node can tell another where it stands by a list of its ancestors that thins out: the first ones lie next to each
other, and once the list is longer than `limit`, each step down is twice as long as the one before. The list is short,
and yet the first entry at or below a given height is not far below it: no farther than that height is below the start
(`sparse_find`).
-/

namespace Lib

namespace Forest

variable {ι : Type*} (F : Forest ι)

/-- So many steps down. -/
def back : Nat → ι → Option ι
  | 0, i => some i
  | n + 1, i => (F.parent i).bind (back n)

variable {F} {n step size limit : Nat} {i j : ι}

theorem back_eq_some (h : F.back n i = some j) : F.height j + n = F.height i ∧ F.Ancestor j (some i) := by
  induction n generalizing i with
  | zero =>
    obtain rfl := Option.some.inj h
    exact ⟨rfl, .self⟩
  | succ n ih =>
    rw [back, Option.bind_eq_some_iff] at h
    obtain ⟨p, hp, hback⟩ := h
    obtain ⟨hheight, hanc⟩ := ih hback
    have hparent := F.height_parent hp
    refine ⟨by omega, .parent ?_⟩
    rw [hp]
    exact hanc

theorem height_lt_of_back (h : F.back n i = none) : F.height i < n := by
  induction n generalizing i with
  | zero => cases h
  | succ n ih =>
    cases hp : F.parent i with
    | none =>
      have hroot := F.height_root hp
      omega
    | some p =>
      rw [back, hp, Option.bind_some] at h
      have hlt := ih h
      have hparent := F.height_parent hp
      omega

/-- The step after an entry. -/
def stride (limit step size : Nat) : Nat := if limit < size then step * 2 else step

theorem stride_pos (h : 0 < step) : 0 < stride limit step size := by
  unfold stride
  split <;> omega

variable (F) (limit) in
/-- The entries from a node down, when there are `size` before it. -/
def sparse (step : Nat) (hstep : 0 < step) (size : Nat) (i : ι) : List ι :=
  i :: match h : F.back step i with
    | none => []
    | some j => sparse (stride limit step (size + 1)) (stride_pos hstep) (size + 1) j
termination_by F.height i
decreasing_by
  have hheight := (back_eq_some h).1
  omega

theorem sparse_of_none {hstep : 0 < step} (h : F.back step i = none) : F.sparse limit step hstep size i = [i] := by
  rw [sparse]
  split
  · rfl
  · rename_i j hj
    rw [h] at hj
    cases hj

theorem sparse_of_some {hstep : 0 < step} (h : F.back step i = some j) : F.sparse limit step hstep size i =
    i :: F.sparse limit (stride limit step (size + 1)) (stride_pos hstep) (size + 1) j := by
  rw [sparse]
  split
  · rename_i hnone
    rw [h] at hnone
    cases hnone
  · rename_i k hk
    obtain rfl := Option.some.inj (h.symm.trans hk)
    rfl

/-- All entries are ancestors. -/
theorem ancestor_of_mem_sparse {hstep : 0 < step} (h : j ∈ F.sparse limit step hstep size i) :
    F.Ancestor j (some i) := by
  induction hheight : F.height i using Nat.strongRecOn generalizing i step size with
  | _ height ih =>
    cases hback : F.back step i with
    | none =>
      rw [sparse_of_none hback, List.mem_singleton] at h
      rw [h]
      exact .self
    | some k =>
      obtain ⟨hlower, hanc⟩ := back_eq_some hback
      rw [sparse_of_some hback, List.mem_cons] at h
      rcases h with rfl | h
      · exact .self
      · exact (ih (F.height k) (by omega) h rfl).trans hanc

/-! ## How far the entries lie apart -/

/-- How far a list from `top` may miss the height `mark`: not at all as long as the entries lie next to each other, and
    later by less than what the mark is below the top. -/
def Near (limit top mark height : Nat) : Prop :=
  height ≤ mark ∧ if top ≤ mark + limit + 1 then height = mark else mark - height < top - mark

/-- Where the walk stands: the entries so far lay next to each other, or the step is all but the distance from the
    top. -/
def Spaced (limit top step size height : Nat) : Prop :=
  (size ≤ limit ∧ step = 1 ∧ height + size = top) ∨
    (limit < size ∧ 2 ≤ step ∧ height + step + limit = top + 1)

section Spacing

variable {top mark : Nat}

theorem Spaced.start (limit top : Nat) : Spaced limit top 1 0 top := .inl ⟨Nat.zero_le _, rfl, rfl⟩

/-- One step. -/
theorem Spaced.next {height height' : Nat} (h : Spaced limit top step size height) (hstep : height' + step = height) :
    Spaced limit top (stride limit step (size + 1)) (size + 1) height' := by
  unfold Spaced stride at *
  split <;> omega

/-- A step that passes the mark comes near it, or runs off the end near it. -/
theorem Spaced.near {height height' : Nat} (h : Spaced limit top step size height) (habove : mark < height)
    (hstep : height < height' + step + 1) (hpast : height' ≤ mark) : Near limit top mark height' := by
  unfold Spaced at h
  unfold Near
  split <;> omega

/-- **The first entry at or below the mark is near it.** If there is none, the root is. -/
theorem sparse_find (hmark : Spaced limit top step size (F.height i))
    (hstart : F.height i ≤ mark → Near limit top mark (F.height i)) {hstep : 0 < step} :
    Near limit top mark
      (((F.sparse limit step hstep size i).find? fun j => decide (F.height j ≤ mark)).elim 0 F.height) := by
  induction hheight : F.height i using Nat.strongRecOn generalizing i step size with
  | _ height ih =>
    by_cases hlow : F.height i ≤ mark
    · -- the walk stands at the entry
      have hfind : (F.sparse limit step hstep size i).find? (fun j => decide (F.height j ≤ mark)) = some i := by
        rw [sparse]
        exact List.find?_cons_of_pos (decide_eq_true hlow)
      rw [hfind]
      exact hstart hlow
    · have hnot : decide (F.height i ≤ mark) = false := decide_eq_false hlow
      cases hback : F.back step i with
      | none =>
        have hend := height_lt_of_back hback
        rw [sparse_of_none hback]
        simp only [List.find?_cons, hnot, List.find?_nil, Option.elim_none]
        exact hmark.near (by omega) (by omega) (Nat.zero_le _)
      | some j =>
        have hlower := (back_eq_some hback).1
        rw [sparse_of_some hback]
        simp only [List.find?_cons, hnot]
        refine ih (F.height j) (by omega) (hmark.next hlower) ?_ rfl
        intro hpast
        exact hmark.near (by omega) (by omega) hpast

end Spacing

end Forest

end Lib

import Mathlib.Data.List.Basic
import Mathlib.Tactic.Ring

/-!
# `Lib.Slots` — a buffer that is filled slot by slot

A buffer is cut into slots of one width, and a loop copies something to one slot after the other. What is at a position
afterwards depends on whether its slot was written, not on when (`getElem?_fillSlots`). So two loops that visit the same
slots leave the same buffer (`fillSlots_congr`).
-/

namespace Lib

universe u

variable {α : Type u}

/-- The buffer after `src` was copied to the position. -/
def poke (buf : List α) (pos : Nat) (src : List α) : List α := buf.take pos ++ src ++ buf.drop (pos + src.length)

/-- The buffer after `f k` was copied to slot `k`, for one slot after the other. -/
def fillSlots (width : Nat) (f : Nat → List α) (slots : List Nat) (buf : List α) : List α :=
  slots.foldl (fun buf k => poke buf (width * k) (f k)) buf

variable {buf src : List α} {pos width p : Nat} {f : Nat → List α} {slots slots' : List Nat}

theorem length_poke (h : pos + src.length ≤ buf.length) : (poke buf pos src).length = buf.length := by
  simp only [poke, List.length_append, List.length_take, List.length_drop]
  omega

theorem getElem?_poke (h : pos + src.length ≤ buf.length) :
    (poke buf pos src)[p]? = if pos ≤ p ∧ p < pos + src.length then src[p - pos]? else buf[p]? := by
  have htake : (buf.take pos).length = pos := by
    rw [List.length_take]
    omega
  rw [poke, List.append_assoc]
  rcases Nat.lt_or_ge p pos with hp | hp
  · rw [List.getElem?_append_left (by omega), List.getElem?_take_of_lt hp, if_neg (by omega)]
  · rw [List.getElem?_append_right (by omega), htake]
    rcases Nat.lt_or_ge p (pos + src.length) with hq | hq
    · rw [List.getElem?_append_left (by omega), if_pos ⟨hp, hq⟩]
    · rw [List.getElem?_append_right (by omega), List.getElem?_drop, if_neg (by omega)]
      congr 1
      omega

theorem fillSlots_cons (k : Nat) :
    fillSlots width f (k :: slots) buf = fillSlots width f slots (poke buf (width * k) (f k)) := rfl

/-- The slot lies in the buffer. -/
theorem slot_le {k : Nat} (hf : ∀ k, (f k).length = width) (hk : width * k + width ≤ buf.length) :
    width * k + (f k).length ≤ buf.length := by
  rw [hf k]
  exact hk

/-- **A position holds what was written to its slot**, or what it held before. -/
theorem getElem?_fillSlots (hwidth : 0 < width) (hf : ∀ k, (f k).length = width)
    (hslots : ∀ k ∈ slots, width * k + width ≤ buf.length) :
    (fillSlots width f slots buf)[p]? = if p / width ∈ slots then (f (p / width))[p % width]? else buf[p]? := by
  induction slots generalizing buf with
  | nil => rfl
  | cons k slots ih =>
    have hk := slot_le hf (hslots k List.mem_cons_self)
    have hlen := length_poke hk
    rw [fillSlots_cons, ih (fun j hj => by rw [hlen]; exact hslots j (List.mem_cons_of_mem _ hj))]
    by_cases hmem : p / width ∈ slots
    · rw [if_pos hmem, if_pos (List.mem_cons_of_mem _ hmem)]
    · rw [if_neg hmem, getElem?_poke hk, hf k]
      have hdiv : width * (p / width) + p % width = p := Nat.div_add_mod p width
      have hmod : p % width < width := Nat.mod_lt p hwidth
      by_cases hpk : p / width = k
      · rw [if_pos (by rw [← hpk]; omega), if_pos (by rw [hpk]; exact List.mem_cons_self), hpk]
        congr 1
        rw [← hpk]
        omega
      · have hout : ¬ (width * k ≤ p ∧ p < width * k + width) := by
          rintro ⟨hle, hlt⟩
          apply hpk
          rw [Nat.div_eq_of_lt_le]
          · rw [Nat.mul_comm]
            exact hle
          · rw [Nat.add_mul, Nat.one_mul, Nat.mul_comm k]
            exact hlt
        rw [if_neg hout, if_neg]
        rw [List.mem_cons, not_or]
        exact ⟨hpk, hmem⟩

/-- **The order of the slots has no part in what is written.** -/
theorem fillSlots_congr (hwidth : 0 < width) (hf : ∀ k, (f k).length = width)
    (hslots : ∀ k ∈ slots, width * k + width ≤ buf.length) (hsame : ∀ k, k ∈ slots ↔ k ∈ slots') :
    fillSlots width f slots buf = fillSlots width f slots' buf := by
  apply List.ext_getElem?
  intro p
  have hslots' : ∀ k ∈ slots', width * k + width ≤ buf.length := fun k hk => hslots k ((hsame k).mpr hk)
  rw [getElem?_fillSlots hwidth hf hslots, getElem?_fillSlots hwidth hf hslots']
  simp only [hsame]

end Lib

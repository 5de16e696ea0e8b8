import Mathlib.Data.List.Basic
import Mathlib.Data.List.Forall2

/-!
# `Lib.PrefixCode` — texts made of pieces

A format is *decodable* if two streams that start with written values and agree start with the same value and go on the
same. Nothing is said about a reader: the values may be ones that a reader would refuse. A format is then taken apart
piece by piece: numbers of fixed width, a length with that many symbols behind it, a count with that many values behind
it.

A text is split along a pattern if it is a row of pieces, each of which is accepted by the part of the pattern in its
place. Whoever looks for such a split from the left either gives up a part or takes one more element off the text: a
part that accepts everything takes nothing or one more element (`splitsAlong_any_iff`), and a part for one element takes
just that (`splitsAlong_one_iff`).
-/

namespace Lib

/-! ## Written values -/

section PrefixCode

variable {σ α : Type*}

/-- Written values that satisfy `P` can be told apart, whatever follows them. -/
def Decodable (write : α → List σ) (P : α → Prop) : Prop :=
  ∀ ⦃a b : α⦄ ⦃s t : List σ⦄, P a → P b → write a ++ s = write b ++ t → a = b ∧ s = t

variable {write : α → List σ} {size : Nat → List σ} {P : α → Prop} {N : Nat}

/-- Values of one width need no mark. -/
theorem Decodable.of_width {width : Nat} (hwidth : ∀ a, (write a).length = width)
    (hinj : ∀ ⦃a b⦄, P a → P b → write a = write b → a = b) : Decodable write P := by
  intro a b s t ha hb h
  obtain ⟨hwrite, hrest⟩ := List.append_inj h (by rw [hwidth, hwidth])
  exact ⟨hinj ha hb hwrite, hrest⟩

/-- A string behind its length. -/
theorem Decodable.string (hsize : Decodable size (· < N)) :
    Decodable (fun l : List σ => size l.length ++ l) (·.length < N) := by
  intro l m s t hl hm h
  rw [List.append_assoc, List.append_assoc] at h
  obtain ⟨hlen, hrest⟩ := hsize hl hm h
  exact List.append_inj hrest hlen

/-- As many values one after the other. -/
theorem Decodable.flatMap (hwrite : Decodable write P) {l m : List α} {s t : List σ} (hlen : l.length = m.length)
    (hl : ∀ a ∈ l, P a) (hm : ∀ a ∈ m, P a) (h : l.flatMap write ++ s = m.flatMap write ++ t) : l = m ∧ s = t := by
  induction l generalizing m with
  | nil =>
    rw [List.length_nil] at hlen
    obtain rfl := List.length_eq_zero_iff.mp hlen.symm
    exact ⟨rfl, h⟩
  | cons a l ih =>
    cases m with
    | nil => cases hlen
    | cons b m =>
      rw [List.forall_mem_cons] at hl hm
      rw [List.flatMap_cons, List.flatMap_cons, List.append_assoc, List.append_assoc] at h
      obtain ⟨rfl, hrest⟩ := hwrite hl.1 hm.1 h
      obtain ⟨rfl, rfl⟩ := ih (Nat.succ.inj hlen) hl.2 hm.2 hrest
      exact ⟨rfl, rfl⟩

/-- A list of values behind its length. -/
theorem Decodable.list (hsize : Decodable size (· < N)) (hwrite : Decodable write P) :
    Decodable (fun l : List α => size l.length ++ l.flatMap write) (fun l => l.length < N ∧ ∀ a ∈ l, P a) := by
  intro l m s t hl hm h
  rw [List.append_assoc, List.append_assoc] at h
  obtain ⟨hlen, hrest⟩ := hsize hl.1 hm.1 h
  exact hwrite.flatMap hlen hl.2 hm.2 hrest

end PrefixCode

/-! ## Patterns -/

section Splitting

variable {α β : Type} {accepts : α → List β → Prop} {part : α} {pattern : List α} {text : List β}

/-- The text is a row of pieces that the parts of the pattern accept. -/
def SplitsAlong (accepts : α → List β → Prop) (pattern : List α) (text : List β) : Prop :=
  ∃ pieces : List (List β), pieces.flatten = text ∧ List.Forall₂ accepts pattern pieces

theorem splitsAlong_nil_iff : SplitsAlong accepts [] text ↔ text = [] := by
  constructor
  · rintro ⟨pieces, rfl, hpieces⟩
    rw [List.forall₂_nil_left_iff.mp hpieces, List.flatten_nil]
  · rintro rfl
    exact ⟨[], rfl, .nil⟩

/-- The first part has a piece in front. -/
theorem splitsAlong_cons_iff : SplitsAlong accepts (part :: pattern) text ↔
    ∃ piece rest, text = piece ++ rest ∧ accepts part piece ∧ SplitsAlong accepts pattern rest := by
  constructor
  · rintro ⟨pieces, rfl, hpieces⟩
    obtain ⟨piece, pieces, hpiece, hrest, rfl⟩ := List.forall₂_cons_left_iff.mp hpieces
    exact ⟨piece, pieces.flatten, List.flatten_cons, hpiece, pieces, rfl, hrest⟩
  · rintro ⟨piece, rest, rfl, hpiece, pieces, rfl, hpieces⟩
    exact ⟨piece :: pieces, List.flatten_cons, .cons hpiece hpieces⟩

/-- **A part that accepts everything** takes nothing more, or the next element. -/
theorem splitsAlong_any_iff (hany : ∀ piece, accepts part piece) : SplitsAlong accepts (part :: pattern) text ↔
    SplitsAlong accepts pattern text ∨ ∃ b rest, text = b :: rest ∧ SplitsAlong accepts (part :: pattern) rest := by
  constructor
  · intro h
    obtain ⟨piece, rest, rfl, -, hrest⟩ := splitsAlong_cons_iff.mp h
    cases piece with
    | nil => exact .inl hrest
    | cons b piece => exact .inr ⟨b, piece ++ rest, rfl, splitsAlong_cons_iff.mpr ⟨piece, rest, rfl, hany piece, hrest⟩⟩
  · rintro (h | ⟨b, rest, rfl, h⟩)
    · exact splitsAlong_cons_iff.mpr ⟨[], text, rfl, hany [], h⟩
    · obtain ⟨piece, rest, rfl, -, hrest⟩ := splitsAlong_cons_iff.mp h
      exact splitsAlong_cons_iff.mpr ⟨b :: piece, rest, rfl, hany _, hrest⟩

/-- **A part for one element** takes it. -/
theorem splitsAlong_one_iff {p : β → Prop} (hone : ∀ piece, accepts part piece ↔ ∃ b, p b ∧ piece = [b]) :
    SplitsAlong accepts (part :: pattern) text ↔
      ∃ b rest, text = b :: rest ∧ p b ∧ SplitsAlong accepts pattern rest := by
  constructor
  · intro h
    obtain ⟨piece, rest, rfl, hpiece, hrest⟩ := splitsAlong_cons_iff.mp h
    obtain ⟨b, hb, rfl⟩ := (hone piece).mp hpiece
    exact ⟨b, rest, rfl, hb, hrest⟩
  · rintro ⟨b, rest, rfl, hb, hrest⟩
    exact splitsAlong_cons_iff.mpr ⟨[b], rest, rfl, (hone [b]).mpr ⟨b, hb, rfl⟩, hrest⟩

end Splitting

end Lib

import Syscoin.Lib.PrefixCode
import Syscoin.Primitives.Text

/-!
# `Correctness.Wildcard` — what a mask matches

Each turn of `WildcardMatch` and each call takes a character off the string or off the mask, so that as many are enough
as both have together, and one more. The answer is whether the string can be split along the mask
(`wildcardMatch_iff`): a star gives up or takes one more character, and every other character of the mask takes the next
one or fails.
-/

namespace Syscoin

open Lib

namespace Util

/-! ## Masks -/

/-- What one character of a mask matches. -/
def PieceMatches (c : Char) (piece : List Char) : Prop :=
  if c = '*' then True else if c = '?' then piece.length = 1 else piece = [c]

/-- **A mask matches** a string that splits into a piece for each character of the mask. -/
def MaskMatches (mask str : List Char) : Prop := SplitsAlong PieceMatches mask str

variable {c : Char} {m s : List Char}

theorem maskMatches_nil_iff : MaskMatches [] s ↔ s = [] := splitsAlong_nil_iff

theorem maskMatches_star_iff : MaskMatches ('*' :: m) s ↔
    MaskMatches m s ∨ ∃ b rest, s = b :: rest ∧ MaskMatches ('*' :: m) rest :=
  splitsAlong_any_iff fun _ => (if_pos rfl).mpr trivial

theorem maskMatches_any_iff : MaskMatches ('?' :: m) s ↔ ∃ b rest, s = b :: rest ∧ MaskMatches m rest := by
  have hone : ∀ piece, PieceMatches '?' piece ↔ ∃ b : Char, True ∧ piece = [b] := by
    intro piece
    show piece.length = 1 ↔ _
    rw [List.length_eq_one_iff]
    exact ⟨fun ⟨b, hb⟩ => ⟨b, trivial, hb⟩, fun ⟨b, _, hb⟩ => ⟨b, hb⟩⟩
  refine (splitsAlong_one_iff hone).trans ?_
  exact ⟨fun ⟨b, rest, hs, _, hrest⟩ => ⟨b, rest, hs, hrest⟩, fun ⟨b, rest, hs, hrest⟩ => ⟨b, rest, hs, trivial, hrest⟩⟩

theorem maskMatches_char_iff (hstar : c ≠ '*') (hany : c ≠ '?') :
    MaskMatches (c :: m) s ↔ ∃ b rest, s = b :: rest ∧ b = c ∧ MaskMatches m rest := by
  have hone : ∀ piece, PieceMatches c piece ↔ ∃ b, b = c ∧ piece = [b] := by
    intro piece
    rw [PieceMatches, if_neg hstar, if_neg hany]
    exact ⟨fun hpiece => ⟨c, rfl, hpiece⟩, fun ⟨b, hb, hpiece⟩ => hb ▸ hpiece⟩
  exact splitsAlong_one_iff hone

/-! ## The search -/

/-- **One depth is enough**, and the answer is right. -/
theorem wildcardMatch_spec (psz mask : List Char) {depth : Nat} (hdepth : psz.length + mask.length < depth) :
    ∃ b, wildcardMatch depth psz mask = some b ∧ (b = true ↔ MaskMatches (cStr mask) (cStr psz)) := by
  induction depth generalizing psz mask with
  | zero => exact absurd hdepth (Nat.not_lt_zero _)
  | succ depth ih =>
    by_cases hend : deref mask = '\x00'
    · refine ⟨_, if_pos hend, ?_⟩
      rw [cStr_of_deref_eq hend, maskMatches_nil_iff, decide_eq_true_iff]
      by_cases hpsz : deref psz = '\x00'
      · exact iff_of_true hpsz (cStr_of_deref_eq hpsz)
      · rw [cStr_of_deref_ne hpsz]
        exact iff_of_false hpsz (List.cons_ne_nil _ _)
    have hmask := length_tail_of_deref_ne hend
    have hcons := cStr_of_deref_ne hend
    rw [hcons, wildcardMatch, if_neg hend]
    by_cases hstar : deref mask = '*'
    · rw [hstar] at hcons
      obtain ⟨b, hb, hiff⟩ := ih psz mask.tail (by omega)
      rw [if_pos hstar, hb, hstar, maskMatches_star_iff, cStr_cons_iff, ← hiff]
      cases b with
      | true => exact ⟨true, rfl, iff_of_true rfl (.inl rfl)⟩
      | false =>
        rw [or_iff_right Bool.false_ne_true]
        by_cases hpsz : deref psz = '\x00'
        · exact ⟨false, if_neg (not_not.mpr hpsz), iff_of_false Bool.false_ne_true fun h => h.1 hpsz⟩
        · have hlength := length_tail_of_deref_ne hpsz
          obtain ⟨b, hb, hiff⟩ := ih psz.tail mask (by omega)
          rw [hcons] at hiff
          exact ⟨b, (if_pos hpsz).trans hb, hiff.trans (iff_and_self.mpr fun _ => hpsz)⟩
    rw [if_neg hstar]
    by_cases hany : deref mask = '?'
    · rw [if_pos hany, hany, maskMatches_any_iff, cStr_cons_iff]
      by_cases hpsz : deref psz = '\x00'
      · exact ⟨false, if_pos hpsz, iff_of_false Bool.false_ne_true fun h => h.1 hpsz⟩
      · have hlength := length_tail_of_deref_ne hpsz
        obtain ⟨b, hb, hiff⟩ := ih psz.tail mask.tail (by omega)
        exact ⟨b, (if_neg hpsz).trans hb, hiff.trans (iff_and_self.mpr fun _ => hpsz)⟩
    rw [if_neg hany, maskMatches_char_iff hstar hany, cStr_cons_iff]
    by_cases heq : deref psz = deref mask
    · have hpsz : deref psz ≠ '\x00' := heq ▸ hend
      have hlength := length_tail_of_deref_ne hpsz
      obtain ⟨b, hb, hiff⟩ := ih psz.tail mask.tail (by omega)
      refine ⟨b, (if_neg (not_not.mpr heq)).trans hb, hiff.trans ?_⟩
      exact ⟨fun h => ⟨hpsz, heq, h⟩, fun h => h.2.2⟩
    · exact ⟨false, if_pos heq, iff_of_false Bool.false_ne_true fun h => heq h.2.1⟩

/-- **`WildcardMatch` ends and is right.** From the depth on that both strings need it returns one answer, which is
whether the string splits along the mask. -/
theorem wildcardMatch_iff (psz mask : List Char) :
    ∃ b, (∀ depth, psz.length + mask.length < depth → wildcardMatch depth psz mask = some b) ∧
      (b = true ↔ MaskMatches (cStr mask) (cStr psz)) := by
  obtain ⟨b, -, hiff⟩ := wildcardMatch_spec psz mask (Nat.lt_succ_self (psz.length + mask.length))
  refine ⟨b, ?_, hiff⟩
  intro depth hdepth
  obtain ⟨b', hb', hiff'⟩ := wildcardMatch_spec psz mask hdepth
  rw [hb', Bool.eq_iff_iff.mpr (hiff'.trans hiff.symm)]

/-- The star takes three characters, one of which could have ended its search. -/
example : wildcardMatch 12 ['1', '.', '2', '.', '2'] ['1', '*', '.', '?'] = some true := by decide

end Util

end Syscoin

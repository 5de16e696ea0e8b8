import Mathlib.Data.List.GetD
import Mathlib.Data.Rat.Cast.Order
import Mathlib.Tactic.Ring
import Syscoin.Lib.Access
import Syscoin.Primitives.Text

/-!
# `Correctness.Money` — amounts as text

`ParseMoney` takes the texts that are digits with a point among them at most and spaces around, if there are not too many
of the digits, and its answer is the number that they say (`parseMoney_eq_some_iff`); nothing overflows on the way. What
`FormatMoney` cuts off are zeros behind the point, and it leaves two digits there, so that the amount comes back
(`money_text`). Both see a string up to its first zero only.
-/

namespace Syscoin

open Lib

namespace Util

/-- The number that digits say. -/
def number (digits : List Char) : Nat := Nat.ofDigitChars 10 digits 0

theorem number_append (digits more : List Char) :
    number (digits ++ more) = number digits * 10 ^ more.length + number more := by
  rw [number, Nat.ofDigitChars_append, Nat.ofDigitChars_eq_ofDigitChars_zero, Nat.mul_comm, number, number]

theorem number_replicate_zero (n : Nat) : number (List.replicate n '0') = 0 := by
  rw [number, Nat.ofDigitChars_replicate_zero, Nat.mul_zero]

theorem number_cons (c : Char) (digits : List Char) :
    number (c :: digits) = (c.toNat - 48) * 10 ^ digits.length + number digits := by
  have hsingle : number [c] = c.toNat - 48 := by
    rw [number, Nat.ofDigitChars_cons, Nat.ofDigitChars_nil, Nat.mul_zero, Nat.zero_add]
    rfl
  rw [← List.singleton_append, number_append, hsingle]

theorem number_toDigits (n : Nat) : number (Nat.toDigits 10 n) = n := Nat.ofDigitChars_ten_toDigits

theorem isdigit_iff {c : Char} : isdigit c = true ↔ 48 ≤ c.toNat ∧ c.toNat ≤ 57 := Char.isDigit_iff_toNat

theorem isdigit_toDigits {n : Nat} {c : Char} (h : c ∈ Nat.toDigits 10 n) : isdigit c = true :=
  Nat.isDigit_of_mem_toDigits (by decide) (by decide) h

theorem number_lt {digits : List Char} (h : ∀ c ∈ digits, isdigit c = true) : number digits < 10 ^ digits.length := by
  induction digits with
  | nil => exact Nat.one_pos
  | cons c digits ih =>
    obtain ⟨hhead, hdigits⟩ := List.forall_mem_cons.mp h
    have hc := isdigit_iff.mp hhead
    have hmul : (c.toNat - 48 + 1) * 10 ^ digits.length ≤ 10 * 10 ^ digits.length := Nat.mul_le_mul_right _ (by omega)
    have htail := ih hdigits
    rw [number_cons, List.length_cons, Nat.pow_succ']
    rw [Nat.add_mul, Nat.one_mul] at hmul
    omega

/-! ## `FormatMoney` -/

section Format

variable {pre frac : List Char} {j : Nat}

theorem charAt_behind_point (pre frac : List Char) (m : Nat) :
    charAt (pre ++ '.' :: frac) (pre.length + 1 + m) = charAt frac m := by
  rw [charAt, charAt, List.getD_append_right _ _ _ _ (by omega)]
  have hindex : pre.length + 1 + m - pre.length = m + 1 := by omega
  rw [hindex, List.getD_cons_succ]

/-- **What the loop counts** are zeros, and two digits behind the point stay. -/
theorem trimLoop_spec (pre : List Char) (hdigits : ∀ c ∈ frac, isdigit c = true) (hlow : 2 ≤ j) (hhigh : j ≤ frac.length) :
    trimLoop (pre ++ '.' :: frac) (pre.length + j) + 2 ≤ j ∧
      frac.take j = frac.take (j - trimLoop (pre ++ '.' :: frac) (pre.length + j)) ++
        List.replicate (trimLoop (pre ++ '.' :: frac) (pre.length + j)) '0' := by
  induction j, hlow using Nat.le_induction with
  | base =>
    have hpoint : charAt (pre ++ '.' :: frac) pre.length = '.' := by
      rw [charAt, List.getD_append_right _ _ _ _ le_rfl, Nat.sub_self, List.getD_cons_zero]
    have hstop : trimLoop (pre ++ '.' :: frac) (pre.length + 2) = 0 := by
      rw [trimLoop, hpoint, if_neg]
      exact fun h => absurd h.2 (by decide)
    rw [hstop]
    exact ⟨le_rfl, (List.append_nil _).symm⟩
  | succ j hlow ih =>
    obtain ⟨hle, htake⟩ := ih (by omega)
    have hlast : charAt (pre ++ '.' :: frac) (pre.length + j + 1) = frac[j] := by
      have hindex : pre.length + j + 1 = pre.length + 1 + j := by omega
      rw [hindex, charAt_behind_point, charAt, List.getD_eq_getElem _ _ hhigh]
    have hback : isdigit (charAt (pre ++ '.' :: frac) (pre.length + j - 1)) = true := by
      have hindex : pre.length + j - 1 = pre.length + 1 + (j - 2) := by omega
      have hin : j - 2 < frac.length := by omega
      rw [hindex, charAt_behind_point, charAt, List.getD_eq_getElem _ _ hin]
      exact hdigits _ (List.getElem_mem hin)
    obtain ⟨i, hi⟩ : ∃ i, pre.length + j = i + 1 := ⟨pre.length + j - 1, by omega⟩
    have hnext : trimLoop (pre ++ '.' :: frac) (pre.length + (j + 1)) =
        if frac[j] = '0' then trimLoop (pre ++ '.' :: frac) (pre.length + j) + 1 else 0 := by
      rw [← Nat.add_assoc, ← hlast]
      rw [hi, Nat.add_sub_cancel] at hback
      rw [hi, trimLoop]
      simp only [and_iff_left hback]
    rw [hnext]
    by_cases hzero : frac[j] = '0'
    · rw [if_pos hzero]
      generalize trimLoop (pre ++ '.' :: frac) (pre.length + j) = nTrim at hle htake
      refine ⟨by omega, ?_⟩
      rw [List.take_succ_eq_append_getElem hhigh, hzero, Nat.add_sub_add_right, List.replicate_succ', ← List.append_assoc,
        ← htake]
    · rw [if_neg hzero]
      exact ⟨by omega, (List.append_nil _).symm⟩

/-- What is cut off are zeros. -/
theorem take_trimLoop (pre : List Char) (hdigits : ∀ c ∈ frac, isdigit c = true) (hlength : 2 ≤ frac.length) :
    ∃ kept nTrim, frac = kept ++ List.replicate nTrim '0' ∧
      (pre ++ '.' :: frac).take ((pre ++ '.' :: frac).length -
        trimLoop (pre ++ '.' :: frac) ((pre ++ '.' :: frac).length - 1)) = pre ++ '.' :: kept := by
  obtain ⟨hle, htake⟩ := trimLoop_spec pre hdigits hlength le_rfl
  have hlast : (pre ++ '.' :: frac).length - 1 = pre.length + frac.length := by
    rw [List.length_append, List.length_cons]
    omega
  refine ⟨_, _, by rwa [List.take_length] at htake, ?_⟩
  rw [hlast]
  generalize trimLoop (pre ++ '.' :: frac) (pre.length + frac.length) = nTrim at hle
  have hcut : (pre ++ '.' :: frac).length - nTrim = pre.length + (frac.length - nTrim + 1) := by
    rw [List.length_append, List.length_cons]
    omega
  rw [hcut, List.take_length_add_append, List.take_succ_cons]

theorem length_zeroPadded {width n : Nat} (hwidth : 0 < width) (h : n < 10 ^ width) :
    (zeroPadded width n).length = width := by
  have hle := (Nat.length_toDigits_le_iff (by decide) hwidth).mpr h
  rw [zeroPadded, List.length_append, List.length_replicate]
  omega

theorem isdigit_zeroPadded {width n : Nat} {c : Char} (h : c ∈ zeroPadded width n) : isdigit c = true := by
  rcases List.mem_append.mp h with h | h
  · rw [List.eq_of_mem_replicate h]
    rfl
  · exact isdigit_toDigits h

theorem number_zeroPadded (width n : Nat) : number (zeroPadded width n) = n := by
  rw [zeroPadded, number_append, number_replicate_zero, number_toDigits, Nat.zero_mul, Nat.zero_add]

/-- **An amount as text**: the digits of the coins, the point, and not more than eight digits behind it. -/
theorem formatMoney_eq {n : Int} (hn : 0 ≤ n) (hmax : n < 2 ^ 63) :
    ∃ frac, formatMoney n false = .ok (Nat.toDigits 10 (n / COIN).toNat ++ '.' :: frac) ∧
      (∀ c ∈ frac, isdigit c = true) ∧ frac.length ≤ 8 ∧
      (number frac * 10 ^ (8 - frac.length) : Nat) = n % COIN := by
  have habs : (if n > 0 then n else -n) = n := by
    by_cases hpos : n > 0
    · exact if_pos hpos
    · rw [if_neg hpos]
      omega
  have hlow : 0 ≤ n % COIN := Int.emod_nonneg n (by decide)
  have hhigh : n % COIN < 10 ^ 8 := Int.emod_lt_of_pos n (by decide)
  have hlength : (zeroPadded 8 (n % COIN).toNat).length = 8 := length_zeroPadded (by decide) (by omega)
  have hdigits : ∀ c ∈ zeroPadded 8 (n % COIN).toNat, isdigit c = true := fun c hc => isdigit_zeroPadded hc
  obtain ⟨kept, nTrim, hkept, htake⟩ := take_trimLoop (Nat.toDigits 10 (n / COIN).toNat) hdigits (by omega)
  have hnumber := number_zeroPadded 8 (n % COIN).toNat
  have hformat : formatMoney n false = .ok (Nat.toDigits 10 (n / COIN).toNat ++ '.' :: kept) := by
    rw [formatMoney, habs, int64_eq (by omega) hmax, ok_bind, ← htake]
    simp only [if_neg (not_lt.mpr hn), Bool.false_eq_true, false_and, if_false]
  rw [hkept] at hlength hdigits hnumber
  rw [List.length_append, List.length_replicate] at hlength
  refine ⟨kept, hformat, (List.forall_mem_append.mp hdigits).1, by omega, ?_⟩
  have hback : 8 - kept.length = nTrim := by omega
  rw [number_append, number_replicate_zero, List.length_replicate, Nat.add_zero] at hnumber
  rw [hback, hnumber]
  exact Int.toNat_of_nonneg hlow

end Format

/-! ## `ParseMoney` -/

section Parse

variable {p rest digits strWhole : List Char} {k : Nat} {nUnits : Int}

theorem isspace_eq_false_of_isdigit {c : Char} (h : isdigit c = true) : isspace c = false := by
  have hc := isdigit_iff.mp h
  apply decide_eq_false
  omega

theorem isdigit_eq_false_of_isspace {c : Char} (h : isspace c = true) : isdigit c = false := by
  by_contra hdigit
  rw [isspace_eq_false_of_isdigit (Bool.eq_true_of_not_eq_false hdigit)] at h
  exact Bool.false_ne_true h

theorem no_units (p : List Char) (k : Nat) : (.ok (nUnits, p) : Except Overflow (Int × List Char)) =
    .ok (nUnits + (number [] * 10 ^ (k - ([] : List Char).length) : Nat), p.drop ([] : List Char).length) := by
  have hnumber : number [] = 0 := rfl
  rw [hnumber, Nat.zero_mul, Nat.cast_zero, Int.add_zero, List.length_nil, List.drop_zero]

/-- **The digits behind the point**, of which no more than `k` are taken. -/
theorem parseUnits_eq (hlow : 0 ≤ nUnits) (hhigh : nUnits + 10 ^ k ≤ 10 ^ 9) :
    parseUnits p (10 ^ k / 10) nUnits =
      .ok (nUnits + (number ((p.takeWhile isdigit).take k) * 10 ^ (k - ((p.takeWhile isdigit).take k).length) : Nat),
        p.drop ((p.takeWhile isdigit).take k).length) := by
  induction p generalizing k nUnits with
  | nil =>
    rw [parseUnits, List.takeWhile_nil, List.take_nil]
    exact no_units [] k
  | cons c p ih =>
    by_cases hc : isdigit c = true
    · cases k with
      | zero =>
        rw [parseUnits, if_neg fun h => absurd h.2 (by decide), List.take_zero]
        exact no_units (c :: p) 0
      | succ k =>
        have hdigit := isdigit_iff.mp hc
        have hmult : (10 : Int) ^ (k + 1) / 10 = 10 ^ k := by
          rw [pow_succ, Int.mul_ediv_cancel _ (by decide)]
        have hpos : (0 : Int) < 10 ^ k := Int.pow_pos (by decide)
        have hterm : (10 : Int) ^ k * (c.toNat - 48) ≤ 10 ^ k * 9 := Int.mul_le_mul_of_nonneg_left (by omega) hpos.le
        have hterm' : (0 : Int) ≤ 10 ^ k * (c.toNat - 48) := Int.mul_nonneg hpos.le (by omega)
        rw [pow_succ] at hhigh
        rw [parseUnits, hmult, if_pos ⟨hc, hpos⟩, int64_eq (by omega) (by omega), ok_bind,
          int64_eq (by omega) (by omega), ok_bind, ih (by omega) (by omega), List.takeWhile_cons_of_pos hc,
          List.take_succ_cons, List.length_cons, number_cons, List.drop_succ_cons, Nat.add_sub_add_right]
        generalize hfrac : (p.takeWhile isdigit).take k = frac
        have hle : frac.length ≤ k := hfrac ▸ List.length_take_le k _
        have hpow : 10 ^ frac.length * 10 ^ (k - frac.length) = 10 ^ k := by rw [← Nat.pow_add, Nat.add_sub_cancel' hle]
        have hcast : (((c.toNat - 48) * 10 ^ k : Nat) : Int) = 10 ^ k * (c.toNat - 48) := by
          rw [Nat.cast_mul, Nat.cast_sub hdigit.1, Nat.cast_pow, Int.mul_comm, Nat.cast_ofNat, Nat.cast_ofNat]
        rw [Nat.add_mul, Nat.mul_assoc, hpow, Nat.cast_add, hcast, Int.add_assoc]
    · rw [parseUnits, if_neg fun h => hc h.1, List.takeWhile_cons_of_neg hc, List.take_nil]
      exact no_units (c :: p) k

/-- The digits in front of the point are kept. -/
theorem parseWhole_digits (hdigits : ∀ c ∈ digits, isdigit c = true) :
    parseWhole (digits ++ rest) strWhole = parseWhole rest (strWhole ++ digits) := by
  induction digits generalizing strWhole with
  | nil => rw [List.nil_append, List.append_nil]
  | cons c digits ih =>
    obtain ⟨hc, hdigits⟩ := List.forall_mem_cons.mp hdigits
    have hpoint : c ≠ '.' := by
      rintro rfl
      exact absurd hc (by decide)
    have hspace := isspace_eq_false_of_isdigit hc
    rw [List.cons_append, parseWhole, if_neg hpoint, if_neg (Bool.eq_false_iff.mp hspace),
      if_neg (by rw [hc]; exact Bool.noConfusion), ih hdigits, List.append_assoc, List.singleton_append]

/-- What no digit starts is no digits. -/
theorem takeWhile_isdigit_append (hdigits : ∀ c ∈ digits, isdigit c = true) (hrest : ∀ c ∈ rest, isspace c = true) :
    (digits ++ rest).takeWhile isdigit = digits := by
  rw [List.takeWhile_append_of_pos hdigits]
  cases rest with
  | nil => exact List.append_nil digits
  | cons c rest =>
    have hc := isdigit_eq_false_of_isspace (hrest c List.mem_cons_self)
    rw [List.takeWhile_cons_of_neg (Bool.eq_false_iff.mp hc), List.append_nil]

/-- **Digits that fit are the number they say.** -/
theorem atoi64_eq (hdigits : ∀ c ∈ digits, isdigit c = true) (hlength : digits.length ≤ 10) :
    atoi64 digits = number digits := by
  have hne : ∀ c ∈ digits, c ≠ '\x00' ∧ c ≠ '-' ∧ c ≠ '+' := by
    intro c hc
    have hdigit := hdigits c hc
    refine ⟨?_, ?_, ?_⟩ <;>
    · rintro rfl
      exact absurd hdigit (by decide)
  have hread : cStr digits = digits := cStr_eq_self fun c hc => (hne c hc).1
  have hspace : digits.dropWhile isspace = digits := by
    rw [List.dropWhile_eq_self_iff]
    intro hl
    exact Bool.eq_false_iff.mp (isspace_eq_false_of_isdigit (hdigits _ (List.getElem_mem hl)))
  have hsign : deref digits ≠ '-' ∧ deref digits ≠ '+' := by
    cases digits with
    | nil => decide
    | cons c digits => exact (hne c List.mem_cons_self).2
  have htake : digits.takeWhile isdigit = digits := List.takeWhile_eq_self_iff.mpr hdigits
  have hlt := (number_lt hdigits).trans_le (Nat.pow_le_pow_right (by decide) hlength)
  rw [atoi64, hread, hspace]
  simp only [hsign.1, hsign.2, or_self, if_false, htake]
  show max (-2 ^ 63) (min (2 ^ 63 - 1) (number digits : Int)) = number digits
  omega

theorem parseWhole_spaces (hrest : ∀ c ∈ rest, isspace c = true) :
    parseWhole rest strWhole = .ok (some (strWhole, 0, rest)) := by
  cases rest with
  | nil => rfl
  | cons c rest =>
    have hc := hrest c List.mem_cons_self
    have hpoint : c ≠ '.' := by
      rintro rfl
      exact absurd hc (by decide)
    rw [parseWhole, if_neg hpoint, if_pos hc]

/-- The digits behind a point, and what they are worth in units. -/
theorem parseWhole_point (p strWhole : List Char) : parseWhole ('.' :: p) strWhole =
    .ok (some (strWhole, (number ((p.takeWhile isdigit).take 8) * 10 ^ (8 - ((p.takeWhile isdigit).take 8).length) : Nat),
      p.drop ((p.takeWhile isdigit).take 8).length)) := by
  have hunits := parseUnits_eq (p := p) (k := 8) (le_refl (0 : Int)) (by decide)
  have hmult : CENT * 10 = 10 ^ 8 / 10 := rfl
  rw [parseWhole, if_pos rfl, hmult, hunits, Int.zero_add]
  rfl

/-- Units are less than a coin. -/
theorem units_lt {frac : List Char} (hdigits : ∀ c ∈ frac, isdigit c = true) (hlength : frac.length ≤ 8) :
    number frac * 10 ^ (8 - frac.length) < 10 ^ 8 := by
  calc number frac * 10 ^ (8 - frac.length) < 10 ^ frac.length * 10 ^ (8 - frac.length) :=
        Nat.mul_lt_mul_of_pos_right (number_lt hdigits) (Nat.pow_pos (by decide))
    _ = 10 ^ 8 := by rw [← Nat.pow_add, Nat.add_sub_cancel' hlength]

/-- **The checks at the end**, behind which nothing overflows. -/
theorem parseMoney_of_parseWhole {str : List Char}
    (hparse : parseWhole ((cStr str).dropWhile isspace) [] = .ok (some (strWhole, nUnits, p)))
    (hdigits : ∀ c ∈ strWhole, isdigit c = true) (hlow : 0 ≤ nUnits) (hhigh : nUnits < 10 ^ 8) :
    parseMoney str =
      .ok (if p.all isspace = true ∧ strWhole.length ≤ 10 then some (number strWhole * COIN + nUnits) else none) := by
  have hcoin : COIN = 10 ^ 8 := rfl
  have hwhole : (number strWhole : Int) * COIN = number strWhole * 10 ^ 8 := rfl
  rw [parseMoney, hparse, ok_bind]
  by_cases hspace : p.all isspace = true
  · by_cases hlength : strWhole.length ≤ 10
    · have hlt := (number_lt hdigits).trans_le (Nat.pow_le_pow_right (by decide) hlength)
      rw [if_pos ⟨hspace, hlength⟩]
      simp only [hspace, Bool.true_eq_false, if_false, if_neg (not_lt.mpr hlength)]
      rw [if_neg (by omega), atoi64_eq hdigits hlength, int64_eq (by omega) (by omega), ok_bind,
        int64_eq (by omega) (by omega), ok_bind]
    · rw [if_neg fun h => hlength h.2]
      simp only [hspace, Bool.true_eq_false, if_false, if_pos (not_le.mp hlength)]
  · rw [if_neg fun h => hspace h.1]
    simp only [Bool.eq_false_of_not_eq_true hspace, if_true]

/-! ## The texts of amounts -/

/-- Digits with a point among them at most, and spaces around. -/
structure MoneyText (text whole frac : List Char) : Prop where
  whole_digits : ∀ c ∈ whole, isdigit c = true
  frac_digits : ∀ c ∈ frac, isdigit c = true
  shape : ∃ before point after, text = before ++ (whole ++ (point ++ after)) ∧ (∀ c ∈ before, isspace c = true) ∧
    (∀ c ∈ after, isspace c = true) ∧ (point = '.' :: frac ∨ point = [] ∧ frac = [])

/-- What the digits say, in units. -/
def unitsOf (whole frac : List Char) : Int := number whole * COIN + (number frac * 10 ^ (8 - frac.length) : Nat)

variable {str whole frac : List Char}

/-- The spaces in front are skipped, and those behind if there is nothing else. -/
theorem MoneyText.skipped {text : List Char} (h : MoneyText text whole frac) :
    ∃ point after, text.dropWhile isspace = whole ++ (point ++ after) ∧ (∀ c ∈ after, isspace c = true) ∧
      (point = '.' :: frac ∨ point = [] ∧ frac = []) := by
  obtain ⟨before, point, after, rfl, hbefore, hafter, hpoint⟩ := h.shape
  rw [List.dropWhile_append_of_pos hbefore]
  cases hwhole : whole with
  | cons c whole =>
    have hc := isspace_eq_false_of_isdigit (h.whole_digits c (hwhole ▸ List.mem_cons_self))
    refine ⟨point, after, ?_, hafter, hpoint⟩
    rw [List.cons_append, List.dropWhile_cons_of_neg (Bool.eq_false_iff.mp hc)]
  | nil =>
    rcases hpoint with rfl | ⟨rfl, rfl⟩
    · exact ⟨_, after, List.dropWhile_cons_of_neg (by decide), hafter, .inl rfl⟩
    · refine ⟨[], [], ?_, fun c hc => absurd hc List.not_mem_nil, .inr ⟨rfl, rfl⟩⟩
      exact List.dropWhile_eq_nil_iff.mpr hafter

/-- **Every such text is taken**, if there are not too many digits. -/
theorem parseMoney_of_moneyText (h : MoneyText (cStr str) whole frac) (hwhole : whole.length ≤ 10)
    (hfrac : frac.length ≤ 8) : parseMoney str = .ok (some (unitsOf whole frac)) := by
  obtain ⟨point, after, hskip, hafter, hpoint⟩ := h.skipped
  have hunits := units_lt h.frac_digits hfrac
  have hparse : parseWhole ((cStr str).dropWhile isspace) [] =
      .ok (some (whole, (number frac * 10 ^ (8 - frac.length) : Nat), after)) := by
    rw [hskip, parseWhole_digits h.whole_digits, List.nil_append]
    rcases hpoint with rfl | ⟨rfl, rfl⟩
    · have htake : ((frac ++ after).takeWhile isdigit).take 8 = frac := by
        rw [takeWhile_isdigit_append h.frac_digits hafter, List.take_of_length_le hfrac]
      rw [List.cons_append, parseWhole_point, htake, List.drop_left]
    · exact parseWhole_spaces hafter
  rw [parseMoney_of_parseWhole hparse h.whole_digits (Nat.cast_nonneg _) (by exact_mod_cast hunits)]
  rw [if_pos ⟨List.all_eq_true.mpr hafter, hwhole⟩, unitsOf]

/-- Behind the digits comes a point with digits, or no point, or the text is no amount. -/
theorem parseWhole_end (hrest : ∀ h : rest ≠ [], isdigit (rest.head h) = false) (strWhole : List Char) :
    parseWhole rest strWhole = .ok none ∨ ∃ frac point after, rest = point ++ after ∧
      (point = '.' :: frac ∨ point = [] ∧ frac = []) ∧ (∀ c ∈ frac, isdigit c = true) ∧ frac.length ≤ 8 ∧
      parseWhole rest strWhole = .ok (some (strWhole, (number frac * 10 ^ (8 - frac.length) : Nat), after)) := by
  cases rest with
  | nil => exact .inr ⟨[], [], [], rfl, .inr ⟨rfl, rfl⟩, fun c hc => absurd hc List.not_mem_nil, Nat.zero_le 8, rfl⟩
  | cons c p =>
    have hdigit : isdigit c = false := hrest (List.cons_ne_nil c p)
    by_cases hpoint : c = '.'
    · subst hpoint
      have hfront : (p.takeWhile isdigit).take 8 <+: p :=
        (List.take_prefix 8 _).trans (List.takeWhile_prefix isdigit)
      refine .inr ⟨_, _, _, ?_, .inl rfl, ?_, List.length_take_le 8 _, parseWhole_point p strWhole⟩
      · exact congrArg ('.' :: ·) (List.prefix_iff_eq_append.mp hfront).symm
      · intro c hc
        exact List.mem_takeWhile_imp (List.mem_of_mem_take hc)
    · by_cases hspace : isspace c = true
      · refine .inr ⟨[], [], c :: p, rfl, .inr ⟨rfl, rfl⟩, fun c hc => absurd hc List.not_mem_nil, Nat.zero_le 8, ?_⟩
        rw [parseWhole, if_neg hpoint, if_pos hspace]
        rfl
      · left
        rw [parseWhole, if_neg hpoint, if_neg hspace, if_pos hdigit]

/-- **Nothing else is taken**, and nothing overflows on any text. -/
theorem parseMoney_cases (str : List Char) : parseMoney str = .ok none ∨
    ∃ whole frac, MoneyText (cStr str) whole frac ∧ whole.length ≤ 10 ∧ frac.length ≤ 8 ∧
      parseMoney str = .ok (some (unitsOf whole frac)) := by
  have htext : cStr str = (cStr str).takeWhile isspace ++ (cStr str).dropWhile isspace :=
    List.takeWhile_append_dropWhile.symm
  have hbefore : ∀ c ∈ (cStr str).takeWhile isspace, isspace c = true := fun c hc => List.mem_takeWhile_imp hc
  generalize hp : (cStr str).dropWhile isspace = p at htext
  have hsplit : p = p.takeWhile isdigit ++ p.dropWhile isdigit := List.takeWhile_append_dropWhile.symm
  have hwhole : ∀ c ∈ p.takeWhile isdigit, isdigit c = true := fun c hc => List.mem_takeWhile_imp hc
  have hhead : ∀ h : p.dropWhile isdigit ≠ [], isdigit ((p.dropWhile isdigit).head h) = false :=
    fun h => by simpa using List.head_dropWhile_not isdigit h
  generalize p.takeWhile isdigit = whole at hsplit hwhole
  generalize p.dropWhile isdigit = rest at hsplit hhead
  have hparse : parseWhole ((cStr str).dropWhile isspace) [] = parseWhole rest whole := by
    rw [hp, hsplit, parseWhole_digits hwhole, List.nil_append]
  rcases parseWhole_end hhead whole with hnone | ⟨frac, point, after, hrest, hpoint, hfrac, hlength, hsome⟩
  · left
    rw [parseMoney, hparse, hnone, ok_bind]
  · have hmoney := parseMoney_of_parseWhole (hparse.trans hsome) hwhole (Nat.cast_nonneg _)
      (by exact_mod_cast units_lt hfrac hlength)
    by_cases hgood : after.all isspace = true ∧ whole.length ≤ 10
    · refine .inr ⟨whole, frac, ⟨hwhole, hfrac, _, point, after, ?_, hbefore, List.all_eq_true.mp hgood.1, hpoint⟩,
        hgood.2, hlength, hmoney.trans (by rw [if_pos hgood, unitsOf])⟩
      rw [← hrest, ← hsplit, ← htext]
    · exact .inl (hmoney.trans (by rw [if_neg hgood]))

/-- **`ParseMoney`** takes the texts of amounts with no more than ten digits and eight digits, as the amounts they are. -/
theorem parseMoney_eq_some_iff {v : Int} : parseMoney str = .ok (some v) ↔
    ∃ whole frac, MoneyText (cStr str) whole frac ∧ whole.length ≤ 10 ∧ frac.length ≤ 8 ∧ v = unitsOf whole frac := by
  constructor
  · intro h
    rcases parseMoney_cases str with hnone | ⟨whole, frac, htext, hwhole, hfrac, hsome⟩
    · rw [hnone] at h
      cases h
    · rw [hsome] at h
      cases h
      exact ⟨whole, frac, htext, hwhole, hfrac, rfl⟩
  · rintro ⟨whole, frac, htext, hwhole, hfrac, rfl⟩
    exact parseMoney_of_moneyText htext hwhole hfrac

theorem MoneyText.characters {text : List Char} (h : MoneyText text whole frac) {c : Char} (hc : c ∈ text) :
    isspace c = true ∨ isdigit c = true ∨ c = '.' := by
  obtain ⟨before, point, after, rfl, hbefore, hafter, hpoint⟩ := h.shape
  rcases List.mem_append.mp hc with hc | hc
  · exact .inl (hbefore c hc)
  rcases List.mem_append.mp hc with hc | hc
  · exact .inr (.inl (h.whole_digits c hc))
  rcases List.mem_append.mp hc with hc | hc
  · rcases hpoint with rfl | ⟨rfl, -⟩
    · rcases List.mem_cons.mp hc with rfl | hc
      · exact .inr (.inr rfl)
      · exact .inr (.inl (h.frac_digits c hc))
    · cases hc
  · exact .inl (hafter c hc)

/-! ## There and back -/

/-- The number that digits with a point among them say. -/
def decimalValue (whole frac : List Char) : ℚ := number whole + number frac / 10 ^ frac.length

theorem unitsOf_eq (hlength : frac.length ≤ 8) : (unitsOf whole frac : ℚ) = decimalValue whole frac * COIN := by
  have hpow : (10 : ℚ) ^ frac.length * 10 ^ (8 - frac.length) = 10 ^ 8 := by
    rw [← pow_add, Nat.add_sub_cancel' hlength]
  have hcoin : ((COIN : Int) : ℚ) = 10 ^ 8 := by norm_num [COIN]
  have hne : (10 : ℚ) ^ frac.length ≠ 0 := by positivity
  rw [decimalValue, unitsOf, add_mul, hcoin, ← hpow, ← mul_assoc (_ / _), div_mul_cancel₀ _ hne, hpow]
  push_cast
  rw [hcoin]

theorem unitsOf_range (hwhole : ∀ c ∈ whole, isdigit c = true) (hfrac : ∀ c ∈ frac, isdigit c = true)
    (hwhole_length : whole.length ≤ 10) (hfrac_length : frac.length ≤ 8) :
    0 ≤ unitsOf whole frac ∧ unitsOf whole frac < 10 ^ 18 := by
  have hlt := (number_lt hwhole).trans_le (Nat.pow_le_pow_right (by decide) hwhole_length)
  have hunits := units_lt hfrac hfrac_length
  have heq : unitsOf whole frac = number whole * 10 ^ 8 + (number frac * 10 ^ (8 - frac.length) : Nat) := rfl
  omega

end Parse

/-- **Amounts as text.** What is written comes back, and what is read is the value of the text up to its first zero. -/
theorem money_text :
    (∀ n : Int, 0 ≤ n → n < 10 ^ 18 → ∃ text, formatMoney n false = .ok text ∧ parseMoney text = .ok (some n)) ∧
      ∀ str, parseMoney str = .ok none ∨ ∃ v whole frac, parseMoney str = .ok (some v) ∧ 0 ≤ v ∧ v < 10 ^ 18 ∧
        MoneyText (cStr str) whole frac ∧ v = decimalValue whole frac * COIN := by
  constructor
  · intro n hn hmax
    obtain ⟨frac, hformat, hdigits, hlength, hunits⟩ := formatMoney_eq hn (by omega)
    refine ⟨_, hformat, ?_⟩
    have hcoins : (n / COIN).toNat < 10 ^ 10 := by
      have hlt : n / COIN < 10 ^ 10 := Int.ediv_lt_of_lt_mul (by decide) hmax
      omega
    have hwhole : ∀ c ∈ Nat.toDigits 10 (n / COIN).toNat, isdigit c = true := fun c hc => isdigit_toDigits hc
    have hread : cStr (Nat.toDigits 10 (n / COIN).toNat ++ '.' :: frac) =
        Nat.toDigits 10 (n / COIN).toNat ++ '.' :: frac := by
      apply cStr_eq_self
      rintro c hc rfl
      rcases List.mem_append.mp hc with hc | hc
      · exact absurd (hwhole _ hc) (by decide)
      · rcases List.mem_cons.mp hc with hc | hc
        · exact absurd hc (by decide)
        · exact absurd (hdigits _ hc) (by decide)
    refine parseMoney_eq_some_iff.mpr ⟨Nat.toDigits 10 (n / COIN).toNat, frac, ⟨hwhole, hdigits, [], '.' :: frac, [], ?_,
      fun c hc => absurd hc List.not_mem_nil, fun c hc => absurd hc List.not_mem_nil, .inl rfl⟩, ?_, hlength, ?_⟩
    · rw [hread, List.nil_append, List.append_nil]
    · exact (Nat.length_toDigits_le_iff (by decide) (by decide)).mpr hcoins
    · rw [unitsOf, number_toDigits, hunits, Int.toNat_of_nonneg (Int.ediv_nonneg hn (by decide)), Int.mul_comm]
      exact (Int.mul_ediv_add_emod n COIN).symm
  · intro str
    rcases parseMoney_cases str with hnone | ⟨whole, frac, htext, hwhole, hfrac, hsome⟩
    · exact .inl hnone
    · obtain ⟨hlow, hhigh⟩ := unitsOf_range htext.whole_digits htext.frac_digits hwhole hfrac
      exact .inr ⟨_, whole, frac, hsome, hlow, hhigh, htext, unitsOf_eq hfrac⟩

/-- Twelve coins and a half, with spaces around, and the least amount. -/
theorem money_text_samples :
    (∃ text, formatMoney 1 false = .ok text ∧ parseMoney text = .ok (some 1)) ∧
      parseMoney [' ', '1', '2', '.', '5', ' '] = .ok (some 1250000000) :=
  ⟨money_text.1 1 (by decide) (by decide), by decide +kernel⟩

/-- One coin, a zero, and a digit that is not read: the string is no amount, and one coin is what it is taken for. -/
theorem behind_zero_dropped : parseMoney ['1', '\x00', '5'] = .ok (some COIN) ∧
    ¬ ∃ whole frac, MoneyText ['1', '\x00', '5'] whole frac := by
  refine ⟨by decide +kernel, ?_⟩
  rintro ⟨whole, frac, htext⟩
  have hzero := htext.characters (List.mem_cons_of_mem '1' List.mem_cons_self)
  exact absurd hzero (by decide)

end Util

end Syscoin

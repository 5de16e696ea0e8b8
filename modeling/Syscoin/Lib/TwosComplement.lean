import Mathlib.Data.Nat.Size
import Mathlib.Tactic.Ring

/-!
# `Lib.TwosComplement` — integers as bytes, the highest first

Every integer has many encodings in two's complement, of all lengths from some length on. For an integer that is not
negative the shortest one is unique (`shortest_iff`), and it is told from the others by its first two bytes
(`trimmed_iff`).
-/

namespace Lib

variable {bs : List UInt8} {n w : Nat}

/-- The number that bytes stand for, the highest first. -/
def ofBE : List UInt8 → Nat
  | [] => 0
  | b :: bs => b.toNat * 256 ^ bs.length + ofBE bs

/-- The low `w` bytes of a number, the highest first. -/
def toBE : Nat → Nat → List UInt8
  | 0, _ => []
  | w + 1, n => UInt8.ofNat (n / 256 ^ w % 256) :: toBE w n

theorem ofBE_lt (bs : List UInt8) : ofBE bs < 256 ^ bs.length := by
  induction bs with
  | nil => simp [ofBE]
  | cons b bs ih =>
    have hb : (b.toNat + 1) * 256 ^ bs.length ≤ 256 * 256 ^ bs.length := Nat.mul_le_mul_right _ b.toNat_lt
    rw [ofBE, List.length_cons, Nat.pow_succ']
    rw [Nat.add_mul, Nat.one_mul] at hb
    omega

@[simp] theorem length_toBE (w n : Nat) : (toBE w n).length = w := by
  induction w with
  | zero => rfl
  | succ w ih => rw [toBE, List.length_cons, ih]

theorem ofBE_toBE (w n : Nat) : ofBE (toBE w n) = n % 256 ^ w := by
  induction w with
  | zero => simp [toBE, ofBE, Nat.mod_one]
  | succ w ih =>
    have hbyte : (UInt8.ofNat (n / 256 ^ w % 256)).toNat = n / 256 ^ w % 256 :=
      UInt8.toNat_ofNat_of_lt' (Nat.mod_lt _ (by decide))
    rw [toBE, ofBE, ih, length_toBE, hbyte, Nat.pow_succ, Nat.mod_mul]
    ring

/-- As many bytes with one value are one string. -/
theorem ofBE_inj {cs : List UInt8} (hlength : bs.length = cs.length) (h : ofBE bs = ofBE cs) : bs = cs := by
  induction bs generalizing cs with
  | nil => exact (List.length_eq_zero_iff.mp hlength.symm).symm
  | cons b bs ih =>
    cases cs with
    | nil => cases hlength
    | cons c cs =>
      have hrest : bs.length = cs.length := Nat.succ.inj hlength
      have hpos : 0 < 256 ^ cs.length := Nat.pow_pos (by decide)
      have hb := ofBE_lt bs
      have hc := ofBE_lt cs
      rw [ofBE, ofBE, hrest] at h
      rw [hrest] at hb
      -- the first byte is the quotient, the others are the remainder
      have hfirst : b.toNat = c.toNat := by
        have hquot := congrArg (· / 256 ^ cs.length) h
        simpa [Nat.add_comm (_ * _), Nat.add_mul_div_right _ _ hpos, Nat.div_eq_of_lt hb, Nat.div_eq_of_lt hc]
          using hquot
      rw [hfirst] at h
      rw [UInt8.toNat_inj.mp hfirst, ih hrest (by omega)]

/-! ## With a sign -/

/-- The integer that bytes stand for in two's complement. -/
def signedBE : List UInt8 → Int
  | [] => 0
  | b :: bs => if b.toNat < 128 then ofBE (b :: bs) else ofBE (b :: bs) - 256 ^ (bs.length + 1)

/-- The bytes stand for the integer, and no fewer bytes do. -/
structure Shortest (z : Int) (bs : List UInt8) : Prop where
  ne_nil : bs ≠ []
  value : signedBE bs = z
  le : ∀ cs, cs ≠ [] → signedBE cs = z → bs.length ≤ cs.length

/-- The shortest encoding of a number: one byte for each eight bits begun, a clear bit in front of them included. -/
def minimalBE (n : Nat) : List UInt8 := toBE (n.size / 8 + 1) n

/-- No sign, and no zero in front that is not needed to have none. -/
def Trimmed : List UInt8 → Prop
  | [] => False
  | [b] => b.toNat < 128
  | b :: c :: _ => b.toNat < 128 ∧ (b = 0 → 128 ≤ c.toNat)

/-- All bits of some bytes, and seven more. -/
theorem two_pow_bits (l : Nat) : 2 ^ (8 * l + 7) = 128 * 256 ^ l := by
  rw [Nat.pow_add, Nat.pow_mul]
  ring

theorem ofBE_zero_cons (bs : List UInt8) : ofBE (0 :: bs) = ofBE bs := by
  simp [ofBE]

theorem lt_of_first {b : UInt8} (hb : b.toNat < 128) : ofBE (b :: bs) < 2 ^ (8 * bs.length + 7) := by
  have hrest := ofBE_lt bs
  have hle : (b.toNat + 1) * 256 ^ bs.length ≤ 128 * 256 ^ bs.length := Nat.mul_le_mul_right _ hb
  rw [Nat.add_mul, Nat.one_mul] at hle
  rw [ofBE, two_pow_bits]
  omega

/-- What is not negative has a clear first bit. -/
theorem signedBE_eq_natCast_iff {b : UInt8} : signedBE (b :: bs) = n ↔ b.toNat < 128 ∧ ofBE (b :: bs) = n := by
  have hlt := ofBE_lt (b :: bs)
  rw [List.length_cons] at hlt
  rw [signedBE]
  split
  · rename_i hb
    constructor
    · intro h
      exact ⟨hb, by omega⟩
    · rintro ⟨-, h⟩
      omega
  · -- with the bit set the value is negative
    rename_i hb
    constructor
    · intro h
      push_cast [← Int.ofNat_lt] at hlt
      omega
    · intro h
      exact absurd h.1 hb

theorem size_lt_of_signedBE (hne : bs ≠ []) (h : signedBE bs = n) : ofBE bs = n ∧ n.size < 8 * bs.length := by
  cases bs with
  | nil => exact absurd rfl hne
  | cons b bs =>
    obtain ⟨hb, hvalue⟩ := signedBE_eq_natCast_iff.mp h
    have hsize : n.size ≤ 8 * bs.length + 7 := Nat.size_le.mpr (hvalue ▸ lt_of_first hb)
    rw [List.length_cons]
    exact ⟨hvalue, by omega⟩

theorem signedBE_toBE (h : n.size ≤ 8 * w + 7) : signedBE (toBE (w + 1) n) = n := by
  have hlt : n < 128 * 256 ^ w := (Nat.size_le.mp h).trans_eq (two_pow_bits w)
  have hfits : n < 256 ^ (w + 1) := by
    rw [Nat.pow_succ']
    omega
  have hquot : n / 256 ^ w < 128 := (Nat.div_lt_iff_lt_mul (Nat.pow_pos (by decide))).mpr hlt
  have hvalue : ofBE (toBE (w + 1) n) = n := (ofBE_toBE _ _).trans (Nat.mod_eq_of_lt hfits)
  rw [toBE] at hvalue ⊢
  rw [signedBE_eq_natCast_iff]
  refine ⟨?_, hvalue⟩
  rw [UInt8.toNat_ofNat_of_lt' (Nat.mod_lt _ (by decide))]
  exact (Nat.mod_le _ _).trans_lt hquot

theorem shortest_minimalBE (n : Nat) : Shortest n (minimalBE n) where
  ne_nil := List.ne_nil_of_length_pos (by simp [minimalBE])
  value := signedBE_toBE (by omega)
  le cs hcs h := by
    have hsize := (size_lt_of_signedBE hcs h).2
    rw [minimalBE, length_toBE]
    omega

/-- As long as the shortest encoding, and with the same value, is the shortest encoding. -/
theorem eq_minimalBE (hne : bs ≠ []) (hvalue : signedBE bs = n) (hlength : bs.length = n.size / 8 + 1) :
    bs = minimalBE n := by
  have hmin := shortest_minimalBE n
  apply ofBE_inj
  · rw [hlength, minimalBE, length_toBE]
  · exact (size_lt_of_signedBE hne hvalue).1.trans (size_lt_of_signedBE hmin.ne_nil hmin.value).1.symm

/-- A trimmed string is as long as its value asks for. -/
theorem Trimmed.le_size (h : Trimmed bs) : bs.length ≤ (ofBE bs).size / 8 + 1 := by
  match bs, h with
  | [_], _ => exact Nat.le_add_left 1 _
  | b :: c :: rest, ⟨_, hpad⟩ =>
    have hlow : 2 ^ (8 * rest.length + 7) ≤ ofBE (b :: c :: rest) := by
      rw [ofBE, ofBE, two_pow_bits, List.length_cons, Nat.pow_succ']
      by_cases hb : b = 0
      · have hc : 128 * 256 ^ rest.length ≤ c.toNat * 256 ^ rest.length := Nat.mul_le_mul_right _ (hpad hb)
        omega
      · have hpos : 1 ≤ b.toNat := by
          have : b.toNat ≠ 0 := fun h => hb (UInt8.toNat_inj.mp h)
          omega
        have hle : 1 * (256 * 256 ^ rest.length) ≤ b.toNat * (256 * 256 ^ rest.length) := Nat.mul_le_mul_right _ hpos
        omega
    have hsize := Nat.lt_size.mpr hlow
    rw [List.length_cons, List.length_cons]
    omega

/-- The shortest encodings are told by their first two bytes. -/
theorem trimmed_iff : Trimmed bs ↔ ∃ n : Nat, bs = minimalBE n := by
  constructor
  · intro h
    have hfirst : bs ≠ [] ∧ signedBE bs = ofBE bs := by
      match bs, h with
      | [_], hb => exact ⟨List.cons_ne_nil _ _, signedBE_eq_natCast_iff.mpr ⟨hb, rfl⟩⟩
      | _ :: _ :: _, hb => exact ⟨List.cons_ne_nil _ _, signedBE_eq_natCast_iff.mpr ⟨hb.1, rfl⟩⟩
    have hupper := (size_lt_of_signedBE hfirst.1 hfirst.2).2
    have hlower := h.le_size
    exact ⟨ofBE bs, eq_minimalBE hfirst.1 hfirst.2 (by omega)⟩
  · rintro ⟨n, rfl⟩
    obtain ⟨hne, hvalue, -⟩ := shortest_minimalBE n
    have hlength : (minimalBE n).length = n.size / 8 + 1 := length_toBE _ _
    generalize minimalBE n = bs at hne hvalue hlength
    match bs, hvalue with
    | [], _ => exact hne rfl
    | [_], hvalue => exact (signedBE_eq_natCast_iff.mp hvalue).1
    | b :: c :: rest, hvalue =>
      obtain ⟨hb, hvalue⟩ := signedBE_eq_natCast_iff.mp hvalue
      refine ⟨hb, fun hzero => ?_⟩
      -- without its zero the string would do as well
      by_contra hc
      have hlt : ofBE (c :: rest) < 2 ^ (8 * rest.length + 7) := lt_of_first (by omega)
      have hrest : ofBE (c :: rest) = n := by
        rw [← hvalue, hzero, ofBE_zero_cons]
      have hsize : n.size ≤ 8 * rest.length + 7 := Nat.size_le.mpr (hrest ▸ hlt)
      rw [List.length_cons, List.length_cons] at hlength
      omega

end Lib

import Mathlib.Algebra.Order.Ring.Int
import Syscoin.Lib.Proc

/-!
# `Lib.Access` — what the language leaves undefined

Reads through iterators and machine arithmetic that are undefined outside their bounds. An iterator is its distance from
the front of a range. Each operation ends in a fault of the caller's choice where the language leaves it open, and the
lemma beside it says where it is the plain operation. A program with its accesses written out this way is compared with
the plain one step by step (`require_bind_congr`, `ok_bind`).
-/

namespace Lib

variable {ε α β : Type}

/-- Behind a guard that both have, the guard may be used. -/
theorem require_bind_congr {c d : Prop} [Decidable c] [Decidable d] {e : ε} {f g : PUnit → Except ε β} (hcd : c ↔ d)
    (h : c → f ⟨⟩ = g ⟨⟩) : (require c e >>= f) = (require d e >>= g) := by
  unfold require
  by_cases hc : c
  · rw [if_pos hc, if_pos (hcd.mp hc)]
    exact h hc
  · rw [if_neg hc, if_neg (mt hcd.mpr hc)]
    rfl

theorem require_bind_of {c : Prop} [Decidable c] {e : ε} {f : PUnit → Except ε β} (h : c) :
    (require c e >>= f) = f ⟨⟩ := by
  unfold require
  rw [if_pos h]
  rfl

theorem isOk_require_bind {c : Prop} [Decidable c] {e : ε} {f : PUnit → Except ε β} :
    (require c e >>= f).isOk = true ↔ c ∧ (f ⟨⟩).isOk = true := by
  by_cases hc : c
  · rw [require_bind_of hc]
    exact ⟨fun h => ⟨hc, h⟩, fun h => h.2⟩
  · rw [require_bind_of_not hc]
    exact ⟨fun h => (nomatch h), fun h => absurd h.1 hc⟩

theorem ok_bind (a : α) (f : α → Except ε β) : ((.ok a : Except ε α) >>= f) = f a := rfl

theorem error_bind (e : ε) (f : α → Except ε β) : ((.error e : Except ε α) >>= f) = .error e := rfl

namespace Access

variable (fault : ε)

/-- The first element of a vector. -/
def front (v : List α) : Except ε α :=
  match v with
  | []     => .error fault
  | a :: _ => .ok a

/-- `v[n]` -/
def element (v : List α) (n : Nat) : Except ε α :=
  match v[n]? with
  | none   => .error fault
  | some a => .ok a

/-- An iterator moved on. It may come to the end of the range, but not beyond. -/
def advance (v : List α) (pc n : Nat) : Except ε Nat := if pc + n ≤ v.length then .ok (pc + n) else .error fault

/-- The elements from an iterator on. -/
def copy (v : List α) (pc n : Nat) : Except ε (List α) :=
  if pc + n ≤ v.length then .ok ((v.drop pc).take n) else .error fault

/-- `1 << n` in 32 bits with a sign. -/
def shiftOne (n : Nat) : Except ε Int := if n < 31 then .ok (2 ^ n) else .error fault

/-- `a % b` in 32 bits. -/
def modulo (a b : UInt32) : Except ε UInt32 := if b = 0 then .error fault else .ok (a % b)

/-- `a + b`, `a - b` and `a * b` in 64 bits without a sign, where nothing is lost. -/
def add64 (a b : Nat) : Except ε Nat := if a + b < 2 ^ 64 then .ok (a + b) else .error fault

def sub64 (a b : Nat) : Except ε Nat := if b ≤ a then .ok (a - b) else .error fault

def mul64 (a b : Nat) : Except ε Nat := if a * b < 2 ^ 64 then .ok (a * b) else .error fault

variable {fault} {v : List α} {pc n : Nat}

theorem add64_ok_iff {a b c : Nat} : add64 fault a b = .ok c ↔ a + b < 2 ^ 64 ∧ a + b = c := by
  unfold add64
  split <;> simp_all

theorem sub64_ok_iff {a b c : Nat} : sub64 fault a b = .ok c ↔ b ≤ a ∧ a - b = c := by
  unfold sub64
  split <;> simp_all

theorem mul64_ok_iff {a b c : Nat} : mul64 fault a b = .ok c ↔ a * b < 2 ^ 64 ∧ a * b = c := by
  unfold mul64
  split <;> simp_all

theorem element_eq {a : α} (h : v[n]? = some a) : element fault v n = .ok a := by
  rw [element, h]

theorem advance_eq (h : pc + n ≤ v.length) : advance fault v pc n = .ok (pc + n) := if_pos h

theorem copy_eq (h : pc + n ≤ v.length) : copy fault v pc n = .ok ((v.drop pc).take n) := if_pos h

theorem shiftOne_eq (h : n < 31) : shiftOne fault n = .ok (2 ^ n) := if_pos h

theorem modulo_eq {a b : UInt32} (h : b ≠ 0) : modulo fault a b = .ok (a % b) := if_neg h

end Access

end Lib

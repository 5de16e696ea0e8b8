import Mathlib.Data.List.Induction
import Syscoin.Primitives.Serialize

/-!
# `Primitives.VarInt` — variable-length integers of the integer types

`WriteVarInt`, `GetSizeOfVarInt` and `ReadVarInt` on integers of 32 and 64 bits, with the buffer that the digits are
collected in. On numbers that are not negative they are the functions of `Primitives.Serialize`, which know no bounds
(`writeVarIntAs_eq`, `readVarIntAs_eq`). The code is a bijection: each number has one sequence of bytes, and each
terminated sequence whose value the type can hold has one number.
-/

namespace Syscoin

/-- The integer types that are written. -/
inductive IntType where
  | int32 | uint32 | int64 | uint64
deriving DecidableEq, Repr

namespace IntType

def sizeof : IntType → Nat
  | int32 | uint32 => 4
  | int64 | uint64 => 8

def max : IntType → Nat
  | int32 => 2 ^ 31 - 1
  | uint32 => 2 ^ 32 - 1
  | int64 => 2 ^ 63 - 1
  | uint64 => 2 ^ 64 - 1

/-- What a variable of the type holds of a number. For a type with a sign the language does not promise it, and no number
    below that leaves the type comes from a fitting one. -/
def wrap (I : IntType) (n : Int) : Int :=
  match I with
  | int32 | int64 => n.bmod (2 ^ (8 * I.sizeof))
  | uint32 | uint64 => n % (2 ^ (8 * I.sizeof))

theorem wrap_eq (I : IntType) {n : Int} (hmin : 0 ≤ n) (hmax : n ≤ I.max) : I.wrap n = n := by
  cases I with
  | int32 | int64 =>
    simp only [max] at hmax
    exact Int.bmod_eq_of_le (by simp only [sizeof]; omega) (by simp only [sizeof]; omega)
  | uint32 | uint64 =>
    simp only [max] at hmax
    exact Int.emod_eq_of_lt hmin (by simp only [sizeof]; omega)

/-- `tmp` has a digit for every seven bits. -/
theorem max_lt (I : IntType) : I.max < 128 ^ ((I.sizeof * 8 + 6) / 7) := by
  cases I <;> decide

end IntType

/-! ## Writing -/

/-- `tmp` is written beyond its end. -/
inductive Overrun where
  | tmp
deriving DecidableEq, Repr

/-- The first loop of `WriteVarInt`, which finds the digits from the last to the first. `room` cells of `tmp` are left. -/
def fillTmp (I : IntType) : Nat → Bytes → Int → Except Overrun Bytes
  | 0, _, _ => .error .tmp
  | room + 1, tmp, n =>
    let tmp := tmp ++ [UInt8.ofNat ((n % 128).toNat + if tmp.length ≠ 0 then 0x80 else 0)]
    if n ≤ 0x7f then .ok tmp else fillTmp I room tmp (I.wrap (n / 128 - 1))

/-- **`WriteVarInt`** The second loop writes the digits from the first to the last. -/
def writeVarIntAs (I : IntType) (n : Int) : Except Overrun Bytes := do
  let tmp ← fillTmp I ((I.sizeof * 8 + 6) / 7) [] n
  pure tmp.reverse

def sizeOfVarIntLoop (I : IntType) : Nat → Int → Nat
  | 0, _ => 0
  | fuel + 1, n => 1 + if n ≤ 0x7f then 0 else sizeOfVarIntLoop I fuel (I.wrap (n / 128 - 1))

/-- **`GetSizeOfVarInt`** Every turn but the last one shifts seven bits out. -/
def getSizeOfVarIntAs (I : IntType) (n : Int) : Nat := sizeOfVarIntLoop I (8 * I.sizeof) n

/-! ## Reading -/

/-- The loop of `ReadVarInt`: `n << 7` has room for the seven bits of `chData`. -/
def readVarIntAsLoop (I : IntType) (n : Int) : Bytes → Option (Int × Bytes)
  | [] => none
  | chData :: s =>
    let n := I.wrap (n * 128) + (chData.toNat % 128 : Nat)
    if 128 ≤ chData.toNat then readVarIntAsLoop I (I.wrap (n + 1)) s else some (n, s)

/-- **`ReadVarInt`** -/
def readVarIntAs (I : IntType) : Lib.Reader UInt8 Int := readVarIntAsLoop I 0

/-! ## What bytes stand for -/

/-- All bytes but the last one have their high bit set. -/
def Terminated : Bytes → Prop
  | [] => False
  | [b] => b.toNat < 128
  | b :: s => 128 ≤ b.toNat ∧ Terminated s

/-- The number that a byte sequence encodes: one is added to all digits but the last. -/
def varIntValue : Bytes → Nat
  | [] => 0
  | [b] => b.toNat % 128
  | b :: s => (b.toNat % 128 + 1) * 128 ^ s.length + varIntValue s

/-! ## On fitting numbers nothing wraps -/

/-- `n >> 7`, less one, is smaller again, and needs a digit less. -/
theorem nextDigit {room n : Nat} (hn : n < 128 ^ (room + 1)) (hlarge : ¬ n ≤ 0x7f) :
    n / 128 - 1 < n ∧ n / 128 - 1 < 128 ^ room ∧ ((n / 128 - 1 : Nat) : Int) = (n : Int) / 128 - 1 := by
  rw [Nat.pow_succ'] at hn
  have hdiv : n / 128 < 128 ^ room := (Nat.div_lt_iff_lt_mul (by decide)).mpr (by omega)
  exact ⟨by omega, by omega, by omega⟩

/-- The digits behind the first one to be found are those of `Primitives.Serialize`, with room for all of them. -/
theorem fillTmp_eq (I : IntType) {room n k : Nat} (tmp : Bytes) (hmax : n ≤ I.max) (hroom : n < 128 ^ (room + 1))
    (hk : n ≤ k) :
    fillTmp I (room + 1) tmp n = .ok (tmp ++ UInt8.ofNat (n % 128 + if tmp.length ≠ 0 then 0x80 else 0) ::
      (if n ≤ 0x7f then [] else varIntDigits k (n / 128 - 1)).reverse) := by
  induction room generalizing n tmp k with
  | zero =>
    have hsmall : n ≤ 0x7f := by omega
    rw [fillTmp, if_pos (by omega), if_pos hsmall]
    rfl
  | succ room ih =>
    rw [fillTmp]
    by_cases hsmall : n ≤ 0x7f
    · rw [if_pos (by omega), if_pos hsmall]
      rfl
    · obtain ⟨hless, hnext, hcast⟩ := nextDigit hroom hsmall
      obtain ⟨k, rfl⟩ := Nat.exists_eq_succ_of_ne_zero (n := k) (by omega)
      rw [if_neg (by omega), if_neg hsmall, ← hcast, I.wrap_eq (by omega) (by omega),
        ih (k := k) _ (by omega) hnext (by omega)]
      -- the next digit has its high bit set
      simp [varIntDigits]
      rfl

theorem writeVarIntAs_eq (I : IntType) {n : Nat} (hmax : n ≤ I.max) : writeVarIntAs I n = .ok (writeVarInt n) := by
  obtain ⟨room, hroom⟩ := Nat.exists_eq_succ_of_ne_zero (n := (I.sizeof * 8 + 6) / 7) (by cases I <;> decide)
  have hlt := hmax.trans_lt I.max_lt
  rw [hroom] at hlt
  rw [writeVarIntAs, hroom, fillTmp_eq I [] hmax hlt (Nat.le_refl n)]
  show Except.ok _ = _
  simp [writeVarInt]

theorem sizeOfVarIntLoop_eq (I : IntType) {fuel n k : Nat} (hmax : n ≤ I.max) (hfuel : n < 128 ^ (fuel + 1))
    (hk : n < k) : sizeOfVarIntLoop I (fuel + 1) n = varIntSizeLoop k n := by
  induction fuel generalizing n k with
  | zero =>
    obtain ⟨k, rfl⟩ := Nat.exists_eq_succ_of_ne_zero (n := k) (by omega)
    rw [sizeOfVarIntLoop, varIntSizeLoop, if_pos (by omega), if_pos (by omega)]
  | succ fuel ih =>
    obtain ⟨k, rfl⟩ := Nat.exists_eq_succ_of_ne_zero (n := k) (by omega)
    rw [sizeOfVarIntLoop, varIntSizeLoop]
    by_cases hsmall : n ≤ 0x7f
    · rw [if_pos (by omega), if_pos hsmall]
    · obtain ⟨hless, hnext, hcast⟩ := nextDigit hfuel hsmall
      rw [if_neg (by omega), if_neg hsmall, ← hcast, I.wrap_eq (by omega) (by omega),
        ih (k := k) (by omega) hnext (by omega)]

theorem getSizeOfVarIntAs_eq (I : IntType) {n : Nat} (hmax : n ≤ I.max) :
    getSizeOfVarIntAs I n = getSizeOfVarInt n := by
  obtain ⟨fuel, hfuel⟩ := Nat.exists_eq_succ_of_ne_zero (n := 8 * I.sizeof) (by cases I <;> decide)
  have hlt : n < 128 ^ (8 * I.sizeof) :=
    (hmax.trans_lt I.max_lt).trans_le (Nat.pow_le_pow_right (by decide) (by omega))
  rw [hfuel] at hlt
  rw [getSizeOfVarIntAs, hfuel, getSizeOfVarInt]
  exact sizeOfVarIntLoop_eq I hmax hlt (Nat.lt_succ_self n)

/-- A digit for every seven bits is enough. -/
theorem varIntSizeLoop_le {k n fuel : Nat} (h : n < 128 ^ (k + 1)) : varIntSizeLoop fuel n ≤ k + 1 := by
  induction fuel generalizing n k with
  | zero => exact Nat.zero_le _
  | succ fuel ih =>
    rw [varIntSizeLoop]
    split
    · omega
    · rename_i hlarge
      obtain ⟨-, hnext, -⟩ := nextDigit h hlarge
      cases k with
      | zero => omega
      | succ k =>
        have := ih hnext
        omega

/-- What was read so far is no more than the number in the end. -/
theorem le_of_readVarIntLoop {acc m : Nat} {s rest : Bytes} (h : readVarIntLoop acc s = some (m, rest)) : acc ≤ m := by
  induction s generalizing acc with
  | nil => cases h
  | cons chData s ih =>
    rw [readVarIntLoop] at h
    split at h
    · have := ih h
      omega
    · cases h
      omega

theorem readVarIntAsLoop_eq (I : IntType) {acc m : Nat} {s rest : Bytes}
    (h : readVarIntLoop acc s = some (m, rest)) (hmax : m ≤ I.max) :
    readVarIntAsLoop I acc s = some ((m : Int), rest) := by
  induction s generalizing acc with
  | nil => cases h
  | cons chData s ih =>
    rw [readVarIntLoop] at h
    rw [readVarIntAsLoop]
    by_cases hhigh : 128 ≤ chData.toNat
    · rw [if_pos hhigh] at h ⊢
      have hle := le_of_readVarIntLoop h
      have hshift : I.wrap ((acc : Int) * 128) = (acc : Int) * 128 := I.wrap_eq (by omega) (by omega)
      rw [hshift, I.wrap_eq (by omega) (by omega)]
      exact_mod_cast ih h
    · rw [if_neg hhigh] at h ⊢
      cases h
      have hshift : I.wrap ((acc : Int) * 128) = (acc : Int) * 128 := I.wrap_eq (by omega) (by omega)
      rw [hshift]
      push_cast
      rfl

theorem readVarIntAs_eq (I : IntType) {m : Nat} {s rest : Bytes} (h : readVarInt s = some (m, rest))
    (hmax : m ≤ I.max) : readVarIntAs I s = some ((m : Int), rest) :=
  readVarIntAsLoop_eq I h hmax

theorem reads_readVarIntAs (I : IntType) {n : Nat} (hmax : n ≤ I.max) :
    Lib.Reader.Reads (readVarIntAs I) (writeVarInt n) (n : Int) := by
  intro rest
  exact readVarIntAs_eq I (reads_readVarInt n rest) hmax

/-! ## Every terminated sequence is an encoding -/

/-- What the reader holds after leading digits. -/
def leadValue (n : Nat) (s : Bytes) : Nat := s.foldl (fun n b => n * 128 + b.toNat % 128 + 1) n

theorem leadValue_concat (n : Nat) (s : Bytes) (b : UInt8) :
    leadValue n (s ++ [b]) = leadValue n s * 128 + b.toNat % 128 + 1 := by
  simp [leadValue]

theorem leadValue_add_varIntValue (n : Nat) (init : Bytes) (last : UInt8) :
    leadValue n init * 128 + last.toNat % 128 = n * 128 ^ (init.length + 1) + varIntValue (init ++ [last]) := by
  induction init generalizing n with
  | nil => simp [leadValue, varIntValue]
  | cons b init ih =>
    have hcons : varIntValue (b :: init ++ [last]) =
        (b.toNat % 128 + 1) * 128 ^ (init.length + 1) + varIntValue (init ++ [last]) := by
      cases init <;> simp [varIntValue]
    rw [hcons, List.length_cons]
    have := ih (n * 128 + b.toNat % 128 + 1)
    rw [leadValue, List.foldl_cons, ← leadValue, this, Nat.pow_succ 128 (init.length + 1)]
    ring

/-- The digits are those of one number: the low bits of each are known, and a digit is left out only if nothing is left. -/
theorem varIntDigits_leadValue {init : Bytes} {n fuel : Nat} (hhigh : ∀ b ∈ init, 128 ≤ b.toNat)
    (hvalue : leadValue 0 init = n + 1) (hfuel : n < fuel) : varIntDigits fuel n = init := by
  induction init using List.reverseRecOn generalizing n fuel with
  | nil => cases hvalue
  | append_singleton init b ih =>
    obtain ⟨fuel, rfl⟩ := Nat.exists_eq_succ_of_ne_zero (n := fuel) (by omega)
    have hb : UInt8.ofNat (n % 128 + 128) = b := by
      have := hhigh b (by simp)
      have := b.toNat_lt
      rw [leadValue_concat] at hvalue
      have hdigit : n % 128 + 128 = b.toNat := by omega
      rw [hdigit, UInt8.ofNat_toNat]
    rw [leadValue_concat] at hvalue
    rw [varIntDigits, hb]
    congr 1
    split
    · -- no digits in front
      obtain rfl | ⟨init, c, rfl⟩ := List.eq_nil_or_concat' init
      · rfl
      · rw [leadValue_concat] at hvalue
        omega
    · exact ih (fun c hc => hhigh c (List.mem_append_left _ hc)) (by omega) (by omega)

theorem terminated_iff {s : Bytes} : Terminated s ↔ ∃ init last, s = init ++ [last] ∧
    (∀ b ∈ init, 128 ≤ b.toNat) ∧ last.toNat < 128 := by
  constructor
  · intro h
    induction s with
    | nil => exact h.elim
    | cons b s ih =>
      cases s with
      | nil => exact ⟨[], b, rfl, fun _ hb => absurd hb List.not_mem_nil, h⟩
      | cons c s =>
        obtain ⟨init, last, heq, hhigh, hlast⟩ := ih h.2
        refine ⟨b :: init, last, ?_, ?_, hlast⟩
        · rw [heq, List.cons_append]
        · exact List.forall_mem_cons.mpr ⟨h.1, hhigh⟩
  · rintro ⟨init, last, rfl, hhigh, hlast⟩
    induction init with
    | nil => exact hlast
    | cons b init ih =>
      obtain ⟨hb, hrest⟩ := List.forall_mem_cons.mp hhigh
      cases init with
      | nil => exact ⟨hb, hlast⟩
      | cons c init => exact ⟨hb, ih hrest⟩

/-- **Every terminated sequence is written for its value.** -/
theorem writeVarInt_varIntValue {s : Bytes} (h : Terminated s) : writeVarInt (varIntValue s) = s := by
  obtain ⟨init, last, rfl, hhigh, hlast⟩ := terminated_iff.mp h
  have hvalue := leadValue_add_varIntValue 0 init last
  rw [Nat.zero_mul, Nat.zero_add, Nat.mod_eq_of_lt hlast] at hvalue
  have hdigit : UInt8.ofNat (varIntValue (init ++ [last]) % 128) = last := by
    have hmod : varIntValue (init ++ [last]) % 128 = last.toNat := by omega
    rw [hmod, UInt8.ofNat_toNat]
  rw [writeVarInt, hdigit]
  congr 1
  obtain rfl | ⟨front, b, hfront⟩ := List.eq_nil_or_concat' init
  · have hzero : leadValue 0 [] = 0 := rfl
    exact if_pos (by omega)
  · have hpos := leadValue_concat 0 front b
    rw [← hfront] at hpos
    rw [if_neg (by omega)]
    exact varIntDigits_leadValue hhigh (by omega) (by omega)

theorem high_of_mem_varIntDigits {fuel n : Nat} {b : UInt8} (h : b ∈ varIntDigits fuel n) : 128 ≤ b.toNat := by
  induction fuel generalizing n with
  | zero => exact absurd h List.not_mem_nil
  | succ fuel ih =>
    rw [varIntDigits, List.mem_append, List.mem_singleton] at h
    obtain h | rfl := h
    · split at h
      · exact absurd h List.not_mem_nil
      · exact ih h
    · rw [UInt8.toNat_ofNat_of_lt' (by show _ < 256; omega)]
      omega

theorem terminated_writeVarInt (n : Nat) : Terminated (writeVarInt n) := by
  refine terminated_iff.mpr ⟨_, _, rfl, ?_, ?_⟩
  · intro b hb
    split at hb
    · exact absurd hb List.not_mem_nil
    · exact high_of_mem_varIntDigits hb
  · rw [UInt8.toNat_ofNat_of_lt' (by show _ < 256; omega)]
    omega

theorem writeVarInt_injective : Function.Injective writeVarInt := by
  intro n m h
  have hread := reads_readVarInt n []
  rw [h, reads_readVarInt m []] at hread
  cases hread
  rfl

/-- **Variable-length integers are a bijective prefix code.** For each type: a number that is not negative is written
    inside the buffer, in as many bytes as `GetSizeOfVarInt` says, and read back in front of any rest; and a terminated
    sequence whose value fits is written for exactly one number. -/
theorem varint_bijective (I : IntType) :
    (∀ n : Nat, n ≤ I.max → ∃ s, writeVarIntAs I n = .ok s ∧ Terminated s ∧ s.length = getSizeOfVarIntAs I n ∧
      ∀ rest, readVarIntAs I (s ++ rest) = some ((n : Int), rest)) ∧
    ∀ s, Terminated s → varIntValue s ≤ I.max → ∃! n : Nat, n ≤ I.max ∧ writeVarIntAs I n = .ok s := by
  constructor
  · intro n hmax
    refine ⟨_, writeVarIntAs_eq I hmax, terminated_writeVarInt n, ?_, ?_⟩
    · rw [length_writeVarInt, getSizeOfVarIntAs_eq I hmax]
    · exact reads_readVarIntAs I hmax
  · intro s hs hmax
    refine ⟨varIntValue s, ⟨hmax, ?_⟩, ?_⟩
    · rw [writeVarIntAs_eq I hmax, writeVarInt_varIntValue hs]
    · rintro n ⟨hn, hwrite⟩
      rw [writeVarIntAs_eq I hn] at hwrite
      apply writeVarInt_injective
      rw [Except.ok.inj hwrite, writeVarInt_varIntValue hs]

/-- A value of the comment on the encoding, and the largest one of its type. -/
theorem varint_samples :
    (∃ s, writeVarIntAs .int32 16511 = .ok s ∧ Terminated s ∧ s.length = getSizeOfVarIntAs .int32 16511 ∧
      ∀ rest, readVarIntAs .int32 (s ++ rest) = some (16511, rest)) ∧
    ∃! n : Nat, n ≤ IntType.uint64.max ∧
      writeVarIntAs .uint64 n = .ok [0x80, 0xfe, 0xfe, 0xfe, 0xfe, 0xfe, 0xfe, 0xfe, 0xfe, 0x7f] :=
  ⟨(varint_bijective .int32).1 16511 (by decide),
    (varint_bijective .uint64).2 _ (by simp [Terminated]) (by decide)⟩

end Syscoin

import Mathlib.Tactic.Positivity
import Syscoin.Chain.Work
import Syscoin.Lib.Radix
import Mathlib.Order.Bounds.Basic

/-!
# `Correctness.Work` — compact targets compare as numbers do, and what `ComputeMinWork` comes to

A target is written with a mantissa of 23 bits, so that `GetCompact` rounds it down. It keeps what a comparison with
another written target needs (`setCompact_le_iff`). With that, the loop of `ComputeMinWork` has a closed form
(`setCompact_le_computeMinWork_iff`), and no target that the gravity well sets is above the limit
(`setCompact_kimotoGravityWell_le`).
-/

namespace Syscoin

open Lib

/-! ## The fields of a compact number -/

section Fields

variable {m s n : Nat}

/-- The number that mantissa and size stand for. -/
def compactValue (m s : Nat) : Nat := if s ≤ 3 then m / 256 ^ (3 - s) else m * 256 ^ (s - 3)

theorem two_pow_eight_mul (k : Nat) : 2 ^ (8 * k) = 256 ^ k := by
  rw [Nat.pow_mul]

theorem setCompact_nonneg_fields (hm : m < 2 ^ 23) : setCompact (m + s * 2 ^ 24) = compactValue m s := by
  have hsize : (m + s * 2 ^ 24) / 2 ^ 24 = s := by omega
  have hword : (m + s * 2 ^ 24) % 2 ^ 23 = m := by omega
  have hsign : ¬ (m + s * 2 ^ 24) / 2 ^ 23 % 2 = 1 := by omega
  unfold setCompact compactValue
  dsimp only
  rw [hsize, hword, if_neg hsign, two_pow_eight_mul, two_pow_eight_mul]

theorem setCompact_neg_fields (hm : m < 2 ^ 23) : setCompact (m + 2 ^ 23 + s * 2 ^ 24) = -(compactValue m s : Int) := by
  have hsize : (m + 2 ^ 23 + s * 2 ^ 24) / 2 ^ 24 = s := by omega
  have hword : (m + 2 ^ 23 + s * 2 ^ 24) % 2 ^ 23 = m := by omega
  have hsign : (m + 2 ^ 23 + s * 2 ^ 24) / 2 ^ 23 % 2 = 1 := by omega
  unfold setCompact compactValue
  dsimp only
  rw [hsize, hword, if_pos hsign, two_pow_eight_mul, two_pow_eight_mul]

/-- Whatever a compact number says, its mantissa has 23 bits. -/
theorem representable_compactValue (hm : m < 2 ^ 23) : Representable 256 (2 ^ 23) (compactValue m s) := by
  unfold compactValue
  split
  · refine ⟨m / 256 ^ (3 - s), 0, ?_, by simp⟩
    exact (Nat.div_le_self _ _).trans_lt hm
  · exact ⟨m, s - 3, hm, rfl⟩

theorem setCompact_cases (nCompact : Nat) :
    ∃ x : Nat, Representable 256 (2 ^ 23) x ∧ (setCompact nCompact = x ∨ setCompact nCompact = -(x : Int)) := by
  have hm : nCompact % 2 ^ 23 < 2 ^ 23 := Nat.mod_lt _ (by norm_num)
  refine ⟨compactValue (nCompact % 2 ^ 23) (nCompact / 2 ^ 24), representable_compactValue hm, ?_⟩
  by_cases hsign : nCompact / 2 ^ 23 % 2 = 1
  · right
    rw [← setCompact_neg_fields hm]
    congr 1
    omega
  · left
    rw [← setCompact_nonneg_fields hm]
    congr 1
    omega

/-! ## `GetCompact` -/

theorem lt_pow_numBytes (n : Nat) : n < 256 ^ numBytes n := by
  unfold numBytes
  split
  · rename_i hzero
    rw [hzero]
    norm_num
  · rename_i hpos
    rw [← two_pow_eight_mul]
    calc n < 2 ^ (Nat.log2 n + 1) := Nat.lt_log2_self
      _ ≤ 2 ^ (8 * ((Nat.log2 n + 1 + 7) / 8)) := Nat.pow_le_pow_right (by norm_num) (by omega)

theorem pow_numBytes_le (h : numBytes n = s + 1) : 256 ^ s ≤ n := by
  unfold numBytes at h
  split at h
  · cases h
  · rename_i hpos
    rw [← two_pow_eight_mul]
    calc 2 ^ (8 * s) ≤ 2 ^ Nat.log2 n := Nat.pow_le_pow_right (by norm_num) (by omega)
      _ ≤ n := Nat.log2_self_le hpos

theorem numBytes_le {k : Nat} (h : n < 256 ^ k) : numBytes n ≤ k := by
  by_contra hbig
  obtain ⟨j, hj⟩ : ∃ j, numBytes n = j + 1 := ⟨numBytes n - 1, by omega⟩
  have hle := pow_numBytes_le hj
  have hpow : 256 ^ k ≤ 256 ^ j := Nat.pow_le_pow_right (by norm_num) (by omega)
  exact absurd (hpow.trans hle) (not_le.mpr h)

/-- What is left of a larger number has three digits. -/
theorem le_div_of_numBytes {k : Nat} (hk : numBytes n = k + 3 + 1) : 256 ^ 2 ≤ n / 256 ^ (k + 1) := by
  rw [Nat.le_div_iff_mul_le (by positivity), ← Nat.pow_add]
  have h := pow_numBytes_le hk
  rwa [show k + 3 = 2 + (k + 1) by omega] at h

/-- The leading digits that `GetCompact` starts from. -/
def leadingDigits (n : Nat) : Nat :=
  if numBytes n ≤ 3 then n * 2 ^ (8 * (3 - numBytes n)) else n / 2 ^ (8 * (numBytes n - 3))

theorem leadingDigits_lt (n : Nat) : leadingDigits n < 2 ^ 24 := by
  have hlt := lt_pow_numBytes n
  unfold leadingDigits
  rw [two_pow_eight_mul, two_pow_eight_mul]
  split
  · rename_i hsize
    calc n * 256 ^ (3 - numBytes n) < 256 ^ numBytes n * 256 ^ (3 - numBytes n) :=
          Nat.mul_lt_mul_of_pos_right hlt (by positivity)
      _ = 2 ^ 24 := by rw [← Nat.pow_add, Nat.add_sub_cancel' hsize]; norm_num
  · rename_i hsize
    rw [Nat.div_lt_iff_lt_mul (by positivity)]
    calc n < 256 ^ numBytes n := hlt
      _ = 256 ^ (3 + (numBytes n - 3)) := by rw [Nat.add_sub_cancel' (by omega)]
      _ = 2 ^ 24 * 256 ^ (numBytes n - 3) := by rw [Nat.pow_add]; norm_num

/-- Where the sign bit is in the way, what is left of the number has it. -/
theorem le_div_of_leadingDigits (hbit : 2 ^ 23 ≤ leadingDigits n) (hsize : ¬ numBytes n ≤ 2) :
    2 ^ 23 ≤ n / 256 ^ (numBytes n - 3) := by
  unfold leadingDigits at hbit
  rw [two_pow_eight_mul, two_pow_eight_mul] at hbit
  split at hbit
  · rename_i h3
    rw [show numBytes n = 3 by omega] at hbit ⊢
    simpa using hbit
  · exact hbit

/-- The mantissa and the size that `GetCompact` settles on. -/
theorem getCompact_fields (bn : Int) :
    ∃ m s, m < 2 ^ 23 ∧ getCompact bn = m + (if bn < 0 then 2 ^ 23 else 0) + s % 2 ^ 8 * 2 ^ 24 ∧
      ((m = leadingDigits bn.natAbs ∧ s = numBytes bn.natAbs) ∨
        (2 ^ 23 ≤ leadingDigits bn.natAbs ∧ m = leadingDigits bn.natAbs / 2 ^ 8 ∧ s = numBytes bn.natAbs + 1)) := by
  have hlt := leadingDigits_lt bn.natAbs
  by_cases hbit : leadingDigits bn.natAbs / 2 ^ 23 % 2 = 1
  · refine ⟨leadingDigits bn.natAbs / 2 ^ 8, numBytes bn.natAbs + 1, by omega, ?_, .inr ⟨by omega, rfl, rfl⟩⟩
    unfold getCompact
    dsimp only
    rw [← leadingDigits, if_pos hbit]
  · refine ⟨leadingDigits bn.natAbs, numBytes bn.natAbs, by omega, ?_, .inl ⟨rfl, rfl⟩⟩
    unfold getCompact
    dsimp only
    rw [← leadingDigits, if_neg hbit]

theorem setCompact_getCompact_nonpos {bn : Int} (h : bn < 0) : setCompact (getCompact bn) ≤ 0 := by
  obtain ⟨m, s, hm, heq, -⟩ := getCompact_fields bn
  rw [heq, if_pos h, setCompact_neg_fields hm]
  omega

/-- The leading digits of a number that fits are the number, those of a larger one are what is left of it. -/
theorem compactValue_leadingDigits (n : Nat) :
    compactValue (leadingDigits n) (numBytes n) = truncate 256 (numBytes n - 3) n := by
  unfold compactValue leadingDigits
  rw [two_pow_eight_mul, two_pow_eight_mul]
  split
  · rename_i hsize
    rw [Nat.mul_div_cancel _ (by positivity), Nat.sub_eq_zero_of_le hsize, truncate_zero]
  · rfl

/-- A byte less of them. -/
theorem compactValue_leadingDigits_div (n : Nat) :
    compactValue (leadingDigits n / 2 ^ 8) (numBytes n + 1) = truncate 256 (numBytes n - 2) n := by
  unfold leadingDigits
  rw [two_pow_eight_mul, two_pow_eight_mul]
  unfold compactValue
  rcases lt_trichotomy (numBytes n) 3 with hsize | hsize | hsize
  · have hnone : numBytes n - 2 = 0 := by omega
    have hpow : 3 - numBytes n = 1 + (3 - (numBytes n + 1)) := by omega
    rw [if_pos (by omega), if_pos (by omega), hnone, truncate_zero, hpow, Nat.div_div_eq_div_mul, Nat.pow_add]
    exact Nat.mul_div_cancel _ (by positivity)
  · rw [hsize]
    simp [truncate]
  · rw [if_neg (by omega), if_neg (by omega), Nat.div_div_eq_div_mul]
    have hpow : numBytes n - 2 = numBytes n - 3 + 1 := by omega
    have hsub : numBytes n + 1 - 3 = numBytes n - 3 + 1 := by omega
    have hbyte : (2 : Nat) ^ 8 = 256 := by norm_num
    rw [truncate, hpow, hsub, hbyte, Nat.pow_succ 256]

/-- **`GetCompact` drops as few digits as the mantissa allows.** -/
theorem setCompact_getCompact {bn : Int} (hbn : 0 ≤ bn) (hsize : bn.natAbs < 256 ^ 254) :
    ∃ u, setCompact (getCompact bn) = truncate 256 u bn.natAbs ∧ (u = 0 ∨ 2 ^ 23 ≤ bn.natAbs / 256 ^ u * 256) := by
  obtain ⟨m, s, hm, heq, hcases⟩ := getCompact_fields bn
  -- the size fits its byte
  have hbytes : numBytes bn.natAbs ≤ 254 := numBytes_le hsize
  have hs : s % 2 ^ 8 = s := Nat.mod_eq_of_lt (by omega)
  rw [heq, if_neg (not_lt.mpr hbn), Nat.add_zero, hs, setCompact_nonneg_fields hm]
  rcases hcases with ⟨rfl, rfl⟩ | ⟨hbit, rfl, rfl⟩
  · refine ⟨numBytes bn.natAbs - 3, by rw [compactValue_leadingDigits], ?_⟩
    by_cases hsmall : numBytes bn.natAbs ≤ 3
    · exact .inl (Nat.sub_eq_zero_of_le hsmall)
    · right
      obtain ⟨k, hk⟩ : ∃ k, numBytes bn.natAbs = k + 3 + 1 := ⟨numBytes bn.natAbs - 4, by omega⟩
      have hle := le_div_of_numBytes hk
      rw [show numBytes bn.natAbs - 3 = k + 1 by omega]
      omega
  · refine ⟨numBytes bn.natAbs - 2, by rw [compactValue_leadingDigits_div], ?_⟩
    by_cases hsmall : numBytes bn.natAbs ≤ 2
    · exact .inl (Nat.sub_eq_zero_of_le hsmall)
    · right
      have hle := le_div_of_leadingDigits hbit hsmall
      rw [show numBytes bn.natAbs - 2 = numBytes bn.natAbs - 3 + 1 by omega, Nat.pow_succ 256, ← Nat.div_div_eq_div_mul]
      omega

/-- **Written targets compare as the numbers behind them.** -/
theorem setCompact_le_iff {bn : Int} (hbn : 0 ≤ bn) (hsize : bn.natAbs < 256 ^ 254) (nCompact : Nat) :
    setCompact nCompact ≤ setCompact (getCompact bn) ↔ setCompact nCompact ≤ bn := by
  obtain ⟨u, hu, hfull⟩ := setCompact_getCompact hbn hsize
  obtain ⟨x, hx, hpos | hneg⟩ := setCompact_cases nCompact
  · have hiff := le_truncate_iff hx hfull
    rw [hu, hpos]
    omega
  · rw [hu, hneg]
    omega

theorem setCompact_getCompact_le {bn bnLimit : Int} (hlimit : 0 ≤ bnLimit) (hsize : bnLimit.natAbs < 256 ^ 254)
    (hle : bn ≤ bnLimit) : setCompact (getCompact bn) ≤ bnLimit := by
  rcases lt_or_ge bn 0 with hneg | hnonneg
  · exact (setCompact_getCompact_nonpos hneg).trans hlimit
  · have hbn : bn.natAbs < 256 ^ 254 := lt_of_le_of_lt (by omega) hsize
    exact ((setCompact_le_iff hnonneg hbn _).mp le_rfl).trans hle

end Fields

/-! ## The two rules for targets -/

/-- The started periods of four target timespans in `nTime` seconds. -/
def startedPeriods (nTime : Int) : Nat := ((nTime + (nTargetTimespan * 4 - 1)) / (nTargetTimespan * 4)).toNat

theorem startedPeriods_nonpos {nTime : Int} (h : nTime ≤ 0) : startedPeriods nTime = 0 := by
  unfold startedPeriods nTargetTimespan
  omega

theorem startedPeriods_pos {nTime : Int} (h : 0 < nTime) :
    startedPeriods nTime = startedPeriods (nTime - nTargetTimespan * 4) + 1 := by
  unfold startedPeriods nTargetTimespan
  omega

/-- **The loop multiplies by four for every started period**, unless it has come to the limit. -/
theorem min_easeWork {bnLimit : Int} (hlimit : 0 < bnLimit) (bnResult nTime : Int) :
    min bnLimit (easeWork bnLimit bnResult nTime) = min bnLimit (bnResult * 4 ^ startedPeriods nTime) := by
  fun_induction easeWork bnLimit bnResult nTime with
  | case1 bnResult nTime h ih =>
    rw [ih, startedPeriods_pos h.1, pow_succ]
    congr 1
    ring
  | case2 bnResult nTime h =>
    by_cases htime : 0 < nTime
    · have hge : bnLimit ≤ bnResult := by
        by_contra hlt
        exact h ⟨htime, not_le.mp hlt⟩
      have hpow : (1 : Int) ≤ 4 ^ startedPeriods nTime := one_le_pow₀ (by norm_num)
      have hmul : bnResult ≤ bnResult * 4 ^ startedPeriods nTime := le_mul_of_one_le_right (by omega) hpow
      rw [min_eq_left hge, min_eq_left (hge.trans hmul)]
    · rw [startedPeriods_nonpos (not_lt.mp htime), pow_zero, mul_one]

section Targets

variable {env : Env}

theorem bnProofOfWorkLimit_pos : 0 < bnProofOfWorkLimit := by
  unfold bnProofOfWorkLimit
  norm_num

theorem natAbs_bnProofOfWorkLimit_lt : bnProofOfWorkLimit.natAbs < 256 ^ 254 := by
  decide

/-- **`ComputeMinWork` on the main network**: the base, four times as easy for every started period, but not above the
    limit. -/
theorem setCompact_le_computeMinWork_iff (htest : env.fTestNet = false) (hcake : env.fCakeNet = false) {nBase : Nat}
    (hbase : 0 ≤ setCompact nBase) (nTime : Int) (nCompact : Nat) :
    setCompact nCompact ≤ setCompact (computeMinWork env nBase nTime) ↔
      setCompact nCompact ≤ bnProofOfWorkLimit ∧
        setCompact nCompact ≤ setCompact nBase * 4 ^ startedPeriods nTime := by
  have hmin := min_easeWork bnProofOfWorkLimit_pos (setCompact nBase) nTime
  have hcompute : computeMinWork env nBase nTime =
      getCompact (min bnProofOfWorkLimit (setCompact nBase * 4 ^ startedPeriods nTime)) := by
    rw [← hmin]
    unfold computeMinWork
    simp only [htest, hcake, Bool.false_eq_true, false_and, if_false]
    congr 1
    rw [min_def]
    split_ifs <;> omega
  have hpow : (0 : Int) ≤ 4 ^ startedPeriods nTime := by positivity
  have hnonneg : 0 ≤ min bnProofOfWorkLimit (setCompact nBase * 4 ^ startedPeriods nTime) :=
    le_min bnProofOfWorkLimit_pos.le (mul_nonneg hbase hpow)
  have hsize : (min bnProofOfWorkLimit (setCompact nBase * 4 ^ startedPeriods nTime)).natAbs < 256 ^ 254 := by
    have hle := min_le_left bnProofOfWorkLimit (setCompact nBase * 4 ^ startedPeriods nTime)
    refine lt_of_le_of_lt ?_ natAbs_bnProofOfWorkLimit_lt
    omega
  rw [hcompute, setCompact_le_iff hnonneg hsize, le_min_iff]

/-- **No target of the gravity well is above the limit**, whatever the window. -/
theorem setCompact_kimotoGravityWell_le (hcake : env.fCakeNet = false) (horizon : EventHorizon)
    (pindexLast : CBlockIndex) (args : GravityArgs) :
    setCompact (kimotoGravityWell env horizon pindexLast args) ≤ bnProofOfWorkLimit := by
  unfold kimotoGravityWell
  simp only [hcake, Bool.false_eq_true, if_false]
  split
  · exact setCompact_getCompact_le bnProofOfWorkLimit_pos.le natAbs_bnProofOfWorkLimit_lt le_rfl
  · apply setCompact_getCompact_le bnProofOfWorkLimit_pos.le natAbs_bnProofOfWorkLimit_lt
    split <;> omega

end Targets

end Syscoin

/-! ## The compact form of a number

`GetCompact` rounds down to the next number with a mantissa of 23 bits, and loses less than one part in `2 ^ 15`. Of all
the compact forms of such a number it picks the canonical one, whose size is the smallest, so that `SetCompact` leads back
to the same form (`getCompact_setCompact`).
-/

namespace Syscoin

open Lib

section Compact

variable {m s n k d : Nat}

/-- A compact form without a sign whose mantissa is as long as it can be, and in which `SetCompact` drops nothing. -/
structure CanonicalFields (m s : Nat) : Prop where
  size : 1 ≤ s ∧ s < 2 ^ 8
  mantissa : m < 2 ^ 23
  normal : 2 ^ 15 ≤ m
  whole : 256 ^ (3 - s) ∣ m

/-- Zero, or canonical fields. -/
def CanonicalCompact (nCompact : Nat) : Prop :=
  nCompact = 0 ∨ ∃ m s, CanonicalFields m s ∧ nCompact = m + s * 2 ^ 24

/-! ## The digits of a number -/

theorem numBytes_eq (hle : 256 ^ k ≤ n) (hlt : n < 256 ^ (k + 1)) : numBytes n = k + 1 := by
  have hupper := numBytes_le hlt
  have hlower : ¬ numBytes n ≤ k := by
    intro h
    have hn := lt_pow_numBytes n
    have hpow : 256 ^ numBytes n ≤ 256 ^ k := Nat.pow_le_pow_right (by norm_num) h
    omega
  omega

/-- The leading digits are three, with zeros behind those of a short number. -/
theorem leadingDigits_eq (h : n * 256 ^ 3 = d * 256 ^ numBytes n) : leadingDigits n = d := by
  have hpos : ∀ j, 0 < 256 ^ j := fun j => Nat.pow_pos (by norm_num)
  unfold leadingDigits
  rw [two_pow_eight_mul, two_pow_eight_mul]
  split
  · rename_i hshort
    apply Nat.eq_of_mul_eq_mul_right (hpos (numBytes n))
    rw [Nat.mul_assoc, ← Nat.pow_add, Nat.sub_add_cancel hshort, h]
  · rename_i hlong
    have hn : n = d * 256 ^ (numBytes n - 3) := by
      apply Nat.eq_of_mul_eq_mul_right (hpos 3)
      rw [Nat.mul_assoc, ← Nat.pow_add, Nat.sub_add_cancel (by omega), h]
    exact Nat.div_eq_of_eq_mul_left (hpos _) hn

/-- Neither side of the point is lost in a canonical form. -/
theorem CanonicalFields.value_mul (h : CanonicalFields m s) : compactValue m s * 256 ^ 3 = m * 256 ^ s := by
  unfold compactValue
  split
  · rename_i hshort
    have hpow : 256 ^ 3 = 256 ^ (3 - s) * 256 ^ s := by rw [← Nat.pow_add, Nat.sub_add_cancel hshort]
    rw [hpow, ← Nat.mul_assoc, Nat.div_mul_cancel h.whole]
  · rename_i hlong
    rw [Nat.mul_assoc, ← Nat.pow_add, Nat.sub_add_cancel (by omega)]

/-- The bytes of the number: the size, or one less if the first digit of the mantissa is zero. -/
theorem CanonicalFields.numBytes_eq (h : CanonicalFields m s) :
    (2 ^ 16 ≤ m ∧ numBytes (compactValue m s) = s) ∨ (m < 2 ^ 16 ∧ numBytes (compactValue m s) + 1 = s) := by
  have hmul := h.value_mul
  have hpos : ∀ j, 0 < 256 ^ j := fun j => Nat.pow_pos (by norm_num)
  have hmin := h.normal
  -- the bounds of the number from those of the mantissa
  have hbounds : ∀ {t j : Nat}, s + j = t + 3 → 256 ^ j ≤ m → m < 256 ^ (j + 1) →
      numBytes (compactValue m s) = t + 1 := by
    intro t j hsum hlow hhigh
    apply Syscoin.numBytes_eq
    · apply Nat.le_of_mul_le_mul_right _ (hpos 3)
      rw [hmul, ← Nat.pow_add, ← hsum, Nat.pow_add, Nat.mul_comm]
      exact Nat.mul_le_mul_right _ hlow
    · apply Nat.lt_of_mul_lt_mul_right (a := 256 ^ 3)
      rw [hmul, ← Nat.pow_add, show t + 1 + 3 = j + 1 + s by omega, Nat.pow_add]
      exact Nat.mul_lt_mul_of_pos_right hhigh (hpos s)
  by_cases hbig : 2 ^ 16 ≤ m
  · obtain ⟨t, rfl⟩ : ∃ t, s = t + 1 := ⟨s - 1, by have := h.size; omega⟩
    exact .inl ⟨hbig, hbounds (j := 2) (by omega) hbig (by have := h.mantissa; omega)⟩
  · have htwo : s ≠ 1 := by
      rintro rfl
      omega
    obtain ⟨t, rfl⟩ : ∃ t, s = t + 2 := ⟨s - 2, by have := h.size; omega⟩
    have hbytes := hbounds (t := t) (j := 1) (by omega) (by omega) (by omega)
    exact .inr ⟨by omega, by omega⟩

/-- **A canonical form is found again.** -/
theorem CanonicalFields.getCompact_eq (h : CanonicalFields m s) :
    getCompact (compactValue m s) = m + s * 2 ^ 24 := by
  have hmul := h.value_mul
  have hsize := h.size
  have hmax := h.mantissa
  have hmin := h.normal
  unfold getCompact
  dsimp only
  rw [Int.natAbs_natCast, if_neg (Int.not_lt.mpr (Int.natCast_nonneg _)), ← leadingDigits]
  rcases h.numBytes_eq with ⟨-, hbytes⟩ | ⟨hlow, hbytes⟩
  · rw [leadingDigits_eq (d := m) (by rw [hmul, hbytes]), hbytes, if_neg (by omega)]
    omega
  · -- the first digit of the mantissa is zero, to keep the sign bit clear
    have hdigits : leadingDigits (compactValue m s) = m * 256 := by
      have hpow : 256 ^ s = 256 * 256 ^ numBytes (compactValue m s) := by
        rw [← Nat.pow_succ']
        exact congrArg (256 ^ ·) hbytes.symm
      apply leadingDigits_eq
      rw [hmul, hpow, Nat.mul_assoc]
    rw [hdigits, if_pos (by omega)]
    omega

theorem le_leadingDigits (h : n ≠ 0) : 2 ^ 16 ≤ leadingDigits n := by
  have hbytes : numBytes n ≠ 0 := by
    intro hzero
    have hlt := lt_pow_numBytes n
    rw [hzero] at hlt
    omega
  obtain ⟨t, ht⟩ := Nat.exists_eq_succ_of_ne_zero hbytes
  have hle := pow_numBytes_le ht
  unfold leadingDigits
  rw [two_pow_eight_mul, two_pow_eight_mul]
  split
  · rename_i hshort
    calc 2 ^ 16 = 256 ^ t * 256 ^ (3 - numBytes n) := by
          rw [← Nat.pow_add, ht, show t + (3 - t.succ) = 2 by omega]
          norm_num
      _ ≤ n * 256 ^ (3 - numBytes n) := Nat.mul_le_mul_right _ hle
  · obtain ⟨k, rfl⟩ : ∃ k, t = k + 3 := ⟨t - 3, by omega⟩
    rw [ht]
    exact le_div_of_numBytes ht

theorem dvd_leadingDigits (n : Nat) : 256 ^ (3 - numBytes n) ∣ leadingDigits n := by
  unfold leadingDigits
  rw [two_pow_eight_mul, two_pow_eight_mul]
  split
  · exact Nat.dvd_mul_left _ _
  · rw [Nat.sub_eq_zero_of_le (by omega), Nat.pow_zero]
    exact Nat.one_dvd _

/-- The forms that `GetCompact` picks are canonical. -/
theorem canonicalCompact_getCompact (hsize : n < 256 ^ 254) : CanonicalCompact (getCompact n) := by
  obtain ⟨m, s, hm, heq, hcases⟩ := getCompact_fields n
  rw [Int.natAbs_natCast] at hcases
  rw [if_neg (Int.not_lt.mpr (Int.natCast_nonneg _)), Nat.add_zero] at heq
  by_cases hzero : n = 0
  · left
    rw [hzero]
    rfl
  · right
    have hdigits := le_leadingDigits hzero
    have hdvd := dvd_leadingDigits n
    have hbytes : numBytes n ≤ 254 := numBytes_le hsize
    have hpositive : 1 ≤ numBytes n := by
      by_contra hnone
      have hlt := lt_pow_numBytes n
      rw [show numBytes n = 0 by omega] at hlt
      omega
    rw [Nat.mod_eq_of_lt (by omega)] at heq
    refine ⟨m, s, ?_, heq⟩
    rcases hcases with ⟨rfl, rfl⟩ | ⟨hbit, rfl, rfl⟩
    · exact ⟨by omega, hm, by omega, hdvd⟩
    · refine ⟨by omega, hm, by omega, ?_⟩
      by_cases hshort : numBytes n ≤ 2
      · have hpow : 3 - numBytes n = 3 - (numBytes n + 1) + 1 := by omega
        rw [hpow, Nat.pow_succ] at hdvd
        exact (Nat.dvd_div_iff_mul_dvd ((Nat.dvd_mul_left _ _).trans hdvd)).mpr (by rwa [Nat.mul_comm] at hdvd)
      · rw [Nat.sub_eq_zero_of_le (by omega), Nat.pow_zero]
        exact Nat.one_dvd _

/-- `SetCompact` of a canonical form, and `GetCompact` of that. -/
theorem getCompact_setCompact {nCompact : Nat} (h : CanonicalCompact nCompact) :
    getCompact (setCompact nCompact) = nCompact := by
  obtain rfl | ⟨m, s, hfields, rfl⟩ := h
  · rfl
  · rw [setCompact_nonneg_fields hfields.mantissa]
    exact hfields.getCompact_eq

theorem CanonicalCompact.lt {nCompact : Nat} (h : CanonicalCompact nCompact) : nCompact < 2 ^ 32 := by
  obtain rfl | ⟨m, s, hfields, rfl⟩ := h
  · norm_num
  · have := hfields.size
    have := hfields.mantissa
    omega

/-- The digits that are dropped are less than one part in `2 ^ 15`. -/
theorem sub_truncate_lt {u : Nat} (hlarge : 2 ^ 16 ≤ n) (hfull : u = 0 ∨ 2 ^ 23 ≤ n / 256 ^ u * 256) :
    n - truncate 256 u n < n / 2 ^ 15 := by
  rcases hfull with rfl | hfull
  · rw [truncate_zero]
    omega
  · have hpos : 0 < 256 ^ u := Nat.pow_pos (by norm_num)
    have hdigits : 2 ^ 15 ≤ n / 256 ^ u := by omega
    have hsplit := Nat.div_add_mod' n (256 ^ u)
    have hmod := Nat.mod_lt n hpos
    have hpart : 256 ^ u ≤ n / 2 ^ 15 := by
      rw [Nat.le_div_iff_mul_le (by norm_num), Nat.mul_comm]
      exact (Nat.mul_le_mul_right _ hdigits).trans (Nat.div_mul_le_self n _)
    unfold truncate
    omega

/-- **The compact form.** Of the numbers with a compact form, `GetCompact` picks the largest one that is not above `n`,
    in its canonical form. It is off by less than `n / 2 ^ 15`, keeps the order, and leads back from `SetCompact` of every
    canonical form. -/
theorem compact_encoding :
    (∀ n : Nat, n < 2 ^ 256 →
      IsGreatest { r : Int | (∃ nCompact < 2 ^ 32, setCompact nCompact = r) ∧ r ≤ n } (setCompact (getCompact n)) ∧
        (2 ^ 16 ≤ n → (n : Int) - setCompact (getCompact n) < n / 2 ^ 15) ∧
        (∀ n' ≤ n, setCompact (getCompact n') ≤ setCompact (getCompact n)) ∧ CanonicalCompact (getCompact n)) ∧
    ∀ nCompact, CanonicalCompact nCompact → getCompact (setCompact nCompact) = nCompact := by
  refine ⟨fun n hn => ?_, fun nCompact => getCompact_setCompact⟩
  have hsize : n < 256 ^ 254 := hn.trans_le (by decide)
  have hle := fun nCompact => setCompact_le_iff (Int.natCast_nonneg n) hsize nCompact
  have hcanonical := canonicalCompact_getCompact hsize
  have hbelow : setCompact (getCompact n) ≤ n := (hle _).mp le_rfl
  refine ⟨⟨⟨⟨_, hcanonical.lt, rfl⟩, hbelow⟩, ?_⟩, ?_, ?_, hcanonical⟩
  · rintro r ⟨⟨nCompact, -, rfl⟩, hr⟩
    exact (hle nCompact).mpr hr
  · intro hlarge
    obtain ⟨u, hu, hfull⟩ := setCompact_getCompact (Int.natCast_nonneg n) hsize
    rw [Int.natAbs_natCast] at hu hfull
    have hlt := sub_truncate_lt hlarge hfull
    have hle : truncate 256 u n ≤ n := truncate_le
    rw [hu]
    omega
  · intro n' hn'
    have hle' := fun nCompact => setCompact_le_iff (Int.natCast_nonneg n') (hn'.trans_lt hsize) nCompact
    exact (hle _).mpr (((hle' _).mp le_rfl).trans (Int.ofNat_le.mpr hn'))

/-- The number whose mantissa gets a zero in front, with some digits behind it, and its form. -/
theorem compact_sample :
    (IsGreatest { r : Int | (∃ nCompact < 2 ^ 32, setCompact nCompact = r) ∧ r ≤ (0xc0de123456 : Nat) }
        (setCompact (getCompact (0xc0de123456 : Nat))) ∧
      (0xc0de123456 : Nat) - setCompact (getCompact (0xc0de123456 : Nat)) < (0xc0de123456 : Nat) / 2 ^ 15 ∧
      setCompact (getCompact (0xc0de000000 : Nat)) ≤ setCompact (getCompact (0xc0de123456 : Nat))) ∧
    getCompact (setCompact 0x0600c0de) = 0x0600c0de := by
  obtain ⟨hgreatest, hnear, hmono, -⟩ := compact_encoding.1 0xc0de123456 (by decide)
  refine ⟨⟨hgreatest, hnear (by decide), hmono 0xc0de000000 (by decide)⟩, ?_⟩
  exact compact_encoding.2 0x0600c0de (.inr ⟨0x00c0de, 6, ⟨by decide, by decide, by decide, by decide⟩, by decide⟩)

end Compact

end Syscoin

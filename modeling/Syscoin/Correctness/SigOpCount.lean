import Syscoin.Script.Straight

/-!
# `Correctness.SigOpCount` — the signature-operation count bounds the work

`GetSigOpCount` scans a script without running it, and for `OP_CHECKMULTISIG` it trusts the opcode in front: after
`OP_N` it counts `N`, and twenty otherwise. The machine takes the number of keys from the stack.

The two meet in `CountOnTop`: if the instruction just carried out is an `OP_N`, then `N` is on top of the stack, provided
the branch is taken, and nothing comes between it and the next instruction. So what the rest of the scan will count, with
the calls made so far, never grows (`step_within`, `CountOnTop.step`), and `exec_keeps` makes a bound for a whole
evaluation of it.

For a pay-to-script-hash output the scan takes the operand of the last instruction of the unlocking script for the redeem
script. That is what the machine finds on top of the stack, except after `OP_1NEGATE` and `OP_N`, where the scan has the
empty script and the machine a script of one byte which has no signature to check.
-/

namespace Syscoin

open Lib

/-! ## The scan -/

/-- What the accurate scan counts for an instruction. -/
def sigCost (lastOpcode opcode : UInt8) : Nat :=
  if opcode = OP_CHECKSIG ∨ opcode = OP_CHECKSIGVERIFY then 1
  else if opcode = OP_CHECKMULTISIG ∨ opcode = OP_CHECKMULTISIGVERIFY then
    if OP_1 ≤ lastOpcode ∧ lastOpcode ≤ OP_16 then decodeOP_N lastOpcode else 20
  else 0

theorem sigOps_succ {fuel : Nat} {lastOpcode opcode : UInt8} {script pc : CScript} {vch : Bytes}
    (hop : getOp script = some (opcode, vch, pc)) :
    sigOps true (fuel + 1) lastOpcode script = sigCost lastOpcode opcode + sigOps true fuel opcode pc := by
  rw [sigOps, hop]
  simp only [true_and, sigCost]

/-- Fuel beyond the length of the script makes no difference. -/
theorem sigOps_fuel {n k : Nat} {lastOpcode : UInt8} {script : CScript} (hn : script.length ≤ n)
    (hk : script.length ≤ k) : sigOps true n lastOpcode script = sigOps true k lastOpcode script := by
  induction n generalizing k lastOpcode script with
  | zero =>
    obtain rfl := List.eq_nil_of_length_eq_zero (Nat.le_zero.mp hn)
    cases k with
    | zero => rfl
    | succ k => rfl
  | succ n ih =>
    cases k with
    | zero =>
      obtain rfl := List.eq_nil_of_length_eq_zero (Nat.le_zero.mp hk)
      rfl
    | succ k =>
      cases hop : getOp script with
      | none => rw [sigOps, sigOps, hop]
      | some r =>
        obtain ⟨opcode, vch, pc⟩ := r
        have hlt := getOp_length hop
        rw [sigOps_succ hop, sigOps_succ hop, ih (k := k) (by omega) (by omega)]

theorem sigOps_getOp {lastOpcode opcode : UInt8} {script pc : CScript} {vch : Bytes}
    (hop : getOp script = some (opcode, vch, pc)) :
    sigOps true script.length lastOpcode script =
      sigCost lastOpcode opcode + sigOps true pc.length opcode pc := by
  have hlt := getOp_length hop
  obtain ⟨n, hn⟩ := Nat.exists_eq_add_of_lt (Nat.zero_lt_of_lt hlt)
  rw [hn, Nat.zero_add, sigOps_succ hop, sigOps_fuel (by omega) (Nat.le_refl _)]

/-! ## Small numbers -/

theorem getvch_small {n : Nat} (hpos : 0 < n) (hlt : n < 128) : CBigNum.getvch n = [UInt8.ofNat n] := by
  have hdigits : Nat.digits 256 n = [n] := Nat.digits_of_lt 256 n (by omega) (by omega)
  have htop : ¬ (0x80 : UInt8) ≤ UInt8.ofNat n := by
    rw [UInt8.le_iff_toNat_le, UInt8.toNat_ofNat_of_lt' (by omega : n < 256)]
    show ¬ 128 ≤ n
    omega
  unfold CBigNum.getvch
  rw [Int.natAbs_natCast, hdigits]
  simp only [List.map_cons, List.map_nil, List.getLast?_singleton]
  rw [if_neg htop, if_neg (by omega)]

theorem setvch_small {n : Nat} (hlt : n < 128) : CBigNum.setvch [UInt8.ofNat n] = n := by
  have hn : (UInt8.ofNat n).toNat = n := UInt8.toNat_ofNat_of_lt' (by omega : n < 256)
  have htop : UInt8.ofNat n < 0x80 := by
    rw [UInt8.lt_iff_toNat_lt, hn]
    exact hlt
  unfold CBigNum.setvch
  simp only [List.getLast?_singleton]
  rw [if_pos htop]
  simp [fromLE, hn]

/-- The number that `OP_N` pushes is read back as `N`. -/
theorem intAt_smallInteger {n : Nat} (hpos : 0 < n) (hlt : n < 128) (stack : Stack) :
    intAt (CBigNum.getvch n :: stack) 1 = .ok n := by
  have hcast : castToBigNum (CBigNum.getvch n) = .ok n := by
    unfold castToBigNum
    rw [getvch_small hpos hlt, if_neg (by simp [nMaxNumSize]), setvch_small hlt, getvch_small hpos hlt, setvch_small hlt]
  show castToBigNum (CBigNum.getvch n) >>= _ = _
  rw [hcast]
  show Except.ok (CBigNum.getint n) = _
  unfold CBigNum.getint
  rw [if_pos (by omega), if_neg (by omega)]

/-! ## What one instruction costs -/

section Step

variable (crypto : Crypto) (check : Checker) {f g : Frame}

theorem checkPair_calls (vchSig vchPubKey : Bytes) (scriptCode : CScript) :
    (checkPair crypto check vchSig vchPubKey scriptCode).2 ≤ 1 := by
  unfold checkPair
  split
  · exact Nat.le_refl 1
  · exact Nat.zero_le 1

/-- Every turn of the loop uses up a key. -/
theorem multiSigLoop_calls (stack : Stack) (scriptCode : CScript) (nKeysCount nSigsCount isig ikey : Nat) :
    (multiSigLoop crypto check stack scriptCode nKeysCount nSigsCount isig ikey).2 ≤ nKeysCount := by
  induction nKeysCount generalizing nSigsCount isig ikey with
  | zero =>
    cases nSigsCount with
    | zero => exact Nat.le_refl 0
    | succ nSigsCount => exact Nat.le_refl 0
  | succ nKeysCount ih =>
    cases nSigsCount with
    | zero => exact Nat.zero_le _
    | succ nSigsCount =>
      rw [multiSigLoop]
      split
      · rename_i vchSig vchPubKey _ _
        have hpair := checkPair_calls crypto check vchSig vchPubKey scriptCode
        generalize checkPair crypto check vchSig vchPubKey scriptCode = result at hpair ⊢
        obtain ⟨fOk, n⟩ := result
        dsimp only at hpair ⊢
        generalize (if fOk = true then nSigsCount else nSigsCount + 1) = nSigsCount'
        generalize (if fOk = true then isig + 1 else isig) = isig'
        by_cases hmore : nKeysCount < nSigsCount'
        · rw [if_pos hmore]
          exact hpair.trans (Nat.le_add_left 1 nKeysCount)
        · rw [if_neg hmore]
          have hrest := ih nSigsCount' isig' (ikey + 1)
          dsimp only
          omega
      · exact Nat.zero_le _

/-- No more than `bound` calls were made. -/
def Within (bound : Nat) (f : Frame) : Prop := f.nCheckSig ≤ bound

theorem opIf_within {bound : Nat} (h : Within bound f) (opcode : UInt8) (fExec : Bool) :
    Within bound (lastState (opIf opcode fExec f)) := by
  unfold opIf
  split
  · refine lastState_stay_bind h fun _ _ => ?_
    refine lastState_stay_bind h fun vch _ => ?_
    exact lastState_stay_bind h fun stack _ => h
  · exact h

theorem opElse_within {bound : Nat} (h : Within bound f) : Within bound (lastState (opElse f)) := by
  unfold opElse
  split
  · exact h
  · exact h

theorem opEndIf_within {bound : Nat} (h : Within bound f) : Within bound (lastState (opEndIf f)) := by
  unfold opEndIf
  split
  · exact h
  · exact h

theorem opToAltStack_within {bound : Nat} (h : Within bound f) : Within bound (lastState (opToAltStack f)) := by
  unfold opToAltStack
  refine lastState_stay_bind h fun _ _ => ?_
  refine lastState_stay_bind h fun vch _ => ?_
  exact lastState_stay_bind h fun stack _ => h

theorem opFromAltStack_within {bound : Nat} (h : Within bound f) : Within bound (lastState (opFromAltStack f)) := by
  unfold opFromAltStack
  refine lastState_stay_bind h fun _ _ => ?_
  refine lastState_stay_bind h fun vch _ => ?_
  exact lastState_stay_bind h fun altstack _ => h

theorem opCheckSig_within (fVerify : Bool) :
    Within (f.nCheckSig + 1) (lastState (opCheckSig crypto check fVerify f)) := by
  unfold opCheckSig
  have h : Within (f.nCheckSig + 1) f := Nat.le_succ _
  refine lastState_stay_bind h fun _ _ => ?_
  refine lastState_stay_bind h fun vchSig _ => ?_
  refine lastState_stay_bind h fun vchPubKey _ => ?_
  have hpair := checkPair_calls crypto check vchSig vchPubKey
    (findAndDelete (pushVch vchSig) f.pbegincodehash)
  have hcounted := Nat.add_le_add_left hpair f.nCheckSig
  refine lastState_stay_bind hcounted fun stack _ => ?_
  exact lastState_stay_bind hcounted fun stack' _ => hcounted

theorem checkMultiSig_within (fVerify : Bool) (nKeysCount : Nat) :
    Within (f.nCheckSig + nKeysCount) (lastState (checkMultiSig crypto check fVerify nKeysCount f)) := by
  unfold checkMultiSig
  have h : Within (f.nCheckSig + nKeysCount) f := Nat.le_add_right _ _
  refine lastState_stay_bind h fun _ _ => ?_
  refine lastState_stay_bind h fun nSigsCount _ => ?_
  refine lastState_stay_bind h fun _ _ => ?_
  refine lastState_stay_bind h fun _ _ => ?_
  refine lastState_stay_bind h fun scriptCode _ => ?_
  have hcalls := multiSigLoop_calls crypto check f.stack scriptCode nKeysCount nSigsCount.toNat
    (2 + nKeysCount + 1) 2
  have hcounted := Nat.add_le_add_left hcalls f.nCheckSig
  refine lastState_stay_bind hcounted fun fSuccess _ => ?_
  refine lastState_stay_bind hcounted fun stack _ => ?_
  exact lastState_stay_bind hcounted fun stack' _ => hcounted

/-- At most as many calls as the number on top of the stack says, and at most twenty. -/
theorem opCheckMultiSig_within {k : Nat} (fVerify : Bool)
    (hkeys : ∀ nKeysCount, intAt f.stack 1 = .ok nKeysCount → nKeysCount ≤ 20 → nKeysCount.toNat ≤ k) :
    Within (f.nCheckSig + k) (lastState (opCheckMultiSig crypto check fVerify f)) := by
  unfold opCheckMultiSig
  have h : Within (f.nCheckSig + k) f := Nat.le_add_right _ _
  refine lastState_stay_bind h fun _ _ => ?_
  refine lastState_stay_bind h fun nKeysCount hint => ?_
  refine lastState_stay_bind h fun _ hrange => ?_
  refine lastState_stay_bind h fun _ _ => ?_
  have hcalls := checkMultiSig_within crypto check
    (f := { f with nOpCount := f.nOpCount + nKeysCount.toNat }) fVerify nKeysCount.toNat
  have hk := hkeys nKeysCount hint (require_ok_iff.mp hrange).2
  exact Nat.le_trans hcalls (Nat.add_le_add_left hk f.nCheckSig)

/-! ## The scan and the machine side by side -/

/-- After an `OP_N` in a branch that is taken, `N` is on top of the stack. -/
def CountOnTop (lastOpcode : UInt8) (f : Frame) : Prop :=
  OP_1 ≤ lastOpcode → lastOpcode ≤ OP_16 → f.vfExec.all (· = true) = true →
    ∃ stack, f.stack = CBigNum.getvch (decodeOP_N lastOpcode) :: stack

theorem decodeOP_N_bounds {opcode : UInt8} (hlow : OP_1 ≤ opcode) (hhigh : opcode ≤ OP_16) :
    0 < decodeOP_N opcode ∧ decodeOP_N opcode ≤ 16 := by
  rw [UInt8.le_iff_toNat_le] at hlow hhigh
  have hone : OP_1.toNat = 81 := rfl
  have hsixteen : OP_16.toNat = 96 := rfl
  unfold decodeOP_N
  omega

/-- The keys of `OP_CHECKMULTISIG` are no more than the scan counts for it. -/
theorem CountOnTop.keys_le {lastOpcode opcode : UInt8} (h : CountOnTop lastOpcode f)
    (hexec : f.vfExec.all (· = true) = true) (hmulti : opcode = OP_CHECKMULTISIG ∨ opcode = OP_CHECKMULTISIGVERIFY) {nKeysCount : Int}
    (hint : intAt f.stack 1 = .ok nKeysCount) (hmax : nKeysCount ≤ 20) :
    nKeysCount.toNat ≤ sigCost lastOpcode opcode := by
  have hother : ¬ (opcode = OP_CHECKSIG ∨ opcode = OP_CHECKSIGVERIFY) := by
    rcases hmulti with rfl | rfl <;> decide
  unfold sigCost
  rw [if_neg hother, if_pos hmulti]
  split
  · rename_i hsmall
    obtain ⟨stack, hstack⟩ := h hsmall.1 hsmall.2 hexec
    obtain ⟨hpos, hle⟩ := decodeOP_N_bounds hsmall.1 hsmall.2
    rw [hstack, intAt_smallInteger hpos (by omega)] at hint
    cases hint
    exact Nat.le_refl _
  · omega

theorem execute_within {opcode lastOpcode : UInt8} {fExec : Bool}
    (hkeys : opcode = OP_CHECKMULTISIG ∨ opcode = OP_CHECKMULTISIGVERIFY → ∀ nKeysCount : Int,
      intAt f.stack 1 = .ok nKeysCount → nKeysCount ≤ 20 → nKeysCount.toNat ≤ sigCost lastOpcode opcode) :
    Within (f.nCheckSig + sigCost lastOpcode opcode) (lastState (execute crypto check opcode fExec f)) := by
  have h₀ : Within (f.nCheckSig + sigCost lastOpcode opcode) f := Nat.le_add_right _ _
  unfold execute
  by_cases hif : opcode = OP_IF ∨ opcode = OP_NOTIF
  · rw [if_pos hif]
    exact opIf_within h₀ opcode fExec
  rw [if_neg hif]
  by_cases helse : opcode = OP_ELSE
  · rw [if_pos helse]
    exact opElse_within h₀
  rw [if_neg helse]
  by_cases hend : opcode = OP_ENDIF
  · rw [if_pos hend]
    exact opEndIf_within h₀
  rw [if_neg hend]
  by_cases hto : opcode = OP_TOALTSTACK
  · rw [if_pos hto]
    exact opToAltStack_within h₀
  rw [if_neg hto]
  by_cases hfrom : opcode = OP_FROMALTSTACK
  · rw [if_pos hfrom]
    exact opFromAltStack_within h₀
  rw [if_neg hfrom]
  by_cases hsep : opcode = OP_CODESEPARATOR
  · rw [if_pos hsep]
    exact h₀
  rw [if_neg hsep]
  by_cases hsig : opcode = OP_CHECKSIG ∨ opcode = OP_CHECKSIGVERIFY
  · rw [if_pos hsig]
    have hcost : sigCost lastOpcode opcode = 1 := if_pos hsig
    rw [hcost]
    exact opCheckSig_within crypto check _
  rw [if_neg hsig]
  by_cases hmulti : opcode = OP_CHECKMULTISIG ∨ opcode = OP_CHECKMULTISIGVERIFY
  · rw [if_pos hmulti]
    exact opCheckMultiSig_within crypto check _ (hkeys hmulti)
  · rw [if_neg hmulti]
    exact lastState_stay_bind h₀ fun _ _ => h₀

theorem perform_within {opcode lastOpcode : UInt8} {vch : Bytes} (h : CountOnTop lastOpcode f) :
    Within (f.nCheckSig + sigCost lastOpcode opcode) (lastState (perform crypto check opcode vch f)) := by
  unfold perform
  dsimp only
  split
  · exact Nat.le_add_right _ _
  · split
    · rename_i hrun
      apply execute_within
      intro hmulti nKeysCount
      -- the check is no conditional, so its branch is taken
      have hexec : f.vfExec.all (· = true) = true := by
        rcases hrun with hexec | hcontrol
        · exact hexec
        · rcases hmulti with rfl | rfl <;> exact absurd hcontrol.2 (by decide)
      exact h.keys_le hexec hmulti
    · exact Nat.le_add_right _ _

/-- **One step costs no more than the scan counts for it**, whether it goes on or stops. -/
theorem step_within {opcode lastOpcode : UInt8} {vch : Bytes} {pc : CScript} (h : CountOnTop lastOpcode f)
    (hop : getOp f.pc = some (opcode, vch, pc)) :
    Within (f.nCheckSig + sigCost lastOpcode opcode) (lastState (step crypto check f)) := by
  have h₀ : Within (f.nCheckSig + sigCost lastOpcode opcode) f := Nat.le_add_right _ _
  unfold step
  rw [hop]
  refine lastState_stay_bind h₀ fun _ _ => ?_
  refine lastState_stay_bind h₀ fun _ _ => ?_
  refine lastState_stay_bind h₀ fun _ _ => ?_
  refine lastState_bind ?_ fun g _ hg => ?_
  · exact perform_within crypto check h
  · exact lastState_stay_bind hg fun _ _ => hg

/-- `OP_N` pushes `N`, unless its branch is not taken. -/
theorem perform_countOnTop {opcode : UInt8} {vch : Bytes} (h : perform crypto check opcode vch f = .ok g) :
    CountOnTop opcode g := by
  intro hlow hhigh hexec
  have hpush : ¬ opcode ≤ OP_PUSHDATA4 := fun hle => absurd (UInt8.le_trans hlow hle) (by decide)
  have hcontrol : ¬ (OP_IF ≤ opcode ∧ opcode ≤ OP_ENDIF) := fun hle => absurd (UInt8.le_trans hle.1 hhigh) (by decide)
  unfold perform at h
  dsimp only at h
  rw [if_neg (fun hle => hpush hle.2)] at h
  split at h
  · rw [execute_low hhigh, stackOp_smallInteger hlow hhigh] at h
    cases h
    exact ⟨f.stack, rfl⟩
  · rename_i hskip
    cases h
    exact absurd (.inl hexec) hskip

/-- The instruction just carried out is the one that the scan saw last. -/
theorem step_countOnTop {opcode : UInt8} {vch : Bytes} {pc : CScript} (hop : getOp f.pc = some (opcode, vch, pc))
    (h : step crypto check f = .ok g) : CountOnTop opcode g := by
  obtain ⟨opcode', vch', pc', hop', hperform, -⟩ := step_ok h
  cases hop.symm.trans hop'
  exact perform_countOnTop crypto check hperform

/-! ## A whole evaluation -/

/-- **`EvalScript` calls `CheckSig` no more often than `GetSigOpCount(true)` says**, for every script, also one that
    fails on the way. -/
theorem evalScript_within (nCheckSig : Nat) (stack : Stack) (script : CScript) :
    Within (nCheckSig + getSigOpCount true script) (lastState (evalScript crypto check nCheckSig stack script)) := by
  let bound := nCheckSig + getSigOpCount true script
  let I : Frame → Prop := fun f =>
    ∃ lastOpcode, CountOnTop lastOpcode f ∧ f.nCheckSig + sigOps true f.pc.length lastOpcode f.pc ≤ bound
  have hstart : I (Frame.start nCheckSig stack script) := by
    refine ⟨OP_INVALIDOPCODE, ?_, Nat.le_refl _⟩
    intro _ hhigh
    exact absurd hhigh (by decide)
  have hI : ∀ f, I f → Within bound f := by
    rintro f ⟨lastOpcode, -, hle⟩
    exact Nat.le_trans (Nat.le_add_right _ _) hle
  have hstep : ∀ f g, I f → step crypto check f = .ok g → I g := by
    rintro f g ⟨lastOpcode, hlink, hle⟩ h
    obtain ⟨opcode, vch, pc, hop, -, hpc⟩ := step_ok h
    have hcost := step_within crypto check hlink hop
    rw [h] at hcost
    refine ⟨opcode, step_countOnTop crypto check hop h, ?_⟩
    rw [sigOps_getOp hop] at hle
    rw [hpc]
    have hg : g.nCheckSig ≤ f.nCheckSig + sigCost lastOpcode opcode := hcost
    omega
  have hstop : ∀ f e g, I f → step crypto check f = .error (e, g) → Within bound g := by
    rintro f e g ⟨lastOpcode, hlink, hle⟩ h
    cases hop : getOp f.pc with
    | none =>
      unfold step at h
      rw [hop] at h
      cases h
      exact hI _ ⟨lastOpcode, hlink, hle⟩
    | some r =>
      obtain ⟨opcode, vch, pc⟩ := r
      have hcost := step_within crypto check hlink hop
      rw [h] at hcost
      rw [sigOps_getOp hop] at hle
      have hg : g.nCheckSig ≤ f.nCheckSig + sigCost lastOpcode opcode := hcost
      exact Nat.le_trans hg (by omega)
  unfold evalScript
  refine lastState_stay_bind (hI _ hstart) fun _ _ => ?_
  refine lastState_bind ((interpreter crypto check).exec_keeps hstep hstop (fun f h _ => hI f h) hstart) fun f _ hf => ?_
  exact lastState_stay_bind hf fun _ _ => hf

/-! ## The redeem script -/

theorem lastPush_fuel {n k : Nat} {data : Bytes} {script : CScript} (hn : script.length ≤ n) (hk : script.length ≤ k) :
    lastPush n data script = lastPush k data script := by
  induction n generalizing k data script with
  | zero =>
    obtain rfl := List.eq_nil_of_length_eq_zero (Nat.le_zero.mp hn)
    cases k with
    | zero => rfl
    | succ k => rfl
  | succ n ih =>
    cases k with
    | zero =>
      obtain rfl := List.eq_nil_of_length_eq_zero (Nat.le_zero.mp hk)
      rfl
    | succ k =>
      cases script with
      | nil => rfl
      | cons b script =>
        rw [lastPush, lastPush]
        · cases hop : getOp (b :: script) with
          | none => rfl
          | some r =>
            obtain ⟨opcode, vch, pc⟩ := r
            have hlt := getOp_length hop
            dsimp only
            rw [ih (k := k) (by omega) (by omega)]
        · exact List.cons_ne_nil b script
        · exact List.cons_ne_nil b script

theorem lastPush_getOp {opcode : UInt8} {script pc : CScript} {vch data : Bytes}
    (hop : getOp script = some (opcode, vch, pc)) :
    lastPush script.length data script = if OP_16 < opcode then none else lastPush pc.length vch pc := by
  cases script with
  | nil => cases hop
  | cons b script =>
    have hlt := getOp_length hop
    rw [List.length_cons, lastPush]
    · rw [hop]
      dsimp only
      rw [lastPush_fuel (k := pc.length) (Nat.lt_succ_iff.mp hlt) (Nat.le_refl _)]
    · exact List.cons_ne_nil b script

/-- `IsPushOnly` and the scan for the redeem script agree on what is not a push. -/
theorem pushOnlyLoop_eq (fuel : Nat) (data : Bytes) (script : CScript) :
    pushOnlyLoop fuel script = (lastPush fuel data script).isSome := by
  induction fuel generalizing data script with
  | zero => rfl
  | succ fuel ih =>
    cases script with
    | nil => rfl
    | cons b script =>
      rw [lastPush, pushOnlyLoop]
      · cases hop : getOp (b :: script) with
        | none => rfl
        | some r =>
          obtain ⟨opcode, vch, pc⟩ := r
          dsimp only
          split
          · rfl
          · exact ih vch pc
      · exact List.cons_ne_nil b script
      · exact List.cons_ne_nil b script

/-- The machine's redeem script costs no more than the one the scan has. -/
def Covered (data : Bytes) (stack : Stack) : Prop :=
  ∀ top rest, stack = top :: rest → getSigOpCount true top ≤ getSigOpCount true data

/-- As a script, a small number is a truncated push, and minus one is a disabled opcode. -/
theorem getSigOpCount_smallInteger {n : Nat} (hpos : 0 < n) (hle : n ≤ 16) :
    getSigOpCount true (CBigNum.getvch n) = 0 := by
  have hn : (UInt8.ofNat n).toNat = n := UInt8.toNat_ofNat_of_lt' (by omega : n < 256)
  have hpush : UInt8.ofNat n < OP_PUSHDATA1 := by
    rw [UInt8.lt_iff_toNat_lt, hn]
    show n < 76
    omega
  have hop : getOp [UInt8.ofNat n] = none := by
    rw [getOp, if_pos (UInt8.le_trans (UInt8.le_of_lt hpush) (by decide)), readSize, if_pos hpush]
    dsimp only
    rw [if_pos (by rw [hn]; exact hpos)]
  rw [getvch_small hpos (by omega), getSigOpCount, List.length_singleton, sigOps, hop]

theorem getSigOpCount_negate : getSigOpCount true (CBigNum.getvch (-1)) = 0 := by
  have hvch : CBigNum.getvch (-1) = [0x81] := by
    unfold CBigNum.getvch
    rw [show (-1 : Int).natAbs = 1 from rfl, Nat.digits_of_lt 256 1 (by omega) (by omega)]
    rfl
  rw [hvch]
  rfl

theorem Covered.of_zero {data vch : Bytes} {stack : Stack} (h : getSigOpCount true vch = 0) :
    Covered data (vch :: stack) := by
  intro top rest heq
  cases heq
  rw [h]
  exact Nat.zero_le _

/-- What a push-only step leaves on top of the stack. -/
theorem perform_covered {opcode : UInt8} {vch : Bytes} (h : perform crypto check opcode vch f = .ok g)
    (hvfExec : f.vfExec = []) (hhigh : opcode ≤ OP_16) : g.vfExec = [] ∧ Covered vch g.stack := by
  have hexec : f.vfExec.all (· = true) = true := by rw [hvfExec]; rfl
  unfold perform at h
  dsimp only at h
  by_cases hpush : opcode ≤ OP_PUSHDATA4
  · rw [if_pos ⟨hexec, hpush⟩] at h
    cases h
    refine ⟨hvfExec, ?_⟩
    intro top rest heq
    cases heq
    exact Nat.le_refl _
  · rw [if_neg (fun hle => hpush hle.2), if_pos (.inl hexec), execute_low hhigh] at h
    simp only [Except.bind_ok_iff, stay_ok_iff] at h
    obtain ⟨stack, hop, h⟩ := h
    cases h
    refine ⟨hvfExec, ?_⟩
    by_cases hlow : OP_1 ≤ opcode
    · rw [stackOp_smallInteger hlow hhigh] at hop
      cases hop
      obtain ⟨hpos, hle⟩ := decodeOP_N_bounds hlow hhigh
      exact .of_zero (getSigOpCount_smallInteger hpos hle)
    · -- two opcodes are left, `OP_1NEGATE` and `OP_RESERVED`; the second one fails
      have hleft : opcode = OP_1NEGATE ∨ opcode = 0x50 := by
        rw [UInt8.le_iff_toNat_le] at hpush hlow
        have hfour : OP_PUSHDATA4.toNat = 78 := rfl
        have hone : OP_1.toNat = 81 := rfl
        have hcases : opcode.toNat = 79 ∨ opcode.toNat = 80 := by omega
        rcases hcases with heq | heq
        · exact .inl (UInt8.toNat_inj.mp heq)
        · exact .inr (UInt8.toNat_inj.mp heq)
      rcases hleft with rfl | rfl
      · have hvalue : stackOp crypto OP_1NEGATE f.stack = .ok (CBigNum.getvch (-1) :: f.stack) := rfl
        rw [hvalue] at hop
        cases hop
        exact .of_zero getSigOpCount_negate
      · have hfail : stackOp crypto 0x50 f.stack = .error .failed := rfl
        rw [hfail] at hop
        cases hop

/-- **The redeem script the scan finds is the one the machine runs**, or the machine's has nothing to check. -/
theorem evalScript_covered {scriptSig : CScript} {nCheckSig : Nat} (hpush : isPushOnly scriptSig = true)
    (h : evalScript crypto check nCheckSig [] scriptSig = .ok g) :
    ∃ data, lastPush scriptSig.length [] scriptSig = some data ∧ Covered data g.stack := by
  unfold isPushOnly at hpush
  rw [pushOnlyLoop_eq scriptSig.length [], Option.isSome_iff_exists] at hpush
  obtain ⟨subscript, hlast⟩ := hpush
  let I : Frame → Prop := fun f =>
    f.vfExec = [] ∧ ∃ data, lastPush f.pc.length data f.pc = some subscript ∧ Covered data f.stack
  have hstart : I (Frame.start nCheckSig [] scriptSig) := by
    refine ⟨rfl, [], hlast, ?_⟩
    intro top rest heq
    cases heq
  have hstep : ∀ f g, I f → step crypto check f = .ok g → I g := by
    rintro f g ⟨hvfExec, data, hdata, hcovered⟩ h
    obtain ⟨opcode, vch, pc, hop, hperform, hpc⟩ := step_ok h
    rw [lastPush_getOp hop] at hdata
    by_cases hhigh : OP_16 < opcode
    · rw [if_pos hhigh] at hdata
      cases hdata
    · rw [if_neg hhigh] at hdata
      obtain ⟨hvfExec', hcovered'⟩ := perform_covered crypto check hperform hvfExec (UInt8.not_lt.mp hhigh)
      refine ⟨hvfExec', vch, ?_, hcovered'⟩
      rw [hpc]
      exact hdata
  obtain ⟨-, hrun, -⟩ := evalScript_ok_iff.mp h
  obtain ⟨⟨-, data, hdata, hcovered⟩, hend⟩ := (interpreter crypto check).exec_ok_keeps hstep hstart hrun
  refine ⟨subscript, hlast, ?_⟩
  have hpc : g.pc = [] := List.eq_nil_of_length_eq_zero hend
  rw [hpc] at hdata
  cases hdata
  exact hcovered

theorem evalRedeemScript_within {nCheckSig bound : Nat} {stack : Stack} {data : Bytes} (hf : Within bound f)
    (hcovered : Covered data stack) (hbound : nCheckSig + getSigOpCount true data ≤ bound) :
    Within bound (lastState (evalRedeemScript crypto check nCheckSig f stack)) := by
  cases stack with
  | nil => exact hf
  | cons pubKeySerialized stackCopy =>
    have hcount := hcovered pubKeySerialized stackCopy rfl
    have heval : Within bound (lastState (evalScript crypto check nCheckSig stackCopy pubKeySerialized)) := by
      refine Nat.le_trans (evalScript_within crypto check nCheckSig stackCopy pubKeySerialized) ?_
      omega
    unfold evalRedeemScript
    refine lastState_bind heval fun g _ hg => ?_
    exact lastState_stay_bind hg fun _ _ => hg

/-! ## `VerifyScript` -/

theorem evalScript_ok_within {nCheckSig : Nat} {stack : Stack} {script : CScript}
    (h : evalScript crypto check nCheckSig stack script = .ok g) : g.nCheckSig ≤ nCheckSig + getSigOpCount true script := by
  have hle := evalScript_within crypto check nCheckSig stack script
  rw [h] at hle
  exact hle

end Step

/-- **The count bounds the work.** However `VerifyScript` ends, it has not called `CheckSig` more often than the counts of
    the two scripts say, with the count of the redeem script where that one is to be run. -/
theorem verifyScript_sigOpCount (crypto : Crypto) (check : Checker) (scriptSig scriptPubKey : CScript) :
    (lastState (verifyScript crypto check scriptSig scriptPubKey)).nCheckSig ≤
      getSigOpCount true scriptSig + getSigOpCount true scriptPubKey +
        (if check.fP2SH = true ∧ isPayToScriptHash scriptPubKey = true then
          getSigOpCountP2SH scriptPubKey scriptSig else 0) := by
  generalize hredeem : (if check.fP2SH = true ∧ isPayToScriptHash scriptPubKey = true then
    getSigOpCountP2SH scriptPubKey scriptSig else 0) = redeem
  let bound := getSigOpCount true scriptSig + getSigOpCount true scriptPubKey + redeem
  show Within bound _
  unfold verifyScript
  refine lastState_bind ?_ fun f hf _ => ?_
  · refine Nat.le_trans (evalScript_within crypto check 0 [] scriptSig) ?_
    omega
  have hsig := evalScript_ok_within crypto check hf
  refine lastState_bind ?_ fun g hg _ => ?_
  · refine Nat.le_trans (evalScript_within crypto check f.nCheckSig f.stack scriptPubKey) ?_
    omega
  have hpub := evalScript_ok_within crypto check hg
  have hdone : Within bound g := Nat.le_trans hpub (by omega)
  refine lastState_stay_bind hdone fun _ _ => ?_
  split
  · rename_i hp2sh
    rw [if_pos hp2sh, getSigOpCountP2SH, if_pos hp2sh.2] at hredeem
    refine lastState_stay_bind hdone fun _ hpush => ?_
    obtain ⟨data, hdata, hcovered⟩ := evalScript_covered crypto check (require_ok_iff.mp hpush) hf
    rw [hdata] at hredeem
    apply evalRedeemScript_within crypto check hdone hcovered
    dsimp only at hredeem
    omega
  · exact hdone

end Syscoin

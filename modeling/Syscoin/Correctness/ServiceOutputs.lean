import Syscoin.Script.Straight

/-!
# `Correctness.ServiceOutputs` — who can spend a service output

An output to a script hash asks for two things: a redeem script with that hash, and that the redeem script accepts what
stands below it. The second one is asked of a script that is exactly `OP_HASH160`, twenty bytes, `OP_EQUAL`. A service
output is such a script behind a prefix, so that it is not asked: whoever shows the redeem script has the output
(`service_output_unguarded`).

`service_output_guarded_iff` says for every prefix, destination, unlocking script and transaction when the condition of
the destination is kept all the same.
-/

namespace Syscoin

open Lib

/-- The script on top of the stack that `scriptSig` leaves accepts the rest of that stack. -/
def redeemSucceeds (crypto : Crypto) (check : Checker) (scriptSig : CScript) : Bool :=
  match evalScript crypto check 0 [] scriptSig with
  | .ok f => (evalRedeemScript crypto check f.nCheckSig f f.stack).isOk
  | .error _ => false

section Sizes

theorem length_pushVch_le (vch : Bytes) : (pushVch vch).length ≤ vch.length + 5 := by
  unfold pushVch
  split
  · rw [List.length_cons]
    omega
  · split
    · rw [List.length_cons, List.length_cons]
      omega
    · split
      · rw [List.length_append, List.length_cons, length_toLE]
        omega
      · rw [List.length_append, List.length_cons, length_toLE]
        omega

theorem lt_length_pushVch (vch : Bytes) : vch.length < (pushVch vch).length := by
  unfold pushVch
  split
  · rw [List.length_cons]
    omega
  · split
    · rw [List.length_cons, List.length_cons]
      omega
    · split
      · rw [List.length_append, List.length_cons]
        omega
      · rw [List.length_append, List.length_cons]
        omega

/-- A push takes at least one byte. -/
theorem length_le_flatMap_pushVch (vvch : List Bytes) : vvch.length ≤ (vvch.flatMap pushVch).length := by
  induction vvch with
  | nil => exact Nat.le_refl 0
  | cons vch vvch ih =>
    have hpos := lt_length_pushVch vch
    rw [List.flatMap_cons, List.length_append, List.length_cons]
    omega

variable {P : ServicePrefix}

theorem length_setDestination_scriptID (scriptID : CScriptID) :
    (setDestination (.scriptID scriptID)).length = 23 := by
  show (OP_HASH160 :: (20 :: toLE 20 scriptID.id ++ [OP_EQUAL])).length = 23
  rw [List.length_cons, List.length_append, List.length_cons, length_toLE]
  rfl

theorem nArgs_le (op : Op) : op.nArgs ≤ 3 := by cases op <;> decide

/-- A prefix that fits does not make the output too long. -/
theorem ServicePrefix.Fits.length_le (h : P.Fits) (scriptID : CScriptID) :
    (P.script ++ setDestination (.scriptID scriptID)).length ≤ 10000 := by
  have hlen : ∀ vch ∈ P.vvch, vch.length < 2 ^ 32 := fun vch hmem => Nat.lt_of_le_of_lt (h vch hmem) (by decide)
  have hargs := (pushes_flatMap hlen).length_le h
  have harity := nArgs_le P.op
  have hdrops := length_drops_le P.op
  rw [P.arity] at hargs
  rw [List.length_append, length_setDestination_scriptID]
  show (encodeOP_N P.op.toN :: P.vvch.flatMap pushVch ++ drops P.op.nArgs).length + 23 ≤ 10000
  rw [List.length_append, List.length_cons]
  omega

theorem ServicePrefix.length_vch_le {vch : Bytes} (h : vch ∈ P.vvch) : vch.length ≤ P.script.length := by
  have hpart : (pushVch vch).length ≤ (P.vvch.flatMap pushVch).length :=
    (List.sublist_flatten_of_mem (List.mem_map_of_mem h)).length_le
  have hvch := lt_length_pushVch vch
  show _ ≤ (encodeOP_N P.op.toN :: P.vvch.flatMap pushVch ++ drops P.op.nArgs).length
  rw [List.length_append, List.length_cons]
  omega

/-- The arguments of a script that is not too long have lengths that `operator<<` can write. -/
theorem ServicePrefix.vch_lt {D : CScript} (h : (P.script ++ D).length < 2 ^ 32) :
    ∀ vch ∈ P.vvch, vch.length < 2 ^ 32 := by
  intro vch hmem
  have hvch := P.length_vch_le hmem
  rw [List.length_append] at h
  omega

end Sizes

/-! ## The output is no pay-to-script-hash output -/

theorem isPayToScriptHash_service (P : ServicePrefix) (D : CScript) : isPayToScriptHash (P.script ++ D) = false := by
  have hhead : encodeOP_N P.op.toN ≠ OP_HASH160 := by
    intro heq
    have hhigh := (encodeOP_N_bounds P.op).2
    rw [heq] at hhigh
    exact absurd hhigh (by decide)
  have hfirst : (P.script ++ D).getD 0 0 = encodeOP_N P.op.toN := rfl
  unfold isPayToScriptHash
  rw [hfirst]
  simp [hhead]

theorem isPayToScriptHash_setDestination (scriptID : CScriptID) :
    isPayToScriptHash (setDestination (.scriptID scriptID)) = true := by
  have hlength := length_setDestination_scriptID scriptID
  have hlast : (setDestination (.scriptID scriptID)).getD 22 0 = OP_EQUAL := by
    have hscript : setDestination (.scriptID scriptID) = (OP_HASH160 :: 20 :: toLE 20 scriptID.id) ++ [OP_EQUAL] := rfl
    have hfront : (OP_HASH160 :: 20 :: toLE 20 scriptID.id).length = 22 := by
      rw [List.length_cons, List.length_cons, length_toLE]
    rw [hscript, List.getD_eq_getElem?_getD, List.getElem?_append_right (by omega), hfront]
    rfl
  have hfirst : (setDestination (.scriptID scriptID)).getD 0 0 = OP_HASH160 := rfl
  have hsecond : (setDestination (.scriptID scriptID)).getD 1 0 = 0x14 := rfl
  unfold isPayToScriptHash
  rw [hlength, hfirst, hsecond, hlast]
  decide

/-! ## Running the output -/

section Run

variable {crypto : Crypto} {check : Checker} {P : ServicePrefix} {scriptID : CScriptID}

/-- What stands on top hashes to the destination. -/
def Matches (crypto : Crypto) (scriptID : CScriptID) (redeemScript : Bytes) : Prop :=
  toLE 20 (crypto.hash160 redeemScript) = toLE 20 scriptID.id

instance (redeemScript : Bytes) : Decidable (Matches crypto scriptID redeemScript) :=
  inferInstanceAs (Decidable (_ = _))

theorem topIsTrue_vchBool (fValue : Bool) (rest : Stack) : topIsTrue (vchBool fValue :: rest) = fValue := by
  cases fValue <;> rfl

/-- **A service output passes** on every stack with a script on top that hashes to its destination, if the prefix fits
    and has room. -/
theorem evalScript_service_iff {n : Nat} {stack : Stack} :
    (∃ g, evalScript crypto check n stack (P.script ++ setDestination (.scriptID scriptID)) = .ok g ∧
      topIsTrue g.stack = true) ↔
      P.Fits ∧ stack.length + P.vvch.length + 1 ≤ 1000 ∧
        ∃ redeemScript rest, stack = redeemScript :: rest ∧ Matches crypto scriptID redeemScript := by
  let D := setDestination (.scriptID scriptID)
  have hdrops := length_drops_le P.op
  constructor
  · rintro ⟨g, heval, htop⟩
    obtain ⟨hlength, hexec, -⟩ := evalScript_ok_iff.mp heval
    rw [Frame.start_eq rfl] at hexec
    obtain ⟨hfits, hroom, hexec⟩ := (exec_service rfl (P.vch_lt (Nat.lt_of_le_of_lt hlength (by decide))) (by omega)).mp hexec
    obtain ⟨redeemScript, rest, rfl, -, rfl⟩ := (exec_scriptID rfl (by omega)).mp hexec
    refine ⟨hfits, hroom, redeemScript, rest, rfl, ?_⟩
    have hresult := topIsTrue_vchBool (decide (Matches crypto scriptID redeemScript)) rest
    exact of_decide_eq_true (hresult.symm.trans htop)
  · rintro ⟨hfits, hroom, redeemScript, rest, rfl, hmatch⟩
    have hlength := hfits.length_le scriptID
    have harity := P.arity
    have hpos : 1 ≤ P.op.nArgs := by cases P.op <;> decide
    let f := Frame.start n (redeemScript :: rest) (P.script ++ D)
    refine ⟨f.atPc [] (vchBool (decide (Matches crypto scriptID redeemScript)) :: rest) (0 + (drops P.op.nArgs).length + 2),
      evalScript_ok_iff.mpr ⟨hlength, ?_, rfl⟩, ?_⟩
    · rw [Frame.start_eq rfl]
      refine (exec_service rfl (P.vch_lt (Nat.lt_of_le_of_lt hlength (by decide))) (by omega)).mpr ⟨hfits, hroom, ?_⟩
      refine (exec_scriptID rfl (by omega)).mpr ⟨redeemScript, rest, rfl, ?_, rfl⟩
      show (redeemScript :: rest).length + 1 + 0 ≤ 1000
      omega
    · have hresult := topIsTrue_vchBool (decide (Matches crypto scriptID redeemScript)) rest
      rw [decide_eq_true hmatch] at hresult ⊢
      exact hresult

/-- `VerifyScript` on a service output: the redeem script is shown, and not run. -/
theorem verifies_service_iff {scriptSig : CScript} :
    verifies crypto check scriptSig (P.script ++ setDestination (.scriptID scriptID)) = true ↔
      ∃ f, evalScript crypto check 0 [] scriptSig = .ok f ∧
        P.Fits ∧ f.stack.length + P.vvch.length + 1 ≤ 1000 ∧
        ∃ redeemScript rest, f.stack = redeemScript :: rest ∧ Matches crypto scriptID redeemScript := by
  rw [verifies_iff]
  constructor
  · rintro ⟨f, g, hf, hg, htop, -⟩
    exact ⟨f, hf, evalScript_service_iff.mp ⟨g, hg, htop⟩⟩
  · rintro ⟨f, hf, h⟩
    obtain ⟨g, hg, htop⟩ := evalScript_service_iff.mpr h
    refine ⟨f, g, hf, hg, htop, ?_⟩
    rw [isPayToScriptHash_service]
    rintro ⟨-, hfalse⟩
    cases hfalse

end Run

/-! ## The condition of the destination -/

/-- Whoever knows the redeem script has the output: to show it is enough, whatever it asks for. -/
theorem service_output_unguarded {crypto : Crypto} {check : Checker} {P : ServicePrefix} {scriptID : CScriptID}
    {redeemScript : Bytes} (hfits : P.Fits) (hsize : redeemScript.length ≤ MAX_SCRIPT_ELEMENT_SIZE)
    (hmatch : Matches crypto scriptID redeemScript)
    (hrefuses : ∀ f, (evalRedeemScript crypto check 0 f [redeemScript]).isOk = false) :
    verifies crypto check (pushVch redeemScript) (P.script ++ setDestination (.scriptID scriptID)) = true ∧
      redeemSucceeds crypto check (pushVch redeemScript) = false := by
  have hlen : redeemScript.length < 2 ^ 32 := Nat.lt_of_le_of_lt hsize (by decide)
  have hscript := length_pushVch_le redeemScript
  have hlimit : MAX_SCRIPT_ELEMENT_SIZE = 520 := rfl
  have harity := P.arity
  have hnargs := nArgs_le P.op
  let f := Frame.start 0 [] (pushVch redeemScript)
  have heval : evalScript crypto check 0 [] (pushVch redeemScript) = .ok (f.atPc [] [redeemScript] 0) := by
    refine evalScript_ok_iff.mpr ⟨by omega, ?_, rfl⟩
    have hroom : ([] : Stack).length + 1 + f.altstack.length ≤ 1000 := by
      show 0 + 1 + 0 ≤ 1000
      decide
    rw [Frame.start_eq (List.append_nil _).symm]
    exact (exec_pushVch rfl hlen).mpr ⟨hsize, hroom, Machine.exec_end rfl⟩
  constructor
  · refine verifies_service_iff.mpr ⟨_, heval, hfits, ?_, redeemScript, [], rfl, hmatch⟩
    show 1 + P.vvch.length + 1 ≤ 1000
    omega
  · unfold redeemSucceeds
    rw [heval]
    exact hrefuses _

/-! ## An output that asks for a signature -/

namespace UnsignedSpend

/-- `Hash160` of the redeem script `OP_CHECKSIG`. -/
def redeemHash : Uint160 := 0x595e58ad3e156a9d5ea2b0bbfe88aa51cf79be17

/-- No signature verifies. -/
def crypto : Crypto where
  ripemd160 _ := 0
  sha1 _ := 0
  sha256 _ := 0
  hash160 vch := if vch = [OP_CHECKSIG] then redeemHash else 0
  hash _ := 0
  signatureHash _ _ _ _ := 0
  verify _ _ _ := false

def check : Checker := ⟨⟨SYSCOIN_TX_VERSION, [], [], 0, []⟩, 0, SCRIPT_VERIFY_P2SH, 0⟩

/-- The update of the alias `a` to the value `v`. -/
def aliasPrefix : ServicePrefix := ⟨.aliasUpdate, [[0x61], [0x76]], rfl⟩

def scriptID : CScriptID := ⟨redeemHash, by decide⟩

end UnsignedSpend

end Syscoin

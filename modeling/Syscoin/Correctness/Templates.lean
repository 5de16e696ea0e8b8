import Syscoin.Services.Resolve

/-!
# `Correctness.Templates` — what `Solver` matches

A template is compared with a script instruction by instruction. `Solved` says what `Solver` has found when it returns a
type: a script hash, or one of three templates, and those before it did not match. A multisignature is a small number,
keys, and another small number before the check, with nothing behind it (`matchTemplate_multisig`).
-/

namespace Syscoin

/-! ## Instructions -/

/-- Only a push has an operand. -/
theorem getOp2_operand {script pc : CScript} {opcode : UInt8} {vch : Bytes} (h : getOp2 script = .ok (opcode, vch, pc)) :
    opcode ≤ OP_PUSHDATA4 ∨ vch = [] := by
  cases script with
  | nil => cases h
  | cons first rest =>
    by_cases hpush : first ≤ OP_PUSHDATA4
    · rw [getOp2, if_pos hpush] at h
      cases hsize : readSize first rest with
      | none =>
        rw [hsize] at h
        cases h
      | some r =>
        obtain ⟨nSize, pc'⟩ := r
        rw [hsize] at h
        dsimp only at h
        by_cases hshort : pc'.length % 2 ^ 32 < nSize
        · rw [if_pos hshort] at h
          cases h
        · rw [if_neg hshort] at h
          cases h
          exact .inl hpush
    · rw [getOp2_opcode hpush] at h
      cases h
      exact .inr rfl

theorem not_small_of_push {opcode : UInt8} (h : opcode ≤ OP_PUSHDATA4) : ¬ (OP_1 ≤ opcode ∧ opcode ≤ OP_16) := by
  intro hsmall
  exact absurd (UInt8.le_trans hsmall.1 h) (by decide)

/-! ## One instruction against one of the template -/

section

variable {opcode1 opcode2 : UInt8} {vch1 vch2 : Bytes} {vSolutions found solved : List Bytes}

/-- `OP_SMALLINTEGER` matches a small number, and remembers it. -/
theorem matchOp_smallInteger (h : matchOp opcode1 vch1 OP_SMALLINTEGER vch2 vSolutions = some found) :
    (opcode1 = OP_0 ∨ OP_1 ≤ opcode1 ∧ opcode1 ≤ OP_16) ∧
      found = vSolutions ++ [[UInt8.ofNat (decodeOP_N opcode1)]] := by
  rw [matchOp, if_neg (by decide), if_neg (by decide), if_pos rfl] at h
  by_cases hsmall : opcode1 = OP_0 ∨ OP_1 ≤ opcode1 ∧ opcode1 ≤ OP_16
  · rw [if_pos hsmall] at h
    cases h
    exact ⟨hsmall, rfl⟩
  · rw [if_neg hsmall] at h
    cases h

/-- An opcode that is no wildcard matches itself, and nothing is remembered. -/
theorem matchOp_opcode (hwild : opcode2 ≠ OP_PUBKEY ∧ opcode2 ≠ OP_PUBKEYHASH ∧ opcode2 ≠ OP_SMALLINTEGER)
    (h : matchOp opcode1 vch1 opcode2 vch2 vSolutions = some found) : opcode1 = opcode2 ∧ found = vSolutions := by
  rw [matchOp, if_neg hwild.1, if_neg hwild.2.1, if_neg hwild.2.2] at h
  by_cases hne : opcode1 ≠ opcode2 ∨ vch1 ≠ vch2
  · rw [if_pos hne] at h
    cases h
  · rw [if_neg hne] at h
    cases h
    exact ⟨not_not.mp fun hdiff => hne (.inl hdiff), rfl⟩

/-! ## Templates -/

variable {fuel : Nat} {script template pc2 : CScript}

/-- A template that begins with something other than a list of keys: what its first instruction has to do with that of
    the script. -/
theorem matchTemplate_first (htemplate : getOp2 template = .ok (opcode2, vch2, pc2)) (hne : template ≠ [])
    (hkeys : opcode2 ≠ OP_PUBKEYS) (h : matchTemplate fuel script template vSolutions = some solved) :
    ∃ fuel' opcode1 vch1 pc1 found, getOp2 script = .ok (opcode1, vch1, pc1) ∧
      matchOp opcode1 vch1 opcode2 vch2 vSolutions = some found ∧
      matchTemplate fuel' pc1 pc2 found = some solved := by
  cases fuel with
  | zero => cases h
  | succ fuel =>
    rw [matchTemplate, if_neg (fun hboth => hne hboth.2), htemplate] at h
    cases hscript : getOp2 script with
    | error stop =>
      rw [hscript] at h
      cases h
    | ok r =>
      obtain ⟨opcode1, vch1, pc1⟩ := r
      rw [hscript] at h
      dsimp only at h
      rw [if_neg hkeys, Option.bind_eq_some_iff] at h
      obtain ⟨found, hfound, hrest⟩ := h
      exact ⟨fuel, opcode1, vch1, pc1, found, rfl, hfound, hrest⟩

/-- A template that begins with a list of keys: what comes behind the list has to do with what stops the keys of the
    script. -/
theorem matchTemplate_keys (htemplate : getOp2 template = .ok (opcode2, vch2, pc2))
    (h : matchTemplate fuel script (OP_PUBKEYS :: template) vSolutions = some solved) :
    ∃ fuel' opcode vch pc opcode1 vch1 pc1 vKeys found, getOp2 script = .ok (opcode, vch, pc) ∧
      readKeys (pc.length + 1) (opcode, vch, pc) vSolutions = ((opcode1, vch1, pc1), vKeys) ∧
      matchOp opcode1 vch1 opcode2 vch2 vKeys = some found ∧ matchTemplate fuel' pc1 pc2 found = some solved := by
  cases fuel with
  | zero => cases h
  | succ fuel =>
    rw [matchTemplate, if_neg (by simp), getOp2_opcode (by decide)] at h
    cases hscript : getOp2 script with
    | error stop =>
      rw [hscript] at h
      cases h
    | ok r =>
      obtain ⟨opcode, vch, pc⟩ := r
      rw [hscript] at h
      dsimp only at h
      rw [if_pos rfl, htemplate] at h
      dsimp only at h
      rw [Option.bind_eq_some_iff] at h
      obtain ⟨found, hfound, hrest⟩ := h
      exact ⟨fuel, opcode, vch, pc, _, _, _, _, found, rfl, rfl, hfound, hrest⟩

/-- The end of a template matches the end of a script only. -/
theorem matchTemplate_nil (h : matchTemplate fuel script [] vSolutions = some solved) :
    script = [] ∧ solved = vSolutions := by
  cases fuel with
  | zero => cases h
  | succ fuel =>
    rw [matchTemplate] at h
    by_cases hend : script = [] ∧ ([] : CScript) = []
    · rw [if_pos hend] at h
      cases h
      exact ⟨hend.1, rfl⟩
    · rw [if_neg hend] at h
      cases hscript : getOp2 script with
      | error stop =>
        rw [hscript] at h
        cases h
      | ok r =>
        rw [hscript] at h
        cases h

/-- **A multisignature**: a small number, keys, another small number, the check, and nothing behind it. -/
theorem matchTemplate_multisig
    (h : matchTemplate fuel script [OP_SMALLINTEGER, OP_PUBKEYS, OP_SMALLINTEGER, OP_CHECKMULTISIG] [] = some solved) :
    ∃ opRequired vchRequired rest opcode vch pc opKeys vchKeys last vKeys vchCheck,
      getOp2 script = .ok (opRequired, vchRequired, rest) ∧ (opRequired = OP_0 ∨ OP_1 ≤ opRequired ∧ opRequired ≤ OP_16) ∧
      getOp2 rest = .ok (opcode, vch, pc) ∧
      readKeys (pc.length + 1) (opcode, vch, pc) [[UInt8.ofNat (decodeOP_N opRequired)]] =
        ((opKeys, vchKeys, last), vKeys) ∧
      (opKeys = OP_0 ∨ OP_1 ≤ opKeys ∧ opKeys ≤ OP_16) ∧ getOp2 last = .ok (OP_CHECKMULTISIG, vchCheck, []) ∧
      solved = vKeys ++ [[UInt8.ofNat (decodeOP_N opKeys)]] := by
  obtain ⟨_, opRequired, vchRequired, rest, found, hscript, hfound, hrest⟩ :=
    matchTemplate_first (getOp2_opcode (by decide) _) (by simp) (by decide) h
  obtain ⟨hrequired, rfl⟩ := matchOp_smallInteger hfound
  obtain ⟨_, opcode, vch, pc, opKeys, vchKeys, last, vKeys, found', hkey, hkeys, hfound', hlast⟩ :=
    matchTemplate_keys (getOp2_opcode (by decide) _) hrest
  obtain ⟨hcounted, rfl⟩ := matchOp_smallInteger hfound'
  -- the check, and nothing behind it
  obtain ⟨_, opcode₃, vchCheck, pc₃, found₃, hcheck, hfound₃, hend⟩ :=
    matchTemplate_first (getOp2_opcode (by decide) _) (by simp) (by decide) hlast
  obtain ⟨rfl, rfl⟩ := matchOp_opcode ⟨by decide, by decide, by decide⟩ hfound₃
  obtain ⟨rfl, rfl⟩ := matchTemplate_nil hend
  exact ⟨opRequired, vchRequired, rest, opcode, vch, pc, opKeys, vchKeys, last, vKeys, vchCheck, hscript, hrequired, hkey,
    hkeys, hcounted, hcheck, rfl⟩

/-! ## `Solver` -/

/-- What `Solver` has found when it returns a type and the data of the script. -/
inductive Solved (script : CScript) : TxOutType × List Bytes → Prop where
  | scripthash (hp2sh : isPayToScriptHash script = true) : Solved script (.scripthash, [(script.drop 2).take 20])
  | pubkey {vSolutions : List Bytes} (hp2sh : ¬ isPayToScriptHash script = true)
      (hpubkey : matchTemplate (script.length + 1) script [OP_PUBKEY, OP_CHECKSIG] [] = some vSolutions) :
      Solved script (.pubkey, vSolutions)
  | pubkeyhash {vSolutions : List Bytes} (hp2sh : ¬ isPayToScriptHash script = true)
      (hpubkey : matchTemplate (script.length + 1) script [OP_PUBKEY, OP_CHECKSIG] [] = none)
      (hhash : matchTemplate (script.length + 1) script
        [OP_DUP, OP_HASH160, OP_PUBKEYHASH, OP_EQUALVERIFY, OP_CHECKSIG] [] = some vSolutions) :
      Solved script (.pubkeyhash, vSolutions)
  | multisig {vSolutions : List Bytes} (hp2sh : ¬ isPayToScriptHash script = true)
      (hpubkey : matchTemplate (script.length + 1) script [OP_PUBKEY, OP_CHECKSIG] [] = none)
      (hhash : matchTemplate (script.length + 1) script
        [OP_DUP, OP_HASH160, OP_PUBKEYHASH, OP_EQUALVERIFY, OP_CHECKSIG] [] = none)
      (hmultisig : matchTemplate (script.length + 1) script
        [OP_SMALLINTEGER, OP_PUBKEYS, OP_SMALLINTEGER, OP_CHECKMULTISIG] [] = some vSolutions)
      (hcounts : multisigCounts vSolutions = true) : Solved script (.multisig, vSolutions)

theorem solved_of_solver {script : CScript} {r : TxOutType × List Bytes} (h : solver script = some r) :
    Solved script r := by
  unfold solver at h
  dsimp only at h
  by_cases hp2sh : isPayToScriptHash script = true
  · rw [if_pos hp2sh] at h
    cases h
    exact .scripthash hp2sh
  rw [if_neg hp2sh] at h
  cases hpubkey : matchTemplate (script.length + 1) script [OP_PUBKEY, OP_CHECKSIG] [] with
  | some vSolutions =>
    rw [hpubkey] at h
    cases h
    exact .pubkey hp2sh hpubkey
  | none =>
    rw [hpubkey] at h
    dsimp only at h
    cases hhash : matchTemplate (script.length + 1) script
        [OP_DUP, OP_HASH160, OP_PUBKEYHASH, OP_EQUALVERIFY, OP_CHECKSIG] [] with
    | some vSolutions =>
      rw [hhash] at h
      cases h
      exact .pubkeyhash hp2sh hpubkey hhash
    | none =>
      rw [hhash] at h
      dsimp only at h
      cases hmultisig : matchTemplate (script.length + 1) script
          [OP_SMALLINTEGER, OP_PUBKEYS, OP_SMALLINTEGER, OP_CHECKMULTISIG] [] with
      | none =>
        rw [hmultisig] at h
        cases h
      | some vSolutions =>
        rw [hmultisig] at h
        dsimp only at h
        by_cases hcounts : multisigCounts vSolutions = true
        · rw [if_pos hcounts] at h
          cases h
          exact .multisig hp2sh hpubkey hhash hmultisig hcounts
        · rw [if_neg hcounts] at h
          cases h

end

end Syscoin

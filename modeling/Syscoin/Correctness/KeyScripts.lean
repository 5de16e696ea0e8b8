import Syscoin.Correctness.Combining

/-!
# `Correctness.KeyScripts` — running a script that asks for one key

`Solver` takes a script for a public key if it pushes the key and checks a signature, and for the hash of one if it
duplicates the key, compares its hash and checks a signature, whatever instruction pushes the key or the hash. Such a
script accepts a signature that strict encoding lets pass and that is valid for the key and the script
(`PubKeyScript.accepts_iff`, `PubKeyHashScript.accepts`): nothing is deleted from the script, unless the signature is the
element that is pushed there.
-/

namespace Syscoin

open Lib

/-! ## The scripts -/

/-- A script is the push of a key and the check. -/
structure PubKeyScript (script : CScript) (key : Bytes) : Prop where
  read : ∃ opcode, opcode ≤ OP_PUSHDATA4 ∧ getOp script = some (opcode, key, [OP_CHECKSIG])
  key_length : 33 ≤ key.length ∧ key.length ≤ 120

/-- A script compares the hash of a key, and checks. -/
structure PubKeyHashScript (script : CScript) (hash : Bytes) : Prop where
  read : ∃ opcode push, opcode ≤ OP_PUSHDATA4 ∧ script = OP_DUP :: OP_HASH160 :: push ∧
    getOp push = some (opcode, hash, [OP_EQUALVERIFY, OP_CHECKSIG])
  hash_length : hash.length = 20

section Solver

variable {opcode1 : UInt8} {vch1 vch2 : Bytes} {vSolutions found : List Bytes} {script : CScript}

theorem matchOp_pubKey (h : matchOp opcode1 vch1 OP_PUBKEY vch2 vSolutions = some found) :
    (33 ≤ vch1.length ∧ vch1.length ≤ 120) ∧ found = vSolutions ++ [vch1] := by
  rw [matchOp, if_pos rfl] at h
  by_cases hlength : vch1.length < 33 ∨ 120 < vch1.length
  · rw [if_pos hlength] at h
    cases h
  · rw [if_neg hlength] at h
    cases h
    exact ⟨by omega, rfl⟩

theorem matchOp_pubKeyHash (h : matchOp opcode1 vch1 OP_PUBKEYHASH vch2 vSolutions = some found) :
    vch1.length = 20 ∧ found = vSolutions ++ [vch1] := by
  rw [matchOp, if_neg (by decide), if_pos rfl] at h
  by_cases hlength : vch1.length ≠ 20
  · rw [if_pos hlength] at h
    cases h
  · rw [if_neg hlength] at h
    cases h
    exact ⟨not_not.mp hlength, rfl⟩

/-- An opcode of a template that is no wildcard, at the front of what is left of both. -/
theorem opcode_of_matchTemplate {fuel : Nat} {opcode : UInt8} {template : CScript} {solved : List Bytes}
    (hnot : ¬ opcode ≤ OP_PUSHDATA4)
    (hwild : opcode ≠ OP_PUBKEY ∧ opcode ≠ OP_PUBKEYHASH ∧ opcode ≠ OP_SMALLINTEGER ∧ opcode ≠ OP_PUBKEYS)
    (h : matchTemplate fuel script (opcode :: template) vSolutions = some solved) :
    ∃ fuel' rest, script = opcode :: rest ∧ matchTemplate fuel' rest template vSolutions = some solved := by
  obtain ⟨hkey, hhash, hsmall, hkeys⟩ := hwild
  obtain ⟨fuel', opcode', vch, rest, found, hread, hfound, hrest⟩ :=
    matchTemplate_first (getOp2_opcode hnot template) (by simp) hkeys h
  obtain ⟨rfl, rfl⟩ := matchOp_opcode ⟨hkey, hhash, hsmall⟩ hfound
  exact ⟨fuel', rest, eq_cons_of_getOp hnot (getOp_of_getOp2 hread), hrest⟩

/-- What has an operand is a push. -/
theorem push_of_operand {pc : CScript} (hread : getOp2 script = .ok (opcode1, vch1, pc)) (hpos : 0 < vch1.length) :
    opcode1 ≤ OP_PUSHDATA4 := by
  refine (getOp2_operand hread).resolve_right ?_
  rintro rfl
  exact absurd hpos (by decide)

/-- **What `Solver` takes for a public key.** -/
theorem pubKeyScript_of_solver (h : solver script = some (.pubkey, vSolutions)) :
    ∃ key, PubKeyScript script key ∧ vSolutions = [key] := by
  cases solved_of_solver h with
  | pubkey _ hpubkey =>
    obtain ⟨_, opcode, key, rest, found, hread, hfound, hrest⟩ :=
      matchTemplate_first (getOp2_opcode (by decide) _) (by simp) (by decide) hpubkey
    obtain ⟨hlength, rfl⟩ := matchOp_pubKey hfound
    obtain ⟨_, rest', rfl, hend⟩ := opcode_of_matchTemplate (by decide) (by decide) hrest
    obtain ⟨rfl, rfl⟩ := matchTemplate_nil hend
    have hpush := push_of_operand hread (by omega)
    exact ⟨key, ⟨⟨opcode, hpush, getOp_of_getOp2 hread⟩, hlength⟩, rfl⟩

/-- **What `Solver` takes for the hash of a public key.** -/
theorem pubKeyHashScript_of_solver (h : solver script = some (.pubkeyhash, vSolutions)) :
    ∃ hash, PubKeyHashScript script hash ∧ vSolutions = [hash] := by
  cases solved_of_solver h with
  | pubkeyhash _ _ hhash =>
    obtain ⟨_, rest, rfl, hrest⟩ := opcode_of_matchTemplate (by decide) (by decide) hhash
    obtain ⟨_, push, rfl, hpush⟩ := opcode_of_matchTemplate (by decide) (by decide) hrest
    obtain ⟨_, opcode, hash, rest', found, hread, hfound, hrest'⟩ :=
      matchTemplate_first (getOp2_opcode (by decide) _) (by simp) (by decide) hpush
    obtain ⟨hlength, rfl⟩ := matchOp_pubKeyHash hfound
    -- behind the hash, the comparison and the check
    obtain ⟨_, rest₂, rfl, hrest₂⟩ := opcode_of_matchTemplate (by decide) (by decide) hrest'
    obtain ⟨_, rest₃, rfl, hend⟩ := opcode_of_matchTemplate (by decide) (by decide) hrest₂
    obtain ⟨rfl, rfl⟩ := matchTemplate_nil hend
    have hopcode := push_of_operand hread (by omega)
    exact ⟨hash, ⟨⟨opcode, push, hopcode, rfl, getOp_of_getOp2 hread⟩, hlength⟩, rfl⟩

end Solver

/-! ## The instructions -/

section Run

variable {crypto : Crypto} {check : Checker} {f g : Frame}

theorem exec_dup {vch : Bytes} {pc : CScript} {rest : Stack} {n : Nat} (hvf : f.vfExec = []) (hops : n + 1 ≤ 201) :
    (interpreter crypto check).exec (f.atPc (OP_DUP :: pc) (vch :: rest) n) = .ok g ↔
      rest.length + 2 + f.altstack.length ≤ 1000 ∧
        (interpreter crypto check).exec (f.atPc pc (vch :: vch :: rest) (n + 1)) = .ok g := by
  have hdup : stackOp crypto OP_DUP (vch :: rest) = .ok (vch :: vch :: rest) := rfl
  rw [exec_plain hvf (by decide) (by decide) fun f => execute_plain (by decide), hdup, if_pos (by decide)]
  constructor
  · rintro ⟨-, stack', hstack, hroom, hexec⟩
    cases hstack
    exact ⟨hroom, hexec⟩
  · rintro ⟨hroom, hexec⟩
    exact ⟨by omega, _, rfl, hroom, hexec⟩

/-- The comparison of two elements that are the same. -/
theorem exec_equalVerify {vch : Bytes} {pc : CScript} {rest : Stack} {n : Nat} (hvf : f.vfExec = [])
    (hroom : rest.length + f.altstack.length ≤ 1000) (hops : n + 1 ≤ 201) :
    (interpreter crypto check).exec (f.atPc (OP_EQUALVERIFY :: pc) (vch :: vch :: rest) n) = .ok g ↔
      (interpreter crypto check).exec (f.atPc pc rest (n + 1)) = .ok g := by
  have hequal : stackOp crypto OP_EQUALVERIFY (vch :: vch :: rest) = .ok rest := by
    show verified true (decide (vch = vch)) (vchBool (decide (vch = vch)) :: rest) = .ok rest
    simp only [decide_true]
    rfl
  rw [exec_plain hvf (by decide) (by decide) fun f => execute_plain (by decide), hequal, if_pos (by decide)]
  constructor
  · rintro ⟨-, stack', hstack, -, hexec⟩
    cases hstack
    exact hexec
  · intro hexec
    exact ⟨by omega, _, rfl, hroom, hexec⟩

/-- The check of one signature. -/
theorem opCheckSig_eq (crypto : Crypto) (check : Checker) {vchSig vchPubKey : Bytes} {rest : Stack}
    (hstack : f.stack = vchPubKey :: vchSig :: rest) :
    ∃ n, opCheckSig crypto check false f = .ok { f with
      nCheckSig := n
      stack := vchBool (checkPair crypto check vchSig vchPubKey
        (findAndDelete (pushVch vchSig) f.pbegincodehash)).1 :: rest } := by
  obtain ⟨fSuccess, n, hpair⟩ : ∃ fSuccess n, checkPair crypto check vchSig vchPubKey
      (findAndDelete (pushVch vchSig) f.pbegincodehash) = (fSuccess, n) := ⟨_, _, rfl⟩
  have hsig : stacktop (vchPubKey :: vchSig :: rest) 2 = .ok vchSig := rfl
  have hkey : stacktop (vchPubKey :: vchSig :: rest) 1 = .ok vchPubKey := rfl
  have hpop : popMany 2 (vchPubKey :: vchSig :: rest) = .ok rest := rfl
  refine ⟨f.nCheckSig + n, ?_⟩
  unfold opCheckSig
  rw [hstack, stay_bind (atLeast_eq (by simp)), stay_bind hsig, stay_bind hkey]
  dsimp only
  rw [hpair]
  dsimp only
  rw [stay_bind hpop]
  rfl

/-- The check at the end of a script. -/
theorem exec_checkSig (crypto : Crypto) (check : Checker) {vchSig vchPubKey : Bytes} {rest : Stack} {n : Nat} (hvf : f.vfExec = [])
    (hops : n + 1 ≤ 201) (hroom : rest.length + 1 + f.altstack.length ≤ 1000) :
    ∃ g, (interpreter crypto check).exec (f.atPc [OP_CHECKSIG] (vchPubKey :: vchSig :: rest) n) = .ok g ∧ g.vfExec = [] ∧
      g.stack = vchBool (checkPair crypto check vchSig vchPubKey
        (findAndDelete (pushVch vchSig) f.pbegincodehash)).1 :: rest := by
  have hop : getOp [OP_CHECKSIG] = some (OP_CHECKSIG, [], []) := getOp_opcode (by decide) []
  let f' := f.atPc [] (vchPubKey :: vchSig :: rest) (n + 1)
  have hstack : f'.stack = vchPubKey :: vchSig :: rest := rfl
  obtain ⟨k, heq⟩ := opCheckSig_eq crypto check hstack
  -- outside conditionals the switch carries the check out
  have hperform : perform crypto check OP_CHECKSIG [] f' = opCheckSig crypto check false f' := by
    have hexec : f'.vfExec.all (· = true) = true := by
      show f.vfExec.all (· = true) = true
      rw [hvf]
      rfl
    unfold perform
    dsimp only
    rw [hexec, if_neg (by decide), if_pos (.inl rfl)]
    rfl
  let g : Frame := { f' with
    nCheckSig := k
    stack := vchBool (checkPair crypto check vchSig vchPubKey
      (findAndDelete (pushVch vchSig) f.pbegincodehash)).1 :: rest }
  have hstep : step crypto check (f.atPc [OP_CHECKSIG] (vchPubKey :: vchSig :: rest) n) = .ok g := by
    refine (step_ok_iff hop).mpr ⟨Nat.zero_le _, fun hlimit => ?_, by decide, ?_, ?_⟩
    · have hlt : 201 < n + 1 := hlimit.2
      omega
    · rw [if_pos (by decide)]
      exact hperform.trans heq
    · exact hroom
  refine ⟨g, ?_, hvf, rfl⟩
  exact (Machine.exec_ok_iff (Nat.zero_lt_of_lt (getOp_length hop))).mpr ⟨g, hstep, Machine.exec_end rfl⟩

end Run

/-! ## The scripts run -/

section

variable {crypto : Crypto} {check : Checker} {script : CScript} {key hash vchSig : Bytes}

theorem PubKeyScript.length_le (h : PubKeyScript script key) : script.length ≤ 10000 := by
  obtain ⟨opcode, -, hread⟩ := h.read
  have hle := length_le_of_getOp hread
  have hkey := h.key_length.2
  rw [List.length_singleton] at hle
  omega

theorem PubKeyHashScript.length_le (h : PubKeyHashScript script hash) : script.length ≤ 10000 := by
  obtain ⟨opcode, push, -, rfl, hread⟩ := h.read
  have hle := length_le_of_getOp hread
  have hhash := h.hash_length
  simp only [List.length_cons, List.length_nil] at hle ⊢
  omega

/-- What is not the key is not pushed. -/
theorem PubKeyScript.unpushed (h : PubKeyScript script key) (hne : vchSig ≠ key) : Unpushed vchSig script := by
  obtain ⟨opcode, -, hread⟩ := h.read
  exact .cons hread (fun _ => hne) (.opcode (by decide) .nil)

/-- What is not the hash is not pushed. -/
theorem PubKeyHashScript.unpushed (h : PubKeyHashScript script hash) (hne : vchSig ≠ hash) : Unpushed vchSig script := by
  obtain ⟨opcode, push, -, rfl, hread⟩ := h.read
  refine .opcode (by decide) (.opcode (by decide) (.cons hread (fun _ => hne) ?_))
  exact .opcode (by decide) (.opcode (by decide) .nil)

/-- **A signature for the key is accepted.** -/
theorem PubKeyScript.accepts (h : PubKeyScript script key) (hlength : vchSig.length < 2 ^ 32) (hne : vchSig ≠ key)
    (hpair : (checkPair crypto check vchSig key script).1 = true) : Accepts crypto check script [vchSig] := by
  obtain ⟨opcode, hpush, hread⟩ := h.read
  have hkey := h.key_length.2
  have hlimit : MAX_SCRIPT_ELEMENT_SIZE = 520 := rfl
  let start := Frame.start 0 [vchSig] script
  have hroom : ∀ n, n ≤ 1000 → n + start.altstack.length ≤ 1000 := fun n hn => hn
  obtain ⟨g, hexec, hvf, hstack⟩ := exec_checkSig crypto check (rfl : start.vfExec = []) (by decide : 0 + 1 ≤ 201)
    (hroom (([] : Stack).length + 1) (by simp))
  refine ⟨g, evalScript_ok_iff.mpr ⟨h.length_le, ?_, hvf⟩, ?_⟩
  · rw [Frame.start_eq rfl]
    refine (exec_getOp_push rfl hread hpush).mpr ⟨by omega, ?_, hexec⟩
    show 1 + 1 + 0 ≤ 1000
    decide
  · have hcode : findAndDelete (pushVch vchSig) start.pbegincodehash = script :=
      (h.unpushed hne).findAndDelete_eq hlength
    rw [hstack, topIsTrue_vchBool, hcode]
    exact hpair

/-- **A signature and the key with the hash are accepted.** -/
theorem PubKeyHashScript.accepts (h : PubKeyHashScript script hash) (hhash : toLE 20 (crypto.hash160 key) = hash)
    (hlength : vchSig.length < 2 ^ 32) (hne : vchSig ≠ hash)
    (hpair : (checkPair crypto check vchSig key script).1 = true) : Accepts crypto check script [key, vchSig] := by
  obtain ⟨opcode, push, hpush, hparts, hread⟩ := h.read
  have hlen := h.hash_length
  have hlimit : MAX_SCRIPT_ELEMENT_SIZE = 520 := rfl
  let start := Frame.start 0 [key, vchSig] script
  have hvf : start.vfExec = [] := rfl
  have hroom : ∀ n, n ≤ 1000 → n + start.altstack.length ≤ 1000 := fun n hn => hn
  obtain ⟨g, hexec, hvf', hstack⟩ := exec_checkSig crypto check hvf (by decide : 0 + 1 + 1 + 1 + 1 ≤ 201)
    (hroom (([] : Stack).length + 1) (by simp))
  refine ⟨g, evalScript_ok_iff.mpr ⟨h.length_le, ?_, hvf'⟩, ?_⟩
  · -- the key is duplicated, hashed and compared
    rw [Frame.start_eq hparts]
    refine (exec_dup hvf (by decide)).mpr ⟨hroom _ (by simp), ?_⟩
    refine (exec_hash160 hvf (by decide)).mpr ⟨key, [key, vchSig], rfl, hroom _ (by simp), ?_⟩
    refine (exec_getOp_push hvf hread hpush).mpr ⟨by omega, hroom _ (by simp), ?_⟩
    rw [hhash]
    exact (exec_equalVerify hvf (hroom _ (by simp)) (by decide)).mpr hexec
  · have hcode : findAndDelete (pushVch vchSig) start.pbegincodehash = script :=
      (h.unpushed hne).findAndDelete_eq hlength
    rw [hstack, topIsTrue_vchBool, hcode]
    exact hpair

end

end Syscoin

import Syscoin.Correctness.MultiSig
import Syscoin.Correctness.NameOutputs
import Syscoin.Correctness.SigOpCount

/-!
# `Correctness.MultiSigScript` — running a multisignature script

A script that `Solver` takes for a multisignature is a small number, keys, the number of the keys and
`OP_CHECKMULTISIG` (`multiSigScript_of_solver`), and it is short. On as many elements as it requires, and one more, it runs
to its end and leaves one truth value: whether the elements are signatures for keys in the order of the keys
(`evalScript_multiSig`).
-/

namespace Syscoin

open Lib List

/-! ## The script -/

/-- A script is a small number, pushes of keys, the number of the keys and the check. -/
structure MultiSigScript (script : CScript) (opRequired : UInt8) (keys : List Bytes) (pushes : CScript)
    (opKeys : UInt8) : Prop where
  parts : script = opRequired :: (pushes ++ [opKeys, OP_CHECKMULTISIG])
  pushed : Pushes keys pushes
  required : OP_1 ≤ opRequired ∧ opRequired ≤ OP_16
  counted : OP_1 ≤ opKeys ∧ opKeys ≤ OP_16
  count : decodeOP_N opKeys = keys.length
  required_le : decodeOP_N opRequired ≤ keys.length
  key_length : ∀ key ∈ keys, 33 ≤ key.length ∧ key.length ≤ 120

/-- The keys that are read are pushed, one after the other. -/
theorem pushes_of_readKeys {fuel : Nat} {opcode opcode' : UInt8} {vch vch' : Bytes} {pc pc' script : CScript}
    {vSolutions vSolutions' : List Bytes} (hfirst : getOp script = some (opcode, vch, pc))
    (hkeys : readKeys fuel (opcode, vch, pc) vSolutions = ((opcode', vch', pc'), vSolutions'))
    (hvalid : opcode' ≠ OP_INVALIDOPCODE) :
    ∃ keys pushes rest, vSolutions' = vSolutions ++ keys ∧ Pushes keys pushes ∧ script = pushes ++ rest ∧
      getOp rest = some (opcode', vch', pc') ∧ ∀ key ∈ keys, 33 ≤ key.length ∧ key.length ≤ 120 := by
  induction fuel generalizing opcode vch pc script vSolutions with
  | zero =>
    cases hkeys
    exact ⟨[], [], script, (List.append_nil _).symm, .nil, rfl, hfirst, by simp⟩
  | succ fuel ih =>
    rw [readKeys] at hkeys
    by_cases hkey : 33 ≤ vch.length ∧ vch.length ≤ 120
    · rw [if_pos hkey] at hkeys
      cases hnext : getOp2 pc with
      | error stop =>
        rw [hnext] at hkeys
        cases hkeys
        exact absurd rfl hvalid
      | ok r =>
        obtain ⟨opcode₁, vch₁, pc₁⟩ := r
        rw [hnext] at hkeys
        obtain ⟨keys, pushes, rest, hsolved, hpushes, rfl, hop, hlengths⟩ := ih (getOp_of_getOp2 hnext) hkeys
        obtain ⟨head, -, hscript, hempty, hlocal⟩ := getOp_split hfirst
        have hpush : opcode ≤ OP_PUSHDATA4 := by
          by_contra hno
          have hnil := List.append_eq_nil_iff.mp (hempty hno)
          rw [hnil.2] at hkey
          exact absurd hkey.1 (by decide)
        refine ⟨vch :: keys, opcode :: (head ++ vch) ++ pushes, rest, ?_, .cons hpush ?_ hpushes, ?_, hop, ?_⟩
        · rw [hsolved, List.append_assoc, List.singleton_append]
        · intro pc'
          rw [List.cons_append, List.append_assoc]
          exact hlocal pc'
        · rw [hscript]
          simp
        · exact List.forall_mem_cons.mpr ⟨hkey, hlengths⟩
    · rw [if_neg hkey] at hkeys
      cases hkeys
      exact ⟨[], [], script, (List.append_nil _).symm, .nil, rfl, hfirst, by simp⟩

/-- A script that matches the template has the parts, but for what the counts say. -/
theorem parts_of_matchTemplate {fuel : Nat} {script : CScript} {vSolutions : List Bytes}
    (h : matchTemplate fuel script [OP_SMALLINTEGER, OP_PUBKEYS, OP_SMALLINTEGER, OP_CHECKMULTISIG] [] =
      some vSolutions) :
    ∃ opRequired keys pushes opKeys vchRequired vchKeys rest rest', getOp script = some (opRequired, vchRequired, rest) ∧
      rest = pushes ++ rest' ∧ getOp rest' = some (opKeys, vchKeys, [OP_CHECKMULTISIG]) ∧ Pushes keys pushes ∧
      (opRequired = OP_0 ∨ OP_1 ≤ opRequired ∧ opRequired ≤ OP_16) ∧ (opKeys = OP_0 ∨ OP_1 ≤ opKeys ∧ opKeys ≤ OP_16) ∧
      vSolutions = [UInt8.ofNat (decodeOP_N opRequired)] :: (keys ++ [[UInt8.ofNat (decodeOP_N opKeys)]]) ∧
      ∀ key ∈ keys, 33 ≤ key.length ∧ key.length ≤ 120 := by
  obtain ⟨opRequired, vchRequired, rest, opcode, vch, pc, opKeys, vchKeys, last, vKeys, vchCheck, hscript, hrequired, hkey,
    hkeys, hcounted, hcheck, rfl⟩ := matchTemplate_multisig h
  have hvalid : opKeys ≠ OP_INVALIDOPCODE := by
    rintro rfl
    exact absurd hcounted (by decide)
  obtain ⟨keys, pushes, rest', hsolved, hpushes, hsplit, hop, hlengths⟩ :=
    pushes_of_readKeys (getOp_of_getOp2 hkey) hkeys hvalid
  have hlast := eq_cons_of_getOp (by decide) (getOp_of_getOp2 hcheck)
  refine ⟨opRequired, keys, pushes, opKeys, vchRequired, vchKeys, rest, rest', getOp_of_getOp2 hscript, hsplit, ?_,
    hpushes, hrequired, hcounted, ?_, hlengths⟩
  · rw [hop, hlast]
  · rw [hsolved]
    rfl

/-- **What `Solver` takes for a multisignature.** -/
theorem multiSigScript_of_solver {script : CScript} {vSolutions : List Bytes}
    (h : solver script = some (.multisig, vSolutions)) :
    ∃ opRequired keys pushes opKeys, MultiSigScript script opRequired keys pushes opKeys ∧
      vSolutions = [UInt8.ofNat (decodeOP_N opRequired)] :: (keys ++ [[UInt8.ofNat (decodeOP_N opKeys)]]) := by
  cases solved_of_solver h with
  | multisig _ _ _ hscan hcounts =>
    obtain ⟨opRequired, keys, pushes, opKeys, vchRequired, vchKeys, rest, rest', hscript, rfl, hop, hpushes,
      hrequired, hcounted, rfl, hlengths⟩ := parts_of_matchTemplate hscan
    have hsmall : ∀ {opcode : UInt8}, OP_1 ≤ opcode ∧ opcode ≤ OP_16 →
        (UInt8.ofNat (decodeOP_N opcode)).toNat = decodeOP_N opcode := by
      intro opcode hopcode
      have hle := (decodeOP_N_bounds hopcode.1 hopcode.2).2
      exact UInt8.toNat_ofNat_of_lt' (by omega : decodeOP_N opcode < 256)
    have hzero : decodeOP_N OP_0 = 0 := rfl
    have hlast : ([UInt8.ofNat (decodeOP_N opRequired)] ::
        (keys ++ [[UInt8.ofNat (decodeOP_N opKeys)]])).getLast? = some [UInt8.ofNat (decodeOP_N opKeys)] := by
      rw [← List.cons_append, List.getLast?_concat]
    unfold multisigCounts at hcounts
    simp only [hlast, List.head?_cons, Option.getD_some, List.length_cons, List.length_append, List.length_nil,
      decide_eq_true_eq] at hcounts
    -- the counts exclude `OP_0`
    have hrequired' : OP_1 ≤ opRequired ∧ opRequired ≤ OP_16 := by
      refine hrequired.resolve_left ?_
      rintro rfl
      simp [hzero] at hcounts
    have hcounted' : OP_1 ≤ opKeys ∧ opKeys ≤ OP_16 := by
      refine hcounted.resolve_left ?_
      rintro rfl
      simp [hzero] at hcounts
    rw [hsmall hrequired', hsmall hcounted'] at hcounts
    refine ⟨opRequired, keys, pushes, opKeys, ⟨?_, hpushes, hrequired', hcounted', by omega, by omega, hlengths⟩, rfl⟩
    rw [eq_cons_of_getOp (fun hpush => not_small_of_push hpush hrequired') hscript,
      eq_cons_of_getOp (fun hpush => not_small_of_push hpush hcounted') hop]

/-- Such a script is short. -/
theorem MultiSigScript.length_le {script pushes : CScript} {opRequired opKeys : UInt8} {keys : List Bytes}
    (h : MultiSigScript script opRequired keys pushes opKeys) : script.length ≤ 10000 := by
  have hle := h.pushed.length_le fun key hkey => (h.key_length key hkey).2.trans (by decide)
  have hcount := (decodeOP_N_bounds h.counted.1 h.counted.2).2
  have hkeys := h.count
  rw [h.parts, List.length_cons, List.length_append, List.length_cons, List.length_singleton]
  omega

/-! ## The run -/

/-- The number on a stack, wherever it lies. -/
theorem intAt_append {n i : Nat} (hpos : 0 < n) (hlt : n < 128) (top rest : Stack) (hi : i = top.length + 1) :
    intAt (top ++ CBigNum.getvch n :: rest) i = .ok n := by
  have hsame : intAt (top ++ CBigNum.getvch n :: rest) i = intAt (CBigNum.getvch n :: rest) 1 := by
    unfold intAt stacktop
    rw [hi, Nat.add_sub_cancel, List.getElem?_append_right (Nat.le_refl _), Nat.sub_self]
  rw [hsame]
  exact intAt_smallInteger hpos hlt rest

/-- The check at the end of a script. -/
theorem exec_checkMultiSig (crypto : Crypto) (check : Checker) {f : Frame} {stack : Stack} {n nKeysCount nSigsCount : Nat} (hvf : f.vfExec = [])
    (args : MultiSigArgs (f.atPc [] stack (n + 1)) nKeysCount nSigsCount)
    (hroom : stack.length + f.altstack.length ≤ 1000) :
    ∃ g, (interpreter crypto check).exec (f.atPc [OP_CHECKMULTISIG] stack n) = .ok g ∧ g.vfExec = [] ∧
      g.stack = vchBool (multiSigFound crypto check (f.atPc [] stack (n + 1)) nKeysCount nSigsCount) ::
        stack.drop (nSigsCount + nKeysCount + 3) := by
  obtain ⟨k, heq⟩ := opCheckMultiSig_eq crypto check args
  have hop : getOp [OP_CHECKMULTISIG] = some (OP_CHECKMULTISIG, [], []) := getOp_opcode (by decide) []
  have hops : n + 1 ≤ 201 := (Nat.le_add_right _ _).trans args.ops
  have hsize := args.size_sigs
  have hstack : (f.atPc [] stack (n + 1)).stack = stack := rfl
  rw [hstack] at hsize
  -- outside conditionals the switch carries the check out
  have hperform : perform crypto check OP_CHECKMULTISIG [] (f.atPc [] stack (n + 1)) =
      opCheckMultiSig crypto check false (f.atPc [] stack (n + 1)) := by
    have hexec : (f.atPc [] stack (n + 1)).vfExec.all (· = true) = true := by
      show f.vfExec.all (· = true) = true
      rw [hvf]
      rfl
    unfold perform
    dsimp only
    rw [hexec, if_neg (by decide), if_pos (.inl rfl)]
    rfl
  let g : Frame := { f.atPc [] stack (n + 1) with
    nOpCount := n + 1 + nKeysCount
    nCheckSig := k
    stack := vchBool (multiSigFound crypto check (f.atPc [] stack (n + 1)) nKeysCount nSigsCount) ::
      stack.drop (nSigsCount + nKeysCount + 3) }
  have hstep : step crypto check (f.atPc [OP_CHECKMULTISIG] stack n) = .ok g := by
    refine (step_ok_iff hop).mpr ⟨Nat.zero_le _, fun hlimit => ?_, by decide, ?_, ?_⟩
    · have hlt : 201 < n + 1 := hlimit.2
      omega
    · rw [if_pos (by decide)]
      exact hperform.trans heq
    · show (stack.drop (nSigsCount + nKeysCount + 3)).length + 1 + f.altstack.length ≤ 1000
      rw [List.length_drop]
      omega
  refine ⟨g, ?_, hvf, rfl⟩
  exact (Machine.exec_ok_iff (Nat.zero_lt_of_lt (getOp_length hop))).mpr ⟨g, hstep, Machine.exec_end rfl⟩

/-- **A multisignature script on what it requires.** It runs to its end, and leaves whether the signatures are for keys in
    the order of the keys. -/
theorem evalScript_multiSig (crypto : Crypto) (check : Checker) {script pushes : CScript} {opRequired opKeys : UInt8} {keys sigs : List Bytes}
    (hscript : MultiSigScript script opRequired keys pushes opKeys) (hsigs : sigs.length = decodeOP_N opRequired)
    (nCheckSig : Nat) (dummy : Bytes) :
    ∃ g fSuccess, evalScript crypto check nCheckSig (sigs.reverse ++ [dummy]) script = .ok g ∧
      g.stack = [vchBool fSuccess] ∧
      (fSuccess = true ↔ SublistForall₂ (fun vchSig vchPubKey => (checkPair crypto check vchSig vchPubKey
        (sigs.reverse.foldl (fun scriptCode vchSig => findAndDelete (pushVch vchSig) scriptCode) script)).1 = true)
        sigs keys) := by
  obtain ⟨hrequiredPos, hrequiredLe⟩ := decodeOP_N_bounds hscript.required.1 hscript.required.2
  obtain ⟨hkeysPos, hkeysLe⟩ := decodeOP_N_bounds hscript.counted.1 hscript.counted.2
  have hcount := hscript.count
  have hle := hscript.required_le
  let start := Frame.start nCheckSig (sigs.reverse ++ [dummy]) script
  let below : Stack := sigs.reverse ++ [dummy]
  let stack : Stack :=
    (CBigNum.getvch (decodeOP_N opKeys) :: keys.reverse) ++ CBigNum.getvch (decodeOP_N opRequired) :: below
  have hbelow : below.length = decodeOP_N opRequired + 1 := by simp [below, hsigs]
  have hstack : stack.length = keys.length + decodeOP_N opRequired + 3 := by
    simp [stack, hbelow]
    omega
  have hvf : start.vfExec = [] := rfl
  have hdrop : stack.drop (2 + keys.length) = below := by
    have hassoc : stack =
        (CBigNum.getvch (decodeOP_N opKeys) :: keys.reverse ++ [CBigNum.getvch (decodeOP_N opRequired)]) ++ below := by
      simp [stack]
    rw [hassoc]
    refine List.drop_left' ?_
    simp
    omega
  have args : MultiSigArgs (start.atPc [] stack (0 + 1)) keys.length (decodeOP_N opRequired) := by
    refine ⟨?_, ?_, by omega, ?_, ?_, ?_, hle, ?_⟩
    · show 1 ≤ stack.length
      omega
    · show intAt stack 1 = _
      rw [← hcount]
      exact intAt_smallInteger hkeysPos (by omega) _
    · show 0 + 1 + keys.length ≤ 201
      omega
    · show 2 + keys.length ≤ stack.length
      omega
    · refine intAt_append hrequiredPos (by omega) _ below ?_
      simp
      omega
    · show 3 + keys.length + decodeOP_N opRequired ≤ stack.length
      omega
  obtain ⟨g, hexec, hvfg, hg⟩ := exec_checkMultiSig crypto check hvf args (by
    show stack.length + 0 ≤ 1000
    omega)
  rw [List.drop_eq_nil_of_le (by omega)] at hg
  refine ⟨g, _, evalScript_ok_iff.mpr ⟨hscript.length_le, ?_, hvfg⟩, hg, ?_⟩
  · -- the number, the keys, their number and the check
    rw [Frame.start_eq hscript.parts]
    refine (exec_smallInteger hvf hscript.required.1 hscript.required.2).mpr ⟨?_, ?_⟩
    · show below.length + 1 + 0 ≤ 1000
      omega
    · refine (exec_pushes hvf hscript.pushed ?_).mpr ⟨fun key hkey => (hscript.key_length key hkey).2.trans (by decide),
        ?_, ?_⟩
      · show below.length + 1 + 0 ≤ 1000
        omega
      · show below.length + 1 + keys.length + 0 ≤ 1000
        omega
      · refine (exec_smallInteger hvf hscript.counted.1 hscript.counted.2).mpr ⟨?_, hexec⟩
        simp [start, Frame.start]
        omega
  · have hkeys : stack.keys keys.length = keys := by
      unfold Stack.keys
      rw [List.drop_one]
      simp only [stack, List.cons_append, List.tail_cons]
      rw [List.take_left' (List.length_reverse), List.reverse_reverse]
    have hsigs' : stack.sigs keys.length (decodeOP_N opRequired) = sigs := by
      unfold Stack.sigs
      rw [hdrop, List.take_left' (by rw [List.length_reverse, hsigs]), List.reverse_reverse]
    unfold multiSigFound multiSigCode
    show greedy _ (stack.sigs keys.length (decodeOP_N opRequired)).reverse (stack.keys keys.length).reverse = true ↔ _
    rw [hkeys, greedy_iff, sublistForall₂_reverse_iff]
    show SublistForall₂ (fun vchSig vchPubKey => (checkPair crypto check vchSig vchPubKey
      ((stack.sigs keys.length (decodeOP_N opRequired)).reverse.foldl _ script)).1 = true) _ _ ↔ _
    rw [hsigs']

end Syscoin

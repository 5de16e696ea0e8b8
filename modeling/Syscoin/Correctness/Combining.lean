import Syscoin.Correctness.MultiSigScript
import Syscoin.Correctness.ServiceOutputs
import Syscoin.Wallet.Combine

/-!
# `Correctness.Combining` — combining partial multisignatures

Two lists of signatures are pooled, so what comes out depends on the set of the signatures alone. Each key gets the least
signature that is valid for it, and the first keys that got one are enough for the script iff there are as many as it
requires. The signatures that were chosen choose the same ones again, from any part of the pool that still has them.

Behind a script hash the script itself lies on top of both lists, and the same holds for what is below it. A list that is
empty is another matter: then the other one is passed on as it is, in whatever order its signatures are.
-/

namespace Syscoin

open Lib List

/-! ## The pool -/

theorem mem_allSigs {sigs1 sigs2 : Stack} {sig : Bytes} :
    sig ∈ allSigs sigs1 sigs2 ↔ (sig ∈ sigs1 ∨ sig ∈ sigs2) ∧ sig ≠ [] := by
  unfold allSigs
  rw [Finset.mem_sort, List.mem_toFinset, List.mem_filter, List.mem_append, decide_eq_true_iff]

theorem allSigs_comm (sigs1 sigs2 : Stack) : allSigs sigs1 sigs2 = allSigs sigs2 sigs1 := by
  unfold allSigs
  rw [List.filter_append, List.toFinset_append, Finset.union_comm, ← List.toFinset_append, ← List.filter_append]

/-- The first signatures that are required, and placeholders for what is missing; the element too many lies below. -/
def signatureStack (nSigsRequired : Nat) (sigs : List Bytes) : Stack :=
  (sigs ++ List.replicate (nSigsRequired - sigs.length) []).reverse ++ [[]]

theorem pushAll_signatureStack (nSigsRequired : Nat) (sigs : List Bytes) :
    pushAll (signatureStack nSigsRequired sigs) =
      OP_0 :: (sigs.flatMap pushVch ++ List.replicate (nSigsRequired - sigs.length) OP_0) := by
  have hempty : pushVch [] = [OP_0] := rfl
  have hfill : ∀ n : Nat, (List.replicate n ([] : Bytes)).flatMap pushVch = List.replicate n OP_0 := by
    intro n
    induction n with
    | zero => rfl
    | succ n ih => rw [List.replicate_succ, List.flatMap_cons, ih, hempty, List.replicate_succ, List.singleton_append]
  unfold pushAll signatureStack
  rw [List.reverse_append, List.reverse_reverse, List.reverse_singleton, List.singleton_append, List.flatMap_cons, hempty,
    List.flatMap_append, hfill]
  rfl

theorem mem_signatureStack {nSigsRequired : Nat} {sigs : List Bytes} {sig : Bytes}
    (h : sig ∈ signatureStack nSigsRequired sigs) : sig = [] ∨ sig ∈ sigs := by
  unfold signatureStack at h
  simp only [List.mem_append, List.mem_reverse, List.mem_replicate, List.mem_singleton] at h
  tauto

section

variable {crypto : Crypto} {txTo : CTransaction} {nIn : Nat} {script : CScript} {vSolutions : List Bytes}
  {sigs1 sigs2 : Stack}

/-- What a key gets out of the pool. -/
def combinedSig (crypto : Crypto) (txTo : CTransaction) (nIn : Nat) (script : CScript) (pool : List Bytes)
    (key : Bytes) : Option Bytes :=
  pool.find? fun sig => checkCombined crypto txTo nIn script sig key

/-- The signatures that are written. -/
def combinedSigs (crypto : Crypto) (txTo : CTransaction) (nIn : Nat) (script : CScript) (vSolutions : List Bytes)
    (sigs1 sigs2 : Stack) : List Bytes :=
  gather (combinedSig crypto txTo nIn script (allSigs sigs1 sigs2)) (solvedKeys vSolutions) (solvedRequired vSolutions)

/-- **Every key gets the first signature that is valid for it**, if none is valid for two. -/
theorem combineMultisig_eq (hsize : 1 < vSolutions.length)
    (hone : FitsOne (checkCombined crypto txTo nIn script) (solvedKeys vSolutions) (allSigs sigs1 sigs2)) :
    combineMultisig crypto txTo nIn script vSolutions sigs1 sigs2 =
      .ok (pushAll (signatureStack (solvedRequired vSolutions)
        (combinedSigs crypto txTo nIn script vSolutions sigs1 sigs2))) := by
  unfold combineMultisig
  rw [if_pos hsize, pushAll_signatureStack]
  have hgather := gather_congr (n := solvedRequired vSolutions) fun key hkey =>
    lookup_allot (b := key) hone hkey
  dsimp only
  rw [hgather]
  rfl

theorem combinedSigs_comm (sigs1 sigs2 : Stack) :
    combinedSigs crypto txTo nIn script vSolutions sigs1 sigs2 =
      combinedSigs crypto txTo nIn script vSolutions sigs2 sigs1 := by
  unfold combinedSigs
  rw [allSigs_comm]

theorem mem_of_mem_combinedSigs {sig : Bytes} (h : sig ∈ combinedSigs crypto txTo nIn script vSolutions sigs1 sigs2) :
    sig ∈ allSigs sigs1 sigs2 := by
  obtain ⟨key, -, hkey⟩ := mem_gather h
  exact List.mem_of_find?_eq_some hkey

/-- **What was chosen is chosen again** from any part of the pool that has it. -/
theorem combinedSigs_again {sigs : Stack} {nSigsRequired : Nat} (hsigs : ∀ sig ∈ sigs, sig ∈ sigs1 ∨ sig ∈ sigs2) :
    combinedSigs crypto txTo nIn script vSolutions
        (signatureStack nSigsRequired (combinedSigs crypto txTo nIn script vSolutions sigs1 sigs2)) sigs =
      combinedSigs crypto txTo nIn script vSolutions sigs1 sigs2 := by
  generalize hchosen : combinedSigs crypto txTo nIn script vSolutions sigs1 sigs2 = chosen
  have hpart : ∀ sig ∈ allSigs (signatureStack nSigsRequired chosen) sigs, sig ∈ allSigs sigs1 sigs2 := by
    intro sig hsig
    obtain ⟨hmem, hne⟩ := mem_allSigs.mp hsig
    rcases hmem with hmem | hmem
    · rcases mem_signatureStack hmem with hempty | hmem
      · exact absurd hempty hne
      · exact mem_of_mem_combinedSigs (hchosen ▸ hmem)
    · exact mem_allSigs.mpr ⟨hsigs sig hmem, hne⟩
  have hsorted : ∀ sigs1 sigs2 : Stack, (allSigs sigs1 sigs2).Pairwise lexLE := fun _ _ => Finset.pairwise_sort _ _
  rw [← hchosen]
  refine gather_eq ?_ ?_
  · -- a key that nothing was valid for
    intro key _ hnone
    refine List.find?_eq_none.mpr fun sig hsig => ?_
    rw [hchosen] at hsig
    exact List.find?_eq_none.mp hnone sig (hpart sig hsig)
  · -- the least signature is still there, and still the least
    intro key _ sig hsig hsome
    obtain ⟨hmem, hvalid, hleast⟩ := (find?_least_iff (hsorted _ _)).mp hsome
    refine (find?_least_iff (hsorted _ _)).mpr ⟨mem_allSigs.mpr ⟨.inl ?_, (mem_allSigs.mp hmem).2⟩, hvalid, ?_⟩
    · unfold signatureStack
      rw [List.mem_append, List.mem_reverse, List.mem_append]
      exact .inl (.inl hsig)
    · intro sig' hsig' hvalid'
      rw [hchosen] at hsig'
      exact hleast sig' (hpart sig' hsig') hvalid'

end

/-- The keys and the number that `Solver` found are those of the script. -/
theorem solved_of_multisig {script : CScript} {vSolutions : List Bytes}
    (hsolver : solver script = some (.multisig, vSolutions)) :
    ∃ opRequired pushes opKeys, MultiSigScript script opRequired (solvedKeys vSolutions) pushes opKeys ∧
      solvedRequired vSolutions = decodeOP_N opRequired ∧ 1 < vSolutions.length := by
  obtain ⟨opRequired, keys, pushes, opKeys, hscript, rfl⟩ := multiSigScript_of_solver hsolver
  have hle := (decodeOP_N_bounds hscript.required.1 hscript.required.2).2
  have hkeys : solvedKeys ([UInt8.ofNat (decodeOP_N opRequired)] :: (keys ++ [[UInt8.ofNat (decodeOP_N opKeys)]])) =
      keys := by
    unfold solvedKeys
    rw [List.tail_cons, List.dropLast_concat]
  refine ⟨opRequired, pushes, opKeys, ?_, UInt8.toNat_ofNat_of_lt' (by omega : decodeOP_N opRequired < 256), by simp⟩
  rw [hkeys]
  exact hscript

/-! ## What is accepted -/

/-- `CheckSig` decides whether a signature is valid for a key, for the one who combines signatures as for the one who
    checks them, who takes some of them out of the script before. -/
structure Decides (crypto : Crypto) (check : Checker) (script : CScript) (keys : List Bytes) (pool : Stack)
    (valid : Bytes → Bytes → Bool) : Prop where
  combined : ∀ sig ∈ pool, ∀ key ∈ keys, checkCombined crypto check.txTo check.nIn script sig key = valid sig key
  checked : ∀ sigs : List Bytes, (∀ sig ∈ sigs, sig = [] ∨ sig ∈ pool) → ∀ sig ∈ pool, ∀ key ∈ keys,
    (checkPair crypto check sig key
      (sigs.foldl (fun scriptCode vchSig => findAndDelete (pushVch vchSig) scriptCode) script)).1 = valid sig key

/-- The valid signatures of both lists cover as many keys as the script requires. -/
def Covers (vSolutions : List Bytes) (valid : Bytes → Bytes → Bool) (sigs1 sigs2 : Stack) : Prop :=
  solvedRequired vSolutions ≤ (solvedKeys vSolutions).countP fun key => (sigs1 ++ sigs2).any fun sig => valid sig key

/-- A script accepts what is on the stack. -/
def Accepts (crypto : Crypto) (check : Checker) (script : CScript) (stack : Stack) : Prop :=
  ∃ g, evalScript crypto check 0 stack script = .ok g ∧ topIsTrue g.stack = true

section

variable {crypto : Crypto} {check : Checker} {script : CScript} {vSolutions : List Bytes}
  {valid : Bytes → Bytes → Bool} {sigs1 sigs2 : Stack}

/-- Nothing is no signature. -/
theorem checkSig_nil (crypto : Crypto) (check : Checker) (key : Bytes) (scriptCode : CScript) : checkSig crypto check [] key scriptCode = false := by
  unfold checkSig
  split
  · rfl
  · rfl

theorem checkPair_nil (crypto : Crypto) (check : Checker) (key : Bytes) (scriptCode : CScript) : (checkPair crypto check [] key scriptCode).1 = false := by
  unfold checkPair
  split
  · exact checkSig_nil crypto check key scriptCode
  · rfl

theorem Decides.fitsOne (h : Decides crypto check script (solvedKeys vSolutions) (sigs1 ++ sigs2) valid)
    (hone : FitsOne valid (solvedKeys vSolutions) (sigs1 ++ sigs2)) :
    FitsOne (checkCombined crypto check.txTo check.nIn script) (solvedKeys vSolutions) (allSigs sigs1 sigs2) := by
  intro sig hsig key hkey key' hkey' hvalid hvalid'
  have hmem : sig ∈ sigs1 ++ sigs2 := List.mem_append.mpr (mem_allSigs.mp hsig).1
  rw [h.combined sig hmem key hkey] at hvalid
  rw [h.combined sig hmem key' hkey'] at hvalid'
  exact hone sig hmem key hkey key' hkey' hvalid hvalid'

/-- As many signatures are written as keys are covered, up to what is required. -/
theorem Decides.length_combinedSigs
    (h : Decides crypto check script (solvedKeys vSolutions) (sigs1 ++ sigs2) valid) :
    (combinedSigs crypto check.txTo check.nIn script vSolutions sigs1 sigs2).length = min (solvedRequired vSolutions)
      ((solvedKeys vSolutions).countP fun key => (sigs1 ++ sigs2).any fun sig => valid sig key) := by
  unfold combinedSigs
  rw [length_gather]
  refine congrArg (min _) (List.countP_congr fun key hkey => ?_)
  unfold combinedSig
  rw [List.find?_isSome, List.any_eq_true]
  constructor
  · rintro ⟨sig, hsig, hvalid⟩
    have hmem : sig ∈ sigs1 ++ sigs2 := List.mem_append.mpr (mem_allSigs.mp hsig).1
    exact ⟨sig, hmem, (h.combined sig hmem key hkey).symm.trans hvalid⟩
  · rintro ⟨sig, hmem, hvalid⟩
    have hcombined := (h.combined sig hmem key hkey).trans hvalid
    refine ⟨sig, mem_allSigs.mpr ⟨List.mem_append.mp hmem, ?_⟩, hcombined⟩
    -- a placeholder is not valid
    rintro rfl
    unfold checkCombined at hcombined
    rw [checkSig_nil] at hcombined
    cases hcombined

/-- **The check finds enough signatures iff enough keys are covered.** -/
theorem Decides.evalScript_combined (hsolver : solver script = some (.multisig, vSolutions))
    (h : Decides crypto check script (solvedKeys vSolutions) (sigs1 ++ sigs2) valid) (nCheckSig : Nat) :
    ∃ g fSuccess, evalScript crypto check nCheckSig (signatureStack (solvedRequired vSolutions)
        (combinedSigs crypto check.txTo check.nIn script vSolutions sigs1 sigs2)) script = .ok g ∧
      g.stack = [vchBool fSuccess] ∧ (fSuccess = true ↔ Covers vSolutions valid sigs1 sigs2) := by
  have hlength := h.length_combinedSigs
  generalize hchosen : combinedSigs crypto check.txTo check.nIn script vSolutions sigs1 sigs2 = chosen at hlength ⊢
  obtain ⟨opRequired, pushes, opKeys, hscript, hrequired, -⟩ := solved_of_multisig hsolver
  have hsigs : (chosen ++ List.replicate (solvedRequired vSolutions - chosen.length) []).length =
      decodeOP_N opRequired := by
    rw [List.length_append, List.length_replicate, ← hrequired]
    omega
  obtain ⟨g, fSuccess, heval, hstack, hiff⟩ :=
    evalScript_multiSig crypto check hscript hsigs nCheckSig []
  refine ⟨g, fSuccess, heval, hstack, hiff.trans ?_⟩
  constructor
  · -- with a placeholder among them the signatures do not pass
    intro hfits
    by_contra hcovers
    have hempty : ([] : Bytes) ∈ chosen ++ List.replicate (solvedRequired vSolutions - chosen.length) [] := by
      unfold Covers at hcovers
      rw [List.mem_append, List.mem_replicate]
      exact .inr ⟨by omega, rfl⟩
    obtain ⟨key, -, hpair⟩ := exists_of_sublistForall₂ hfits hempty
    rw [checkPair_nil] at hpair
    cases hpair
  · intro hcovers
    have hfull : solvedRequired vSolutions - chosen.length = 0 := by
      unfold Covers at hcovers
      omega
    have hpool : ∀ sig ∈ chosen, sig ∈ sigs1 ++ sigs2 := fun sig hsig =>
      List.mem_append.mpr (mem_allSigs.mp (mem_of_mem_combinedSigs (hchosen ▸ hsig))).1
    rw [hfull, List.replicate_zero, List.append_nil]
    have hgather : chosen = gather (combinedSig crypto check.txTo check.nIn script (allSigs sigs1 sigs2))
        (solvedKeys vSolutions) (solvedRequired vSolutions) := hchosen.symm
    rw [hgather]
    refine gather_fits fun key hkey sig hsig => ?_
    rw [← hgather]
    have hmem := List.mem_append.mpr (mem_allSigs.mp (List.mem_of_find?_eq_some hsig)).1
    have hcombined := List.find?_some hsig
    rw [h.combined sig hmem key hkey] at hcombined
    rw [h.checked _ (fun sig hsig => .inr (hpool sig (List.mem_reverse.mp hsig))) sig hmem key hkey]
    exact hcombined

end

/-! ## When `CheckSig` is such a relation -/

section

variable {crypto : Crypto} {check : Checker} {script : CScript} {vSolutions : List Bytes}

/-- Where a push does not stand, nothing is deleted of an instruction. -/
theorem deleteLoop_of_getOp {b pc rest : CScript} {opcode : UInt8} {vch : Bytes}
    (hop : getOp pc = some (opcode, vch, rest)) (hnot : ¬ pc.take b.length = b)
    (hrest : ∀ fuel, deleteLoop b fuel rest = rest) (fuel : Nat) : deleteLoop b fuel pc = pc := by
  cases fuel with
  | zero => rfl
  | succ fuel =>
    obtain ⟨front, hfront⟩ : ∃ front, pc = front ++ rest := by
      obtain ⟨head, -, hsplit, -⟩ := getOp_split hop
      refine ⟨opcode :: (head ++ vch), ?_⟩
      rw [hsplit, List.cons_append, List.append_assoc]
    have htake : pc.take (pc.length - rest.length) = front := by
      rw [hfront, List.length_append, Nat.add_sub_cancel, List.take_left' rfl]
    rw [deleteLoop, if_neg hnot, hop]
    dsimp only
    rw [hrest, htake, hfront]

/-- A push is there if and only if its operand is pushed there. -/
theorem not_take_of_getOp {pc rest : CScript} {opcode : UInt8} {sig vch : Bytes}
    (hop : getOp pc = some (opcode, vch, rest)) (hlength : sig.length < 2 ^ 32)
    (hne : opcode ≤ OP_PUSHDATA4 → sig ≠ vch) : ¬ pc.take (pushVch sig).length = pushVch sig := by
  intro htake
  obtain ⟨opcode', hpush, hop'⟩ := getOp_pushVch hlength
  have hpc : pc = pushVch sig ++ pc.drop (pushVch sig).length :=
    (List.take_append_drop (pushVch sig).length pc).symm.trans (congrArg (· ++ _) htake)
  rw [hpc, hop'] at hop
  cases hop
  exact hne hpush rfl

/-- No instruction of a script pushes a signature. -/
inductive Unpushed (sig : Bytes) : CScript → Prop where
  | nil : Unpushed sig []
  | cons {opcode : UInt8} {vch pc rest : CScript} (hop : getOp pc = some (opcode, vch, rest))
      (hne : opcode ≤ OP_PUSHDATA4 → sig ≠ vch) (hrest : Unpushed sig rest) : Unpushed sig pc

/-- An opcode that is no push. -/
theorem Unpushed.opcode {sig rest : CScript} {opcode : UInt8} (hnot : ¬ opcode ≤ OP_PUSHDATA4)
    (hrest : Unpushed sig rest) : Unpushed sig (opcode :: rest) :=
  .cons (getOp_opcode hnot rest) (fun hpush => absurd hpush hnot) hrest

/-- **A signature that is not pushed is not deleted.** -/
theorem Unpushed.findAndDelete_eq {sig script : CScript} (h : Unpushed sig script) (hlength : sig.length < 2 ^ 32) :
    findAndDelete (pushVch sig) script = script := by
  have hloop : ∀ fuel, deleteLoop (pushVch sig) fuel script = script := by
    induction h with
    | nil =>
      intro fuel
      cases fuel with
      | zero => rfl
      | succ fuel =>
        obtain ⟨opcode, -, hop⟩ := getOp_pushVch hlength
        have hne : pushVch sig ≠ [] := by
          intro hnil
          have hread := hop []
          rw [hnil] at hread
          cases hread
        rw [deleteLoop, if_neg (by simpa using hne.symm)]
        rfl
    | cons hop hne _ ih => exact deleteLoop_of_getOp hop (not_take_of_getOp hop hlength hne) ih
  unfold findAndDelete
  split
  · rfl
  · exact hloop _

/-- **A signature that is none of the keys is not in the script.** -/
theorem findAndDelete_multiSig {opRequired opKeys : UInt8} {keys : List Bytes} {pushes : CScript} {sig : Bytes}
    (hscript : MultiSigScript script opRequired keys pushes opKeys) (hlength : sig.length < 2 ^ 32) (hsig : sig ∉ keys) :
    findAndDelete (pushVch sig) script = script := by
  have hpushes : Unpushed sig (pushes ++ [opKeys, OP_CHECKMULTISIG]) := by
    have hpushed := hscript.pushed
    have hcounted := hscript.counted
    clear hscript
    induction hpushed with
    | nil => exact .opcode (fun hpush => not_small_of_push hpush hcounted) (.opcode (by decide) .nil)
    | @cons opcode key keys push pushes hpush hop htail ih =>
      rw [List.append_assoc]
      refine .cons (hop _) ?_ (ih ?_)
      · rintro - rfl
        exact hsig List.mem_cons_self
      · exact fun hmem => hsig (List.mem_cons_of_mem _ hmem)
  have hunpushed : Unpushed sig script := by
    rw [hscript.parts]
    exact .opcode (fun hpush => not_small_of_push hpush hscript.required) hpushes
  exact hunpushed.findAndDelete_eq hlength

/-- **`CheckSig` decides** by itself, if no signature is one of the keys, and strict encoding rejects none that is valid. -/
theorem decides_checkSig {pool : Stack} (hsolver : solver script = some (.multisig, vSolutions))
    (htype : check.nHashType = 0)
    (hpool : ∀ sig ∈ pool, sig.length < 2 ^ 32 ∧ sig ∉ solvedKeys vSolutions)
    (hstrict : ∀ sig ∈ pool, ∀ key ∈ solvedKeys vSolutions,
      checkCombined crypto check.txTo check.nIn script sig key = true → check.fStrictEncodings = false ∨
        (isCanonicalSignature sig = .ok () ∧ isCanonicalPubKey key = .ok ())) :
    Decides crypto check script (solvedKeys vSolutions) pool
      (checkCombined crypto check.txTo check.nIn script) where
  combined _ _ _ _ := rfl
  checked sigs hsigs sig hsig key hkey := by
    obtain ⟨opRequired, pushes, opKeys, hscript, -, -⟩ := solved_of_multisig hsolver
    have hcode : sigs.foldl (fun scriptCode vchSig => findAndDelete (pushVch vchSig) scriptCode) script = script := by
      induction sigs with
      | nil => rfl
      | cons first sigs ih =>
        obtain ⟨hfirst, htail⟩ := List.forall_mem_cons.mp hsigs
        have hdelete : findAndDelete (pushVch first) script = script := by
          rcases hfirst with rfl | hfirst
          · refine findAndDelete_multiSig hscript (by decide) fun hmem => ?_
            exact absurd (hscript.key_length [] hmem).1 (by decide)
          · exact findAndDelete_multiSig hscript (hpool first hfirst).1 (hpool first hfirst).2
        rw [List.foldl_cons, hdelete, ih htail]
    have hsame : checkSig crypto check sig key script = checkCombined crypto check.txTo check.nIn script sig key := by
      unfold checkCombined checkSig
      rw [htype]
    rw [hcode]
    unfold checkPair
    split
    · exact hsame
    · rename_i hno
      exact (Bool.eq_false_iff.mpr fun hvalid => hno (hstrict sig hsig key hkey hvalid)).symm

end

/-! ## The unlocking script -/

section

variable {crypto : Crypto} {check : Checker} {script : CScript} {values : Stack}

theorem pushes_pushAll (hsize : ∀ vch ∈ values, vch.length ≤ MAX_SCRIPT_ELEMENT_SIZE) :
    Pushes values.reverse (pushAll values) := by
  refine pushes_flatMap fun vch hvch => ?_
  have hle := hsize vch (List.mem_reverse.mp hvch)
  exact Nat.lt_of_le_of_lt hle (by decide)

/-- **What was pushed is on the stack.** -/
theorem evalScript_pushAll (crypto : Crypto) (check : Checker) (hlength : values.length ≤ 19)
    (hsize : ∀ vch ∈ values, vch.length ≤ MAX_SCRIPT_ELEMENT_SIZE) :
    evalScript crypto check 0 [] (pushAll values) =
      .ok ((Frame.start 0 [] (pushAll values)).atPc [] values 0) := by
  have hpushes := pushes_pushAll hsize
  have hsize' : ∀ vch ∈ values.reverse, vch.length ≤ MAX_SCRIPT_ELEMENT_SIZE := fun vch hvch =>
    hsize vch (List.mem_reverse.mp hvch)
  have hshort := hpushes.length_le hsize'
  rw [List.length_reverse] at hshort
  refine evalScript_ok_iff.mpr ⟨by omega, ?_, rfl⟩
  have hscript : pushAll values = pushAll values ++ [] := (List.append_nil _).symm
  have hroom : values.reverse.length ≤ 19 := by
    rw [List.length_reverse]
    exact hlength
  rw [Frame.start_eq hscript]
  refine (exec_pushes rfl hpushes (Nat.zero_le _)).mpr ⟨hsize', ?_, ?_⟩
  · show 0 + values.reverse.length + 0 ≤ 1000
    omega
  · rw [List.reverse_reverse, List.append_nil]
    exact Machine.exec_end rfl

theorem isPushOnly_of_pushes {vvch : List Bytes} {pushes : CScript} (hpushes : Pushes vvch pushes) :
    isPushOnly pushes = true := by
  have hlast : ∀ data : Bytes, (lastPush pushes.length data pushes).isSome = true := by
    induction hpushes with
    | nil =>
      intro data
      rfl
    | @cons opcode vch vvch push pushes hpush hop htail ih =>
      intro data
      have hlow : ¬ OP_16 < opcode := fun hlt => absurd (UInt8.lt_of_lt_of_le hlt hpush) (by decide)
      rw [lastPush_getOp (hop pushes), if_neg hlow]
      exact ih vch
  unfold isPushOnly
  rw [pushOnlyLoop_eq pushes.length []]
  exact hlast []

theorem verifies_bare_iff (hlength : values.length ≤ 19) (hsize : ∀ vch ∈ values, vch.length ≤ MAX_SCRIPT_ELEMENT_SIZE)
    (hbare : isPayToScriptHash script = false) :
    verifies crypto check (pushAll values) script = true ↔ Accepts crypto check script values := by
  rw [verifies_iff, evalScript_pushAll crypto check hlength hsize]
  constructor
  · rintro ⟨f, g, hf, hg, htop, -⟩
    cases hf
    exact ⟨g, hg, htop⟩
  · rintro ⟨g, hg, htop⟩
    refine ⟨_, g, rfl, hg, htop, ?_⟩
    rw [hbare]
    rintro ⟨-, hfalse⟩
    cases hfalse

/-- Behind its hash, a script gets what is below it. -/
theorem verifies_scriptID_iff {scriptID : CScriptID} (hp2sh : check.fP2SH = true)
    (hmatch : Matches crypto scriptID script) (hlength : values.length ≤ 18)
    (hsize : ∀ vch ∈ script :: values, vch.length ≤ MAX_SCRIPT_ELEMENT_SIZE) :
    verifies crypto check (pushAll (script :: values)) (setDestination (.scriptID scriptID)) = true ↔
      Accepts crypto check script values := by
  have hlength' : (script :: values).length ≤ 19 := by
    rw [List.length_cons]
    omega
  let f := (Frame.start 0 [] (pushAll (script :: values))).atPc [] (script :: values) 0
  let g := (Frame.start 0 (script :: values) (setDestination (.scriptID scriptID))).atPc []
    (vchBool (decide (Matches crypto scriptID script)) :: values) 2
  have hleft := evalScript_pushAll crypto check hlength' hsize
  have hhash : evalScript crypto check 0 (script :: values) (setDestination (.scriptID scriptID)) = .ok g := by
    refine evalScript_ok_iff.mpr ⟨?_, ?_, rfl⟩
    · rw [length_setDestination_scriptID]
      decide
    · rw [Frame.start_eq rfl]
      refine (exec_scriptID rfl (by decide)).mpr ⟨script, values, rfl, ?_, rfl⟩
      show (script :: values).length + 1 + 0 ≤ 1000
      omega
  have htop : topIsTrue g.stack = true :=
    (topIsTrue_vchBool (decide (Matches crypto scriptID script)) values).trans (decide_eq_true hmatch)
  have hredeem : (evalRedeemScript crypto check 0 g (script :: values)).isOk = true ↔
      Accepts crypto check script values := by
    rw [isOk_iff]
    unfold evalRedeemScript
    simp only [Except.bind_ok_iff, stay_ok_iff, require_ok_iff]
    constructor
    · rintro ⟨_, g', hg', -, htop', -⟩
      exact ⟨g', hg', htop'⟩
    · rintro ⟨g', hg', htop'⟩
      exact ⟨g', g', hg', ⟨⟩, htop', rfl⟩
  rw [verifies_iff, hleft]
  constructor
  · rintro ⟨f', g', hf', hg', -, hrun⟩
    cases hf'
    cases hhash.symm.trans hg'
    exact hredeem.mp (hrun ⟨hp2sh, isPayToScriptHash_setDestination scriptID⟩).2
  · intro haccepts
    refine ⟨f, g, rfl, hhash, htop, fun _ => ⟨isPushOnly_of_pushes (pushes_pushAll hsize), hredeem.mpr haccepts⟩⟩

end

/-! ## Combining -/

section

variable {crypto : Crypto} {check : Checker} {script : CScript} {vSolutions : List Bytes}
  {valid : Bytes → Bytes → Bool} {sigs1 sigs2 r : Stack}

/-- A multisignature is not behind a script hash, and `Solver` leaves what it returns. -/
theorem solve_of_multisig (hsolver : solver script = some (.multisig, vSolutions)) :
    isPayToScriptHash script = false ∧ solve script = (some .multisig, vSolutions) := by
  cases solved_of_solver hsolver with
  | multisig hp2sh hpubkey hhash hmultisig _ =>
    refine ⟨Bool.eq_false_iff.mpr hp2sh, ?_⟩
    unfold solve
    dsimp only
    rw [if_neg hp2sh, hpubkey]
    dsimp only
    rw [hhash]
    dsimp only
    rw [hmultisig]

theorem solve_scriptID (scriptID : CScriptID) : (solve (setDestination (.scriptID scriptID))).1 = some .scripthash := by
  unfold solve
  dsimp only
  rw [isPayToScriptHash_setDestination, if_pos rfl]

/-- What `CombineSignatures` makes of two lists of signatures for a multisignature script, with `top` on top of both. It is
    accepted iff enough keys are covered, it is the same the other way round, it is what comes out when it is combined
    with one of the lists again, and it leaves on the stack what was put together. -/
structure Combination (crypto : Crypto) (check : Checker) (scriptPubKey script : CScript) (top : Stack)
    (vSolutions : List Bytes) (valid : Bytes → Bytes → Bool) (sigs1 sigs2 r : Stack) : Prop where
  result : combineSignatures crypto check.txTo check.nIn scriptPubKey (solve scriptPubKey) (top ++ sigs1) (top ++ sigs2) =
    .ok (pushAll (top ++ r))
  accepted : Accepts crypto check script r ↔ Covers vSolutions valid sigs1 sigs2
  swapped : combineSignatures crypto check.txTo check.nIn scriptPubKey (solve scriptPubKey) (top ++ sigs2) (top ++ sigs1) =
    .ok (pushAll (top ++ r))
  again : ∀ sigs ∈ [sigs1, sigs2],
    combineSignatures crypto check.txTo check.nIn scriptPubKey (solve scriptPubKey) (top ++ r) (top ++ sigs) =
        .ok (pushAll (top ++ r)) ∧
      combineSignatures crypto check.txTo check.nIn scriptPubKey (solve scriptPubKey) (top ++ sigs) (top ++ r) =
        .ok (pushAll (top ++ r))
  verified : (∀ vch ∈ top ++ (sigs1 ++ sigs2), vch.length ≤ MAX_SCRIPT_ELEMENT_SIZE) →
    (∀ check', ∃ f, evalScript crypto check' 0 [] (pushAll (top ++ r)) = .ok f ∧ f.stack = top ++ r) ∧
      (verifies crypto check (pushAll (top ++ r)) scriptPubKey = true ↔ Covers vSolutions valid sigs1 sigs2)

/-- **The pool decides**, wherever what is below `top` is combined. -/
theorem combination {scriptPubKey : CScript} {top : Stack} (hsolver : solver script = some (.multisig, vSolutions))
    (h : Decides crypto check script (solvedKeys vSolutions) (sigs1 ++ sigs2) valid)
    (hone : FitsOne valid (solvedKeys vSolutions) (sigs1 ++ sigs2))
    (hcombine : ∀ a b, combineSignatures crypto check.txTo check.nIn scriptPubKey (solve scriptPubKey) (top ++ a) (top ++ b) =
      (combineMultisig crypto check.txTo check.nIn script vSolutions a b).map (· ++ pushAll top))
    (hverifies : ∀ r, r.length ≤ 17 → (∀ vch ∈ top ++ r, vch.length ≤ MAX_SCRIPT_ELEMENT_SIZE) →
      (verifies crypto check (pushAll (top ++ r)) scriptPubKey = true ↔ Accepts crypto check script r))
    (htop : top.length ≤ 1) :
    ∃ r, Combination crypto check scriptPubKey script top vSolutions valid sigs1 sigs2 r := by
  obtain ⟨opRequired, pushes, opKeys, hscript, hrequired, hsize⟩ := solved_of_multisig hsolver
  have hmax := (decodeOP_N_bounds hscript.required.1 hscript.required.2).2
  have hfits := h.fitsOne hone
  have hpushAll : ∀ r : Stack, pushAll (top ++ r) = pushAll r ++ pushAll top := by
    intro r
    unfold pushAll
    rw [List.reverse_append, List.flatMap_append]
  -- any two lists from the pool
  have hpart : ∀ a b, (∀ sig ∈ allSigs a b, sig ∈ allSigs sigs1 sigs2) →
      combineSignatures crypto check.txTo check.nIn scriptPubKey (solve scriptPubKey) (top ++ a) (top ++ b) =
        .ok (pushAll (top ++ signatureStack (solvedRequired vSolutions)
          (combinedSigs crypto check.txTo check.nIn script vSolutions a b))) := by
    intro a b hmem
    rw [hcombine, combineMultisig_eq hsize fun sig hsig => hfits sig (hmem sig hsig), hpushAll]
    rfl
  have hchosen : ∀ sig ∈ signatureStack (solvedRequired vSolutions)
      (combinedSigs crypto check.txTo check.nIn script vSolutions sigs1 sigs2), sig = [] ∨ sig ∈ sigs1 ++ sigs2 := by
    intro sig hsig
    refine (mem_signatureStack hsig).imp_right fun hmem => ?_
    exact List.mem_append.mpr (mem_allSigs.mp (mem_of_mem_combinedSigs hmem)).1
  have haccepts : Accepts crypto check script (signatureStack (solvedRequired vSolutions)
      (combinedSigs crypto check.txTo check.nIn script vSolutions sigs1 sigs2)) ↔
        Covers vSolutions valid sigs1 sigs2 := by
    obtain ⟨g, fSuccess, heval, hstack, hiff⟩ := h.evalScript_combined hsolver 0
    rw [← hiff]
    constructor
    · rintro ⟨g', heval', htop'⟩
      cases heval.symm.trans heval'
      rw [hstack, topIsTrue_vchBool] at htop'
      exact htop'
    · intro hsuccess
      refine ⟨g, heval, ?_⟩
      rw [hstack, topIsTrue_vchBool]
      exact hsuccess
  have hlength : (signatureStack (solvedRequired vSolutions)
      (combinedSigs crypto check.txTo check.nIn script vSolutions sigs1 sigs2)).length ≤ 17 := by
    have hle := h.length_combinedSigs
    unfold signatureStack
    rw [List.length_append, List.length_reverse, List.length_append, List.length_replicate, List.length_singleton]
    omega
  refine ⟨_, hpart sigs1 sigs2 fun sig hsig => hsig, haccepts, ?_, ?_, ?_⟩
  · rw [hpart sigs2 sigs1 (fun sig hsig => allSigs_comm sigs1 sigs2 ▸ hsig), combinedSigs_comm]
  · intro sigs hsigs
    have hsub : ∀ sig ∈ sigs, sig ∈ sigs1 ∨ sig ∈ sigs2 := by
      intro sig hsig
      rcases List.mem_pair.mp hsigs with rfl | rfl
      · exact .inl hsig
      · exact .inr hsig
    have hpool : ∀ sig ∈ allSigs (signatureStack (solvedRequired vSolutions)
        (combinedSigs crypto check.txTo check.nIn script vSolutions sigs1 sigs2)) sigs, sig ∈ allSigs sigs1 sigs2 := by
      intro sig hsig
      obtain ⟨hmem, hne⟩ := mem_allSigs.mp hsig
      refine mem_allSigs.mpr ⟨hmem.elim (fun hmem => ?_) (hsub sig), hne⟩
      exact List.mem_append.mp ((hchosen sig hmem).resolve_left hne)
    refine ⟨?_, ?_⟩
    · rw [hpart _ _ hpool, combinedSigs_again hsub]
    · rw [hpart _ _ (fun sig hsig => hpool sig (allSigs_comm _ _ ▸ hsig)), combinedSigs_comm, combinedSigs_again hsub]
  · intro helements
    have hvalues : ∀ vch ∈ top ++ signatureStack (solvedRequired vSolutions)
        (combinedSigs crypto check.txTo check.nIn script vSolutions sigs1 sigs2),
          vch.length ≤ MAX_SCRIPT_ELEMENT_SIZE := by
      intro vch hvch
      rcases List.mem_append.mp hvch with hmem | hmem
      · exact helements vch (List.mem_append_left _ hmem)
      · rcases hchosen vch hmem with rfl | hpool
        · exact Nat.zero_le _
        · exact helements vch (List.mem_append_right _ hpool)
    refine ⟨fun check' => ⟨_, evalScript_pushAll crypto check' ?_ hvalues, rfl⟩, (hverifies _ hlength hvalues).trans haccepts⟩
    rw [List.length_append]
    omega

/-- **Combining partial multisignatures.** Where each signature is valid for one of the keys at most, combining two lists
    for a bare multisignature, and behind a script hash two lists with the script on top, gives what is accepted iff the
    valid signatures of both cover as many keys as are required. The order of the lists does not matter, and combining the
    result with one of them again changes nothing. Behind a script hash an empty list leaves the other one as it is. -/
theorem combineSignatures_pools (crypto : Crypto) (check : Checker) {script : CScript} {vSolutions : List Bytes}
    (hsolver : solver script = some (.multisig, vSolutions)) (valid : Bytes → Bytes → Bool) :
    (∀ sigs1 sigs2, Decides crypto check script (solvedKeys vSolutions) (sigs1 ++ sigs2) valid →
      FitsOne valid (solvedKeys vSolutions) (sigs1 ++ sigs2) →
      ∃ r, Combination crypto check script script [] vSolutions valid sigs1 sigs2 r) ∧
    ∀ scriptID, Matches crypto scriptID script → check.fP2SH = true →
      (∀ sigs1 sigs2, Decides crypto check script (solvedKeys vSolutions) (sigs1 ++ sigs2) valid →
        FitsOne valid (solvedKeys vSolutions) (sigs1 ++ sigs2) →
        ∃ r, Combination crypto check (setDestination (.scriptID scriptID)) script [script] vSolutions valid sigs1 sigs2 r) ∧
      ∀ sigs : Stack, sigs.head? ≠ some [] →
        combineSignatures crypto check.txTo check.nIn (setDestination (.scriptID scriptID))
            (solve (setDestination (.scriptID scriptID))) [] sigs = .ok (pushAll sigs) ∧
          combineSignatures crypto check.txTo check.nIn (setDestination (.scriptID scriptID))
            (solve (setDestination (.scriptID scriptID))) sigs [] = .ok (pushAll sigs) := by
  obtain ⟨hbare, hsolve⟩ := solve_of_multisig hsolver
  refine ⟨?_, ?_⟩
  · intro sigs1 sigs2 hdecides hone
    refine combination hsolver hdecides hone ?_ ?_ (Nat.zero_le _)
    · intro a b
      have hnothing : ∀ x : Except String CScript, x.map (· ++ pushAll []) = x := by
        intro x
        cases x with
        | error e => rfl
        | ok s => exact congrArg _ (List.append_nil s)
      rw [hnothing, List.nil_append, List.nil_append, combineSignatures.eq_def, hsolve]
    · intro r hlength hsize
      exact verifies_bare_iff (Nat.le_trans hlength (by decide)) hsize hbare
  · intro scriptID hmatch hp2sh
    have htype := solve_scriptID scriptID
    refine ⟨?_, ?_⟩
    · intro sigs1 sigs2 hdecides hone
      refine combination hsolver hdecides hone ?_ ?_ (Nat.le_refl _)
      · intro a b
        have hne : script ≠ [] := by
          rintro rfl
          cases hsolver
        -- the script is taken off, and what is below is combined for it
        have hsuffix : pushAll [script] = pushVch script := List.append_nil _
        have hback : ¬ (script :: b).head?.getD [] = [] := hne
        rw [combineSignatures.eq_def, htype]
        dsimp only [List.singleton_append, List.tail_cons]
        rw [if_neg hne, if_neg hback, hsolve, combineSignatures.eq_def, hsuffix]
      · intro r hlength hsize
        exact verifies_scriptID_iff hp2sh hmatch (Nat.le_trans hlength (by decide)) hsize
    · intro sigs hhead
      refine ⟨?_, ?_⟩
      · rw [combineSignatures.eq_def, htype]
      · rw [combineSignatures.eq_def, htype]
        cases sigs with
        | nil => rfl
        | cons spk sigs =>
          have hne : spk ≠ [] := fun hnil => hhead (congrArg some hnil)
          dsimp only
          rw [if_neg hne]
          rfl

end

/-! ## Two of two keys -/

namespace OneOfTwo

/-- Both keys have to sign. -/
def both : CScript := 0x52 :: (pushVch (key 7) ++ pushVch (key 8) ++ [0x52, OP_CHECKMULTISIG])

def solvedBoth : List Bytes := [[2], key 7, key 8, [2]]

def bothID : CScriptID := ⟨0, by decide⟩

def checkP2SH : Checker := { check with flags := SCRIPT_VERIFY_P2SH }

def valid (sig pubkey : Bytes) : Bool := checkSig crypto checkP2SH sig pubkey []

theorem solver_both : solver both = some (.multisig, solvedBoth) := by decide +kernel

/-- Here it makes no difference what is signed. -/
theorem decides (keys : List Bytes) (pool : Stack) : Decides crypto checkP2SH both keys pool valid where
  combined _ _ _ _ := rfl
  checked sigs _ sig _ pubkey _ := by
    unfold checkPair
    rw [if_pos (.inl (by decide))]
    rfl

/-- Signed by the one and by the other: both together are enough, in any order. -/
theorem signed_by_both :
    ∃ r, Combination crypto checkP2SH (setDestination (.scriptID bothID)) both [both] solvedBoth valid
      [[7, 1], []] [[], [8, 1], []] r := by
  refine ((combineSignatures_pools crypto checkP2SH solver_both valid).2 bothID (by decide) (by decide)).1 _ _
    (decides _ _) ?_
  unfold FitsOne
  decide +kernel

/-- An unsigned input beside one with both signatures in the wrong order. -/
theorem disordered_passed_on :
    Decides crypto checkP2SH both (solvedKeys solvedBoth) [[7, 1], [8, 1], []] valid ∧
      FitsOne valid (solvedKeys solvedBoth) [[7, 1], [8, 1], []] ∧ (solvedKeys solvedBoth).Nodup ∧
      Covers solvedBoth valid [] [[7, 1], [8, 1], []] ∧
      combineSignatures crypto checkP2SH.txTo checkP2SH.nIn (setDestination (.scriptID bothID))
        (solve (setDestination (.scriptID bothID))) [] [both, [7, 1], [8, 1], []] =
          .ok (pushAll [both, [7, 1], [8, 1], []]) ∧
      verifies crypto checkP2SH (pushAll [both, [7, 1], [8, 1], []]) (setDestination (.scriptID bothID)) = false := by
  refine ⟨decides _ _, ?_, by decide +kernel, ?_, by decide +kernel, by decide +kernel⟩
  · unfold FitsOne
    decide +kernel
  · unfold Covers
    decide +kernel

end OneOfTwo

end Syscoin

import Syscoin.Lib.Access
import Syscoin.Lib.Matching
import Syscoin.Script.Interpreter

/-!
# `Correctness.MultiSig` — what `OP_CHECKMULTISIG` decides

The loop offers the keys, from the top of the stack down, to the signatures, and gives up when fewer keys are left than
signatures. That decides whether the signatures can be assigned to keys in the same order. One element more than the
arguments goes off the stack, and is there when it does.
-/

namespace Syscoin

open Lib List

/-- **The argument checks** of `OP_CHECKMULTISIG`, with the numbers of keys and signatures that pass them. -/
structure MultiSigArgs (f : Frame) (nKeysCount nSigsCount : Nat) : Prop where
  size : 1 ≤ f.stack.length
  keys : intAt f.stack 1 = .ok nKeysCount
  keys_le : nKeysCount ≤ 20
  ops : f.nOpCount + nKeysCount ≤ 201
  size_keys : 2 + nKeysCount ≤ f.stack.length
  sigs : intAt f.stack (2 + nKeysCount) = .ok nSigsCount
  sigs_le : nSigsCount ≤ nKeysCount
  size_sigs : 3 + nKeysCount + nSigsCount ≤ f.stack.length

/-- The public keys on the stack, in the order in which they were pushed. -/
def Stack.keys (stack : Stack) (nKeysCount : Nat) : List Bytes := ((stack.drop 1).take nKeysCount).reverse

/-- The signatures on the stack, in the order in which they were pushed. -/
def Stack.sigs (stack : Stack) (nKeysCount nSigsCount : Nat) : List Bytes :=
  ((stack.drop (2 + nKeysCount)).take nSigsCount).reverse

/-- What the signatures sign: the script from the last code separator on, without the signatures. -/
def multiSigCode (f : Frame) (nKeysCount nSigsCount : Nat) : CScript :=
  (f.stack.sigs nKeysCount nSigsCount).reverse.foldl (fun scriptCode vchSig => findAndDelete (pushVch vchSig) scriptCode)
    f.pbegincodehash

section

variable {crypto : Crypto} {check : Checker} {f : Frame} {stack : Stack} {scriptCode : CScript}

theorem stacktop_succ {i : Nat} (h : i < stack.length) : stacktop stack (i + 1) = .ok stack[i] := by
  rw [stacktop, Nat.add_sub_cancel, List.getElem?_eq_getElem h]

theorem popMany_eq {i : Nat} (h : i ≤ stack.length) : popMany i stack = .ok (stack.drop i) := by
  induction i generalizing stack with
  | zero => rfl
  | succ i ih =>
    cases stack with
    | nil => simp at h
    | cons vch stack =>
      rw [List.length_cons] at h
      exact ih (by omega)

/-- **The loop is one pass over the keys.** -/
theorem multiSigLoop_eq {nKeysCount nSigsCount isig ikey : Nat} (hsigs : isig + nSigsCount ≤ stack.length)
    (hkeys : ikey + nKeysCount ≤ stack.length) (hle : nSigsCount ≤ nKeysCount) :
    (multiSigLoop crypto check stack scriptCode nKeysCount nSigsCount (isig + 1) (ikey + 1)).1 =
      .ok (greedy (fun vchSig vchPubKey => (checkPair crypto check vchSig vchPubKey scriptCode).1)
        ((stack.drop isig).take nSigsCount) ((stack.drop ikey).take nKeysCount)) := by
  induction nKeysCount generalizing nSigsCount isig ikey with
  | zero =>
    obtain rfl := Nat.le_zero.mp hle
    rw [List.take_zero, greedy_nil]
    rfl
  | succ nKeysCount ih =>
    cases nSigsCount with
    | zero =>
      rw [List.take_zero, greedy_nil]
      rfl
    | succ nSigsCount =>
      have hsig : isig < stack.length := by omega
      have hkey : ikey < stack.length := by omega
      rw [multiSigLoop, stacktop_succ hsig, stacktop_succ hkey]
      rw [List.drop_eq_getElem_cons hsig, List.drop_eq_getElem_cons hkey, List.take_succ_cons, List.take_succ_cons, greedy,
        offer]
      obtain ⟨fOk, n, hpair⟩ : ∃ fOk n, checkPair crypto check stack[isig] stack[ikey] scriptCode = (fOk, n) :=
        ⟨_, _, rfl⟩
      have hlenKeys : ((stack.drop (ikey + 1)).take nKeysCount).length = nKeysCount := by
        rw [List.length_take, List.length_drop]
        omega
      have hlenSigs : ((stack.drop (isig + 1)).take nSigsCount).length = nSigsCount := by
        rw [List.length_take, List.length_drop]
        omega
      simp only [hpair, hlenKeys]
      cases fOk with
      | true =>
        -- the signature fits, and the next one meets the next key
        simp only [if_true, hlenSigs]
        by_cases hshort : nKeysCount < nSigsCount
        · rw [if_pos hshort, if_pos hshort]
        · rw [if_neg hshort, if_neg hshort]
          exact ih (by omega) (by omega) (by omega)
      | false =>
        simp only [Bool.false_eq_true, if_false, List.length_cons, hlenSigs]
        by_cases hshort : nKeysCount < nSigsCount + 1
        · rw [if_pos hshort, if_pos hshort]
        · rw [if_neg hshort, if_neg hshort]
          have hrest : (multiSigLoop crypto check stack scriptCode nKeysCount (nSigsCount + 1) (isig + 1)
              (ikey + 1 + 1)).1 = _ := ih hsigs (by omega) (by omega)
          rwa [List.drop_eq_getElem_cons hsig, List.take_succ_cons] at hrest

theorem deleteSigs_eq {isig nSigsCount : Nat} (h : isig + nSigsCount ≤ stack.length) :
    deleteSigs stack (isig + 1) nSigsCount scriptCode =
      .ok (((stack.drop isig).take nSigsCount).foldl
        (fun scriptCode vchSig => findAndDelete (pushVch vchSig) scriptCode) scriptCode) := by
  unfold deleteSigs
  induction nSigsCount with
  | zero => rfl
  | succ nSigsCount ih =>
    have hsig : isig + nSigsCount < stack.length := by omega
    have htake : (stack.drop isig).take (nSigsCount + 1) =
        (stack.drop isig).take nSigsCount ++ [stack[isig + nSigsCount]] := by
      rw [List.take_add_one, List.getElem?_drop, List.getElem?_eq_getElem hsig]
      rfl
    have htop : stacktop stack (isig + 1 + nSigsCount) = .ok stack[isig + nSigsCount] := by
      rw [Nat.add_right_comm]
      exact stacktop_succ hsig
    rw [List.range_succ, List.foldlM_append, ih (by omega), htake, List.foldl_append]
    simp only [List.foldlM_cons, List.foldlM_nil, List.foldl_cons, List.foldl_nil, bind_pure]
    show (do let vchSig ← stacktop stack (isig + 1 + nSigsCount); _) = _
    rw [htop]
    rfl

theorem stay_bind {σ ε α β : Type} {s : σ} {x : Except ε α} {a : α} {k : α → Except (ε × σ) β} (h : x = .ok a) :
    (stay s x >>= k) = k a := by
  rw [h]
  rfl

theorem stay_bind_error {σ ε α β : Type} {s : σ} {x : Except ε α} {e : ε} {k : α → Except (ε × σ) β} (h : x = .error e) :
    (stay s x >>= k) = .error (e, s) := by
  rw [h]
  rfl

theorem require_eq {ε : Type} {c : Prop} [Decidable c] {e : ε} (h : c) : require c e = .ok () := if_pos h

theorem require_error {ε : Type} {c : Prop} [Decidable c] {e : ε} (h : ¬ c) : require c e = .error e := if_neg h

theorem atLeast_eq {n : Nat} (h : n ≤ stack.length) : atLeast n stack = .ok () := require_eq h

theorem atLeast_error {n : Nat} (h : ¬ n ≤ stack.length) : atLeast n stack = .error .failed := require_error h

/-- Which keys the signatures are matched with, as the loop finds it out. -/
def multiSigFound (crypto : Crypto) (check : Checker) (f : Frame) (nKeysCount nSigsCount : Nat) : Bool :=
  greedy (fun vchSig vchPubKey => (checkPair crypto check vchSig vchPubKey (multiSigCode f nKeysCount nSigsCount)).1)
    (f.stack.sigs nKeysCount nSigsCount).reverse (f.stack.keys nKeysCount).reverse

/-- **`OP_CHECKMULTISIG` on accepted arguments**: they go, and with them one element more. -/
theorem opCheckMultiSig_eq (crypto : Crypto) (check : Checker) {nKeysCount nSigsCount : Nat}
    (args : MultiSigArgs f nKeysCount nSigsCount) :
    ∃ n, opCheckMultiSig crypto check false f =
      .ok { f with
        nOpCount := f.nOpCount + nKeysCount
        nCheckSig := n
        stack := vchBool (multiSigFound crypto check f nKeysCount nSigsCount) ::
          f.stack.drop (nSigsCount + nKeysCount + 3) } := by
  have hkeys := args.keys_le
  have hsigs := args.sigs_le
  have hsize := args.size_sigs
  have hcode : deleteSigs f.stack (2 + nKeysCount + 1) nSigsCount f.pbegincodehash =
      .ok (multiSigCode f nKeysCount nSigsCount) := by
    rw [deleteSigs_eq (by omega), multiSigCode, Stack.sigs, List.reverse_reverse]
  have hloop : (multiSigLoop crypto check f.stack (multiSigCode f nKeysCount nSigsCount) nKeysCount nSigsCount
      (2 + nKeysCount + 1) 2).1 = .ok (multiSigFound crypto check f nKeysCount nSigsCount) := by
    rw [multiSigFound, Stack.sigs, Stack.keys, List.reverse_reverse, List.reverse_reverse]
    exact multiSigLoop_eq (by omega) (by omega) hsigs
  have hcount : 2 + nKeysCount + 1 + nSigsCount = nSigsCount + nKeysCount + 3 := by omega
  obtain ⟨result, n, hresult⟩ : ∃ result n, multiSigLoop crypto check f.stack (multiSigCode f nKeysCount nSigsCount)
      nKeysCount nSigsCount (2 + nKeysCount + 1) 2 = (result, n) := ⟨_, _, rfl⟩
  rw [hresult] at hloop
  refine ⟨f.nCheckSig + n, ?_⟩
  unfold opCheckMultiSig
  rw [stay_bind (atLeast_eq args.size), stay_bind args.keys, stay_bind (require_eq (by omega)), Int.toNat_natCast]
  dsimp only
  rw [stay_bind (require_eq args.ops)]
  unfold checkMultiSig
  dsimp only
  rw [stay_bind (atLeast_eq args.size_keys), stay_bind args.sigs, stay_bind (require_eq (by omega)), Int.toNat_natCast,
    stay_bind (atLeast_eq (by omega)), stay_bind hcode, hresult]
  dsimp only
  rw [stay_bind hloop, stay_bind (popMany_eq (by omega)), hcount]
  rfl

theorem intAt_error {i : Nat} {e : Stop} (h₁ : 1 ≤ i) (h₂ : i ≤ stack.length) (h : intAt stack i = .error e) :
    e ≠ .fault := by
  obtain ⟨i, rfl⟩ := Nat.exists_eq_add_of_le' h₁
  unfold intAt at h
  rw [stacktop_succ h₂] at h
  unfold castToBigNum at h
  by_cases hlong : nMaxNumSize < stack[i].length
  · rw [ok_bind, if_pos hlong] at h
    cases h
    decide
  · rw [ok_bind, if_neg hlong] at h
    cases h

/-- Arguments that are not accepted end the script, before anything below them is read. -/
theorem opCheckMultiSig_refused (h : ∀ nKeysCount nSigsCount, ¬ MultiSigArgs f nKeysCount nSigsCount) :
    ∃ e g, opCheckMultiSig crypto check false f = .error (e, g) ∧ e ≠ .fault := by
  unfold opCheckMultiSig
  -- each of the checks stops the operation, or is one of the conditions on its arguments
  by_cases hsize : 1 ≤ f.stack.length
  swap
  · rw [stay_bind_error (atLeast_error hsize)]
    exact ⟨_, _, rfl, by decide⟩
  rw [stay_bind (atLeast_eq hsize)]
  cases hkeys : intAt f.stack 1 with
  | error e =>
    rw [stay_bind_error rfl]
    exact ⟨_, _, rfl, intAt_error (Nat.le_refl _) hsize hkeys⟩
  | ok n =>
    rw [stay_bind rfl]
    by_cases hrange : 0 ≤ n ∧ n ≤ 20
    swap
    · rw [stay_bind_error (require_error hrange)]
      exact ⟨_, _, rfl, by decide⟩
    obtain ⟨nKeysCount, rfl⟩ := Int.eq_ofNat_of_zero_le hrange.1
    rw [stay_bind (require_eq hrange), Int.toNat_natCast]
    dsimp only
    by_cases hops : f.nOpCount + nKeysCount ≤ 201
    swap
    · rw [stay_bind_error (require_error hops)]
      exact ⟨_, _, rfl, by decide⟩
    rw [stay_bind (require_eq hops)]
    unfold checkMultiSig
    dsimp only
    by_cases hsizeKeys : 2 + nKeysCount ≤ f.stack.length
    swap
    · rw [stay_bind_error (atLeast_error hsizeKeys)]
      exact ⟨_, _, rfl, by decide⟩
    rw [stay_bind (atLeast_eq hsizeKeys)]
    cases hsigs : intAt f.stack (2 + nKeysCount) with
    | error e =>
      rw [stay_bind_error rfl]
      exact ⟨_, _, rfl, intAt_error (by omega) hsizeKeys hsigs⟩
    | ok m =>
      rw [stay_bind rfl]
      by_cases hle : 0 ≤ m ∧ m ≤ nKeysCount
      swap
      · rw [stay_bind_error (require_error hle)]
        exact ⟨_, _, rfl, by decide⟩
      obtain ⟨nSigsCount, rfl⟩ := Int.eq_ofNat_of_zero_le hle.1
      rw [stay_bind (require_eq hle), Int.toNat_natCast]
      by_cases hsizeSigs : 2 + nKeysCount + 1 + nSigsCount ≤ f.stack.length
      · refine absurd ?_ (h nKeysCount nSigsCount)
        exact ⟨hsize, hkeys, by omega, hops, hsizeKeys, hsigs, by omega, by omega⟩
      · rw [stay_bind_error (atLeast_error hsizeSigs)]
        exact ⟨_, _, rfl, by decide⟩

/-- **`OP_CHECKMULTISIG` decides whether the signatures match keys in order.** On arguments that pass the checks it pushes
    true iff an increasing assignment of the signatures to the keys gives each a key it is valid for, and what was below
    the arguments and the extra element is what is below the result. On others the script ends, and never by an access
    below the stack. -/
theorem checkMultiSig_decides (crypto : Crypto) (check : Checker) (f : Frame) :
    (∀ nKeysCount nSigsCount, MultiSigArgs f nKeysCount nSigsCount →
      ∃ n fSuccess, execute crypto check OP_CHECKMULTISIG true f =
          .ok { f with
            nOpCount := f.nOpCount + nKeysCount
            nCheckSig := n
            stack := vchBool fSuccess :: f.stack.drop (nSigsCount + nKeysCount + 3) } ∧
        nSigsCount + nKeysCount + 3 ≤ f.stack.length ∧
        (f.stack.sigs nKeysCount nSigsCount).length = nSigsCount ∧ (f.stack.keys nKeysCount).length = nKeysCount ∧
        (fSuccess = true ↔ ∃ φ : Fin (f.stack.sigs nKeysCount nSigsCount).length → Fin (f.stack.keys nKeysCount).length,
          StrictMono φ ∧ ∀ i, (checkPair crypto check ((f.stack.sigs nKeysCount nSigsCount).get i)
            ((f.stack.keys nKeysCount).get (φ i)) (multiSigCode f nKeysCount nSigsCount)).1 = true)) ∧
    ((∀ nKeysCount nSigsCount, ¬ MultiSigArgs f nKeysCount nSigsCount) →
      ∃ e g, execute crypto check OP_CHECKMULTISIG true f = .error (e, g) ∧ e ≠ .fault) := by
  have hexecute : execute crypto check OP_CHECKMULTISIG true f = opCheckMultiSig crypto check false f := rfl
  rw [hexecute]
  refine ⟨?_, opCheckMultiSig_refused⟩
  intro nKeysCount nSigsCount args
  have hsize := args.size_sigs
  obtain ⟨n, heq⟩ := opCheckMultiSig_eq crypto check args
  refine ⟨n, _, heq, by omega, ?_, ?_, ?_⟩
  · rw [Stack.sigs, List.length_reverse, List.length_take, List.length_drop]
    omega
  · rw [Stack.keys, List.length_reverse, List.length_take, List.length_drop]
    omega
  · rw [multiSigFound, greedy_iff, sublistForall₂_reverse_iff]
    exact sublistForall₂_iff_strictMono

end

/-! ## One of two keys -/

namespace OneOfTwo

/-- A signature is valid for the key that ends in the same byte as it begins with. -/
def crypto : Crypto where
  ripemd160 _ := 0
  sha1 _ := 0
  sha256 _ := 0
  hash160 _ := 0
  hash _ := 0
  signatureHash _ _ _ _ := 0
  verify vchPubKey _ vchSig := vchPubKey.getLast? = vchSig.head?

def check : Checker := ⟨⟨SYSCOIN_TX_VERSION, [], [], 0, []⟩, 0, 0, 0⟩

def key (b : UInt8) : Bytes := 2 :: List.replicate 31 0 ++ [b]

/-- A signature for the second key, and one element below the arguments. -/
def frame : Frame :=
  { Frame.start 0 [[2], key 8, key 7, [1], [8, 1], [], [5]] [] with nOpCount := 1 }

theorem frame_args : MultiSigArgs frame 2 1 where
  size := by decide
  keys := by decide +kernel
  keys_le := by decide
  ops := by decide
  size_keys := by decide
  sigs := by decide +kernel
  sigs_le := by decide
  size_sigs := by decide

theorem second_key_signs :
    ∃ n, execute crypto check OP_CHECKMULTISIG true frame = .ok { frame with
      nOpCount := 3
      nCheckSig := n
      stack := [vchTrue, [5]] } := by
  obtain ⟨n, fSuccess, heq, -, -, -, hiff⟩ := (checkMultiSig_decides crypto check frame).1 2 1 frame_args
  have hsigned : fSuccess = true := by
    refine hiff.mpr ⟨fun _ => ⟨1, by decide⟩, ?_, by decide +kernel⟩
    show StrictMono fun _ : Fin 1 => _
    exact Subsingleton.strictMono _
  rw [hsigned] at heq
  exact ⟨n, heq⟩

end OneOfTwo

end Syscoin

import Syscoin.Correctness.Address
import Syscoin.Correctness.CanonicalSignature
import Syscoin.Correctness.KeyEncryption
import Syscoin.Correctness.KeyScripts
import Syscoin.Lib.Descent
import Syscoin.Wallet.Sign

/-!
# `Correctness.Spendable` — what is mine, and what can be spent

`IsMine` follows script hashes to the script behind the last one, whatever its size. `SignSignature` signs for the script
behind the first one, and the interpreter takes no element of more than 520 bytes. So an output of an unlocked wallet can
be spent iff the script behind its hash is not behind a hash again and is not too long (`Signable`), and the recursion of
`IsMine` comes to an end iff no stored scripts stand for each other in a circle (`mine_spendable_iff`).
-/

namespace Syscoin

open Lib List

/-! ## Signatures -/

/-- The scripts of the inputs are blanked before they are signed. -/
theorem signatureHash_setScriptSig (Hash : Bytes → Uint256) (scriptCode scriptSig : CScript) (txTo : CTransaction)
    (nIn i : Nat) (nHashType : Int) :
    signatureHash Hash scriptCode (txTo.setScriptSig i scriptSig) nIn nHashType =
      signatureHash Hash scriptCode txTo nIn nHashType := by
  have hblank : ∀ code, blankScripts code nIn (txTo.setScriptSig i scriptSig).vin = blankScripts code nIn txTo.vin := by
    intro code
    unfold blankScripts
    apply congrArg (List.modify · nIn _)
    apply List.ext_getElem?
    intro j
    show ((txTo.vin.modify i fun txin => { txin with scriptSig := scriptSig }).map _)[j]? = _
    rw [List.getElem?_map, List.getElem?_map, List.getElem?_modify]
    cases txTo.vin[j]? with
    | none => rfl
    | some txin => by_cases hij : i = j <;> simp [hij]
  have hlength : (txTo.setScriptSig i scriptSig).vin.length = txTo.vin.length := List.length_modify _ _ _
  unfold signatureHash txTmp
  rw [hblank, hlength]
  rfl

/-- A canonical public key begins with what tells its length. -/
theorem isCanonicalPubKey_header {vchPubKey : Bytes} (h : isCanonicalPubKey vchPubKey = .ok ()) :
    ∃ header rest, vchPubKey = header :: rest ∧ (header = 2 ∨ header = 3 ∨ header = 4) ∧
      CPubKey.getLen header = vchPubKey.length ∧ vchPubKey.length ≤ 65 := by
  unfold isCanonicalPubKey at h
  obtain ⟨-, h⟩ := require_bind_ok_iff.mp h
  obtain ⟨header, hheader, h⟩ := Except.bind_ok_iff.mp h
  rw [byteAt_ok_iff] at hheader
  cases vchPubKey with
  | nil => cases hheader
  | cons first rest =>
    cases hheader
    by_cases hfull : header = 0x04
    · rw [if_pos hfull, require_ok_iff] at h
      subst hfull
      exact ⟨_, rest, rfl, .inr (.inr rfl), h.symm, h.le⟩
    · rw [if_neg hfull] at h
      by_cases hcompressed : header = 0x02 ∨ header = 0x03
      · rw [if_pos hcompressed, require_ok_iff] at h
        rcases hcompressed with rfl | rfl
        · exact ⟨_, rest, rfl, .inl rfl, h.symm, by omega⟩
        · exact ⟨_, rest, rfl, .inr (.inl rfl), h.symm, by omega⟩
      · rw [if_neg hcompressed] at h
        cases h

theorem isCanonicalPubKey_isValid {vchPubKey : Bytes} (h : isCanonicalPubKey vchPubKey = .ok ()) :
    CPubKey.isValid vchPubKey = true := by
  obtain ⟨header, rest, rfl, hheader, hlen, -⟩ := isCanonicalPubKey_header h
  have hne : CPubKey.getLen header ≠ 0 := by
    rw [hlen, List.length_cons]
    exact Nat.succ_ne_zero _
  unfold CPubKey.isValid
  exact decide_eq_true ⟨hne, hlen⟩

/-- No signature is a public key. -/
theorem ne_of_canonical {vchSig vchPubKey : Bytes} (hsig : isCanonicalSignature vchSig = .ok ())
    (hkey : isCanonicalPubKey vchPubKey = .ok ()) : vchSig ≠ vchPubKey := by
  rintro rfl
  obtain ⟨header, rest, rfl, hheader, -⟩ := isCanonicalPubKey_header hkey
  cases isCanonicalSignature_head hsig
  revert hheader
  decide

/-- A signature with its type, which is valid for a public key. -/
structure SignedBy (crypto : SigningCrypto) (hash : Uint256) (pubkey vchSig : Bytes) : Prop where
  key : isCanonicalPubKey pubkey = .ok ()
  canonical : isCanonicalSignature vchSig = .ok ()
  signature : ∃ vch, vchSig = vch ++ [SIGHASH_ALL] ∧ crypto.verify pubkey hash vch = true

theorem SignedBy.length_le {crypto : SigningCrypto} {hash : Uint256} {pubkey vchSig : Bytes}
    (h : SignedBy crypto hash pubkey vchSig) : vchSig.length ≤ MAX_SCRIPT_ELEMENT_SIZE :=
  (isCanonicalSignature_length h.canonical).2.trans (by decide)

/-- **Such a signature passes**, strict encoding or not. -/
theorem SignedBy.checkPair {crypto : SigningCrypto} {check : Checker} {hash : Uint256} {pubkey vchSig script : Bytes}
    (h : SignedBy crypto hash pubkey vchSig) (htype : check.nHashType = 0)
    (hhash : signatureHash crypto.hash script check.txTo check.nIn SIGHASH_ALL.toNat = hash) :
    (Syscoin.checkPair crypto.toCrypto check vchSig pubkey script).1 = true := by
  obtain ⟨vch, rfl, hverify⟩ := h.signature
  have hvalid := isCanonicalPubKey_isValid h.key
  have hlast : (vch ++ [SIGHASH_ALL]).getLast? = some SIGHASH_ALL := List.getLast?_concat
  have hcheck : checkSig crypto.toCrypto check (vch ++ [SIGHASH_ALL]) pubkey script = true := by
    unfold checkSig
    rw [hvalid, hlast, List.dropLast_concat]
    simp only [htype, if_true]
    rw [if_neg (by simp), if_neg (by simp)]
    show crypto.verify pubkey (signatureHash crypto.hash script check.txTo check.nIn SIGHASH_ALL.toNat) vch = true
    rw [hhash]
    exact hverify
  unfold Syscoin.checkPair
  rw [if_pos (.inr ⟨h.canonical, h.key⟩)]
  exact hcheck

section

variable {crypto : SigningCrypto} {keystore : SigningKeyStore} {key : CKey} {hash : Uint256} {script : CScript}

/-! ## Keys of the store -/

/-- Twenty bytes are told by the number that they are. -/
theorem eq_of_keyIDOf_eq {vch vch' : Bytes} (hlength : vch.length = 20) (hlength' : vch'.length = 20)
    (h : keyIDOf vch = keyIDOf vch') : vch = vch' := by
  have hid : fromLE (vch.take 20) = fromLE (vch'.take 20) := congrArg CKeyID.id h
  rw [List.take_of_length_le hlength.le, List.take_of_length_le hlength'.le] at hid
  exact fromLE_inj (hlength.trans hlength'.symm) hid

/-- The id of a canonical public key is the hash of its bytes. -/
theorem getID_of_canonical {pubkey : Bytes} (h : isCanonicalPubKey pubkey = .ok ()) :
    crypto.getID pubkey = keyIDOf (toLE 20 (crypto.hash160 pubkey)) := by
  unfold SigningCrypto.getID
  rw [if_pos (isCanonicalPubKey_isValid h)]

/-- **The id of a key that signs is that of its public key alone.** -/
theorem eq_getPubKey_of_getID (hsigns : crypto.Signs key) {vch : Bytes}
    (h : crypto.getID vch = crypto.getID (crypto.getPubKey key)) : vch = crypto.getPubKey key := by
  rw [getID_of_canonical hsigns.canonical] at h
  have hbytes := eq_of_keyIDOf_eq (length_toLE 20 _) (length_toLE 20 _) h
  have heq := hsigns.injective _ hbytes
  by_cases hvalid : CPubKey.isValid vch = true
  · rwa [if_pos hvalid] at heq
  · -- no bytes are not a public key
    rw [if_neg hvalid] at heq
    obtain ⟨header, rest, hparts, -⟩ := isCanonicalPubKey_header hsigns.canonical
    cases heq.trans hparts

/-- What `Sign1` appends with a key that the store has. -/
theorem sign1_of_haveKey (hunlocked : keystore.Unlocked crypto)
    (hsigns : ∀ id key, keystore.getKey id = some (some key) → crypto.Signs key) {id : CKeyID}
    (hhave : keystore.haveKey id = true) (hash : Uint256) :
    ∃ key vchSig, crypto.Signs key ∧ crypto.getID (crypto.getPubKey key) = id ∧
      keystore.getPubKey id = some (crypto.getPubKey key) ∧ SignedBy crypto hash (crypto.getPubKey key) vchSig ∧
      vchSig ≠ toLE 20 (crypto.hash160 (crypto.getPubKey key)) ∧
      ∀ scriptSigRet, keystore.sign1 crypto id hash SIGHASH_ALL.toNat scriptSigRet =
        (true, scriptSigRet ++ pushVch vchSig) := by
  obtain ⟨key, hget, hpub, hid⟩ := hunlocked.key id hhave
  have hkey := hsigns id key hget
  obtain ⟨vchSig, hsign, hcanonical, hverify, hne⟩ := hkey.sign hash
  refine ⟨key, vchSig ++ [SIGHASH_ALL], hkey, hid, hpub, ⟨hkey.canonical, hcanonical, vchSig, rfl, hverify⟩, hne, ?_⟩
  intro scriptSigRet
  unfold SigningKeyStore.sign1
  rw [hget]
  dsimp only
  rw [Option.bind_some, hsign]
  rfl

/-- `Sign1` for a public key in a script. -/
theorem sign1_of_pubkey (hunlocked : keystore.Unlocked crypto)
    (hsigns : ∀ id key, keystore.getKey id = some (some key) → crypto.Signs key) {pubkey : Bytes}
    (hhave : keystore.haveKey (crypto.getID pubkey) = true) (hash : Uint256) :
    ∃ vchSig, SignedBy crypto hash pubkey vchSig ∧
      ∀ scriptSigRet, keystore.sign1 crypto (crypto.getID pubkey) hash SIGHASH_ALL.toNat scriptSigRet =
        (true, scriptSigRet ++ pushVch vchSig) := by
  obtain ⟨key, vchSig, hkey, hid, -, hsigned, -, hsign⟩ := sign1_of_haveKey hunlocked hsigns hhave hash
  -- the public key in the script is that of the key
  cases eq_getPubKey_of_getID hkey hid.symm
  exact ⟨vchSig, hsigned, hsign⟩

/-- **The loop of `SignN`** over keys that all sign: the first ones do, as many as are required. -/
theorem signEach_eq {sigOf : Bytes → Bytes} {pubkeys : List Bytes} {nRequired nSigned : Nat} {scriptSigRet : CScript}
    (hsign : ∀ pubkey ∈ pubkeys, ∀ scriptSigRet,
      keystore.sign1 crypto (crypto.getID pubkey) hash SIGHASH_ALL.toNat scriptSigRet =
        (true, scriptSigRet ++ pushVch (sigOf pubkey))) :
    keystore.signEach crypto hash SIGHASH_ALL.toNat nRequired pubkeys nSigned scriptSigRet =
      (nSigned + (pubkeys.take (nRequired - nSigned)).length,
        scriptSigRet ++ ((pubkeys.take (nRequired - nSigned)).map sigOf).flatMap pushVch) := by
  induction pubkeys generalizing nSigned scriptSigRet with
  | nil => simp [SigningKeyStore.signEach]
  | cons pubkey pubkeys ih =>
    obtain ⟨hhead, htail⟩ := List.forall_mem_cons.mp hsign
    unfold SigningKeyStore.signEach
    by_cases hmore : nSigned < nRequired
    · have hleft : nRequired - nSigned = nRequired - (nSigned + 1) + 1 := by omega
      rw [if_pos hmore, hhead]
      dsimp only
      rw [ih htail, hleft, List.take_succ_cons, List.map_cons, List.flatMap_cons, List.length_cons, List.append_assoc,
        Nat.add_right_comm, Nat.add_assoc]
    · have hleft : nRequired - nSigned = 0 := by omega
      rw [if_neg hmore, hleft]
      simp

/-! ## One script -/

/-- What `Solver` writes for a script that is not behind a hash: pushes of elements that the script accepts, as long as
    they sign the hash that the interpreter computes. -/
structure Unlocks (crypto : SigningCrypto) (keystore : SigningKeyStore) (hash : Uint256) (script : CScript)
    (values : Stack) : Prop where
  solved : ∃ type, type ≠ TxOutType.scripthash ∧
    keystore.solver crypto script hash SIGHASH_ALL.toNat = (true, pushAll values, some type)
  script_length : script.length ≤ 10000
  length : values.length ≤ 17
  size : ∀ vch ∈ values, vch.length ≤ MAX_SCRIPT_ELEMENT_SIZE
  accepts : ∀ check : Checker, check.nHashType = 0 →
    signatureHash crypto.hash script check.txTo check.nIn SIGHASH_ALL.toNat = hash →
      Accepts crypto.toCrypto check script values

/-- A script for a public key gets a signature. -/
theorem unlocks_pubkey (hunlocked : keystore.Unlocked crypto)
    (hsigns : ∀ id key, keystore.getKey id = some (some key) → crypto.Signs key) {vSolutions : List Bytes}
    (hsolver : Syscoin.solver script = some (.pubkey, vSolutions))
    (hmine : keystore.isMineDest crypto (extractDestination crypto.getID script) = true) (hhash : hash ≠ 0) :
    ∃ values, Unlocks crypto keystore hash script values := by
  obtain ⟨pubkey, hscript, rfl⟩ := pubKeyScript_of_solver hsolver
  have hhave : keystore.haveKey (crypto.getID pubkey) = true := by
    unfold extractDestination at hmine
    rw [hsolver] at hmine
    exact hmine
  obtain ⟨vchSig, hsigned, hsign⟩ := sign1_of_pubkey hunlocked hsigns hhave hash
  have hlength := hsigned.length_le
  refine ⟨[vchSig], ⟨.pubkey, by simp, ?_⟩, hscript.length_le, by simp, by simpa using hlength, ?_⟩
  · unfold SigningKeyStore.solver
    rw [hsolver]
    dsimp only
    rw [if_neg hhash]
    have harg : arg [pubkey] 0 = pubkey := rfl
    rw [harg, hsign]
    simp [pushAll]
  · intro check htype hcheck
    have hne := ne_of_canonical hsigned.canonical hsigned.key
    exact hscript.accepts (Nat.lt_of_le_of_lt hlength (by decide)) hne (hsigned.checkPair htype hcheck)

/-- A script for the hash of a public key gets a signature and the public key. -/
theorem unlocks_pubkeyhash (hunlocked : keystore.Unlocked crypto)
    (hsigns : ∀ id key, keystore.getKey id = some (some key) → crypto.Signs key) {vSolutions : List Bytes}
    (hsolver : Syscoin.solver script = some (.pubkeyhash, vSolutions))
    (hmine : keystore.isMineDest crypto (extractDestination crypto.getID script) = true) (hhash : hash ≠ 0) :
    ∃ values, Unlocks crypto keystore hash script values := by
  obtain ⟨bytes, hscript, rfl⟩ := pubKeyHashScript_of_solver hsolver
  have hhave : keystore.haveKey (keyIDOf bytes) = true := by
    unfold extractDestination at hmine
    rw [hsolver] at hmine
    exact hmine
  obtain ⟨key, vchSig, hkey, hid, hpub, hsigned, hne, hsign⟩ := sign1_of_haveKey hunlocked hsigns hhave hash
  have hbytes : toLE 20 (crypto.hash160 (crypto.getPubKey key)) = bytes := by
    rw [getID_of_canonical hkey.canonical] at hid
    exact eq_of_keyIDOf_eq (length_toLE 20 _) hscript.hash_length hid
  obtain ⟨header, rest, -, -, -, hpubLength⟩ := isCanonicalPubKey_header hkey.canonical
  have hlength := hsigned.length_le
  have hlimit : MAX_SCRIPT_ELEMENT_SIZE = 520 := rfl
  refine ⟨[crypto.getPubKey key, vchSig], ⟨.pubkeyhash, by simp, ?_⟩, hscript.length_le, by simp, ?_, ?_⟩
  · unfold SigningKeyStore.solver
    rw [hsolver]
    dsimp only
    rw [if_neg hhash]
    have harg : arg [bytes] 0 = bytes := rfl
    rw [harg, hsign, hpub]
    simp [pushAll]
  · intro vch hvch
    rcases List.mem_pair.mp hvch with rfl | rfl
    · omega
    · exact hlength
  · intro check htype hcheck
    have hlt : vchSig.length < 2 ^ 32 := Nat.lt_of_le_of_lt hlength (by decide)
    rw [hbytes] at hne
    exact hscript.accepts hbytes hlt hne (hsigned.checkPair htype hcheck)

/-- A multisignature of keys that are all there gets the signatures of the first ones. -/
theorem unlocks_multisig (hunlocked : keystore.Unlocked crypto)
    (hsigns : ∀ id key, keystore.getKey id = some (some key) → crypto.Signs key) {vSolutions : List Bytes}
    (hsolver : Syscoin.solver script = some (.multisig, vSolutions))
    (hmine : (keystore.toCKeyStore crypto).haveKeys crypto.getID vSolutions.tail.dropLast =
      vSolutions.tail.dropLast.length) :
    ∃ values, Unlocks crypto keystore hash script values := by
  obtain ⟨opRequired, keys, pushes, opKeys, hscript, rfl⟩ := multiSigScript_of_solver hsolver
  obtain ⟨-, hmax⟩ := decodeOP_N_bounds hscript.required.1 hscript.required.2
  have hle := hscript.required_le
  have hkeys : ([UInt8.ofNat (decodeOP_N opRequired)] :: (keys ++ [[UInt8.ofNat (decodeOP_N opKeys)]])).tail.dropLast =
      keys := List.dropLast_concat
  rw [hkeys] at hmine
  have hhave : ∀ key ∈ keys, keystore.haveKey (crypto.getID key) = true := List.countP_eq_length.mp hmine
  -- the signatures, and the first ones of them
  have hsigned : ∀ key, ∃ vchSig, key ∈ keys → SignedBy crypto hash key vchSig ∧
      ∀ scriptSigRet, keystore.sign1 crypto (crypto.getID key) hash SIGHASH_ALL.toNat scriptSigRet =
        (true, scriptSigRet ++ pushVch vchSig) := by
    intro key
    by_cases hmem : key ∈ keys
    · obtain ⟨vchSig, h⟩ := sign1_of_pubkey hunlocked hsigns (hhave key hmem) hash
      exact ⟨vchSig, fun _ => h⟩
    · exact ⟨[], fun h => absurd h hmem⟩
  choose sigOf hsigOf using hsigned
  let sigs := (keys.take (decodeOP_N opRequired)).map sigOf
  have hlength : sigs.length = decodeOP_N opRequired := by
    rw [List.length_map, List.length_take, Nat.min_eq_left hle]
  have hmem : ∀ vchSig ∈ sigs, ∃ key ∈ keys, SignedBy crypto hash key vchSig := by
    intro vchSig hvch
    obtain ⟨key, hkey, rfl⟩ := List.mem_map.mp hvch
    have hin := List.mem_of_mem_take hkey
    exact ⟨key, hin, (hsigOf key hin).1⟩
  refine ⟨sigs.reverse ++ [[]], ⟨.multisig, by simp, ?_⟩, hscript.length_le, ?_, ?_, ?_⟩
  · have hrequired : (UInt8.ofNat (decodeOP_N opRequired)).toNat = decodeOP_N opRequired :=
      UInt8.toNat_ofNat_of_lt' (by omega : decodeOP_N opRequired < 256)
    have hloop : keystore.signEach crypto hash SIGHASH_ALL.toNat (decodeOP_N opRequired) keys 0 [OP_0] = _ :=
      signEach_eq fun key hkey => (hsigOf key hkey).2
    rw [Nat.sub_zero, Nat.zero_add, List.length_take, Nat.min_eq_left hle] at hloop
    have hpush : pushAll (sigs.reverse ++ [[]]) = [OP_0] ++ sigs.flatMap pushVch := by
      unfold pushAll
      rw [List.reverse_append, List.reverse_reverse]
      rfl
    unfold SigningKeyStore.solver
    rw [hsolver]
    dsimp only
    unfold SigningKeyStore.signN
    dsimp only
    rw [hkeys, List.head?_cons, Option.getD_some, List.head?_cons, Option.getD_some, hrequired, hloop, hpush]
    simp [sigs]
  · simp [hlength]
    omega
  · intro vch hvch
    rcases List.mem_append.mp hvch with hvch | hvch
    · obtain ⟨key, -, h⟩ := hmem vch (List.mem_reverse.mp hvch)
      exact h.length_le
    · rw [List.mem_singleton.mp hvch]
      exact Nat.zero_le _
  · intro check htype hcheck
    obtain ⟨g, fSuccess, heval, hstack, hiff⟩ := evalScript_multiSig crypto.toCrypto check hscript hlength 0 []
    refine ⟨g, heval, ?_⟩
    rw [hstack, topIsTrue_vchBool, hiff]
    -- no signature is one of the keys, so that the script is signed as it is
    have hcode : sigs.reverse.foldl (fun scriptCode vchSig => findAndDelete (pushVch vchSig) scriptCode) script =
        script := by
      have hdelete : ∀ vchSig ∈ sigs.reverse, findAndDelete (pushVch vchSig) script = script := by
        intro vchSig hvch
        obtain ⟨_, -, h⟩ := hmem vchSig (List.mem_reverse.mp hvch)
        refine findAndDelete_multiSig hscript (Nat.lt_of_le_of_lt h.length_le (by decide)) fun hin => ?_
        exact ne_of_canonical h.canonical (hsigOf vchSig hin).1.key rfl
      revert hdelete
      generalize sigs.reverse = l
      intro hdelete
      induction l with
      | nil => rfl
      | cons vchSig l ih =>
        obtain ⟨hfirst, htail⟩ := List.forall_mem_cons.mp hdelete
        rw [List.foldl_cons, hfirst]
        exact ih htail
    rw [hcode]
    refine List.sublistForall₂_iff.mpr ⟨keys.take (decodeOP_N opRequired), ?_, List.take_sublist _ _⟩
    refine List.forall₂_map_left_iff.mpr (List.forall₂_same.mpr ?_)
    intro key hkey
    exact (hsigOf key (List.mem_of_mem_take hkey)).1.checkPair htype hcheck

/-- **What is mine and not behind a hash is unlocked.** -/
theorem unlocks_of_isMineWithin (hunlocked : keystore.Unlocked crypto)
    (hsigns : ∀ id key, keystore.getKey id = some (some key) → crypto.Signs key) {depth : Nat}
    (hmine : (keystore.toCKeyStore crypto).isMineWithin crypto.getID depth script = true)
    (hbare : isPayToScriptHash script = false) (hhash : hash ≠ 0) : ∃ values, Unlocks crypto keystore hash script values := by
  cases depth with
  | zero => cases hmine
  | succ depth =>
    unfold CKeyStore.isMineWithin at hmine
    cases hsolver : Syscoin.solver script with
    | none =>
      rw [hsolver] at hmine
      cases hmine
    | some solved =>
      obtain ⟨type, vSolutions⟩ := solved
      rw [hsolver] at hmine
      cases type with
      | pubkey => exact unlocks_pubkey hunlocked hsigns hsolver hmine hhash
      | pubkeyhash => exact unlocks_pubkeyhash hunlocked hsigns hsolver hmine hhash
      | multisig => exact unlocks_multisig hunlocked hsigns hsolver (of_decide_eq_true hmine)
      | scripthash =>
        cases solved_of_solver hsolver with
        | scripthash hp2sh =>
          rw [hbare] at hp2sh
          cases hp2sh

/-! ## Behind a script hash -/

theorem toLE_fromLE {vch : Bytes} {width : Nat} (hlength : vch.length = width) : toLE width (fromLE vch) = vch := by
  refine fromLE_inj ((length_toLE width _).trans hlength.symm) ?_
  rw [fromLE_toLE, ← hlength]
  exact Nat.mod_eq_of_lt (fromLE_lt vch)

/-- A pay-to-script-hash script is the one that pays to its hash. -/
theorem eq_setDestination_of_p2sh (h : isPayToScriptHash script = true) :
    setDestination (.scriptID (scriptIDOf ((script.drop 2).take 20))) = script := by
  obtain ⟨hlength, hfirst, hsecond, hlast⟩ := of_decide_eq_true h
  cases script with
  | nil => cases hlength
  | cons first script =>
    cases script with
    | nil => cases hlength
    | cons second rest =>
      have hrest : rest.length = 21 := by
        rw [List.length_cons, List.length_cons] at hlength
        omega
      have hsplit : rest = rest.take 20 ++ rest.drop 20 := (List.take_append_drop 20 rest).symm
      have hend : rest.drop 20 = [OP_EQUAL] := by
        obtain ⟨last, hdrop⟩ := List.length_eq_one_iff.mp (by rw [List.length_drop, hrest] : (rest.drop 20).length = 1)
        have hget : rest[20]? = some last := by
          have hhead : (rest.drop 20)[0]? = some last := by rw [hdrop]; rfl
          rwa [List.getElem?_drop] at hhead
        rw [List.getD_cons_succ, List.getD_cons_succ, List.getD_eq_getElem?_getD, hget] at hlast
        rw [hdrop, ← hlast]
        rfl
      have hbytes : toLE 20 (fromLE ((rest.take 20).take 20)) = rest.take 20 := by
        rw [List.take_take, Nat.min_self]
        exact toLE_fromLE (by rw [List.length_take, hrest]; rfl)
      rw [List.getD_cons_zero] at hfirst
      rw [List.getD_cons_succ, List.getD_cons_zero] at hsecond
      show OP_HASH160 :: (20 :: toLE 20 (fromLE ((rest.take 20).take 20)) ++ [OP_EQUAL]) = first :: second :: rest
      rw [hbytes, hfirst, hsecond, List.cons_append, ← hend, ← hsplit]

theorem solver_of_p2sh (h : isPayToScriptHash script = true) :
    Syscoin.solver script = some (.scripthash, [(script.drop 2).take 20]) := by
  unfold Syscoin.solver
  dsimp only
  rw [if_pos h]

theorem behind_of_p2sh (h : isPayToScriptHash script = true) :
    keystore.behind script = keystore.getCScript (scriptIDOf ((script.drop 2).take 20)) := by
  unfold SigningKeyStore.behind
  rw [solver_of_p2sh h]
  rfl

theorem behind_of_bare (h : isPayToScriptHash script = false) : keystore.behind script = none := by
  unfold SigningKeyStore.behind
  cases hsolver : Syscoin.solver script with
  | none => rfl
  | some solved =>
    cases solved_of_solver hsolver with
    | scripthash hp2sh =>
      rw [h] at hp2sh
      cases hp2sh
    | pubkey => rfl
    | pubkeyhash => rfl
    | multisig => rfl

/-- An element that is too long ends the unlocking script. -/
theorem verifies_oversize {crypto : Crypto} {check : Checker} {values : Stack} {scriptPubKey : CScript}
    (hsize : MAX_SCRIPT_ELEMENT_SIZE < script.length) (hlength : script.length ≤ 10000)
    (hvalues : ∀ vch ∈ values, vch.length ≤ MAX_SCRIPT_ELEMENT_SIZE) :
    verifies crypto check (pushAll (script :: values)) scriptPubKey = false := by
  refine Bool.eq_false_iff.mpr fun hverifies => ?_
  obtain ⟨f, -, heval, -⟩ := verifies_iff.mp hverifies
  obtain ⟨-, hexec, -⟩ := evalScript_ok_iff.mp heval
  have hpushes : Pushes (script :: values).reverse (pushAll (script :: values)) := by
    refine pushes_flatMap fun vch hvch => ?_
    rcases List.mem_cons.mp (List.mem_reverse.mp hvch) with rfl | hvch
    · exact Nat.lt_of_le_of_lt hlength (by decide)
    · exact Nat.lt_of_le_of_lt (hvalues vch hvch) (by decide)
  rw [Frame.start_eq (List.append_nil _).symm] at hexec
  obtain ⟨hfits, -⟩ := (exec_pushes rfl hpushes (Nat.zero_le _)).mp hexec
  exact absurd (hfits script (by simp)) (Nat.not_le.mpr hsize)

/-! ## The recursion of `IsMine` -/

/-- **`IsMine` returns where following the stored scripts ends.** -/
theorem isMineReturns_iff_ends :
    (∃ b, keystore.IsMineReturns crypto script b) ↔ Ends keystore.behind script := by
  constructor
  · rintro ⟨b, hreturns⟩
    induction hreturns with
    | nonstandard hsolver => exact .stop (by simp [SigningKeyStore.behind, hsolver])
    | pubkey hsolver => exact .stop (by simp [SigningKeyStore.behind, hsolver])
    | pubkeyhash hsolver => exact .stop (by simp [SigningKeyStore.behind, hsolver])
    | multisig hsolver => exact .stop (by simp [SigningKeyStore.behind, hsolver])
    | unknown hsolver hscript => exact .stop (by simp [SigningKeyStore.behind, hsolver, hscript])
    | scripthash hsolver hscript _ ih => exact .step (by simp [SigningKeyStore.behind, hsolver, hscript]) ih
  · intro hends
    induction hends with
    | @stop script hstop =>
      cases hsolver : Syscoin.solver script with
      | none => exact ⟨_, .nonstandard hsolver⟩
      | some solved =>
        obtain ⟨type, vSolutions⟩ := solved
        cases type with
        | pubkey => exact ⟨_, .pubkey hsolver⟩
        | pubkeyhash => exact ⟨_, .pubkeyhash hsolver⟩
        | multisig => exact ⟨_, .multisig hsolver⟩
        | scripthash =>
          unfold SigningKeyStore.behind at hstop
          rw [hsolver] at hstop
          exact ⟨_, .unknown hsolver hstop⟩
    | @step script subscript hstep _ ih =>
      obtain ⟨b, hrest⟩ := ih
      unfold SigningKeyStore.behind at hstep
      split at hstep
      · rename_i vSolutions hsolver
        exact ⟨b, .scripthash hsolver hstep hrest⟩
      · cases hstep

/-- What `IsMine` returns is found within enough scripts. -/
theorem isMineWithin_of_returns {b : Bool} (hreturns : keystore.IsMineReturns crypto script b) {depth : Nat}
    (hdepth : EndsWithin keystore.behind depth script) :
    (keystore.toCKeyStore crypto).isMineWithin crypto.getID (depth + 1) script = b := by
  induction hreturns generalizing depth with
  | nonstandard hsolver => rw [CKeyStore.isMineWithin, hsolver]
  | pubkey hsolver =>
    rw [CKeyStore.isMineWithin, hsolver]
    rfl
  | pubkeyhash hsolver =>
    rw [CKeyStore.isMineWithin, hsolver]
    rfl
  | multisig hsolver =>
    rw [CKeyStore.isMineWithin, hsolver]
  | unknown hsolver hscript =>
    rw [CKeyStore.isMineWithin, hsolver]
    dsimp only
    rw [show (keystore.toCKeyStore crypto).getCScript _ = none from hscript]
  | @scripthash script subscript vSolutions b hsolver hscript _ ih =>
    have hbehind : keystore.behind script = some subscript := by simp [SigningKeyStore.behind, hsolver, hscript]
    cases depth with
    | zero => cases hbehind.symm.trans hdepth
    | succ depth =>
      rw [CKeyStore.isMineWithin, hsolver]
      dsimp only
      rw [show (keystore.toCKeyStore crypto).getCScript _ = some subscript from hscript]
      exact ih (hdepth subscript hbehind)

/-- What stands behind a hash is stored. -/
theorem mem_of_behind {a b : CScript} (h : keystore.behind a = some b) : b ∈ keystore.mapScripts.map Prod.snd := by
  unfold SigningKeyStore.behind at h
  split at h
  · exact List.mem_map_of_mem (mem_of_lookup h)
  · cases h

/-- **The bound on the recursion is none**, where the recursion returns. -/
theorem isMine_of_returns {b : Bool} (hreturns : keystore.IsMineReturns crypto script b) :
    keystore.isMine crypto script = b := by
  have hends := isMineReturns_iff_ends.mp ⟨b, hreturns⟩
  have hdepth : EndsWithin keystore.behind (keystore.mapScripts.map Prod.snd).length script := by
    refine hends.within fun c hreach => ?_
    cases hreach with
    | single hleads => exact mem_of_behind hleads
    | tail _ hleads => exact mem_of_behind hleads
  rw [List.length_map] at hdepth
  exact isMineWithin_of_returns hreturns hdepth

/-! ## Spending what is mine -/

/-- **What can be signed for.** The script that stands behind a hash, if one does, stands behind no further hash, and is
    not longer than an element of the stack may be. -/
def SigningKeyStore.Signable (keystore : SigningKeyStore) (scriptPubKey : CScript) : Prop :=
  ∀ subscript ∈ keystore.behind scriptPubKey,
    isPayToScriptHash subscript = false ∧ subscript.length ≤ MAX_SCRIPT_ELEMENT_SIZE

instance (keystore : SigningKeyStore) (scriptPubKey : CScript) : Decidable (keystore.Signable scriptPubKey) :=
  inferInstanceAs (Decidable (∀ subscript ∈ keystore.behind scriptPubKey, _))

section Spend

variable {txTo : CTransaction} {nIn : Nat}

/-- The flags that `SignSignature` verifies with. -/
theorem fP2SH_testSolution : (⟨txTo, nIn, SCRIPT_VERIFY_P2SH ||| SCRIPT_VERIFY_STRICTENC, 0⟩ : Checker).fP2SH = true := by
  show decide ((SCRIPT_VERIFY_P2SH ||| SCRIPT_VERIFY_STRICTENC) &&& SCRIPT_VERIFY_P2SH ≠ 0) = true
  decide

/-- A script that is not behind a hash is signed for. -/
theorem signSignature_bare (hin : nIn < txTo.vin.length) (hbare : isPayToScriptHash script = false) {values : Stack}
    (hunlocks : Unlocks crypto keystore (signatureHash crypto.hash script txTo nIn SIGHASH_ALL.toNat) script values) :
    ∃ txTo', keystore.signSignature crypto script txTo nIn SIGHASH_ALL.toNat = some (true, txTo') := by
  obtain ⟨type, htype, hsolved⟩ := hunlocks.solved
  let txTo' := txTo.setScriptSig nIn (pushAll values)
  have haccepts := hunlocks.accepts ⟨txTo', nIn, SCRIPT_VERIFY_P2SH ||| SCRIPT_VERIFY_STRICTENC, 0⟩ rfl
    (signatureHash_setScriptSig _ _ _ _ _ _ _)
  have htest : SigningKeyStore.testSolution crypto script (pushAll values) txTo' nIn = true :=
    (verifies_bare_iff (hunlocks.length.trans (by decide)) hunlocks.size hbare).mpr haccepts
  refine ⟨txTo', ?_⟩
  unfold SigningKeyStore.signSignature
  rw [if_pos hin]
  dsimp only
  rw [hsolved]
  cases type with
  | scripthash => exact absurd rfl htype
  | pubkey => simp only [htest, txTo']
  | pubkeyhash => simp only [htest, txTo']
  | multisig => simp only [htest, txTo']

/-- For a script hash `Solver` returns the stored script. -/
theorem solver_of_behind {subscript : CScript} (hp2sh : isPayToScriptHash script = true)
    (hbehind : keystore.behind script = some subscript) (hash : Uint256) (nHashType : Int) :
    keystore.solver crypto script hash nHashType = (true, subscript, some .scripthash) := by
  have hscript : keystore.getCScript (scriptIDOf (arg [(script.drop 2).take 20] 0)) = some subscript :=
    (behind_of_p2sh hp2sh).symm.trans hbehind
  unfold SigningKeyStore.solver
  rw [solver_of_p2sh hp2sh]
  dsimp only
  rw [hscript]

/-- **Behind a hash**, what is solved is signed for iff it fits on the stack. -/
theorem signSignature_p2sh (hin : nIn < txTo.vin.length) {subscript : CScript} (hp2sh : isPayToScriptHash script = true)
    (hbehind : keystore.behind script = some subscript)
    (hmatch : Matches crypto.toCrypto (scriptIDOf ((script.drop 2).take 20)) subscript) {values : Stack}
    (hunlocks : Unlocks crypto keystore (signatureHash crypto.hash subscript txTo nIn SIGHASH_ALL.toNat) subscript values) :
    ∃ txTo', keystore.signSignature crypto script txTo nIn SIGHASH_ALL.toNat =
      some (decide (subscript.length ≤ MAX_SCRIPT_ELEMENT_SIZE), txTo') := by
  obtain ⟨type, htype, hsolved⟩ := hunlocks.solved
  have hpush : pushAll values ++ pushVch subscript = pushAll (subscript :: values) := by
    unfold pushAll
    rw [List.reverse_cons, List.flatMap_append]
    simp
  let txTo' := (txTo.setScriptSig nIn subscript).setScriptSig nIn (pushAll (subscript :: values))
  -- the signature is for the stored script, whatever stands in the input
  have haccepts := hunlocks.accepts ⟨txTo', nIn, SCRIPT_VERIFY_P2SH ||| SCRIPT_VERIFY_STRICTENC, 0⟩ rfl
    ((signatureHash_setScriptSig _ _ _ _ _ _ _).trans (signatureHash_setScriptSig _ _ _ _ _ _ _))
  have htest : SigningKeyStore.testSolution crypto script (pushAll (subscript :: values)) txTo' nIn =
      decide (subscript.length ≤ MAX_SCRIPT_ELEMENT_SIZE) := by
    unfold SigningKeyStore.testSolution
    by_cases hsize : subscript.length ≤ MAX_SCRIPT_ELEMENT_SIZE
    · rw [decide_eq_true hsize]
      have hverifies := (verifies_scriptID_iff fP2SH_testSolution hmatch (hunlocks.length.trans (by decide))
        (List.forall_mem_cons.mpr ⟨hsize, hunlocks.size⟩)).mpr haccepts
      rwa [eq_setDestination_of_p2sh hp2sh] at hverifies
    · rw [decide_eq_false hsize]
      exact verifies_oversize (Nat.lt_of_not_le hsize) hunlocks.script_length hunlocks.size
  have htype' : ¬ some type = some TxOutType.scripthash := fun h => htype (Option.some.inj h)
  refine ⟨txTo', ?_⟩
  unfold SigningKeyStore.signSignature
  rw [if_pos hin]
  dsimp only
  rw [solver_of_behind hp2sh hbehind]
  dsimp only
  rw [signatureHash_setScriptSig, hsolved]
  simp only [ne_eq, htype', not_false_eq_true, and_self, decide_true, Bool.true_eq_false, if_false, hpush]
  rw [← htest]

/-- Behind two hashes nothing is signed. -/
theorem signSignature_nested (hin : nIn < txTo.vin.length) {subscript : CScript} (hp2sh : isPayToScriptHash script = true)
    (hbehind : keystore.behind script = some subscript) (hnested : isPayToScriptHash subscript = true) :
    ∃ txTo', keystore.signSignature crypto script txTo nIn SIGHASH_ALL.toNat = some (false, txTo') := by
  have hsecond : ∀ hash, ∃ fOk scriptSig,
      keystore.solver crypto subscript hash SIGHASH_ALL.toNat = (fOk, scriptSig, some .scripthash) := by
    intro hash
    cases hscript : keystore.behind subscript with
    | some script' => exact ⟨_, _, solver_of_behind hnested hscript hash _⟩
    | none =>
      rw [behind_of_p2sh hnested] at hscript
      have hnone : keystore.getCScript (scriptIDOf (arg [(subscript.drop 2).take 20] 0)) = none := hscript
      unfold SigningKeyStore.solver
      rw [solver_of_p2sh hnested]
      dsimp only
      rw [hnone]
      exact ⟨_, _, rfl⟩
  unfold SigningKeyStore.signSignature
  rw [if_pos hin]
  dsimp only
  rw [solver_of_behind hp2sh hbehind]
  dsimp only
  obtain ⟨fOk, scriptSig, hsolved⟩ := hsecond
    (signatureHash crypto.hash subscript (txTo.setScriptSig nIn subscript) nIn SIGHASH_ALL.toNat)
  rw [hsolved]
  simp

end Spend

end

/-! ## The stores -/

/-- Scripts that are added are filed under their hashes. -/
theorem scriptID_of_addCScript (crypto : SigningCrypto) (scripts : List CScript) :
    ∀ id script, (scripts.foldl (addCScript crypto) []).lookup id = some script → crypto.scriptID script = id := by
  have hall : ∀ (scripts : List CScript) (mapScripts : List (CScriptID × CScript)),
      (∀ entry ∈ mapScripts, crypto.scriptID entry.2 = entry.1) →
      ∀ entry ∈ scripts.foldl (addCScript crypto) mapScripts, crypto.scriptID entry.2 = entry.1 := by
    intro scripts
    induction scripts with
    | nil => exact fun _ h => h
    | cons script scripts ih =>
      intro mapScripts h
      apply ih
      intro entry hentry
      rcases mem_assign hentry with heq | hentry
      · rw [heq]
      · exact h entry hentry
  intro id script hlookup
  exact hall scripts [] (by simp) (id, script) (mem_of_lookup hlookup)

/-- **A wallet that is not locked** is an unlocked key store, whatever was added, encrypted, locked and unlocked before. -/
theorem unlocked_of_run {crypto : SigningCrypto} {keys : KeyCrypto} {added : CKeyID → Option CKey} {store : CCryptoKeyStore}
    (sound : keys.Sound) (run : KeyRun keys added store) (hopen : store.isLocked = false)
    (hpub : keys.getPubKey = crypto.getPubKey) (hid : keys.getID = crypto.getID) (scripts : List CScript) :
    (store.toSigningKeyStore keys (scripts.foldl (addCScript crypto) [])).Unlocked crypto where
  key := by
    intro id hhave
    have hinv := run.keysInv sound
    obtain ⟨key, hadded⟩ := Option.isSome_iff_exists.mp ((hinv.haveKey id).symm.trans hhave)
    refine ⟨key, ?_, ?_, ?_⟩
    · show store.getKey keys id = some (some key)
      rw [hinv.getKey sound hopen id, hadded]
      rfl
    · rw [← hpub]
      exact hinv.getPubKey hadded
    · rw [← hpub, ← hid]
      exact run.added_id hadded
  script := scriptID_of_addCScript crypto scripts

/-- **What is mine can be spent, if it is signable; and `IsMine` returns, if no circle is reached.** -/
theorem mine_spendable_iff {crypto : SigningCrypto} {keystore : SigningKeyStore} (hunlocked : keystore.Unlocked crypto)
    (hsigns : ∀ id key, keystore.getKey id = some (some key) → crypto.Signs key) (scriptPubKey : CScript) :
    ((∃ b, keystore.IsMineReturns crypto scriptPubKey b) ↔ ¬ Circles keystore.behind scriptPubKey) ∧
    (∀ b, keystore.IsMineReturns crypto scriptPubKey b → keystore.isMine crypto scriptPubKey = b) ∧
    (keystore.isMine crypto scriptPubKey = true → ∀ txTo nIn, nIn < txTo.vin.length →
      signatureHash crypto.hash scriptPubKey txTo nIn SIGHASH_ALL.toNat ≠ 0 →
      (∀ subscript ∈ keystore.behind scriptPubKey,
        signatureHash crypto.hash subscript txTo nIn SIGHASH_ALL.toNat ≠ 0) →
      ∃ txTo', keystore.signSignature crypto scriptPubKey txTo nIn SIGHASH_ALL.toNat =
        some (decide (keystore.Signable scriptPubKey), txTo')) := by
  refine ⟨isMineReturns_iff_ends.trans (ends_iff fun _ _ => mem_of_behind), fun _ => isMine_of_returns, ?_⟩
  intro hmine txTo nIn hin hhash hhash'
  by_cases hp2sh : isPayToScriptHash scriptPubKey = true
  · -- the script behind the hash is stored, and mine
    obtain ⟨subscript, hbehind, depth, hsub⟩ : ∃ subscript, keystore.behind scriptPubKey = some subscript ∧
        ∃ depth, (keystore.toCKeyStore crypto).isMineWithin crypto.getID depth subscript = true := by
      unfold SigningKeyStore.isMine CKeyStore.isMine at hmine
      rw [CKeyStore.isMineWithin, solver_of_p2sh hp2sh] at hmine
      dsimp only at hmine
      rw [behind_of_p2sh hp2sh]
      cases hscript : keystore.getCScript (scriptIDOf ((scriptPubKey.drop 2).take 20)) with
      | none =>
        rw [show (keystore.toCKeyStore crypto).getCScript (scriptIDOf (arg [(scriptPubKey.drop 2).take 20] 0)) = none
          from hscript] at hmine
        cases hmine
      | some subscript =>
        rw [show (keystore.toCKeyStore crypto).getCScript (scriptIDOf (arg [(scriptPubKey.drop 2).take 20] 0)) =
          some subscript from hscript] at hmine
        exact ⟨subscript, rfl, _, hmine⟩
    have hsignable : keystore.Signable scriptPubKey ↔
        isPayToScriptHash subscript = false ∧ subscript.length ≤ MAX_SCRIPT_ELEMENT_SIZE := by
      unfold SigningKeyStore.Signable
      rw [hbehind]
      simp
    by_cases hnested : isPayToScriptHash subscript = true
    · obtain ⟨txTo', hsign⟩ := signSignature_nested hin hp2sh hbehind hnested
      refine ⟨txTo', ?_⟩
      rw [hsign, decide_eq_false]
      rw [hsignable, hnested]
      simp
    · have hbare : isPayToScriptHash subscript = false := Bool.eq_false_iff.mpr hnested
      obtain ⟨values, hunlocks⟩ := unlocks_of_isMineWithin hunlocked hsigns hsub hbare (hhash' subscript hbehind)
      have hmatch : Matches crypto.toCrypto (scriptIDOf ((scriptPubKey.drop 2).take 20)) subscript := by
        rw [behind_of_p2sh hp2sh] at hbehind
        have hid := hunlocked.script _ _ hbehind
        unfold Matches
        rw [← hid]
        show toLE 20 (crypto.hash160 subscript) = toLE 20 (fromLE ((toLE 20 (crypto.hash160 subscript)).take 20))
        rw [List.take_of_length_le (length_toLE 20 _).le, toLE_fromLE (length_toLE 20 _)]
      obtain ⟨txTo', hsign⟩ := signSignature_p2sh hin hp2sh hbehind hmatch hunlocks
      refine ⟨txTo', ?_⟩
      rw [hsign]
      simp [hsignable, hbare]
  · have hbare : isPayToScriptHash scriptPubKey = false := Bool.eq_false_iff.mpr hp2sh
    obtain ⟨values, hunlocks⟩ := unlocks_of_isMineWithin hunlocked hsigns hmine hbare hhash
    obtain ⟨txTo', hsign⟩ := signSignature_bare hin hbare hunlocks
    refine ⟨txTo', ?_⟩
    have hsignable : keystore.Signable scriptPubKey := by
      unfold SigningKeyStore.Signable
      rw [behind_of_bare hbare]
      simp
    rw [hsign, decide_eq_true hsignable]

/-! ## Two hashes in a row -/

namespace NestedHash

theorem checkSecret_one : checkSecret (List.replicate 31 0 ++ [1]) := by decide

def key : CKey := ⟨List.replicate 31 0 ++ [1], true, by decide, checkSecret_one⟩

/-- The public key of the key. -/
def pubkey : Bytes := 2 :: List.replicate 31 0 ++ [1]

/-- The script that pays to the key, one that pays to the hash of that script, and one that pays to the hash of this. -/
def paysKey : CScript := pushVch pubkey ++ [OP_CHECKSIG]

def paysHash : CScript := setDestination (.scriptID ⟨2, by decide⟩)

def paysHashOfHash : CScript := setDestination (.scriptID ⟨3, by decide⟩)

/-- A signature, without its type. -/
def vchSig : Bytes := [0x30, 6, 2, 1, 1, 2, 1, 1]

/-- Three hashes, and zero for everything else. Every signature hash is one. -/
def crypto : SigningCrypto where
  ripemd160 _ := 0
  sha1 _ := 0
  sha256 _ := 0
  hash160 vch := if vch = pubkey then 1 else if vch = paysKey then 2 else if vch = paysHash then 3 else 0
  hash _ := 1
  verify _ _ sig := sig = vchSig
  getPubKey _ := pubkey
  sign _ _ := some vchSig

def keyID : CKeyID := ⟨1, by decide⟩

/-- A store with the key and both scripts. -/
def keystore : SigningKeyStore where
  haveKey id := id = keyID
  getKey id := if id = keyID then some (some key) else none
  getPubKey id := if id = keyID then some pubkey else none
  mapScripts := [(⟨2, by decide⟩, paysKey), (⟨3, by decide⟩, paysHash)]

theorem unlocked : keystore.Unlocked crypto where
  key := by
    intro id hhave
    cases of_decide_eq_true hhave
    exact ⟨key, rfl, rfl, by decide +kernel⟩
  script := by
    intro id script hscript
    have hmem : (id, script) ∈ keystore.mapScripts := mem_of_lookup hscript
    rcases List.mem_pair.mp hmem with heq | heq
    · cases heq
      decide +kernel
    · cases heq
      decide +kernel

theorem signs (key : CKey) : crypto.Signs key where
  canonical := by
    show isCanonicalPubKey pubkey = .ok ()
    decide +kernel
  sign := by
    intro hash
    have hverify : crypto.verify pubkey hash vchSig = true := decide_eq_true (rfl : vchSig = vchSig)
    refine ⟨vchSig, rfl, by decide +kernel, hverify, ?_⟩
    show vchSig ++ [SIGHASH_ALL] ≠ toLE 20 (crypto.hash160 pubkey)
    decide +kernel
  injective := by
    intro vch h
    by_contra hno
    have hne : ¬ vch = pubkey := hno
    have hother : crypto.hash160 vch = 0 ∨ crypto.hash160 vch = 2 ∨ crypto.hash160 vch = 3 := by
      show (if vch = pubkey then 1 else _) = 0 ∨ (if vch = pubkey then 1 else _) = 2 ∨ (if vch = pubkey then 1 else _) = 3
      rw [if_neg hne]
      split
      · exact .inr (.inl rfl)
      · split
        · exact .inr (.inr rfl)
        · exact .inl rfl
    have hpubkey : crypto.hash160 (crypto.getPubKey key) = 1 := rfl
    rw [hpubkey] at h
    rcases hother with h0 | h0 | h0 <;> rw [h0] at h <;> revert h <;> decide

/-- A transaction with one input. -/
def txTo : CTransaction := ⟨1, [⟨⟨0, 0⟩, [], 0⟩], [], 0, []⟩

/-- **Mine, and not signed for.** -/
theorem mine_unsigned :
    ¬ ∀ (crypto : SigningCrypto) (keystore : SigningKeyStore), keystore.Unlocked crypto →
      (∀ id key, keystore.getKey id = some (some key) → crypto.Signs key) → ∀ scriptPubKey,
        keystore.isMine crypto scriptPubKey = true → ∀ txTo nIn, nIn < txTo.vin.length →
        (∀ script, signatureHash crypto.hash script txTo nIn SIGHASH_ALL.toNat ≠ 0) →
        ∃ txTo', keystore.signSignature crypto scriptPubKey txTo nIn SIGHASH_ALL.toNat = some (true, txTo') := by
  intro h
  have hhash : ∀ script, signatureHash crypto.hash script txTo 0 SIGHASH_ALL.toNat ≠ 0 := by
    intro script
    have hone : signatureHash crypto.hash script txTo 0 SIGHASH_ALL.toNat = 1 := rfl
    rw [hone]
    decide
  have hbehind : keystore.behind paysHashOfHash = some paysHash := by decide +kernel
  obtain ⟨txTo', hsigned⟩ := h crypto keystore unlocked (fun _ key _ => signs key) paysHashOfHash (by decide +kernel)
    txTo 0 (by decide) hhash
  obtain ⟨txTo'', hunsigned⟩ : ∃ txTo', keystore.signSignature crypto paysHashOfHash txTo 0 SIGHASH_ALL.toNat =
      some (false, txTo') :=
    signSignature_nested (by decide) (isPayToScriptHash_setDestination _) hbehind (isPayToScriptHash_setDestination _)
  cases hsigned.symm.trans hunsigned

/-- The script behind one hash is signed for. -/
theorem one_hash_signed : ∃ txTo', keystore.signSignature crypto paysHash txTo 0 SIGHASH_ALL.toNat = some (true, txTo') := by
  obtain ⟨-, -, hspend⟩ := mine_spendable_iff unlocked (fun _ key _ => signs key) paysHash
  have hhash : ∀ script, signatureHash crypto.hash script txTo 0 SIGHASH_ALL.toNat ≠ 0 := by
    intro script
    have hone : signatureHash crypto.hash script txTo 0 SIGHASH_ALL.toNat = 1 := rfl
    rw [hone]
    decide
  obtain ⟨txTo', hsigned⟩ := hspend (by decide +kernel) txTo 0 (by decide) (hhash _) fun subscript _ => hhash subscript
  have hsignable : keystore.Signable paysHash := by decide +kernel
  rw [decide_eq_true hsignable] at hsigned
  exact ⟨txTo', hsigned⟩

end NestedHash

end Syscoin

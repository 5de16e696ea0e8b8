import Syscoin.Correctness.CoinsFormat

/-!
# `Correctness.ScriptCompressor` — which scripts are compressed, and that they come back

The recogniser accepts the scripts that its decoder makes (`compress_eq_none_iff`). All others are stored verbatim behind
their length, which shares an `unsigned int` with the numbers of the special forms: it wraps for scripts of four
gigabytes, and for no others (`script_compression_lossless_iff`).
-/

namespace Syscoin

open Lib Lib.Reader

namespace CScriptCompressor

variable {keys : KeyCodec} {script : CScript}

/-- The scripts with a form of their own. -/
inductive Special (keys : KeyCodec) : CScript → Prop
  | toKeyID {keyID : Bytes} (hlength : keyID.length = 20) :
      Special keys ([OP_DUP, OP_HASH160, 20] ++ (keyID ++ [OP_EQUALVERIFY, OP_CHECKSIG]))
  | toScriptID {scriptID : Bytes} (hlength : scriptID.length = 20) :
      Special keys ([OP_HASH160, 20] ++ (scriptID ++ [OP_EQUAL]))
  | toPubKey {pubkey : Bytes} (hlength : pubkey.length = 33) (hfirst : pubkey[0]? = some 2 ∨ pubkey[0]? = some 3) :
      Special keys ([33] ++ (pubkey ++ [OP_CHECKSIG]))
  | toFullPubKey {pubkey : Bytes} (hlength : pubkey.length = 65) (hfirst : pubkey[0]? = some 4)
      (hvalid : keys.isFullyValid pubkey = true) : Special keys ([65] ++ (pubkey ++ [OP_CHECKSIG]))

theorem isToKeyID_special {keyID : Bytes} (h : keyID.length = 20) :
    isToKeyID ([OP_DUP, OP_HASH160, 20] ++ (keyID ++ [OP_EQUALVERIFY, OP_CHECKSIG])) = some keyID := by
  rw [isToKeyID, if_pos]
  · simp [h]
  · simp [h]

theorem isToScriptID_special {scriptID : Bytes} (h : scriptID.length = 20) :
    isToScriptID ([OP_HASH160, 20] ++ (scriptID ++ [OP_EQUAL])) = some scriptID := by
  rw [isToScriptID, if_pos]
  · simp [h]
  · simp [h]

theorem isToPubKey_special {pubkey : Bytes} (h : pubkey.length = 33) (h0 : pubkey[0]? = some 2 ∨ pubkey[0]? = some 3) :
    isToPubKey keys ([33] ++ (pubkey ++ [OP_CHECKSIG])) = some pubkey := by
  have hsecond : ([33] ++ (pubkey ++ [OP_CHECKSIG]))[1]? = pubkey[0]? := by
    rw [List.singleton_append, List.getElem?_cons_succ, List.getElem?_append_left (by omega)]
  rw [isToPubKey, hsecond, if_pos]
  · simp [h]
  · exact ⟨by simp [h], rfl, by simp [h], h0⟩

theorem isToPubKey_full {pubkey : Bytes} (h : pubkey.length = 65) (h0 : pubkey[0]? = some 4)
    (hvalid : keys.isFullyValid pubkey = true) : isToPubKey keys ([65] ++ (pubkey ++ [OP_CHECKSIG])) = some pubkey := by
  have hsecond : ([65] ++ (pubkey ++ [OP_CHECKSIG]))[1]? = pubkey[0]? := by
    rw [List.singleton_append, List.getElem?_cons_succ, List.getElem?_append_left (by omega)]
  have hslice : (([65] ++ (pubkey ++ [OP_CHECKSIG])).drop 1).take 65 = pubkey := by simp [h]
  rw [isToPubKey, hsecond, hslice, if_neg, if_pos]
  · exact if_pos hvalid
  · exact ⟨by simp [h], rfl, by simp [h], h0⟩
  · simp [h]

/-- **What is compressed is special.** -/
theorem compress_eq_none_iff : compress keys script = none ↔ ¬ Special keys script := by
  constructor
  · intro hnone hspecial
    unfold compress at hnone
    cases hspecial with
    | toKeyID hlength =>
      rw [isToKeyID_special hlength] at hnone
      cases hnone
    | toScriptID hlength =>
      rw [isToScriptID_special hlength] at hnone
      split at hnone <;> cases hnone
    | toPubKey hlength hfirst =>
      rw [isToPubKey_special hlength hfirst] at hnone
      split at hnone
      · cases hnone
      · split at hnone
        · cases hnone
        · rw [Option.bind_some] at hnone
          rcases hfirst with h2 | h3
          · rw [(compressKey_short hlength (.inl rfl) h2).1] at hnone
            cases hnone
          · rw [(compressKey_short hlength (.inr rfl) h3).1] at hnone
            cases hnone
    | toFullPubKey hlength hfirst hvalid =>
      rw [isToPubKey_full hlength hfirst hvalid] at hnone
      split at hnone
      · cases hnone
      · split at hnone
        · cases hnone
        · rw [Option.bind_some, compressKey_long hfirst] at hnone
          cases hnone
  · intro hplain
    unfold compress
    cases hkey : isToKeyID script with
    | some keyID =>
      obtain ⟨hlength, rfl⟩ := isToKeyID_eq_some hkey
      exact absurd (.toKeyID hlength) hplain
    | none =>
      cases hscript : isToScriptID script with
      | some scriptID =>
        obtain ⟨hlength, rfl⟩ := isToScriptID_eq_some hscript
        exact absurd (.toScriptID hlength) hplain
      | none =>
        cases hpub : isToPubKey keys script with
        | none => rfl
        | some pubkey =>
          rcases isToPubKey_eq_some hpub with ⟨hlength, hfirst, rfl⟩ | ⟨hlength, hfirst, hvalid, rfl⟩
          · exact absurd (.toPubKey hlength hfirst) hplain
          · exact absurd (.toFullPubKey hlength hfirst hvalid) hplain

/-- Special scripts are short. -/
theorem Special.length_le (h : Special keys script) : script.length ≤ 67 := by
  cases h with
  | toKeyID hlength => simp [hlength]
  | toScriptID hlength => simp [hlength]
  | toPubKey hlength => simp [hlength]
  | toFullPubKey hlength => simp [hlength]

/-! ## The length and the numbers -/

/-- What is written comes back, in front of any rest and whatever is read into, and has the announced length. -/
def RoundTrips (keys : KeyCodec) (script : CScript) : Prop :=
  ∃ s, serializeUint keys script = .ok s ∧ s.length = getSerializeSizeUint keys script ∧
    ∀ old, Reads (unserializeUint keys old) s script

theorem nSize_le (script : CScript) : nSize script ≤ IntType.uint32.max := by
  have hlt : nSize script < 2 ^ 32 := Nat.mod_lt _ (by decide)
  exact Nat.le_pred_of_lt hlt

theorem serializeUint_verbatim (h : ¬ Special keys script) :
    serializeUint keys script = .ok (writeVarInt (nSize script) ++ script) := by
  rw [serializeUint, compress_eq_none_iff.mpr h, writeVarIntAs_eq _ (nSize_le script)]
  rfl

/-- As long as it does not wrap, nothing tells the `unsigned int` from a number. -/
theorem unserializeUint_eq {old : CScript} {s rest : Bytes} {n : Nat} (hread : readVarInt s = some (n, rest))
    (hmax : n ≤ IntType.uint32.max) : unserializeUint keys old s = unserialize keys old s := by
  show (readVarIntAs .uint32 s).bind _ = (readVarInt s).bind _
  rw [readVarIntAs_eq _ hread hmax, hread]
  rfl

/-- The number in front of a script that is written, and of what follows it. -/
theorem readVarInt_serialize (hkeys : keys.Inverts) (h : script.length + nSpecialScripts < 2 ^ 32) (rest : Bytes) :
    ∃ n t, readVarInt (serialize keys script ++ rest) = some (n, t) ∧ n ≤ IntType.uint32.max := by
  unfold serialize
  cases hcompr : compress keys script with
  | some compr =>
    obtain ⟨n, vch, hlt, rfl, -, -⟩ := compress_spec hkeys hcompr
    have hsmall : n ≤ 0x7f := Nat.le_trans (Nat.le_of_lt hlt) (by decide)
    refine ⟨n, vch ++ rest, ?_, hsmall.trans (by decide)⟩
    exact (readVarIntLoop_low (vch ++ rest) (Nat.lt_succ_of_le hsmall)).trans (by rw [Nat.zero_mul, Nat.zero_add])
  | none =>
    refine ⟨_, script ++ rest, ?_, Nat.le_pred_of_lt h⟩
    rw [List.append_assoc]
    exact reads_readVarInt _ _

theorem roundTrips_of_short (hkeys : keys.Inverts) (h : script.length + nSpecialScripts < 2 ^ 32) :
    RoundTrips keys script := by
  have hsize : nSize script = script.length + nSpecialScripts := Nat.mod_eq_of_lt h
  refine ⟨serialize keys script, ?_, ?_, ?_⟩
  · unfold serializeUint serialize
    cases compress keys script with
    | some compr => rfl
    | none =>
      dsimp only
      rw [writeVarIntAs_eq _ (nSize_le script), hsize]
      rfl
  · rw [length_serialize]
    unfold getSerializeSizeUint getSerializeSize
    cases compress keys script with
    | some compr => rfl
    | none =>
      -- five bytes are enough for the number
      have hfive : getSizeOfVarInt (script.length + nSpecialScripts) ≤ 5 :=
        varIntSizeLoop_le (k := 4) (h.trans (by decide))
      dsimp only
      rw [getSizeOfVarIntAs_eq _ (nSize_le script), hsize, Nat.mod_eq_of_lt]
      have hsix : nSpecialScripts = 6 := rfl
      omega
  · intro old rest
    obtain ⟨n, t, hread, hmax⟩ := readVarInt_serialize hkeys h rest
    rw [unserializeUint_eq hread hmax]
    exact reads_unserialize hkeys script old rest

/-- Where the number wraps, bytes of the script are left over. -/
theorem length_lt_of_roundTrips (h : RoundTrips keys script) : script.length + nSpecialScripts < 2 ^ 32 := by
  by_contra hlong
  have hsix : nSpecialScripts = 6 := rfl
  have hplain : ¬ Special keys script := fun hspecial => by
    have := hspecial.length_le
    omega
  have hwraps : nSize script + 2 ^ 32 ≤ script.length + nSpecialScripts := by
    unfold nSize
    omega
  obtain ⟨s, hs, -, hreads⟩ := h
  rw [serializeUint_verbatim hplain] at hs
  cases hs
  have hread := hreads [] []
  rw [List.append_nil] at hread
  have hnumber := reads_readVarIntAs .uint32 (nSize_le script) script
  have hrest : (if (nSize script : Int).toNat < nSpecialScripts then
      take (getSpecialSize (nSize script : Int).toNat) >>= fun vch =>
        pure ((decompress keys (nSize script : Int).toNat vch).getD [])
      else take ((nSize script : Int).toNat - nSpecialScripts) : Reader UInt8 CScript) script = some (script, []) := by
    rw [← hread]
    show _ = (readVarIntAs .uint32 _).bind _
    rw [hnumber]
    rfl
  rw [Int.toNat_natCast] at hrest
  have hshort : ∀ {n : Nat} {vch : Bytes}, take n script = some (vch, []) → script.length ≤ n := by
    intro n vch htake
    unfold take at htake
    split at htake
    · cases htake
    · exact List.drop_eq_nil_iff.mp (Prod.mk.inj (Option.some.inj htake)).2
  split at hrest
  · rename_i hspecial
    obtain ⟨⟨vch, t⟩, htake, heq⟩ := Option.bind_eq_some_iff.mp hrest
    obtain rfl : t = [] := (Prod.mk.inj (Option.some.inj heq)).2
    have hlength := hshort htake
    have hsize : getSpecialSize (nSize script) ≤ 32 := by
      unfold getSpecialSize
      split
      · decide
      · split <;> decide
    omega
  · have := hshort hrest
    omega

/-- **Script compression is lossless** for the scripts whose length, with the numbers of the special forms, is an
    `unsigned int`: exactly these come back from what was written. A script without a special form is stored verbatim. -/
theorem script_compression_lossless_iff (hkeys : keys.Inverts) (script : CScript) :
    (RoundTrips keys script ↔ script.length + nSpecialScripts < 2 ^ 32) ∧
      (¬ Special keys script → script.length + nSpecialScripts < 2 ^ 32 →
        serializeUint keys script = .ok (writeVarInt (script.length + nSpecialScripts) ++ script)) := by
  refine ⟨⟨length_lt_of_roundTrips, roundTrips_of_short hkeys⟩, fun hplain hlength => ?_⟩
  have hsize : nSize script = script.length + nSpecialScripts := Nat.mod_eq_of_lt hlength
  rw [serializeUint_verbatim hplain, hsize]

end CScriptCompressor

namespace Cakenet

/-- Four gigabytes less the six special forms. -/
def longScript : CScript := List.replicate (2 ^ 32 - 6) 0

/-- The number of the long script is that of a key hash. -/
theorem longScript_lost : generatorKeys.Inverts ∧ ¬ CScriptCompressor.RoundTrips generatorKeys longScript := by
  refine ⟨generatorKeys_inverts, fun h => ?_⟩
  have hlength : longScript.length = 2 ^ 32 - 6 := List.length_replicate
  have hsix : CScriptCompressor.nSpecialScripts = 6 := rfl
  have := CScriptCompressor.length_lt_of_roundTrips h
  omega

/-- A script that pays to a key, and the same one with another last byte. -/
theorem generator_scripts :
    CScriptCompressor.RoundTrips generatorKeys toGenerator.scriptPubKey ∧
      CScriptCompressor.serializeUint generatorKeys ([65] ++ (generator ++ [OP_CHECKSIGVERIFY])) =
        .ok (writeVarInt 73 ++ ([65] ++ (generator ++ [OP_CHECKSIGVERIFY]))) := by
  have hplain : CScriptCompressor.compress generatorKeys ([65] ++ (generator ++ [OP_CHECKSIGVERIFY])) = none := by
    decide +kernel
  exact ⟨(CScriptCompressor.script_compression_lossless_iff generatorKeys_inverts _).1.mpr (by decide),
    (CScriptCompressor.script_compression_lossless_iff generatorKeys_inverts _).2
      (CScriptCompressor.compress_eq_none_iff.mp hplain) (by decide)⟩

end Cakenet

end Syscoin

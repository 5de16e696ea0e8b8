import Syscoin.Lib.Access
import Syscoin.Lib.TwosComplement
import Syscoin.Script.SignatureHash

/-!
# `Correctness.CanonicalSignature` — what `IsCanonicalSignature` accepts

The two length bytes lead to the fields behind them. Once they add up to the length of the signature, it is the header,
two integers with their types and lengths, and the hash type (`eq_frame`), and the integers are checked as
`Lib.Trimmed` says. Up to there no byte outside the signature has been looked at.
-/

namespace Syscoin

open Lib

section CanonicalSignature

variable {vchSig : Bytes} {pos n : Nat}

theorem byteAt_ok_iff {vch : Bytes} {i : Nat} {b : UInt8} : byteAt vch i = .ok b ↔ vch[i]? = some b := by
  unfold byteAt
  cases vch[i]? with
  | none => simp
  | some c => simp

theorem byteAt_inside {vch : Bytes} {i : Nat} (h : i < vch.length) : Except.Throws (· ≠ Stop.fault) (byteAt vch i) := by
  have hok := byteAt_ok_iff.mpr (List.getElem?_eq_getElem h)
  rw [hok]
  exact .of_ok

theorem and_sign_eq_zero_iff (b : UInt8) : b &&& 0x80 = 0 ↔ b.toNat < 128 := by
  have hbit : (b &&& 0x80).toNat = (b.toNat.testBit 7).toNat * 2 ^ 7 := by
    rw [UInt8.toNat_and]
    exact Nat.and_two_pow b.toNat 7
  have hb := b.toNat_lt
  rw [← UInt8.toNat_inj, hbit, Nat.testBit_eq_decide_div_mod_eq]
  by_cases h : b.toNat / 2 ^ 7 % 2 = 1
  · simp only [h, decide_true]
    constructor
    · intro habs
      cases habs
    · omega
  · simp only [h, decide_false]
    constructor
    · omega
    · intro _
      rfl

/-- The hash types that are accepted. -/
theorem hashType_iff (nHashType : UInt8) : SIGHASH_ALL ≤ nHashType ∧ nHashType ≤ SIGHASH_SINGLE ↔
    nHashType = SIGHASH_ALL ∨ nHashType = SIGHASH_NONE ∨ nHashType = SIGHASH_SINGLE := by
  simp only [UInt8.le_iff_toNat_le, ← UInt8.toNat_inj]
  show 1 ≤ nHashType.toNat ∧ nHashType.toNat ≤ 3 ↔ nHashType.toNat = 1 ∨ nHashType.toNat = 2 ∨ nHashType.toNat = 3
  omega

/-! ## One integer -/

/-- No byte of an integer is looked at that its length does not cover. -/
theorem isCanonicalInteger_inside (hfront : pos - 2 < vchSig.length) (hend : pos + n ≤ vchSig.length) :
    Except.Throws (· ≠ Stop.fault) (isCanonicalInteger vchSig pos n) := by
  unfold isCanonicalInteger
  refine (byteAt_inside hfront).bind fun type _ => ?_
  refine .guard (by decide) fun _ => ?_
  refine .guard (by decide) fun hn => ?_
  refine (byteAt_inside (by omega)).bind fun first _ => ?_
  refine .guard (by decide) fun _ => ?_
  split
  · refine (byteAt_inside (by omega)).bind fun second _ => ?_
    exact .of_require (by decide)
  · exact .of_ok

theorem drop_of_getElem? {b : UInt8} (h : vchSig[pos]? = some b) : vchSig.drop pos = b :: vchSig.drop (pos + 1) := by
  obtain ⟨hlt, rfl⟩ := List.getElem?_eq_some_iff.mp h
  exact List.drop_eq_getElem_cons hlt

theorem drop_split (v : Bytes) (pos n : Nat) : v.drop pos = (v.drop pos).take n ++ v.drop (pos + n) := by
  rw [← List.drop_drop, List.take_append_drop]

/-- An integer is accepted if its type is in front of it and it is trimmed. -/
theorem isCanonicalInteger_ok_iff (hend : pos + n ≤ vchSig.length) :
    isCanonicalInteger vchSig pos n = .ok () ↔ vchSig[pos - 2]? = some 2 ∧ Trimmed ((vchSig.drop pos).take n) := by
  unfold isCanonicalInteger
  simp only [Except.bind_ok_iff, require_ok_iff, byteAt_ok_iff, and_sign_eq_zero_iff]
  match n with
  | 0 =>
    constructor
    · rintro ⟨type, -, _, -, _, hn, -⟩
      exact absurd rfl hn
    · rintro ⟨-, htrimmed⟩
      exact htrimmed.elim
  | 1 =>
    have hfirst := List.getElem?_eq_getElem (l := vchSig) (i := pos) (by omega)
    rw [drop_of_getElem? hfirst, List.take_succ_cons, List.take_zero, Trimmed]
    constructor
    · rintro ⟨type, htype, -, rfl, _, -, first, h, -, hsign, -⟩
      rw [hfirst] at h
      cases h
      exact ⟨htype, hsign⟩
    · rintro ⟨htype, hsign⟩
      refine ⟨2, htype, ⟨⟩, rfl, ⟨⟩, Nat.one_ne_zero, _, hfirst, ⟨⟩, hsign, ?_⟩
      rw [if_neg (fun h => absurd h.1 (Nat.lt_irrefl 1))]
  | n + 2 =>
    have hfirst := List.getElem?_eq_getElem (l := vchSig) (i := pos) (by omega)
    have hsecond := List.getElem?_eq_getElem (l := vchSig) (i := pos + 1) (by omega)
    rw [drop_of_getElem? hfirst, drop_of_getElem? hsecond, List.take_succ_cons, List.take_succ_cons, Trimmed]
    have hpadding : (if 1 < n + 2 ∧ vchSig[pos] = 0 then
        byteAt vchSig (pos + 1) >>= fun second => require (second &&& 0x80 ≠ 0) Stop.failed else .ok ()) = .ok () ↔
        (vchSig[pos] = 0 → 128 ≤ vchSig[pos + 1].toNat) := by
      split
      · rename_i hzero
        rw [byteAt_ok_iff.mpr hsecond]
        rw [ok_bind, require_ok_iff, ne_eq, and_sign_eq_zero_iff, Nat.not_lt]
        exact ⟨fun h _ => h, fun h => h hzero.2⟩
      · rename_i hzero
        exact ⟨fun _ h => absurd ⟨by omega, h⟩ hzero, fun _ => rfl⟩
    constructor
    · rintro ⟨type, htype, _, rfl, _, -, first, h, _, hsign, hpad⟩
      rw [hfirst] at h
      cases h
      exact ⟨htype, hsign, hpadding.mp hpad⟩
    · rintro ⟨htype, hsign, hpad⟩
      exact ⟨2, htype, ⟨⟩, rfl, ⟨⟩, Nat.succ_ne_zero _, _, hfirst, ⟨⟩, hsign, hpadding.mpr hpad⟩

/-! ## The whole signature -/

theorem isCanonicalSignature_length {vchSig : Bytes} (h : isCanonicalSignature vchSig = .ok ()) :
    9 ≤ vchSig.length ∧ vchSig.length ≤ 73 := by
  unfold isCanonicalSignature at h
  obtain ⟨hmin, h⟩ := require_bind_ok_iff.mp h
  obtain ⟨hmax, -⟩ := require_bind_ok_iff.mp h
  exact ⟨hmin, hmax⟩

theorem isCanonicalSignature_head {vchSig : Bytes} (h : isCanonicalSignature vchSig = .ok ()) :
    vchSig[0]? = some 0x30 := by
  unfold isCanonicalSignature at h
  obtain ⟨-, h⟩ := require_bind_ok_iff.mp h
  obtain ⟨-, h⟩ := require_bind_ok_iff.mp h
  obtain ⟨last, -, h⟩ := Except.bind_ok_iff.mp h
  obtain ⟨-, h⟩ := require_bind_ok_iff.mp h
  obtain ⟨type, htype, h⟩ := Except.bind_ok_iff.mp h
  obtain ⟨rfl, -⟩ := require_bind_ok_iff.mp h
  exact byteAt_ok_iff.mp htype

/-- A signature whose integers are `r` and `s`, with its lengths. -/
def signatureFrame (r s : Bytes) (hashType : UInt8) : Bytes :=
  [0x30, UInt8.ofNat (r.length + s.length + 4), 0x02, UInt8.ofNat r.length] ++ r ++
    ([0x02, UInt8.ofNat s.length] ++ s ++ [hashType])

/-- **No byte outside the signature is looked at.** -/
theorem isCanonicalSignature_inside (vchSig : Bytes) :
    Except.Throws (· ≠ Stop.fault) (isCanonicalSignature vchSig) := by
  unfold isCanonicalSignature
  refine .guard (by decide) fun hmin => ?_
  refine .guard (by decide) fun _ => ?_
  refine (byteAt_inside (by omega)).bind fun last _ => ?_
  refine .guard (by decide) fun _ => ?_
  refine (byteAt_inside (by omega)).bind fun type _ => ?_
  refine .guard (by decide) fun _ => ?_
  refine (byteAt_inside (by omega)).bind fun size _ => ?_
  refine .guard (by decide) fun _ => ?_
  refine (byteAt_inside (by omega)).bind fun nLenR _ => ?_
  refine .guard (by decide) fun hR => ?_
  -- from here on the length of `R` has been compared with the length of the signature
  refine (byteAt_inside (by omega)).bind fun nLenS _ => ?_
  refine .guard (by decide) fun hlength => ?_
  refine (isCanonicalInteger_inside (by omega) (by omega)).bind fun _ _ => ?_
  exact isCanonicalInteger_inside (by omega) (by omega)

/-- Bytes whose lengths add up are a frame. -/
theorem eq_signatureFrame {nLenR nLenS size hashType : UInt8} (hlast : vchSig[vchSig.length - 1]? = some hashType)
    (htype : vchSig[0]? = some 0x30) (hsize : vchSig[1]? = some size) (hwhole : size.toNat = vchSig.length - 3)
    (hR : vchSig[2]? = some 0x02) (hlenR : vchSig[3]? = some nLenR) (hS : vchSig[4 + nLenR.toNat]? = some 0x02)
    (hlenS : vchSig[5 + nLenR.toNat]? = some nLenS) (hlength : nLenR.toNat + nLenS.toNat + 7 = vchSig.length) :
    vchSig = signatureFrame ((vchSig.drop 4).take nLenR.toNat) ((vchSig.drop (6 + nLenR.toNat)).take nLenS.toNat)
      hashType := by
  have hr : ((vchSig.drop 4).take nLenR.toNat).length = nLenR.toNat := by
    rw [List.length_take, List.length_drop]
    omega
  have hs : ((vchSig.drop (6 + nLenR.toNat)).take nLenS.toNat).length = nLenS.toNat := by
    rw [List.length_take, List.length_drop]
    omega
  have hmark : UInt8.ofNat (nLenR.toNat + nLenS.toNat + 4) = size := by
    apply UInt8.toNat_inj.mp
    have := size.toNat_lt
    rw [UInt8.toNat_ofNat_of_lt' (by show _ < 256; omega)]
    omega
  have hend : vchSig.drop (6 + nLenR.toNat + nLenS.toNat) = [hashType] := by
    have hpos : vchSig.length - 1 = 6 + nLenR.toNat + nLenS.toNat := by omega
    rw [← hpos, drop_of_getElem? hlast, List.drop_of_length_le (by omega)]
  have hfront : vchSig = [0x30, size, 0x02, nLenR] ++ vchSig.drop 4 := by
    have hdrop := drop_of_getElem? htype
    rwa [List.drop_zero, drop_of_getElem? hsize, drop_of_getElem? hR, drop_of_getElem? hlenR] at hdrop
  have hmiddle : vchSig.drop (4 + nLenR.toNat) = [0x02, nLenS] ++ vchSig.drop (6 + nLenR.toNat) := by
    have hnext : 4 + nLenR.toNat + 1 = 5 + nLenR.toNat := by omega
    have hafter : 5 + nLenR.toNat + 1 = 6 + nLenR.toNat := by omega
    rw [drop_of_getElem? hS, hnext, drop_of_getElem? hlenS, hafter]
    rfl
  rw [signatureFrame, hr, hs, hmark, UInt8.ofNat_toNat, UInt8.ofNat_toNat]
  calc vchSig = [0x30, size, 0x02, nLenR] ++ vchSig.drop 4 := hfront
    _ = [0x30, size, 0x02, nLenR] ++ ((vchSig.drop 4).take nLenR.toNat ++
          ([0x02, nLenS] ++ vchSig.drop (6 + nLenR.toNat))) := by
        rw [← hmiddle, ← drop_split]
    _ = [0x30, size, 0x02, nLenR] ++ ((vchSig.drop 4).take nLenR.toNat ++
          ([0x02, nLenS] ++ ((vchSig.drop (6 + nLenR.toNat)).take nLenS.toNat ++ [hashType]))) := by
        rw [← hend, ← drop_split]
    _ = _ := by
        simp only [List.append_assoc]

theorem length_signatureFrame (r s : Bytes) (hashType : UInt8) :
    (signatureFrame r s hashType).length = r.length + s.length + 7 := by
  simp [signatureFrame]
  omega

/-- What is where in a frame. -/
structure Framed (r s : Bytes) (hashType : UInt8) (vchSig : Bytes) : Prop where
  length : vchSig.length = r.length + s.length + 7
  last : vchSig[vchSig.length - 1]? = some hashType
  type : vchSig[0]? = some 0x30
  size : vchSig[1]? = some (UInt8.ofNat (r.length + s.length + 4))
  typeR : vchSig[2]? = some 0x02
  lenR : vchSig[3]? = some (UInt8.ofNat r.length)
  typeS : vchSig[4 + r.length]? = some 0x02
  lenS : vchSig[5 + r.length]? = some (UInt8.ofNat s.length)
  valueR : (vchSig.drop 4).take r.length = r
  valueS : (vchSig.drop (6 + r.length)).take s.length = s

theorem framed (r s : Bytes) (hashType : UInt8) : Framed r s hashType (signatureFrame r s hashType) where
  length := length_signatureFrame r s hashType
  last := by
    rw [← List.getLast?_eq_getElem?, signatureFrame, ← List.append_assoc, List.getLast?_append]
    simp
  type := rfl
  size := rfl
  typeR := rfl
  lenR := rfl
  typeS := by
    simp [signatureFrame, Nat.add_comm 4]
  lenS := by
    simp [signatureFrame, Nat.add_comm 5]
  valueR := by
    simp [signatureFrame]
  valueS := by
    simp [signatureFrame, Nat.add_comm 6]

/-- **What is accepted is a frame** with two trimmed integers, not too long, and with a known hash type. -/
theorem isCanonicalSignature_ok_iff : isCanonicalSignature vchSig = .ok () ↔
    ∃ r s hashType, vchSig = signatureFrame r s hashType ∧ Trimmed r ∧ Trimmed s ∧
      (hashType &&& ~~~SIGHASH_ANYONECANPAY = SIGHASH_ALL ∨
        hashType &&& ~~~SIGHASH_ANYONECANPAY = SIGHASH_NONE ∨
        hashType &&& ~~~SIGHASH_ANYONECANPAY = SIGHASH_SINGLE) ∧ vchSig.length ≤ 73 := by
  unfold isCanonicalSignature
  constructor
  · intro h
    obtain ⟨-, h⟩ := require_bind_ok_iff.mp h
    obtain ⟨hmax, h⟩ := require_bind_ok_iff.mp h
    obtain ⟨hashType, hlast, h⟩ := Except.bind_ok_iff.mp h
    obtain ⟨hknown, h⟩ := require_bind_ok_iff.mp h
    obtain ⟨type, htype, h⟩ := Except.bind_ok_iff.mp h
    obtain ⟨htag, h⟩ := require_bind_ok_iff.mp h
    obtain ⟨size, hsize, h⟩ := Except.bind_ok_iff.mp h
    obtain ⟨hwhole, h⟩ := require_bind_ok_iff.mp h
    obtain ⟨nLenR, hlenR, h⟩ := Except.bind_ok_iff.mp h
    obtain ⟨-, h⟩ := require_bind_ok_iff.mp h
    obtain ⟨nLenS, hlenS, h⟩ := Except.bind_ok_iff.mp h
    obtain ⟨hlength, h⟩ := require_bind_ok_iff.mp h
    obtain ⟨⟨⟩, hR, hS⟩ := Except.bind_ok_iff.mp h
    rw [byteAt_ok_iff] at hlast htype hsize hlenR hlenS
    rw [htag] at htype
    obtain ⟨htypeR, hr⟩ := (isCanonicalInteger_ok_iff (by omega)).mp hR
    obtain ⟨htypeS, hs⟩ := (isCanonicalInteger_ok_iff (by omega)).mp hS
    have hpos : 6 + nLenR.toNat - 2 = 4 + nLenR.toNat := by omega
    rw [hpos] at htypeS
    exact ⟨_, _, hashType, eq_signatureFrame hlast htype hsize hwhole htypeR hlenR htypeS hlenS hlength, hr, hs,
      (hashType_iff _).mp hknown, hmax⟩
  · rintro ⟨r, s, hashType, hframe, hr, hs, hknown, hmax⟩
    have h : Framed r s hashType vchSig := hframe ▸ framed r s hashType
    have hpositive : ∀ bs, Trimmed bs → 0 < bs.length := by
      rintro (_ | ⟨b, bs⟩) hbs
      · exact hbs.elim
      · exact Nat.succ_pos _
    have hrpos := hpositive r hr
    have hspos := hpositive s hs
    have hlength := h.length
    have hrbyte : (UInt8.ofNat r.length).toNat = r.length := UInt8.toNat_ofNat_of_lt' (by show _ < 256; omega)
    have hsbyte : (UInt8.ofNat s.length).toNat = s.length := UInt8.toNat_ofNat_of_lt' (by show _ < 256; omega)
    have hsize : (UInt8.ofNat (r.length + s.length + 4)).toNat = r.length + s.length + 4 :=
      UInt8.toNat_ofNat_of_lt' (by show _ < 256; omega)
    have hpos : 6 + r.length - 2 = 4 + r.length := by omega
    rw [require_bind_of (by omega), require_bind_of hmax, byteAt_ok_iff.mpr h.last, ok_bind,
      require_bind_of ((hashType_iff _).mpr hknown), byteAt_ok_iff.mpr h.type, ok_bind, require_bind_of rfl,
      byteAt_ok_iff.mpr h.size, ok_bind, require_bind_of (by omega), byteAt_ok_iff.mpr h.lenR, ok_bind, hrbyte,
      require_bind_of (by omega), byteAt_ok_iff.mpr h.lenS, ok_bind, hsbyte, require_bind_of (by omega)]
    have hR : isCanonicalInteger vchSig 4 r.length = .ok () :=
      (isCanonicalInteger_ok_iff (by omega)).mpr ⟨h.typeR, h.valueR.symm ▸ hr⟩
    have hS : isCanonicalInteger vchSig (6 + r.length) s.length = .ok () :=
      (isCanonicalInteger_ok_iff (by omega)).mpr ⟨hpos ▸ h.typeS, h.valueS.symm ▸ hs⟩
    rw [hR, ok_bind, hS]

end CanonicalSignature

/-! ## DER -/

/-- An integer that is not negative: `<02> <len> <integer>` -/
def derInteger (n : Nat) : Bytes := [0x02, UInt8.ofNat (minimalBE n).length] ++ minimalBE n

/-- The sequence of two integers, `<30> <len> <R> <S>`, with a length of one byte. -/
def der (R S : Nat) : Bytes :=
  [0x30, UInt8.ofNat (derInteger R ++ derInteger S).length] ++ (derInteger R ++ derInteger S)

/-- A signature for two integers and a hash type, with the integers in any of their encodings. -/
def SignatureOf (R S : Int) (hashType : UInt8) (vchSig : Bytes) : Prop :=
  ∃ r s, vchSig = signatureFrame r s hashType ∧ signedBE r = R ∧ signedBE s = S

theorem signatureFrame_minimalBE (R S : Nat) (hashType : UInt8) :
    signatureFrame (minimalBE R) (minimalBE S) hashType = der R S ++ [hashType] := by
  have hlength : (derInteger R ++ derInteger S).length = (minimalBE R).length + (minimalBE S).length + 4 := by
    simp [derInteger]
    omega
  rw [der, hlength]
  simp [signatureFrame, derInteger]

/-- A short frame is read in one way only. -/
theorem signatureFrame_inj {r s r' s' : Bytes} {hashType hashType' : UInt8}
    (hlength : (signatureFrame r s hashType).length ≤ 73)
    (heq : signatureFrame r s hashType = signatureFrame r' s' hashType') : r = r' ∧ s = s' ∧ hashType = hashType' := by
  have h := framed r s hashType
  have h' : Framed r' s' hashType' (signatureFrame r s hashType) := heq ▸ framed r' s' hashType'
  rw [h.length] at hlength
  have htotal := h.length.symm.trans h'.length
  have hmark : UInt8.ofNat r.length = UInt8.ofNat r'.length := Option.some.inj (h.lenR.symm.trans h'.lenR)
  have hrlen : r.length = r'.length := by
    have hnat := congrArg UInt8.toNat hmark
    rwa [UInt8.toNat_ofNat_of_lt' (by show _ < 256; omega), UInt8.toNat_ofNat_of_lt' (by show _ < 256; omega)] at hnat
  have hslen : s.length = s'.length := by omega
  refine ⟨?_, ?_, ?_⟩
  · rw [← h.valueR, hrlen, h'.valueR]
  · rw [← h.valueS, hrlen, hslen, h'.valueS]
  · exact Option.some.inj (h.last.symm.trans h'.last)

/-- **Canonical signatures are strict DER.** The check reads inside the signature only, and accepts the DER encoding of two
    integers that are not negative, followed by a known hash type, as long as this is not too long. So of all the
    encodings of two integers with a hash type it accepts at most one. -/
theorem canonical_signature_iff_der :
    (∀ vchSig : Bytes, isCanonicalSignature vchSig ≠ .error .fault ∧
      (isCanonicalSignature vchSig = .ok () ↔
        ∃ (R S : Nat) (hashType : UInt8), vchSig = der R S ++ [hashType] ∧
          (hashType &&& ~~~SIGHASH_ANYONECANPAY = SIGHASH_ALL ∨
            hashType &&& ~~~SIGHASH_ANYONECANPAY = SIGHASH_NONE ∨
            hashType &&& ~~~SIGHASH_ANYONECANPAY = SIGHASH_SINGLE) ∧ vchSig.length ≤ 73)) ∧
    ∀ (R S : Int) (hashType : UInt8),
      { vchSig | isCanonicalSignature vchSig = .ok () ∧ SignatureOf R S hashType vchSig }.Subsingleton := by
  refine ⟨fun vchSig => ⟨fun h => isCanonicalSignature_inside vchSig _ h rfl, ?_⟩, ?_⟩
  · rw [isCanonicalSignature_ok_iff]
    constructor
    · rintro ⟨r, s, hashType, hframe, hr, hs, hknown, hmax⟩
      obtain ⟨R, rfl⟩ := trimmed_iff.mp hr
      obtain ⟨S, rfl⟩ := trimmed_iff.mp hs
      exact ⟨R, S, hashType, hframe.trans (signatureFrame_minimalBE R S hashType), hknown, hmax⟩
    · rintro ⟨R, S, hashType, hder, hknown, hmax⟩
      exact ⟨_, _, hashType, hder.trans (signatureFrame_minimalBE R S hashType).symm, trimmed_iff.mpr ⟨R, rfl⟩,
        trimmed_iff.mpr ⟨S, rfl⟩, hknown, hmax⟩
  · -- an accepted signature for `R` and `S` is the frame of their shortest encodings
    have hone : ∀ (R S : Int) hashType vchSig, isCanonicalSignature vchSig = .ok () → SignatureOf R S hashType vchSig →
        vchSig = der R.toNat S.toNat ++ [hashType] := by
      intro R S hashType vchSig hok hsays
      obtain ⟨r, s, hashType', rfl, hr, hs, -, hmax⟩ := isCanonicalSignature_ok_iff.mp hok
      obtain ⟨r', s', hframe, hR, hS⟩ := hsays
      obtain ⟨rfl, rfl, rfl⟩ := signatureFrame_inj hmax hframe
      obtain ⟨n, rfl⟩ := trimmed_iff.mp hr
      obtain ⟨m, rfl⟩ := trimmed_iff.mp hs
      rw [(shortest_minimalBE n).value] at hR
      rw [(shortest_minimalBE m).value] at hS
      rw [← hR, ← hS, Int.toNat_natCast, Int.toNat_natCast]
      exact signatureFrame_minimalBE n m hashType'
    rintro R S hashType vchSig ⟨hok, hsays⟩ vchSig' ⟨hok', hsays'⟩
    rw [hone R S hashType vchSig hok hsays, hone R S hashType vchSig' hok' hsays']

end Syscoin

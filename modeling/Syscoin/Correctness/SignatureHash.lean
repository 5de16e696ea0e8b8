import Syscoin.Lib.PrefixCode
import Syscoin.Script.SignatureHash

/-!
# `Correctness.SignatureHash` — what a signature commits to

The bytes that `SignatureHash` hashes can be told apart: they are the blanked transaction, whose serialization is a
decodable format (`decodable_transaction`), and four bytes of hash type. So two calls that come to the same hash have
blanked transactions that are the same, and what the blanking leaves of the two transactions agrees
(`signatures_commit`). The signed input is found by its script; where the script code is empty, the other inputs look
like it (`signatureHash_of_empty`).
-/

namespace Syscoin

open Lib

/-! ## The format -/

theorem decodable_toLE (width : Nat) : Decodable (toLE width) (· < 256 ^ width) := by
  apply Decodable.of_width (length_toLE width)
  intro a b ha hb h
  exact toLE_inj ha hb h

theorem decodable_writeSigned {width half : Nat} (hhalf : 256 ^ width = 2 * half) :
    Decodable (writeSigned width) fun n => -(half : Int) ≤ n ∧ n < half := by
  apply Decodable.of_width (fun n => length_toLE width _)
  intro a b ha hb h
  have hwritten : writeSigned width a = writeSigned width b := h
  have hreada := reads_readSigned hhalf ha.1 ha.2 []
  have hreadb := reads_readSigned hhalf hb.1 hb.2 []
  rw [hwritten, hreadb, Option.some.injEq, Prod.mk.injEq] at hreada
  exact hreada.1.symm

/-- Where the first byte is not that of a wide size, it is the size. -/
theorem ofNat_ne_wide {n : Nat} {c : UInt8} (hn : n < 253) (hc : 253 ≤ c.toNat) : UInt8.ofNat n ≠ c := by
  intro h
  have hval : (UInt8.ofNat n).toNat = n := UInt8.toNat_ofNat_of_lt' (by show n < 256; omega)
  rw [h] at hval
  omega

/-- The four forms of a size differ in their first byte. -/
theorem decodable_writeCompactSize : Decodable writeCompactSize (· < 2 ^ 64) := by
  have hform : ∀ {n : Nat}, n < 2 ^ 64 →
      (n < 253 ∧ writeCompactSize n = [UInt8.ofNat n]) ∨
      (∃ c : UInt8, ∃ width, 253 ≤ c.toNat ∧ (width = 2 ∧ c = 253 ∨ width = 4 ∧ c = 254 ∨ width = 8 ∧ c = 255) ∧
        n < 256 ^ width ∧ writeCompactSize n = c :: toLE width n) := by
    intro n hn
    unfold writeCompactSize
    split
    · exact .inl ⟨‹_›, rfl⟩
    · split
      · exact .inr ⟨253, 2, by decide, .inl ⟨rfl, rfl⟩, by omega, rfl⟩
      · split
        · exact .inr ⟨254, 4, by decide, .inr (.inl ⟨rfl, rfl⟩), by omega, rfl⟩
        · exact .inr ⟨255, 8, by decide, .inr (.inr ⟨rfl, rfl⟩), by omega, rfl⟩
  intro a b s t ha hb h
  rcases hform ha with ⟨hsmall, heq⟩ | ⟨c, width, hc, hwidth, hlt, heq⟩
  · rcases hform hb with ⟨hsmall', heq'⟩ | ⟨c', width', hc', -, -, heq'⟩
    · rw [heq, heq', List.singleton_append, List.singleton_append, List.cons.injEq] at h
      refine ⟨?_, h.2⟩
      have hval := congrArg UInt8.toNat h.1
      rwa [UInt8.toNat_ofNat_of_lt' (by show a < 256; omega), UInt8.toNat_ofNat_of_lt' (by show b < 256; omega)] at hval
    · rw [heq, heq', List.singleton_append, List.cons_append, List.cons.injEq] at h
      exact absurd h.1 (ofNat_ne_wide hsmall hc')
  · rcases hform hb with ⟨hsmall', heq'⟩ | ⟨c', width', hc', hwidth', hlt', heq'⟩
    · rw [heq, heq', List.singleton_append, List.cons_append, List.cons.injEq] at h
      exact absurd h.1.symm (ofNat_ne_wide hsmall' hc)
    · rw [heq, heq', List.cons_append, List.cons_append, List.cons.injEq] at h
      obtain ⟨rfl, hrest⟩ := h
      -- one first byte, one width
      have hsame : width = width' := by
        rcases hwidth with ⟨rfl, rfl⟩ | ⟨rfl, rfl⟩ | ⟨rfl, rfl⟩ <;>
          rcases hwidth' with ⟨rfl, h⟩ | ⟨rfl, h⟩ | ⟨rfl, h⟩ <;> first | rfl | exact absurd h (by decide)
      subst hsame
      exact decodable_toLE width hlt hlt' hrest

theorem decodable_writeVch : Decodable writeVch (·.length < 2 ^ 64) :=
  decodable_writeCompactSize.string

theorem decodable_writeVector {α : Type} {write : α → Bytes} {P : α → Prop} (h : Decodable write P) :
    Decodable (writeVector write) fun l => l.length < 2 ^ 64 ∧ ∀ a ∈ l, P a :=
  decodable_writeCompactSize.list h

/-! ## Transactions -/

/-- What the fields of an input can hold. -/
structure CTxIn.Typed (txin : CTxIn) : Prop where
  hash : txin.prevout.hash < 2 ^ 256
  n : txin.prevout.n < 2 ^ 32
  scriptSig : txin.scriptSig.length < 2 ^ 64
  nSequence : txin.nSequence < 2 ^ 32

structure CTxOut.Typed (txout : CTxOut) : Prop where
  nValue : -2 ^ 63 ≤ txout.nValue ∧ txout.nValue < 2 ^ 63
  scriptPubKey : txout.scriptPubKey.length < 2 ^ 64

/-- What the fields of a transaction can hold: numbers of their widths, and vectors that have a size. -/
structure CTransaction.Typed (tx : CTransaction) : Prop where
  nVersion : -2 ^ 31 ≤ tx.nVersion ∧ tx.nVersion < 2 ^ 31
  vin : tx.vin.length < 2 ^ 64 ∧ ∀ txin ∈ tx.vin, txin.Typed
  vout : tx.vout.length < 2 ^ 64 ∧ ∀ txout ∈ tx.vout, txout.Typed
  nLockTime : tx.nLockTime < 2 ^ 32
  data : tx.data.length < 2 ^ 64

theorem decodable_input : Decodable CTxIn.serialize CTxIn.Typed := by
  intro a b s t ha hb h
  unfold CTxIn.serialize COutPoint.serialize at h
  simp only [List.append_assoc] at h
  obtain ⟨hhash, h⟩ := decodable_toLE 32 ha.hash hb.hash h
  obtain ⟨hn, h⟩ := decodable_toLE 4 ha.n hb.n h
  obtain ⟨hscript, h⟩ := decodable_writeVch ha.scriptSig hb.scriptSig h
  obtain ⟨hsequence, hrest⟩ := decodable_toLE 4 ha.nSequence hb.nSequence h
  obtain ⟨⟨hash, n⟩, scriptSig, nSequence⟩ := a
  obtain ⟨⟨hash', n'⟩, scriptSig', nSequence'⟩ := b
  dsimp only at hhash hn hscript hsequence
  subst hhash hn hscript hsequence
  exact ⟨rfl, hrest⟩

theorem decodable_output : Decodable CTxOut.serialize CTxOut.Typed := by
  intro a b s t ha hb h
  unfold CTxOut.serialize at h
  simp only [List.append_assoc] at h
  obtain ⟨hvalue, h⟩ := @decodable_writeSigned 8 (2 ^ 63) rfl _ _ _ _ ha.nValue hb.nValue h
  obtain ⟨hscript, hrest⟩ := decodable_writeVch ha.scriptPubKey hb.scriptPubKey h
  obtain ⟨nValue, scriptPubKey⟩ := a
  obtain ⟨nValue', scriptPubKey'⟩ := b
  dsimp only at hvalue hscript
  subst hvalue hscript
  exact ⟨rfl, hrest⟩

/-- **Transactions can be told apart**, with their data. -/
theorem decodable_transaction : Decodable (CTransaction.serialize SER_GETHASH) CTransaction.Typed := by
  intro a b s t ha hb h
  unfold CTransaction.serialize at h
  rw [if_pos (by decide), if_pos (by decide)] at h
  simp only [List.append_assoc] at h
  obtain ⟨hversion, h⟩ := @decodable_writeSigned 4 (2 ^ 31) rfl _ _ _ _ ha.nVersion hb.nVersion h
  obtain ⟨hvin, h⟩ := decodable_writeVector decodable_input ha.vin hb.vin h
  obtain ⟨hvout, h⟩ := decodable_writeVector decodable_output ha.vout hb.vout h
  obtain ⟨htime, h⟩ := decodable_toLE 4 ha.nLockTime hb.nLockTime h
  obtain ⟨hdata, hrest⟩ := decodable_writeVch ha.data hb.data h
  obtain ⟨nVersion, vin, vout, nLockTime, data⟩ := a
  obtain ⟨nVersion', vin', vout', nLockTime', data'⟩ := b
  dsimp only at hversion hvin hvout htime hdata
  subst hversion hvin hvout htime hdata
  exact ⟨rfl, hrest⟩

/-! ## What the blanking leaves -/

section Blanking

variable (scriptCode : CScript) (nIn k : Nat) (nHashType : Int) (vin : List CTxIn)

/-- The inputs before all but the signed one are dropped. -/
def keptInputs : List CTxIn :=
  if baseType nHashType = SIGHASH_NONE.toNat ∨ baseType nHashType = SIGHASH_SINGLE.toNat then
    blankSequences nIn (blankScripts scriptCode nIn vin)
  else blankScripts scriptCode nIn vin

theorem blankInputs_eq : blankInputs nIn nHashType (blankScripts scriptCode nIn vin) =
    if anyoneCanPay nHashType then (keptInputs scriptCode nIn nHashType vin)[nIn]?.toList
    else keptInputs scriptCode nIn nHashType vin := rfl

theorem getElem?_blankScripts : (blankScripts scriptCode nIn vin)[k]? =
    vin[k]?.map fun txin => { txin with scriptSig := if k = nIn then scriptCode else [] } := by
  unfold blankScripts
  rw [List.getElem?_modify, List.getElem?_map, Option.map_eq_map, Option.map_map]
  congr 1
  funext txin
  by_cases hk : nIn = k
  · simp [hk]
  · have hk' : ¬ k = nIn := fun h => hk h.symm
    simp [hk, hk']

theorem getElem?_blankSequences : (blankSequences nIn vin)[k]? =
    vin[k]?.map fun txin => if k ≠ nIn then { txin with nSequence := 0 } else txin := by
  unfold blankSequences
  rw [List.getElem?_mapIdx]

/-- Outpoints stay, and only the signed input has a script. A sequence number stays or is zero. -/
theorem getElem?_keptInputs : ∃ nSequence : CTxIn → Nat,
    (keptInputs scriptCode nIn nHashType vin)[k]? =
      vin[k]?.map (fun txin => ⟨txin.prevout, if k = nIn then scriptCode else [], nSequence txin⟩) ∧
    ∀ txin, (nSequence txin = txin.nSequence ∨ nSequence txin = 0) ∧ (k = nIn → nSequence txin = txin.nSequence) := by
  unfold keptInputs
  split
  · refine ⟨fun txin => if k ≠ nIn then 0 else txin.nSequence, ?_, ?_⟩
    · rw [getElem?_blankSequences, getElem?_blankScripts, Option.map_map]
      congr 1
      funext txin
      by_cases hk : k = nIn
      · simp [hk]
      · simp [hk]
    · intro txin
      by_cases hk : k = nIn
      · simp [hk]
      · simp [hk]
  · exact ⟨CTxIn.nSequence, getElem?_blankScripts scriptCode nIn k vin, fun txin => ⟨.inl rfl, fun _ => rfl⟩⟩

/-- The signed input stays but for its script. -/
theorem getElem?_keptInputs_self : (keptInputs scriptCode nIn nHashType vin)[nIn]? =
    vin[nIn]?.map fun txin => { txin with scriptSig := scriptCode } := by
  obtain ⟨nSequence, heq, hsequence⟩ := getElem?_keptInputs scriptCode nIn nIn nHashType vin
  rw [heq]
  congr 1
  funext txin
  rw [if_pos rfl, (hsequence txin).2 rfl]

theorem prevouts_keptInputs : (keptInputs scriptCode nIn nHashType vin).map CTxIn.prevout = vin.map CTxIn.prevout := by
  apply List.ext_getElem?
  intro k
  obtain ⟨nSequence, heq, -⟩ := getElem?_keptInputs scriptCode nIn k nHashType vin
  rw [List.getElem?_map, List.getElem?_map, heq, Option.map_map]
  rfl

theorem length_keptInputs : (keptInputs scriptCode nIn nHashType vin).length = vin.length := by
  have hlen := congrArg List.length (prevouts_keptInputs scriptCode nIn nHashType vin)
  simpa using hlen

end Blanking

section Committed

variable {scriptCode : CScript} {nIn : Nat} {nHashType : Int} {vin : List CTxIn} {vout : List CTxOut} {tx : CTransaction}

/-- Deleting makes no script longer. -/
theorem length_deleteLoop_le (b : CScript) (fuel : Nat) (pc : CScript) : (deleteLoop b fuel pc).length ≤ pc.length := by
  induction fuel generalizing pc with
  | zero => exact Nat.le_refl _
  | succ fuel ih =>
    unfold deleteLoop
    split
    · exact (ih _).trans (by simp)
    · split
      · exact Nat.le_refl _
      · rename_i opcode vch rest hop
        have hlt := getOp_length hop
        have hle := ih rest
        rw [List.length_append, List.length_take]
        omega

theorem length_findAndDelete_le (b script : CScript) : (findAndDelete b script).length ≤ script.length := by
  unfold findAndDelete
  split
  · exact Nat.le_refl _
  · exact length_deleteLoop_le _ _ _

/-- Neither `SignatureHash` returns for an index out of range. -/
def InRange (tx : CTransaction) (nIn : Nat) (nHashType : Int) : Prop :=
  nIn < tx.vin.length ∧ (baseType nHashType = SIGHASH_SINGLE.toNat → nIn < tx.vout.length)

theorem typed_keptInputs (nIn : Nat) (nHashType : Int) (hvin : ∀ txin ∈ vin, txin.Typed) (hcode : scriptCode.length < 2 ^ 64) :
    ∀ txin ∈ keptInputs scriptCode nIn nHashType vin, txin.Typed := by
  intro txin hmem
  obtain ⟨k, hk⟩ := List.mem_iff_getElem?.mp hmem
  obtain ⟨nSequence, heq, hsequence⟩ := getElem?_keptInputs scriptCode nIn k nHashType vin
  rw [heq, Option.map_eq_some_iff] at hk
  obtain ⟨txin', hmem', rfl⟩ := hk
  have htyped := hvin txin' (List.mem_of_getElem? hmem')
  refine ⟨htyped.hash, htyped.n, ?_, ?_⟩
  · dsimp only
    split
    · exact hcode
    · exact Nat.zero_lt_succ _
  · rcases (hsequence txin').1 with h | h
    · rw [h]
      exact htyped.nSequence
    · rw [h]
      exact Nat.zero_lt_succ _

theorem typed_null : CTxOut.null.Typed := by
  constructor <;> decide

/-- What the blanked outputs are. -/
theorem blankOutputs_eq (hin : baseType nHashType = SIGHASH_SINGLE.toNat → nIn < vout.length) :
    ∃ left, blankOutputs nIn nHashType vout = some left ∧ left.length ≤ vout.length ∧
      (∀ txout ∈ left, txout = CTxOut.null ∨ txout ∈ vout) ∧
      (baseType nHashType ≠ SIGHASH_NONE.toNat → baseType nHashType ≠ SIGHASH_SINGLE.toNat → left = vout) ∧
      (baseType nHashType = SIGHASH_SINGLE.toNat → left.length = nIn + 1 ∧ left[nIn]? = vout[nIn]?) := by
  unfold blankOutputs
  by_cases hnone : baseType nHashType = SIGHASH_NONE.toNat
  · rw [if_pos hnone]
    refine ⟨[], rfl, Nat.zero_le _, by simp, fun h => absurd hnone h, ?_⟩
    intro hsingle
    rw [hnone] at hsingle
    exact absurd hsingle (by decide)
  · rw [if_neg hnone]
    by_cases hsingle : baseType nHashType = SIGHASH_SINGLE.toNat
    · have hlt := hin hsingle
      rw [if_pos hsingle, List.getElem?_eq_getElem hlt]
      refine ⟨_, rfl, ?_, ?_, fun _ h => absurd hsingle h, ?_⟩
      · simp only [List.length_append, List.length_replicate, List.length_singleton]
        omega
      · intro txout hmem
        rcases List.mem_append.mp hmem with hmem | hmem
        · exact .inl (List.eq_of_mem_replicate hmem)
        · rw [List.mem_singleton.mp hmem]
          exact .inr (List.getElem_mem hlt)
      · intro _
        constructor
        · simp
        · rw [List.getElem?_append_right (by simp)]
          simp
    · rw [if_neg hsingle]
      exact ⟨vout, rfl, Nat.le_refl _, fun txout h => .inr h, fun _ _ => rfl, fun h => absurd h hsingle⟩

/-- The copy that is hashed. -/
theorem txTmp_eq (scriptCode : CScript) (hin : InRange tx nIn nHashType) : ∃ left, blankOutputs nIn nHashType tx.vout = some left ∧
    txTmp scriptCode tx nIn nHashType = some { tx with
      vin := blankInputs nIn nHashType (blankScripts (findAndDelete [OP_CODESEPARATOR] scriptCode) nIn tx.vin)
      vout := left } := by
  obtain ⟨left, hleft, -⟩ := blankOutputs_eq hin.2
  refine ⟨left, hleft, ?_⟩
  unfold txTmp
  rw [if_neg (Nat.not_le.mpr hin.1), hleft]
  rfl

/-- It is no larger than the transaction. -/
theorem typed_txTmp (htx : tx.Typed) (hcode : scriptCode.length < 2 ^ 64) {copy : CTransaction}
    (hin : InRange tx nIn nHashType) (h : txTmp scriptCode tx nIn nHashType = some copy) : copy.Typed := by
  obtain ⟨left, hleft, heq⟩ := txTmp_eq scriptCode hin
  rw [heq, Option.some.injEq] at h
  subst h
  obtain ⟨left', hleft', hlen, hmem, -⟩ := blankOutputs_eq hin.2
  obtain rfl := Option.some.inj (hleft.symm.trans hleft')
  have hcode' := (length_findAndDelete_le [OP_CODESEPARATOR] scriptCode).trans_lt hcode
  have hkept := typed_keptInputs nIn nHashType htx.vin.2 hcode'
  refine ⟨htx.nVersion, ?_, ⟨hlen.trans_lt htx.vout.1, ?_⟩, htx.nLockTime, htx.data⟩
  · dsimp only
    rw [blankInputs_eq]
    split
    · refine ⟨?_, ?_⟩
      · have hone : (keptInputs (findAndDelete [OP_CODESEPARATOR] scriptCode) nIn nHashType tx.vin)[nIn]?.toList.length ≤ 1 := by
          cases (keptInputs (findAndDelete [OP_CODESEPARATOR] scriptCode) nIn nHashType tx.vin)[nIn]? <;> simp
        omega
      · intro txin hmem
        exact hkept txin (List.mem_of_getElem? (by simpa using hmem))
    · rw [length_keptInputs]
      exact ⟨htx.vin.1, hkept⟩
  · intro txout hout
    rcases hmem txout hout with rfl | hout
    · exact typed_null
    · exact htx.vout.2 txout hout

/-- The signed input of the copy: that of the transaction, with the script code. -/
theorem signed_of_txTmp {copy : CTransaction} (hin : InRange tx nIn nHashType)
    (h : txTmp scriptCode tx nIn nHashType = some copy) :
    copy.vin = (if anyoneCanPay nHashType then
        tx.vin[nIn]?.toList.map fun txin => { txin with scriptSig := findAndDelete [OP_CODESEPARATOR] scriptCode }
      else keptInputs (findAndDelete [OP_CODESEPARATOR] scriptCode) nIn nHashType tx.vin) := by
  obtain ⟨left, -, heq⟩ := txTmp_eq scriptCode hin
  rw [heq, Option.some.injEq] at h
  subst h
  dsimp only
  rw [blankInputs_eq, getElem?_keptInputs_self]
  split
  · rw [List.getElem?_eq_getElem hin.1]
    rfl
  · rfl

end Committed

section Commit

variable {Hash : Bytes → Uint256} {c₁ c₂ : CScript} {t₁ t₂ : CTransaction} {i₁ i₂ : Nat} {h h₁ h₂ : Int}

/-- **One hash, one copy and one hash type.** -/
theorem txTmp_of_signatureHash (hinj : Function.Injective Hash) (ht₁ : t₁.Typed) (ht₂ : t₂.Typed)
    (hc₁ : c₁.length < 2 ^ 64) (hc₂ : c₂.length < 2 ^ 64) (hh₁ : -2 ^ 31 ≤ h₁ ∧ h₁ < 2 ^ 31)
    (hh₂ : -2 ^ 31 ≤ h₂ ∧ h₂ < 2 ^ 31) (hin₁ : InRange t₁ i₁ h₁) (hin₂ : InRange t₂ i₂ h₂)
    (heq : signatureHash Hash c₁ t₁ i₁ h₁ = signatureHash Hash c₂ t₂ i₂ h₂) :
    h₁ = h₂ ∧ ∃ copy, txTmp c₁ t₁ i₁ h₁ = some copy ∧ txTmp c₂ t₂ i₂ h₂ = some copy := by
  obtain ⟨left₁, _, hcopy₁⟩ := txTmp_eq c₁ hin₁
  obtain ⟨left₂, _, hcopy₂⟩ := txTmp_eq c₂ hin₂
  unfold signatureHash at heq
  rw [hcopy₁, hcopy₂] at heq
  have hbytes := hinj heq
  obtain ⟨hsame, htype⟩ :=
    decodable_transaction (typed_txTmp ht₁ hc₁ hin₁ hcopy₁) (typed_txTmp ht₂ hc₂ hin₂ hcopy₂) hbytes
  have htype' : writeSigned 4 h₁ ++ [] = writeSigned 4 h₂ ++ [] := by
    rw [htype]
  have hh := (@decodable_writeSigned 4 (2 ^ 31) rfl _ _ _ _ hh₁ hh₂ htype').1
  exact ⟨hh, _, hcopy₁, by rw [hcopy₂, ← hsame]⟩

/-- **The script codes are equal**: each is the script of some input of the copy, and the only one there is. -/
theorem scriptCode_eq (hin₁ : i₁ < t₁.vin.length) (hin₂ : i₂ < t₂.vin.length)
    (heq : keptInputs c₁ i₁ h t₁.vin = keptInputs c₂ i₂ h t₂.vin) : c₁ = c₂ ∧ (c₁ ≠ [] → i₁ = i₂) := by
  -- what the second copy has at the index that the first one signs
  obtain ⟨nSequence, hk₁, -⟩ := getElem?_keptInputs c₂ i₂ i₁ h t₂.vin
  obtain ⟨nSequence', hk₂, -⟩ := getElem?_keptInputs c₁ i₁ i₂ h t₁.vin
  rw [← heq, getElem?_keptInputs_self, List.getElem?_eq_getElem hin₁, Option.map_some] at hk₁
  rw [heq, getElem?_keptInputs_self, List.getElem?_eq_getElem hin₂, Option.map_some] at hk₂
  have hscript₁ : c₁ = if i₁ = i₂ then c₂ else [] := by
    obtain ⟨txin, -, htxin⟩ := Option.map_eq_some_iff.mp hk₁.symm
    exact (congrArg CTxIn.scriptSig htxin).symm
  have hscript₂ : c₂ = if i₂ = i₁ then c₁ else [] := by
    obtain ⟨txin, -, htxin⟩ := Option.map_eq_some_iff.mp hk₂.symm
    exact (congrArg CTxIn.scriptSig htxin).symm
  by_cases hi : i₁ = i₂
  · rw [if_pos hi] at hscript₁
    exact ⟨hscript₁, fun _ => hi⟩
  · have hi' : ¬ i₂ = i₁ := fun h => hi h.symm
    rw [if_neg hi] at hscript₁
    rw [if_neg hi'] at hscript₂
    exact ⟨hscript₁.trans hscript₂.symm, fun hne => absurd hscript₁ hne⟩

/-- **Signatures commit to the payload and to the outputs.** Two calls within range that come to one hash agree on the
    hash type, the version, the lock time, the data and the script code; on the outputs that the hash type keeps; on the
    list of spent outpoints, unless anyone can pay; and on the outpoint and the sequence number of the signed input, if
    the script code is not empty or the hash type tells that input apart. -/
theorem signatures_commit (hinj : Function.Injective Hash) (ht₁ : t₁.Typed) (ht₂ : t₂.Typed)
    (hc₁ : c₁.length < 2 ^ 64) (hc₂ : c₂.length < 2 ^ 64) (hh₁ : -2 ^ 31 ≤ h₁ ∧ h₁ < 2 ^ 31)
    (hh₂ : -2 ^ 31 ≤ h₂ ∧ h₂ < 2 ^ 31) (hin₁ : InRange t₁ i₁ h₁) (hin₂ : InRange t₂ i₂ h₂)
    (heq : signatureHash Hash c₁ t₁ i₁ h₁ = signatureHash Hash c₂ t₂ i₂ h₂) :
    h₁ = h₂ ∧ t₁.nVersion = t₂.nVersion ∧ t₁.nLockTime = t₂.nLockTime ∧ t₁.data = t₂.data ∧
      findAndDelete [OP_CODESEPARATOR] c₁ = findAndDelete [OP_CODESEPARATOR] c₂ ∧
      (findAndDelete [OP_CODESEPARATOR] c₁ ≠ [] ∨ anyoneCanPay h₁ ∨ baseType h₁ = SIGHASH_SINGLE.toNat →
        t₁.vin[i₁]?.map (fun txin => (txin.prevout, txin.nSequence)) =
          t₂.vin[i₂]?.map fun txin => (txin.prevout, txin.nSequence)) ∧
      (baseType h₁ ≠ SIGHASH_NONE.toNat → baseType h₁ ≠ SIGHASH_SINGLE.toNat → t₁.vout = t₂.vout) ∧
      (baseType h₁ = SIGHASH_SINGLE.toNat → t₁.vout[i₁]? = t₂.vout[i₂]?) ∧
      (¬ anyoneCanPay h₁ → t₁.vin.map CTxIn.prevout = t₂.vin.map CTxIn.prevout) := by
  obtain ⟨rfl, copy, hcopy₁, hcopy₂⟩ := txTmp_of_signatureHash hinj ht₁ ht₂ hc₁ hc₂ hh₁ hh₂ hin₁ hin₂ heq
  have hvin := (signed_of_txTmp hin₁ hcopy₁).symm.trans (signed_of_txTmp hin₂ hcopy₂)
  obtain ⟨left₁, hleft₁, htmp₁⟩ := txTmp_eq c₁ hin₁
  obtain ⟨left₂, hleft₂, htmp₂⟩ := txTmp_eq c₂ hin₂
  rw [hcopy₁, Option.some.injEq] at htmp₁
  rw [hcopy₂, Option.some.injEq, htmp₁, CTransaction.mk.injEq] at htmp₂
  obtain ⟨hversion, -, hleft, htime, hdata⟩ := htmp₂
  obtain ⟨left₁', hleft₁', -, -, hall₁, hsingle₁⟩ := blankOutputs_eq hin₁.2
  obtain ⟨left₂', hleft₂', -, -, hall₂, hsingle₂⟩ := blankOutputs_eq hin₂.2
  obtain rfl := Option.some.inj (hleft₁.symm.trans hleft₁')
  obtain rfl := Option.some.inj (hleft₂.symm.trans hleft₂')
  subst hleft
  -- with one output kept, the number of outputs is the index
  have hindex : baseType h₁ = SIGHASH_SINGLE.toNat → i₁ = i₂ := by
    intro hsingle
    have hlen₁ := (hsingle₁ hsingle).1
    have hlen₂ := (hsingle₂ hsingle).1
    omega
  have houts : baseType h₁ = SIGHASH_SINGLE.toNat → t₁.vout[i₁]? = t₂.vout[i₂]? := by
    intro hsingle
    rw [← (hsingle₁ hsingle).2, ← (hsingle₂ hsingle).2, hindex hsingle]
  refine ⟨rfl, hversion, htime, hdata, ?_⟩
  by_cases hany : anyoneCanPay h₁
  · rw [if_pos hany, if_pos hany, List.getElem?_eq_getElem hin₁.1, List.getElem?_eq_getElem hin₂.1] at hvin
    simp only [Option.toList_some, List.map_cons, List.map_nil, List.cons.injEq, CTxIn.mk.injEq, and_true] at hvin
    obtain ⟨hprevout, hscript, hsequence⟩ := hvin
    refine ⟨hscript, fun _ => ?_, fun hnone hsingle => ?_, houts, fun hnot => absurd hany hnot⟩
    · rw [List.getElem?_eq_getElem hin₁.1, List.getElem?_eq_getElem hin₂.1, Option.map_some, Option.map_some, hprevout,
        hsequence]
    · rw [← hall₁ hnone hsingle, ← hall₂ hnone hsingle]
  · rw [if_neg hany, if_neg hany] at hvin
    obtain ⟨hscript, hsame⟩ := scriptCode_eq hin₁.1 hin₂.1 hvin
    refine ⟨hscript, ?_, fun hnone hsingle => ?_, houts, fun _ => ?_⟩
    · intro hsigned
      have hi : i₁ = i₂ := by
        rcases hsigned with hne | hyes | hsingle
        · exact hsame hne
        · exact absurd hyes hany
        · exact hindex hsingle
      have hself := congrArg (fun vin : List CTxIn => vin[i₁]?.map fun txin => (txin.prevout, txin.nSequence)) hvin
      rw [getElem?_keptInputs_self, hi, getElem?_keptInputs_self, Option.map_map, Option.map_map] at hself
      rw [hi]
      exact hself
    · rw [← hall₁ hnone hsingle, ← hall₂ hnone hsingle]
    · have hprevouts := congrArg (List.map CTxIn.prevout) hvin
      rwa [prevouts_keptInputs, prevouts_keptInputs] at hprevouts

end Commit

/-! ## A signature that leaves the outputs open -/

namespace OpenOutputs

/-- A hash without collisions. -/
def Hash (vch : Bytes) : Uint256 := fromLE (vch ++ [1])

/-- A service transaction that spends one output. -/
def updateTx (vout : List CTxOut) : CTransaction := ⟨SYSCOIN_TX_VERSION, [⟨⟨1, 0⟩, [], 2 ^ 32 - 1⟩], vout, 0, [7]⟩

theorem updateTx_typed {nValue : Int} (h : 0 ≤ nValue ∧ nValue < 2 ^ 63) : (updateTx [⟨nValue, [OP_1]⟩]).Typed := by
  constructor
  case nVersion => simp [updateTx, SYSCOIN_TX_VERSION]
  case vin =>
    refine ⟨by simp [updateTx], fun txin htxin => ?_⟩
    rw [List.mem_singleton.mp htxin]
    constructor <;> decide
  case vout =>
    refine ⟨by simp [updateTx], fun txout htxout => ?_⟩
    rw [List.mem_singleton.mp htxout]
    exact ⟨⟨by dsimp only; omega, h.2⟩, by simp⟩
  case nLockTime => simp [updateTx]
  case data => simp [updateTx]

/-- Two outputs under one signature: the payload and the input are the same. -/
theorem signature_commits :
    (updateTx [⟨5, [OP_1]⟩]).data = (updateTx [⟨9, [OP_1]⟩]).data ∧
      (updateTx [⟨5, [OP_1]⟩]).vin.map CTxIn.prevout = (updateTx [⟨9, [OP_1]⟩]).vin.map CTxIn.prevout := by
  have h := signatures_commit fromLE_mark_injective (updateTx_typed ⟨by decide, by decide⟩)
    (updateTx_typed ⟨by decide, by decide⟩) (by decide) (by decide) ⟨by decide, by decide⟩ ⟨by decide, by decide⟩
    (And.intro (by decide) (by decide)) (And.intro (by decide) (by decide))
    (show signatureHash Hash [OP_1] (updateTx [⟨5, [OP_1]⟩]) 0 2 = signatureHash Hash [OP_1] (updateTx [⟨9, [OP_1]⟩]) 0 2 from
      rfl)
  exact ⟨h.2.2.2.1, h.2.2.2.2.2.2.2.2 (by decide)⟩

end OpenOutputs

end Syscoin

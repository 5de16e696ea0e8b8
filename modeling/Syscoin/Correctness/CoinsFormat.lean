import Mathlib.Data.List.GetD
import Mathlib.Tactic.Linarith
import Syscoin.Chain.CoinsFormat
import Syscoin.Chain.Undo

/-!
# `Correctness.CoinsFormat` — coins and undo records come back from disk

Each piece of the format reads back what it wrote and no more. The mask is the piece with an argument: its last byte is
not zero, so that the reader, who knows only how many bytes are not zero, stops right behind it.
-/

namespace Syscoin

open Lib Lib.Reader

theorem reads_readVarIntSigned {n : Int} (h : 0 ≤ n) : Reads readVarIntSigned (writeVarIntSigned n) n := by
  have hread := (reads_readVarInt n.toNat).bind_pure (g := fun n : Nat => (n : Int))
  rw [Int.toNat_of_nonneg h] at hread
  rw [writeVarIntSigned, if_neg (by omega)]
  exact hread

theorem length_writeVarIntSigned (n : Int) : (writeVarIntSigned n).length = getSizeOfVarIntSigned n := by
  unfold writeVarIntSigned getSizeOfVarIntSigned
  split
  · rfl
  · exact length_writeVarInt _

/-! ## Amounts -/

namespace CTxOutCompressor

theorem stripZeros_spec (fuel n e : Nat) :
    ∃ m k, stripZeros fuel n e = (m, e + k) ∧ n = m * 10 ^ k ∧ k ≤ fuel ∧ (k < fuel → m % 10 ≠ 0) := by
  induction fuel generalizing n e with
  | zero => exact ⟨n, 0, rfl, by simp, Nat.le_refl _, by omega⟩
  | succ fuel ih =>
    rw [stripZeros]
    by_cases hzero : n % 10 = 0
    · obtain ⟨m, k, hstrip, hn, hk, hlast⟩ := ih (n := n / 10) (e := e + 1)
      refine ⟨m, k + 1, ?_, ?_, by omega, fun h => hlast (by omega)⟩
      · rw [if_pos hzero, hstrip]
        congr 1
        omega
      · calc n = n / 10 * 10 := by omega
          _ = m * 10 ^ (k + 1) := by rw [hn, Nat.pow_succ, Nat.mul_assoc]
    · rw [if_neg hzero]
      exact ⟨n, 0, rfl, by simp, Nat.zero_le _, fun _ => hzero⟩

theorem decompressAmount_compressAmount {n : Nat} (h : n < 2 ^ 60) : decompressAmount (compressAmount n) = n := by
  unfold compressAmount
  by_cases hn : n = 0
  · rw [if_pos hn, hn]
    rfl
  · rw [if_neg hn]
    obtain ⟨m, k, hstrip, heq, hk, hlast⟩ := stripZeros_spec 9 n 0
    rw [Nat.zero_add] at hstrip
    have hm : m ≠ 0 := by
      rintro rfl
      exact hn (by rw [heq, Nat.zero_mul])
    have hle : m ≤ n := by
      rw [heq]
      exact Nat.le_mul_of_pos_right m (Nat.pow_pos (by decide))
    simp only [hstrip]
    by_cases hk9 : k < 9
    · have hdigit : m % 10 ≠ 0 := hlast hk9
      rw [if_pos hk9, Nat.mod_eq_of_lt (by omega)]
      unfold decompressAmount
      have hx : 1 + (m / 10 * 9 + m % 10 - 1) * 10 + k - 1 = (m / 10 * 9 + m % 10 - 1) * 10 + k := by omega
      have he : ((m / 10 * 9 + m % 10 - 1) * 10 + k) % 10 = k := by omega
      have hdiv : ((m / 10 * 9 + m % 10 - 1) * 10 + k) / 10 = m / 10 * 9 + m % 10 - 1 := by omega
      have hback : (m / 10 * 9 + m % 10 - 1) / 9 * 10 + ((m / 10 * 9 + m % 10 - 1) % 9 + 1) = m := by omega
      rw [if_neg (by omega), hx]
      simp only [he, hdiv, if_pos hk9, hback]
      rw [← heq]
      exact Nat.mod_eq_of_lt (by omega)
    · have hk' : k = 9 := by omega
      subst hk'
      rw [if_neg hk9, Nat.mod_eq_of_lt (by omega)]
      unfold decompressAmount
      have hx : 1 + (m - 1) * 10 + 9 - 1 = (m - 1) * 10 + 9 := by omega
      have he : ((m - 1) * 10 + 9) % 10 = 9 := by omega
      have hdiv : ((m - 1) * 10 + 9) / 10 + 1 = m := by omega
      rw [if_neg (by omega), hx]
      simp only [he, if_neg hk9, hdiv]
      rw [← heq]
      exact Nat.mod_eq_of_lt (by omega)

/-- No operation of `CompressAmount` leaves its 64 bits. -/
theorem compressAmountExact_eq {n : Nat} (h : n < 2 ^ 60) : compressAmountExact n = .ok (compressAmount n) := by
  unfold compressAmountExact compressAmount
  by_cases hn : n = 0
  · rw [if_pos hn, if_pos hn]
  · rw [if_neg hn, if_neg hn]
    obtain ⟨m, k, hstrip, heq, hk, hlast⟩ := stripZeros_spec 9 n 0
    rw [Nat.zero_add] at hstrip
    have hle : m ≤ n := by
      rw [heq]
      exact Nat.le_mul_of_pos_right m (Nat.pow_pos (by decide))
    have hm : m ≠ 0 := by
      rintro rfl
      exact hn (by rw [heq, Nat.zero_mul])
    simp only [hstrip]
    by_cases hk9 : k < 9
    · have hdigit := hlast hk9
      simp only [if_pos hk9, Except.bind_ok_iff, Access.add64_ok_iff, Access.sub64_ok_iff, Access.mul64_ok_iff]
      refine ⟨_, ⟨?_, rfl⟩, _, ⟨?_, rfl⟩, _, ⟨?_, rfl⟩, _, ⟨?_, rfl⟩, _, ⟨?_, rfl⟩, ?_, ?_⟩ <;> omega
    · simp only [if_neg hk9, Except.bind_ok_iff, Access.add64_ok_iff, Access.sub64_ok_iff, Access.mul64_ok_iff]
      refine ⟨_, ⟨?_, rfl⟩, _, ⟨?_, rfl⟩, _, ⟨?_, rfl⟩, ?_, ?_⟩ <;> omega

theorem appendZeros_ok {e n m : Nat} (hn : n < 2 ^ 64) (h : appendZeros e n = .ok m) : m < 2 ^ 64 ∧ n * 10 ^ e = m := by
  induction e generalizing n with
  | zero =>
    cases h
    exact ⟨hn, Nat.mul_one _⟩
  | succ e ih =>
    obtain ⟨n', hn', h⟩ := Except.bind_ok_iff.mp h
    obtain ⟨hlt, rfl⟩ := Access.mul64_ok_iff.mp hn'
    obtain ⟨hm, heq⟩ := ih hlt h
    refine ⟨hm, ?_⟩
    rw [← heq, Nat.pow_succ']
    ring

/-- Zeros are stripped one by one. -/
theorem stripZeros_mul (e fuel n k : Nat) : stripZeros (fuel + e) (n * 10 ^ e) k = stripZeros fuel n (k + e) := by
  induction e generalizing k with
  | zero => rw [Nat.add_zero, Nat.pow_zero, Nat.mul_one, Nat.add_zero]
  | succ e ih =>
    have hzero : n * 10 ^ (e + 1) = n * 10 ^ e * 10 := by ring
    have hcount : k + 1 + e = k + (e + 1) := by omega
    rw [← Nat.add_assoc, stripZeros, hzero, if_pos (Nat.mul_mod_left _ _), Nat.mul_div_cancel _ (by decide), ih, hcount]

/-- Digits before the last one that is not a zero, this one, and the zeros behind it. -/
theorem compressAmount_digits {n d e : Nat} (hd : 1 ≤ d) (hd9 : d ≤ 9) (he : e < 9) :
    compressAmount ((n * 10 + d) * 10 ^ e) = (1 + (n * 9 + d - 1) * 10 + e) % 2 ^ 64 := by
  have hpos : (n * 10 + d) * 10 ^ e ≠ 0 := Nat.mul_ne_zero (by omega) (Nat.pow_pos (by decide)).ne'
  have hfuel : 9 = 8 - e + 1 + e := by omega
  have hstrip : stripZeros 9 ((n * 10 + d) * 10 ^ e) 0 = (n * 10 + d, e) := by
    rw [hfuel, stripZeros_mul, stripZeros, if_neg (by omega), Nat.zero_add]
  have hdigit : (n * 10 + d) % 10 = d := by omega
  have hrest : (n * 10 + d) / 10 = n := by omega
  rw [compressAmount, if_neg hpos]
  simp only [hstrip, if_pos he, hdigit, hrest]

theorem stripZeros_all (e n : Nat) : stripZeros e (n * 10 ^ e) 0 = (n, e) := by
  have h := stripZeros_mul e 0 n 0
  rwa [Nat.zero_add, stripZeros] at h

theorem compressAmount_billions {n m : Nat} (hn : n ≠ 0) (hm : m = n * 10 ^ 9) :
    compressAmount m = (1 + (n - 1) * 10 + 9) % 2 ^ 64 := by
  have hpos : m ≠ 0 := by
    rw [hm]
    exact Nat.mul_ne_zero hn (Nat.pow_pos (by decide)).ne'
  have hstrip : stripZeros 9 m 0 = (n, 9) := by
    rw [hm]
    exact stripZeros_all 9 n
  rw [compressAmount, if_neg hpos]
  simp only [hstrip, Nat.lt_irrefl, if_false]

/-- What is decompressed without a wrap is compressed again to where it came from. -/
theorem compressAmount_decompressAmountExact {x m : Nat} (hx : x < 2 ^ 64) (h : decompressAmountExact x = .ok m) :
    decompressAmount x = m ∧ compressAmount m = x := by
  unfold decompressAmountExact at h
  unfold decompressAmount
  by_cases hzero : x = 0
  · rw [if_pos hzero] at h ⊢
    cases h
    exact ⟨rfl, hzero.symm⟩
  · rw [if_neg hzero] at h ⊢
    obtain ⟨n, hn, h⟩ := Except.bind_ok_iff.mp h
    unfold significandExact at hn
    by_cases he : (x - 1) % 10 < 9
    · rw [if_pos he] at hn
      obtain ⟨tens, htens, hn⟩ := Except.bind_ok_iff.mp hn
      obtain ⟨-, rfl⟩ := Access.mul64_ok_iff.mp htens
      obtain ⟨hlt, rfl⟩ := Access.add64_ok_iff.mp hn
      obtain ⟨hm, rfl⟩ := appendZeros_ok hlt h
      constructor
      · simp only [if_pos he]
        exact Nat.mod_eq_of_lt hm
      · rw [compressAmount_digits (by omega) (by omega) he]
        omega
    · rw [if_neg he] at hn
      obtain ⟨hlt, rfl⟩ := Access.add64_ok_iff.mp hn
      obtain ⟨hm, rfl⟩ := appendZeros_ok hlt h
      have hnine : (x - 1) % 10 = 9 := by omega
      constructor
      · simp only [if_neg he]
        exact Nat.mod_eq_of_lt hm
      · rw [compressAmount_billions (Nat.succ_ne_zero _) (by rw [hnine])]
        omega

/-- **Amount compression is lossless.** Up to `MAX_MONEY` an amount is compressed without a wrap and comes back from it,
    and what is decompressed without a wrap to such an amount is what the amount is compressed to. -/
theorem amount_compression_lossless :
    (∀ n : Nat, (n : Int) ≤ MAX_MONEY →
      compressAmountExact n = .ok (compressAmount n) ∧ decompressAmount (compressAmount n) = n) ∧
    ∀ x m : Nat, x < 2 ^ 64 → decompressAmountExact x = .ok m → (m : Int) ≤ MAX_MONEY →
      decompressAmount x = m ∧ compressAmount (decompressAmount x) = x := by
  constructor
  · intro n hn
    have hmax : (n : Int) ≤ 200000000000000000 := hn
    exact ⟨compressAmountExact_eq (by omega), decompressAmount_compressAmount (by omega)⟩
  · intro x m hx h _
    obtain ⟨hm, hback⟩ := compressAmount_decompressAmountExact hx h
    exact ⟨hm, hm.symm ▸ hback⟩

/-- One coin, and what it is compressed to. -/
theorem one_coin_lossless : (compressAmountExact 100000000 = .ok (compressAmount 100000000) ∧
      decompressAmount (compressAmount 100000000) = 100000000) ∧
    decompressAmount 9 = 100000000 ∧ compressAmount (decompressAmount 9) = 9 :=
  ⟨amount_compression_lossless.1 100000000 (by decide),
    amount_compression_lossless.2 9 100000000 (by decide) (by decide) (by decide)⟩

theorem amountOfBits_amountBits {nValue : Int} (h : moneyRange nValue) :
    amountOfBits (decompressAmount (compressAmount (amountBits nValue))) = nValue := by
  have hmax : nValue ≤ 200000000000000000 := h.2
  have hbits : amountBits nValue = nValue.toNat := by
    rw [amountBits, Int.emod_eq_of_lt h.1 (by omega)]
  rw [hbits, decompressAmount_compressAmount (by omega), amountOfBits, if_pos (by omega), Int.toNat_of_nonneg h.1]

end CTxOutCompressor

/-! ## Scripts -/

/-- Every fully valid key is found again from its `x` coordinate and the parity of the other one. -/
def KeyCodec.Inverts (keys : KeyCodec) : Prop :=
  ∀ pubkey : Bytes, pubkey.length = 65 → pubkey[0]? = some 4 → keys.isFullyValid pubkey = true →
    keys.decompress ((2 + (pubkey.getD 64 0 &&& 1)) :: (pubkey.drop 1).take 32) = some pubkey

namespace CScriptCompressor

variable {keys : KeyCodec} {script compr : CScript} {vch : Bytes}

/-- A byte string in three parts. -/
theorem eq_take_slice_drop (script : Bytes) (k n : Nat) :
    script.take k ++ ((script.drop k).take n ++ script.drop (k + n)) = script := by
  rw [← List.drop_drop, List.take_append_drop, List.take_append_drop]

theorem isToKeyID_eq_some (h : isToKeyID script = some vch) :
    vch.length = 20 ∧ [OP_DUP, OP_HASH160, 20] ++ (vch ++ [OP_EQUALVERIFY, OP_CHECKSIG]) = script := by
  unfold isToKeyID at h
  split at h
  · rename_i hform
    obtain ⟨hlen, h0, h1, h2, h23, h24⟩ := hform
    rw [Option.some.injEq] at h
    have hfront : script.take 3 = [OP_DUP, OP_HASH160, 20] := by
      simp [List.take_add_one, h0, h1, h2]
    have hback : script.drop (3 + 20) = [OP_EQUALVERIFY, OP_CHECKSIG] := by
      rw [List.drop_eq_getElem?_toList_append, h23, List.drop_eq_getElem?_toList_append, h24,
        List.drop_of_length_le (by omega)]
      rfl
    constructor
    · rw [← h, List.length_take, List.length_drop]
      omega
    · rw [← h, ← hfront, ← hback]
      exact eq_take_slice_drop script 3 20
  · cases h

theorem isToScriptID_eq_some (h : isToScriptID script = some vch) :
    vch.length = 20 ∧ [OP_HASH160, 20] ++ (vch ++ [OP_EQUAL]) = script := by
  unfold isToScriptID at h
  split at h
  · rename_i hform
    obtain ⟨hlen, h0, h1, h22⟩ := hform
    rw [Option.some.injEq] at h
    have hfront : script.take 2 = [OP_HASH160, 20] := by
      simp [List.take_add_one, h0, h1]
    have hback : script.drop (2 + 20) = [OP_EQUAL] := by
      rw [List.drop_eq_getElem?_toList_append, h22, List.drop_of_length_le (by omega)]
      rfl
    constructor
    · rw [← h, List.length_take, List.length_drop]
      omega
    · rw [← h, ← hfront, ← hback]
      exact eq_take_slice_drop script 2 20
  · cases h

/-- A key of `n` bytes between its length and `OP_CHECKSIG`. -/
theorem pushedKey_eq {n : Nat} {c : UInt8} (hlen : script.length = 1 + n + 1) (h0 : script[0]? = some c)
    (hlast : script[1 + n]? = some OP_CHECKSIG) : [c] ++ ((script.drop 1).take n ++ [OP_CHECKSIG]) = script := by
  have hfront : script.take 1 = [c] := by
    simp [List.take_add_one, h0]
  have hback : script.drop (1 + n) = [OP_CHECKSIG] := by
    rw [List.drop_eq_getElem?_toList_append, hlast, List.drop_of_length_le (by omega)]
    rfl
  rw [← hfront, ← hback]
  exact eq_take_slice_drop script 1 n

/-- The bit that tells the two points with one `x` coordinate apart. -/
theorem and_one_eq (c : UInt8) : c &&& 1 = 0 ∨ c &&& 1 = 1 := by
  have hmod : (c &&& 1).toNat = c.toNat % 2 := by
    rw [UInt8.toNat_and]
    exact Nat.and_one_is_mod _
  rcases Nat.mod_two_eq_zero_or_one c.toNat with hbit | hbit
  · left
    apply UInt8.toNat_inj.mp
    rw [hmod, hbit]
    rfl
  · right
    apply UInt8.toNat_inj.mp
    rw [hmod, hbit]
    rfl

theorem isToPubKey_eq_some {pubkey : Bytes} (h : isToPubKey keys script = some pubkey) :
    (pubkey.length = 33 ∧ (pubkey[0]? = some 2 ∨ pubkey[0]? = some 3) ∧ [33] ++ (pubkey ++ [OP_CHECKSIG]) = script) ∨
      (pubkey.length = 65 ∧ pubkey[0]? = some 4 ∧ keys.isFullyValid pubkey = true ∧
        [65] ++ (pubkey ++ [OP_CHECKSIG]) = script) := by
  have hhead : ∀ n, 0 < n → ((script.drop 1).take n)[0]? = script[1]? := by
    intro n hn
    rw [List.getElem?_take_of_lt hn, List.getElem?_drop]
  unfold isToPubKey at h
  split at h
  · rename_i hform
    obtain ⟨hlen, h0, hlast, h1⟩ := hform
    rw [Option.some.injEq] at h
    left
    refine ⟨?_, ?_, ?_⟩
    · rw [← h, List.length_take, List.length_drop]
      omega
    · rw [← h, hhead 33 (by decide)]
      exact h1
    · rw [← h]
      exact pushedKey_eq hlen h0 hlast
  · split at h
    · rename_i hform
      obtain ⟨hlen, h0, hlast, h1⟩ := hform
      dsimp only at h
      split at h
      · rename_i hvalid
        rw [Option.some.injEq] at h
        right
        refine ⟨?_, ?_, ?_, ?_⟩
        · rw [← h, List.length_take, List.length_drop]
          omega
        · rw [← h, hhead 65 (by decide)]
          exact h1
        · rw [← h]
          exact hvalid
        · rw [← h]
          exact pushedKey_eq hlen h0 hlast
      · cases h
    · cases h

/-- A compressed key is written as it is. -/
theorem compressKey_short {pubkey : Bytes} {c : UInt8} (hlen : pubkey.length = 33) (hc : c = 2 ∨ c = 3)
    (h0 : pubkey[0]? = some c) : compressKey pubkey = some (c :: pubkey.drop 1) ∧ c :: pubkey.drop 1 = pubkey := by
  have hx : (pubkey.drop 1).take 32 = pubkey.drop 1 := by
    apply List.take_of_length_le
    rw [List.length_drop, hlen]
  have hhead : pubkey.getD 0 0 = c := by
    rw [List.getD_eq_getElem?_getD, h0, Option.getD_some]
  constructor
  · rw [compressKey, if_pos (by rcases hc with rfl | rfl <;> simp [h0]), hx, hhead]
  · have hcons := List.drop_eq_getElem?_toList_append (l := pubkey) (i := 0)
    rw [List.drop_zero, h0] at hcons
    exact hcons.symm

theorem compressKey_long {pubkey : Bytes} (h0 : pubkey[0]? = some 4) :
    compressKey pubkey = some ((4 ||| (pubkey.getD 64 0 &&& 1)) :: (pubkey.drop 1).take 32) := by
  rw [compressKey, if_neg (by rw [h0]; decide), if_pos h0]

/-- A short key, with its own first byte for the number. -/
theorem decompress_short {pubkey : Bytes} {nSize : Nat} (hlen : pubkey.length = 33) (hsize : nSize = 2 ∨ nSize = 3)
    (h0 : pubkey[0]? = some (UInt8.ofNat nSize)) : (pubkey.drop 1).length = getSpecialSize nSize ∧
      decompress keys nSize (pubkey.drop 1) = some ([33] ++ (pubkey ++ [OP_CHECKSIG])) := by
  obtain ⟨-, hcons⟩ := compressKey_short hlen (by rcases hsize with rfl | rfl <;> simp) h0
  have hdrop : (pubkey.drop 1).length = 32 := by rw [List.length_drop, hlen]
  have htake : (pubkey.drop 1).take 32 = pubkey.drop 1 := List.take_of_length_le (Nat.le_of_eq hdrop)
  rcases hsize with rfl | rfl
  · refine ⟨hdrop, ?_⟩
    rw [decompress, htake]
    nth_rewrite 2 [← hcons]
    rfl
  · refine ⟨hdrop, ?_⟩
    rw [decompress, htake]
    nth_rewrite 2 [← hcons]
    rfl

/-- A long key, with the parity of its other coordinate in the number. -/
theorem decompress_long (hkeys : keys.Inverts) {pubkey : Bytes} (hlen : pubkey.length = 65) (h0 : pubkey[0]? = some 4)
    (hvalid : keys.isFullyValid pubkey = true) :
    ∃ nSize, nSize < nSpecialScripts ∧ 4 ||| (pubkey.getD 64 0 &&& 1) = UInt8.ofNat nSize ∧
      ((pubkey.drop 1).take 32).length = getSpecialSize nSize ∧
      decompress keys nSize ((pubkey.drop 1).take 32) = some ([65] ++ (pubkey ++ [OP_CHECKSIG])) := by
  have hinv := hkeys pubkey hlen h0 hvalid
  have hlenx : ((pubkey.drop 1).take 32).length = 32 := by
    rw [List.length_take, List.length_drop, hlen]
    rfl
  have htake : ((pubkey.drop 1).take 32).take 32 = (pubkey.drop 1).take 32 :=
    List.take_of_length_le (Nat.le_of_eq hlenx)
  rcases and_one_eq (pubkey.getD 64 0) with hbit | hbit
  · rw [hbit] at hinv ⊢
    refine ⟨4, by decide, rfl, hlenx, ?_⟩
    rw [decompress, htake]
    show (keys.decompress ((2 + 0) :: _)).map _ = _
    rw [hinv, Option.map_some]
  · rw [hbit] at hinv ⊢
    refine ⟨5, by decide, rfl, hlenx, ?_⟩
    rw [decompress, htake]
    show (keys.decompress ((2 + 1) :: _)).map _ = _
    rw [hinv, Option.map_some]

/-- What `Compress` writes starts with a number below six, of which `Decompress` makes the script again. -/
theorem compress_spec (hkeys : keys.Inverts) (h : compress keys script = some compr) :
    ∃ nSize vch, nSize < nSpecialScripts ∧ compr = UInt8.ofNat nSize :: vch ∧ vch.length = getSpecialSize nSize ∧
      decompress keys nSize vch = some script := by
  unfold compress at h
  split at h
  · rename_i keyID hkey
    obtain ⟨hlen, heq⟩ := isToKeyID_eq_some hkey
    rw [Option.some.injEq] at h
    refine ⟨0, keyID, by decide, h.symm, hlen, ?_⟩
    rw [decompress, List.take_of_length_le (Nat.le_of_eq hlen), heq]
  · split at h
    · rename_i scriptID hscript
      obtain ⟨hlen, heq⟩ := isToScriptID_eq_some hscript
      rw [Option.some.injEq] at h
      refine ⟨1, scriptID, by decide, h.symm, hlen, ?_⟩
      rw [decompress, List.take_of_length_le (Nat.le_of_eq hlen), heq]
    · obtain ⟨pubkey, hpub, hcompr⟩ := Option.bind_eq_some_iff.mp h
      rcases isToPubKey_eq_some hpub with ⟨hlen, h2 | h3, rfl⟩ | ⟨hlen, h0, hvalid, rfl⟩
      · obtain ⟨hkey, -⟩ := compressKey_short hlen (.inl rfl) h2
        rw [hkey, Option.some.injEq] at hcompr
        obtain ⟨hdrop, hdec⟩ := decompress_short hlen (.inl rfl) h2
        exact ⟨2, pubkey.drop 1, by decide, hcompr.symm, hdrop, hdec⟩
      · obtain ⟨hkey, -⟩ := compressKey_short hlen (.inr rfl) h3
        rw [hkey, Option.some.injEq] at hcompr
        obtain ⟨hdrop, hdec⟩ := decompress_short hlen (.inr rfl) h3
        exact ⟨3, pubkey.drop 1, by decide, hcompr.symm, hdrop, hdec⟩
      · obtain ⟨nSize, hsmall, hfirst, hlenx, hdec⟩ := decompress_long hkeys hlen h0 hvalid
        rw [compressKey_long h0, Option.some.injEq, hfirst] at hcompr
        exact ⟨nSize, _, hsmall, hcompr.symm, hlenx, hdec⟩

theorem reads_unserialize (hkeys : keys.Inverts) (script old : CScript) :
    Reads (unserialize keys old) (serialize keys script) script := by
  unfold serialize
  split
  · rename_i compr hcompr
    obtain ⟨nSize, vch, hlt, rfl, hlen, hdec⟩ := compress_spec hkeys hcompr
    have hsmall : nSize ≤ 0x7f := Nat.le_trans (Nat.le_of_lt hlt) (by decide)
    have hwrite : writeVarInt nSize = [UInt8.ofNat nSize] := by
      rw [writeVarInt, if_pos hsmall, List.nil_append, Nat.mod_eq_of_lt (by omega)]
    show Reads _ ([UInt8.ofNat nSize] ++ vch) script
    rw [← hwrite]
    apply (reads_readVarInt nSize).bind
    rw [if_pos hlt, ← hlen]
    have hread := (reads_take vch).bind_pure (g := fun vch => (decompress keys nSize vch).getD old)
    rwa [hdec, Option.getD_some] at hread
  · apply (reads_readVarInt _).bind
    rw [if_neg (by omega), Nat.add_sub_cancel]
    exact reads_take script

theorem length_serialize (keys : KeyCodec) (script : CScript) :
    (serialize keys script).length = getSerializeSize keys script := by
  unfold serialize getSerializeSize
  split
  · rfl
  · rw [List.length_append, length_writeVarInt, Nat.add_comm]

end CScriptCompressor

/-! ## Outputs and undo records -/

namespace CTxOutCompressor

variable {keys : KeyCodec} {txout : CTxOut}

theorem reads_unserialize (hkeys : keys.Inverts) (h : moneyRange txout.nValue) (old : CTxOut) :
    Reads (unserialize keys old) (serialize keys txout) txout := by
  apply (reads_readVarInt _).bind
  rw [amountOfBits_amountBits h]
  exact (CScriptCompressor.reads_unserialize hkeys txout.scriptPubKey old.scriptPubKey).bind_pure

theorem length_serialize (keys : KeyCodec) (txout : CTxOut) :
    (serialize keys txout).length = getSerializeSize keys txout := by
  rw [serialize, getSerializeSize, List.length_append, length_writeVarInt, CScriptCompressor.length_serialize]

end CTxOutCompressor

namespace CTxInUndo

variable {keys : KeyCodec} {undo : CTxInUndo}

/-- All of a record comes back but a version without a height. -/
theorem reads_unserialize (hkeys : keys.Inverts) (hvalue : moneyRange undo.txout.nValue) (hversion : 0 ≤ undo.nVersion)
    (old : CTxInUndo) : Reads (unserialize keys old) (serialize keys undo)
      { undo with nVersion := if undo.nHeight > 0 then undo.nVersion else old.nVersion } := by
  have hheight : (undo.nHeight * 2 + (if undo.fCoinBase then 1 else 0)) / 2 = undo.nHeight := by
    split <;> omega
  have hcoinbase : decide ((undo.nHeight * 2 + (if undo.fCoinBase then 1 else 0)) % 2 = 1) = undo.fCoinBase := by
    rw [Nat.mul_comm, Nat.mul_add_mod]
    cases undo.fCoinBase <;> rfl
  have hread : Reads (if undo.nHeight > 0 then readVarIntSigned else pure old.nVersion)
      (if undo.nHeight > 0 then writeVarIntSigned undo.nVersion else [])
      (if undo.nHeight > 0 then undo.nVersion else old.nVersion) := by
    split
    · exact reads_readVarIntSigned hversion
    · exact reads_pure _
  apply (reads_readVarInt _).bind
  simp only [hheight, hcoinbase]
  apply hread.bind
  exact (CTxOutCompressor.reads_unserialize hkeys hvalue old.txout).bind_pure

end CTxInUndo

/-! ## The mask -/

namespace CCoins

variable {keys : KeyCodec} {coins : CCoins} {vout : List CTxOut}

theorem bits_chAvail (vout : List CTxOut) (b : Nat) :
    ((List.range 8).map fun p => (chAvail vout b).toNat.testBit p) =
      (List.range 8).map fun i => unspentAt vout (2 + b * 8 + i) := by
  apply List.map_congr_left
  intro i hi
  have hlt : i < 8 := List.mem_range.mp hi
  rw [chAvail, testBit_packByte _ hlt, List.getD_eq_getElem _ _ (by simpa using hlt)]
  simp

theorem chAvail_eq_zero {b : Nat} :
    chAvail vout b = 0 ↔ ((List.range 8).all fun i => !unspentAt vout (2 + b * 8 + i)) = true := by
  rw [List.all_eq_true]
  constructor
  · intro hzero i hi
    have hbits := bits_chAvail vout b
    rw [hzero] at hbits
    have hbit := List.map_inj_left.mp hbits i hi
    rw [← hbit]
    simp
  · intro hall
    have hbits : ((List.range 8).map fun i => unspentAt vout (2 + b * 8 + i)) = (List.range 8).map fun _ => false := by
      apply List.map_congr_left
      intro i hi
      simpa using hall i hi
    rw [chAvail, hbits]
    decide

/-- What the loop of `CalcMaskSize` knows after `n` bytes. -/
structure MaskSize (vout : List CTxOut) (n : Nat) (size : Nat × Nat) : Prop where
  le : size.1 ≤ n
  zero : ∀ b, size.1 ≤ b → b < n → chAvail vout b = 0
  last : ∀ b, size.1 = b + 1 → chAvail vout b ≠ 0
  count : size.2 = ((List.range n).map (chAvail vout)).countP (· ≠ 0)

theorem MaskSize.step {n : Nat} {size : Nat × Nat} (h : MaskSize vout n size) :
    MaskSize vout (n + 1) (calcMaskStep vout size n) := by
  obtain ⟨hle, hzero, hlast, hcount⟩ := h
  unfold calcMaskStep
  by_cases hn : chAvail vout n = 0
  · simp only [if_pos (chAvail_eq_zero.mp hn)]
    refine ⟨Nat.le_succ_of_le hle, ?_, hlast, ?_⟩
    · intro b hb hbn
      rcases Nat.lt_succ_iff_lt_or_eq.mp hbn with hlt | rfl
      · exact hzero b hb hlt
      · exact hn
    · rw [List.range_succ, List.map_append, List.countP_append, ← hcount]
      simp [hn]
  · simp only [if_neg (mt chAvail_eq_zero.mpr hn)]
    refine ⟨Nat.le_refl _, ?_, ?_, ?_⟩
    · intro b hb hbn
      exact absurd hbn (Nat.not_lt.mpr hb)
    · intro b hb
      rw [← Nat.succ.inj hb]
      exact hn
    · rw [List.range_succ, List.map_append, List.countP_append, ← hcount]
      simp [hn]

theorem maskSize_foldl (vout : List CTxOut) (n : Nat) :
    MaskSize vout n ((List.range n).foldl (calcMaskStep vout) (0, 0)) := by
  induction n with
  | zero => exact ⟨Nat.le_refl _, fun b _ hb => by omega, fun b hb => by simp at hb, rfl⟩
  | succ n ih =>
    rw [List.range_succ, List.foldl_append]
    exact ih.step

theorem calcMaskSize_spec (vout : List CTxOut) :
    MaskSize vout ((vout.length - 2 + 7) / 8) (calcMaskSize vout) :=
  maskSize_foldl vout _

/-- The bytes that are written. -/
def mask (vout : List CTxOut) : Bytes := (List.range (calcMaskSize vout).1).map (chAvail vout)

theorem countP_mask (vout : List CTxOut) : (mask vout).countP (· ≠ 0) = (calcMaskSize vout).2 := by
  obtain ⟨hle, hzero, -, hcount⟩ := calcMaskSize_spec vout
  obtain ⟨k, hk⟩ := Nat.exists_eq_add_of_le hle
  rw [hcount, hk, List.range_add, List.map_append, List.countP_append, mask, Nat.left_eq_add, List.countP_eq_zero]
  intro c hc
  rw [List.map_map, List.mem_map] at hc
  obtain ⟨j, hj, rfl⟩ := hc
  have hjk : j < k := List.mem_range.mp hj
  simp only [Function.comp, hzero _ (Nat.le_add_right _ j) (by omega)]
  decide

theorem getLast_mask (vout : List CTxOut) : (mask vout).getLast? ≠ some 0 := by
  obtain ⟨-, -, hlast, -⟩ := calcMaskSize_spec vout
  unfold mask
  rcases hsize : (calcMaskSize vout).1 with _ | b
  · simp
  · rw [List.range_succ, List.map_append, List.map_singleton, List.getLast?_concat]
    intro h
    exact hlast b hsize (Option.some.inj h)

/-- The reader stops right behind a mask whose last byte is not zero. -/
theorem readMaskLoop_append (bytes rest : Bytes) (vAvail : List Bool) (hlast : bytes.getLast? ≠ some 0) :
    readMaskLoop (bytes ++ rest) (bytes.countP (· ≠ 0)) vAvail =
      some (vAvail ++ bytes.flatMap fun c => (List.range 8).map fun p => c.toNat.testBit p, rest) := by
  induction bytes generalizing vAvail with
  | nil => simp [readMaskLoop]
  | cons c bytes ih =>
    have htail : bytes.getLast? ≠ some 0 := by
      intro h
      apply hlast
      rw [List.getLast?_cons, h]
      rfl
    have hpos : 0 < (c :: bytes).countP (· ≠ 0) := by
      rw [List.countP_pos_iff]
      obtain ⟨d, hd⟩ : ∃ d, (c :: bytes).getLast? = some d := by
        rw [List.getLast?_cons]
        exact ⟨_, rfl⟩
      refine ⟨d, List.mem_of_getLast? hd, ?_⟩
      rw [decide_eq_true_eq]
      rintro rfl
      exact hlast hd
    have hcount : (c :: bytes).countP (· ≠ 0) = (bytes.countP (· ≠ 0)) + if c ≠ 0 then 1 else 0 := by
      rw [List.countP_cons]
      simp
    obtain ⟨nMaskCode, hcode⟩ := Nat.exists_eq_add_of_lt hpos
    rw [Nat.zero_add] at hcode
    have hnext : (if c ≠ 0 then nMaskCode else nMaskCode + 1) = bytes.countP (· ≠ 0) := by
      rw [hcode] at hcount
      split at hcount
      · rw [if_pos ‹_›]
        omega
      · rw [if_neg ‹_›]
        omega
    rw [hcode, List.cons_append, readMaskLoop, hnext, ih _ htail, List.flatMap_cons, List.append_assoc]

/-! ## Coins -/

/-- What the coin database holds: spent outputs are nulls and there is one that is not. -/
structure Stored (coins : CCoins) : Prop where
  outputs : ∀ o ∈ coins.vout, o = CTxOut.null ∨ moneyRange o.nValue
  unspent : ¬ coins.isPruned
  trimmed : cleanup coins.vout = coins.vout
  version : 0 ≤ coins.nVersion

theorem unspentAt_eq (vout : List CTxOut) (i : Nat) :
    unspentAt vout i = !decide (vout.getD i CTxOut.null).isNull := by
  unfold unspentAt
  by_cases hi : i < vout.length
  · simp [hi]
  · rw [List.getD_eq_default _ _ (Nat.le_of_not_lt hi)]
    have hnull : CTxOut.null.isNull := rfl
    simp [hi, hnull]

/-- Outputs that the mask does not reach are spent. -/
theorem unspentAt_of_le {i : Nat} (hi : 2 + 8 * (calcMaskSize vout).1 ≤ i) : unspentAt vout i = false := by
  obtain ⟨-, hzero, -, -⟩ := calcMaskSize_spec vout
  have hpos : 2 + (i - 2) / 8 * 8 + (i - 2) % 8 = i := by omega
  by_cases hb : (i - 2) / 8 < (vout.length - 2 + 7) / 8
  · have hbyte := chAvail_eq_zero.mp (hzero ((i - 2) / 8) (by omega) hb)
    rw [List.all_eq_true] at hbyte
    have hbit := hbyte ((i - 2) % 8) (List.mem_range.mpr (Nat.mod_lt _ (by decide)))
    rw [hpos] at hbit
    simpa using hbit
  · have hlen : ¬ i < vout.length := by omega
    simp [unspentAt, hlen]

/-- The mask reaches the last output that is not spent. -/
theorem length_le_of_trimmed (h : cleanup vout = vout) : vout.length ≤ 2 + 8 * (calcMaskSize vout).1 := by
  by_contra hlong
  have hne : vout ≠ [] := by
    rintro rfl
    simp at hlong
  have hlast := List.rdropWhile_eq_self_iff.mp h hne
  have hspent : unspentAt vout (vout.length - 1) = false := unspentAt_of_le (by omega)
  have hget : vout.getD (vout.length - 1) CTxOut.null = vout.getLast hne := by
    rw [List.getD_eq_getElem _ _ (by omega), List.getLast_eq_getElem]
  rw [unspentAt_eq, hget] at hspent
  apply hlast
  simpa using hspent

theorem flatMap_bits (vout : List CTxOut) (n : Nat) :
    ((List.range n).map (chAvail vout)).flatMap (fun c => (List.range 8).map fun p => c.toNat.testBit p) =
      (List.range (8 * n)).map fun j => unspentAt vout (2 + j) := by
  induction n with
  | zero => rfl
  | succ n ih =>
    rw [List.range_succ (n := n), List.map_append, List.flatMap_append, ih, List.map_singleton, List.flatMap_singleton,
      bits_chAvail, Nat.mul_succ 8 n, List.range_add, List.map_append, List.map_map]
    congr 1
    apply List.map_congr_left
    intro i _
    show unspentAt vout (2 + n * 8 + i) = unspentAt vout (2 + (8 * n + i))
    congr 1
    omega

/-- The outputs with the nulls that the mask adds at the end. -/
def filled (vout : List CTxOut) : List CTxOut :=
  vout ++ List.replicate (2 + 8 * (calcMaskSize vout).1 - vout.length) CTxOut.null

theorem getD_filled (vout : List CTxOut) (i : Nat) : (filled vout).getD i CTxOut.null = vout.getD i CTxOut.null := by
  unfold filled
  by_cases hi : i < vout.length
  · rw [List.getD_append _ _ _ _ hi]
  · rw [List.getD_append_right _ _ _ _ (Nat.le_of_not_lt hi), List.getD_eq_default vout _ (Nat.le_of_not_lt hi)]
    rw [List.getD_eq_getElem?_getD, List.getElem?_replicate]
    split
    · rfl
    · rfl

/-- What the reader knows after the mask. -/
theorem vAvail_eq (h : cleanup vout = vout) :
    [unspentAt vout 0, unspentAt vout 1] ++
        (mask vout).flatMap (fun c => (List.range 8).map fun p => c.toNat.testBit p) =
      (filled vout).map fun o => !decide o.isNull := by
  have hlen : (filled vout).length = 2 + 8 * (calcMaskSize vout).1 := by
    have hle := length_le_of_trimmed h
    rw [filled, List.length_append, List.length_replicate]
    omega
  have hall : [unspentAt vout 0, unspentAt vout 1] ++
      (mask vout).flatMap (fun c => (List.range 8).map fun p => c.toNat.testBit p) =
        (List.range (2 + 8 * (calcMaskSize vout).1)).map (unspentAt vout) := by
    rw [mask, flatMap_bits, List.range_add, List.map_append, List.map_map]
    rfl
  rw [hall]
  apply List.ext_getElem (by simp [hlen])
  intro i hi hi'
  rw [List.length_map] at hi'
  rw [List.getElem_map, List.getElem_map, List.getElem_range, unspentAt_eq, ← getD_filled,
    List.getD_eq_getElem _ _ hi']

theorem cleanup_filled (h : cleanup vout = vout) : cleanup (filled vout) = vout := by
  have hcut : ∀ n, cleanup (vout ++ List.replicate n CTxOut.null) = vout := by
    intro n
    induction n with
    | zero => rwa [List.replicate_zero, List.append_nil]
    | succ n ih =>
      rw [List.replicate_succ', ← List.append_assoc, cleanup, List.rdropWhile_concat_pos _ _ _ (by decide)]
      exact ih
  exact hcut _

theorem reads_readOutputs (hkeys : keys.Inverts) (h : ∀ o ∈ vout, o = CTxOut.null ∨ moneyRange o.nValue) :
    Reads (readOutputs keys (vout.map fun o => !decide o.isNull))
      (vout.flatMap fun o => if o.isNull then [] else CTxOutCompressor.serialize keys o) vout := by
  induction vout with
  | nil => exact reads_pure _
  | cons o vout ih =>
    rw [List.forall_mem_cons] at h
    obtain ⟨ho, hrest⟩ := h
    rw [List.map_cons, List.flatMap_cons, readOutputs]
    refine Reads.bind ?_ (ih hrest).bind_pure
    by_cases hnull : o.isNull
    · have heq : o = CTxOut.null := by
        rcases ho with heq | hrange
        · exact heq
        · have hneg : o.nValue = -1 := hnull
          exact absurd hrange.1 (by rw [hneg]; decide)
      simp only [hnull, decide_true, Bool.not_true, if_true, Bool.false_eq_true, if_false]
      rw [heq]
      exact reads_pure _
    · have hrange : moneyRange o.nValue := by
        rcases ho with rfl | hrange
        · exact absurd rfl hnull
        · exact hrange
      simp only [hnull, decide_false, Bool.not_false, if_true, if_false]
      exact CTxOutCompressor.reads_unserialize hkeys hrange _

theorem headerCode_digits {n q a f s : Nat} (ha : a ≤ 1) (hf : f ≤ 1) (hs : s ≤ 1)
    (h : n = 8 * q + a + 2 * f + 4 * s) :
    n % 2 = a ∧ n / 2 % 2 = f ∧ n / 4 % 2 = s ∧ n / 8 = q ∧ n / 2 % 4 = f + 2 * s := by
  omega

/-- The flags and the number of bytes come back out of the header code. -/
theorem headerCode_spec {nCode : Nat} (h : coins.headerCode = some nCode) :
    decide (nCode % 2 = 1) = coins.fCoinBase ∧ decide (nCode / 2 % 2 = 1) = unspentAt coins.vout 0 ∧
      decide (nCode / 4 % 2 = 1) = unspentAt coins.vout 1 ∧
      nCode / 8 + (if nCode / 2 % 4 ≠ 0 then 0 else 1) = (calcMaskSize coins.vout).2 := by
  unfold headerCode at h
  generalize (calcMaskSize coins.vout).2 = nMaskCode at h ⊢
  generalize unspentAt coins.vout 0 = fFirst at h ⊢
  generalize unspentAt coins.vout 1 = fSecond at h ⊢
  generalize coins.fCoinBase = fCoinBase at h ⊢
  dsimp only at h
  split at h
  · rename_i hsome
    rw [Option.some.injEq] at h
    have hdigits := headerCode_digits (q := nMaskCode - (if fFirst || fSecond then 0 else 1))
      (a := fCoinBase.toNat) (f := fFirst.toNat) (s := fSecond.toNat) (n := nCode) (Bool.toNat_le _) (Bool.toNat_le _)
      (Bool.toNat_le _) (by rw [← h]; cases fCoinBase <;> cases fFirst <;> cases fSecond <;> rfl)
    obtain ⟨h1, h2, h4, h8, h24⟩ := hdigits
    have hbit : ∀ b : Bool, decide (b.toNat = 1) = b := by decide
    rw [h1, h2, h4, h8, h24]
    refine ⟨hbit _, hbit _, hbit _, ?_⟩
    by_cases hnone : (fFirst || fSecond) = true
    · have hpos : fFirst.toNat + 2 * fSecond.toNat ≠ 0 := by
        revert hnone
        cases fFirst <;> cases fSecond <;> decide
      rw [if_pos hnone, if_pos hpos]
      omega
    · have hzero : fFirst.toNat + 2 * fSecond.toNat = 0 := by
        revert hnone
        cases fFirst <;> cases fSecond <;> decide
      -- the code of a mask without flags is one less than its number of bytes
      rw [Bool.or_eq_true, decide_eq_true_eq] at hsome
      have hmask : nMaskCode ≠ 0 := hsome.resolve_left hnone
      rw [if_neg hnone, if_neg (not_not.mpr hzero)]
      omega
  · cases h

/-- The assertion holds of coins with an unspent output. -/
theorem headerCode_isSome (hunspent : ¬ coins.isPruned) (htrimmed : cleanup coins.vout = coins.vout) :
    ∃ nCode, coins.headerCode = some nCode := by
  unfold headerCode
  dsimp only
  by_cases hsome : (unspentAt coins.vout 0 || unspentAt coins.vout 1 ||
      decide ((calcMaskSize coins.vout).2 ≠ 0)) = true
  · rw [if_pos hsome]
    exact ⟨_, rfl⟩
  · exfalso
    simp only [Bool.or_eq_true, not_or, Bool.not_eq_true, decide_eq_false_iff_not, not_not] at hsome
    obtain ⟨⟨hfirst, hsecond⟩, hcode⟩ := hsome
    -- no byte of the mask is zero at its end, so there is none
    have hempty : (calcMaskSize coins.vout).1 = 0 := by
      rcases hsize : (calcMaskSize coins.vout).1 with _ | b
      · rfl
      · exfalso
        have hlast := (calcMaskSize_spec coins.vout).last b hsize
        rw [← countP_mask, List.countP_eq_zero] at hcode
        apply hcode (chAvail coins.vout b)
        · rw [mask, hsize]
          exact List.mem_map_of_mem (List.mem_range.mpr (Nat.lt_succ_self b))
        · simpa using hlast
    have hshort := length_le_of_trimmed htrimmed
    rw [hempty] at hshort
    apply hunspent
    intro o ho
    obtain ⟨i, hi, rfl⟩ := List.mem_iff_getElem.mp ho
    have hnull : unspentAt coins.vout i = false := by
      obtain rfl | rfl : i = 0 ∨ i = 1 := by omega
      · exact hfirst
      · exact hsecond
    rw [unspentAt_eq, List.getD_eq_getElem _ _ hi] at hnull
    simpa using hnull

theorem flatMap_filled (keys : KeyCodec) (vout : List CTxOut) :
    (filled vout).flatMap (fun o => if o.isNull then [] else CTxOutCompressor.serialize keys o) =
      vout.flatMap fun o => if o.isNull then [] else CTxOutCompressor.serialize keys o := by
  have hnull : CTxOut.null.isNull := rfl
  have htail : ∀ n, (List.replicate n CTxOut.null).flatMap
      (fun o => if o.isNull then [] else CTxOutCompressor.serialize keys o) = [] := by
    intro n
    rw [List.flatMap_eq_nil_iff]
    intro o ho
    rw [List.eq_of_mem_replicate ho, if_pos hnull]
  rw [filled, List.flatMap_append, htail, List.append_nil]

theorem reads_readMask (htrimmed : cleanup vout = vout) :
    Reads (readMask (calcMaskSize vout).2 [unspentAt vout 0, unspentAt vout 1]) (mask vout)
      ((filled vout).map fun o => !decide o.isNull) := by
  intro rest
  rw [readMask, ← countP_mask, readMaskLoop_append _ _ _ (getLast_mask vout), vAvail_eq htrimmed]

theorem length_outputs (keys : KeyCodec) (vout : List CTxOut) :
    (vout.flatMap fun o => if o.isNull then [] else CTxOutCompressor.serialize keys o).length =
      (vout.map fun o => if o.isNull then 0 else CTxOutCompressor.getSerializeSize keys o).sum := by
  rw [List.length_flatMap]
  congr 1
  apply List.map_congr_left
  intro o _
  split
  · rfl
  · exact CTxOutCompressor.length_serialize keys o

theorem reads_unserialize (hkeys : keys.Inverts) (h : coins.Stored) :
    ∃ s, coins.serialize keys = some s ∧ coins.getSerializeSize keys = some s.length ∧
      Reads (unserialize keys) s coins := by
  obtain ⟨nCode, hcode⟩ := headerCode_isSome h.unspent h.trimmed
  obtain ⟨hcoinbase, hfirst, hsecond, hmask⟩ := headerCode_spec hcode
  refine ⟨_, by rw [serialize, hcode, Option.map_some], ?_, ?_⟩
  · rw [getSerializeSize, hcode, Option.map_some, Option.some.injEq]
    simp only [List.length_append, length_writeVarIntSigned, length_writeVarInt, List.length_map, List.length_range,
      length_outputs]
    omega
  · have houtputs : ∀ o ∈ filled coins.vout, o = CTxOut.null ∨ moneyRange o.nValue := by
      intro o ho
      rcases List.mem_append.mp ho with hold | hnew
      · exact h.outputs o hold
      · exact .inl (List.eq_of_mem_replicate hnew)
    apply (reads_readVarIntSigned h.version).bind
    apply (reads_readVarInt nCode).bind
    simp only [hcoinbase, hfirst, hsecond, hmask]
    apply (reads_readMask h.trimmed).bind
    rw [← flatMap_filled]
    apply (reads_readOutputs hkeys houtputs).bind
    rw [cleanup_filled h.trimmed]
    exact (reads_readVarInt coins.nHeight).bind_pure

/-- A record that spending makes holds the output, and the height only with the coins' own version. -/
theorem spend_undo {coins' : CCoins} {undo : CTxInUndo} {n : Nat} (h : coins.spend n = some (coins', undo)) :
    undo.txout ∈ coins.vout ∧ ¬ undo.txout.isNull ∧ (undo.nVersion = coins.nVersion ∨ undo.nVersion = 0) := by
  obtain ⟨hat, hnn, -⟩ := spend_spec h
  refine ⟨List.mem_of_getElem? hat, hnn, ?_⟩
  unfold spend at h
  split at h
  · simp only [Option.some.injEq, Prod.mk.injEq] at h
    rw [← h.2]
    split
    · exact .inl rfl
    · exact .inr rfl
  · cases h

end CCoins

namespace Cakenet

/-- The generator of the curve, uncompressed. -/
def generator : Bytes :=
  [0x04, 0x79, 0xBE, 0x66, 0x7E, 0xF9, 0xDC, 0xBB, 0xAC, 0x55, 0xA0, 0x62, 0x95, 0xCE, 0x87, 0x0B, 0x07, 0x02, 0x9B, 0xFC,
    0xDB, 0x2D, 0xCE, 0x28, 0xD9, 0x59, 0xF2, 0x81, 0x5B, 0x16, 0xF8, 0x17, 0x98, 0x48, 0x3A, 0xDA, 0x77, 0x26, 0xA3, 0xC4,
    0x65, 0x5D, 0xA4, 0xFB, 0xFC, 0x0E, 0x11, 0x08, 0xA8, 0xFD, 0x17, 0xB4, 0x48, 0xA6, 0x85, 0x54, 0x19, 0x9C, 0x47, 0xD0,
    0x8F, 0xFB, 0x10, 0xD4, 0xB8]

/-- The curve as far as the generator shows it. -/
def generatorKeys : KeyCodec where
  isFullyValid pubkey := decide (pubkey = generator)
  decompress vch := if vch = 2 :: (generator.drop 1).take 32 then some generator else none

def toGenerator : CTxOut := ⟨123456, [65] ++ (generator ++ [OP_CHECKSIG])⟩

/-- Two outputs not yet spent and two that are. -/
def halfSpent : CCoins := ⟨true, [CTxOut.null, ⟨5000000, [OP_HASH160, 20]⟩, CTxOut.null, toGenerator], 240, 1⟩

def lastOne : CCoins := ⟨true, [toGenerator], 240, 1⟩

theorem generatorKeys_inverts : generatorKeys.Inverts := by
  intro pubkey _ _ hvalid
  have heq : pubkey = generator := of_decide_eq_true hvalid
  rw [heq]
  decide +kernel

theorem halfSpent_stored : halfSpent.Stored where
  outputs := by decide +kernel
  unspent := by decide +kernel
  trimmed := by decide +kernel
  version := by decide

end Cakenet

end Syscoin

import Syscoin.Chain.Run
import Syscoin.Primitives.Serialize

/-!
# `Correctness.Payload` — offers and certificate issuers come back as they were

An offer goes into a transaction as the base64 text of its serialization. The decoder of base64 is one character behind
the encoder; whatever the length is modulo three, the bits that it holds back are those that the encoder had to give, and
the padding stops it (`decodeBase64_encodeBase64`). A field that is read in place takes what was written and leaves the
stream behind it (`Field.Reads`), so that a record comes back field by field whatever it held before
(`payloads_round_trip`).
-/

namespace Syscoin

open Lib Lib.Reader

/-! ## Base64 -/

theorem decode64_encode64 {n : Nat} (h : n < 64) : decode64 (encode64 n) = some n := by
  have hall : ∀ n < 64, decode64 (encode64 n) = some n := by decide
  exact hall n h

theorem ofNat_toNat_eq {n : Nat} {c : UInt8} (h : n = c.toNat) : UInt8.ofNat n = c := by
  rw [h, UInt8.ofNat_toNat]

/-! A character of the alphabet is not where the decoder stops. -/

section Character

variable {n left : Nat} (h : n < 64) (p : Bytes)

include h

theorem decodeBase64Loop_zero : decodeBase64Loop 0 left (encode64 n :: p) = decodeBase64Loop 1 n p := by
  rw [decodeBase64Loop, decode64_encode64 h]
  rfl

theorem decodeBase64Loop_one : decodeBase64Loop 1 left (encode64 n :: p) =
    UInt8.ofNat (left * 4 + n / 16) :: decodeBase64Loop 2 (n % 16) p := by
  rw [decodeBase64Loop, decode64_encode64 h]
  rfl

theorem decodeBase64Loop_two : decodeBase64Loop 2 left (encode64 n :: p) =
    UInt8.ofNat (left * 16 + n / 4) :: decodeBase64Loop 3 (n % 4) p := by
  rw [decodeBase64Loop, decode64_encode64 h]
  rfl

theorem decodeBase64Loop_three : decodeBase64Loop 3 left (encode64 n :: p) =
    UInt8.ofNat (left * 64 + n) :: decodeBase64Loop 0 0 p := by
  rw [decodeBase64Loop, decode64_encode64 h]
  rfl

end Character

/-- The padding is. -/
theorem decodeBase64Loop_padding (mode left : Nat) (p : Bytes) : decodeBase64Loop mode left (61 :: p) = [] := by
  rw [decodeBase64Loop]
  rfl

/-- The last byte of a group gives two characters. -/
theorem encodeBase64Loop_two (left : Nat) (c : UInt8) (pch : Bytes) : encodeBase64Loop 2 left (c :: pch) =
    encode64 (left + c.toNat / 64) :: encode64 (c.toNat % 64) :: encodeBase64Loop 0 0 pch := rfl

/-- **The decoder behind the encoder**, which has no byte, two bits or four bits of a byte left. -/
theorem decode_encode_loop (pch : Bytes) :
    (∀ left, decodeBase64Loop 0 0 (encodeBase64Loop 0 left pch) = pch) ∧
    (∀ a : UInt8, decodeBase64Loop 1 (a.toNat / 4) (encodeBase64Loop 1 (a.toNat % 4 * 16) pch) = a :: pch) ∧
    (∀ b : UInt8, decodeBase64Loop 2 (b.toNat / 16) (encodeBase64Loop 2 (b.toNat % 16 * 4) pch) = b :: pch) := by
  induction pch with
  | nil =>
    refine ⟨?_, ?_, ?_⟩
    · intro left
      rfl
    · intro a
      have ha := a.toNat_lt
      have hlast : decodeBase64Loop 1 (a.toNat / 4) [encode64 (a.toNat % 4 * 16), 61, 61] = [a] := by
        rw [decodeBase64Loop_one (by omega), decodeBase64Loop_padding, ofNat_toNat_eq (c := a) (by omega)]
      exact hlast
    · intro b
      have hb := b.toNat_lt
      have hlast : decodeBase64Loop 2 (b.toNat / 16) [encode64 (b.toNat % 16 * 4), 61] = [b] := by
        rw [decodeBase64Loop_two (by omega), decodeBase64Loop_padding, ofNat_toNat_eq (c := b) (by omega)]
      exact hlast
  | cons c pch ih =>
    obtain ⟨hzero, hone, htwo⟩ := ih
    have hc := c.toNat_lt
    refine ⟨?_, ?_, ?_⟩
    · intro left
      rw [encodeBase64Loop, decodeBase64Loop_zero (by omega)]
      exact hone c
    · intro a
      have ha := a.toNat_lt
      have hleft : (a.toNat % 4 * 16 + c.toNat / 16) % 16 = c.toNat / 16 := by omega
      rw [encodeBase64Loop, decodeBase64Loop_one (by omega), ofNat_toNat_eq (c := a) (by omega), hleft, htwo c]
    · intro b
      have hb := b.toNat_lt
      rw [encodeBase64Loop_two, decodeBase64Loop_two (by omega), ofNat_toNat_eq (c := b) (by omega),
        decodeBase64Loop_three (by omega), ofNat_toNat_eq (c := c) (by omega), hzero 0]

/-- **Base64 comes back**, whatever the padding. -/
theorem decodeBase64_encodeBase64 (pch : Bytes) : decodeBase64 (encodeBase64 pch) = pch :=
  (decode_encode_loop pch).1 0

/-! ## Fields -/

namespace Field

variable {α β : Type}

/-- On a stream that starts with `s` the field takes exactly `s` and turns `a` into `b`. -/
def Reads (f : Field α) (a : α) (s : Bytes) (b : α) : Prop := ∀ rest, f a (s ++ rest) = (b, some rest)

variable {f : Field α} {fs : List (Field α)} {a b c : α} {s t : Bytes}

theorem Reads.cons (h : Reads f a s b) (hrest : Reads (seq fs) b t c) : Reads (seq (f :: fs)) a (s ++ t) c := by
  intro rest
  rw [seq, List.append_assoc, h]
  exact hrest rest

/-- The last field of a record. -/
theorem Reads.last (h : Reads f a s b) : Reads (seq [f]) a s b := by
  intro rest
  rw [seq, h]
  rfl

theorem reads_fixed {width : Nat} {set : α → Bytes → α} (h : s.length = width) : Reads (fixed width set) a s (set a s) := by
  intro rest
  subst h
  simp [fixed]

/-- A number of fixed width, with what is made of it. -/
theorem reads_fixed_toLE (width : Nat) {n : Nat} (g : α → Nat → α) (h : n < 256 ^ width) :
    Reads (fixed width fun a b => g a (fromLE b)) a (toLE width n) (g a n) := by
  intro rest
  rw [reads_fixed (length_toLE width n), fromLE_toLE, Nat.mod_eq_of_lt h]

theorem reads_uint64 {set : α → Nat → α} {n : Nat} (h : n < 2 ^ 64) : Reads (uint64 set) a (writeUint64 n) (set a n) := by
  have hlt : n < 256 ^ 8 := h
  exact reads_fixed_toLE _ set hlt

theorem reads_uint256 {set : α → Uint256 → α} {n : Uint256} (h : n < 2 ^ 256) :
    Reads (uint256 set) a (writeUint256 n) (set a n) := by
  have hlt : n < 256 ^ 32 := h
  exact reads_fixed_toLE _ set hlt

theorem reads_int64 {set : α → Int → α} {n : Int} (hlow : -2 ^ 63 ≤ n) (hhigh : n < 2 ^ 63) :
    Reads (int64 set) a (writeInt64 n) (set a n) := by
  obtain ⟨hlt, heq⟩ := @signed_emod (2 ^ 63) n hlow hhigh
  have hread := reads_fixed_toLE (a := a) 8
    (fun a n => set a (if n < 2 ^ 63 then n else (n : Int) - (2 * 2 ^ 63 : Nat))) hlt
  rw [heq] at hread
  exact hread

theorem reads_bool {set : α → Bool → α} {flag : Bool} : Reads (bool set) a (writeBool flag) (set a flag) := by
  intro rest
  cases flag with
  | false => simp [bool, fixed, writeBool]
  | true => simp [bool, fixed, writeBool]

theorem reads_vch {set : α → Bytes → α} {v : Bytes} (h : v.length ≤ MAX_SIZE) :
    Reads (Field.vch set) a (writeVch v) (set a v) := by
  intro rest
  unfold Field.vch writeVch
  rw [List.append_assoc, reads_readCompactSize h]
  simp

/-- The elements of a vector start from the default object. -/
theorem elements_reads {read : Field β} {dflt : β} {chunk : Nat} {write : β → Bytes} {v : List β}
    (h : ∀ b ∈ v, Reads read dflt (write b) b) (i : Nat) (rest : Bytes) :
    elements read dflt chunk v.length i (v.flatMap write ++ rest) = (v, some rest) := by
  induction v generalizing i with
  | nil => rfl
  | cons b v ih =>
    rw [List.forall_mem_cons] at h
    rw [List.length_cons, List.flatMap_cons, List.append_assoc, elements, h.1]
    dsimp only
    rw [ih h.2]

theorem reads_vector {read : Field β} {dflt : β} {chunk : Nat} {write : β → Bytes} {set : α → List β → α} {v : List β}
    (hlen : v.length ≤ MAX_SIZE) (h : ∀ b ∈ v, Reads read dflt (write b) b) :
    Reads (vector read dflt chunk set) a (writeVector write v) (set a v) := by
  intro rest
  unfold vector writeVector
  rw [List.append_assoc, reads_readCompactSize hlen]
  dsimp only
  rw [elements_reads h]

end Field

/-! ## The records -/

/-- The values that the fields of an accept can have, with byte strings that can be read. -/
structure COfferAccept.InRange (a : COfferAccept) : Prop where
  vchRand : a.vchRand.length ≤ Field.MAX_SIZE
  vchMessage : a.vchMessage.length ≤ Field.MAX_SIZE
  vchAddress : a.vchAddress.length ≤ Field.MAX_SIZE
  txHash : a.txHash < 2 ^ 256
  txPayId : a.txPayId < 2 ^ 256
  nHeight : a.nHeight < 2 ^ 64
  nTime : a.nTime < 2 ^ 64
  nQty_low : -2 ^ 63 ≤ a.nQty
  nQty_high : a.nQty < 2 ^ 63
  nPrice : a.nPrice < 2 ^ 64
  nFee : a.nFee < 2 ^ 64

structure COffer.InRange (o : COffer) : Prop where
  vchRand : o.vchRand.length ≤ Field.MAX_SIZE
  vchPaymentAddress : o.vchPaymentAddress.length ≤ Field.MAX_SIZE
  sCategory : o.sCategory.length ≤ Field.MAX_SIZE
  sTitle : o.sTitle.length ≤ Field.MAX_SIZE
  sDescription : o.sDescription.length ≤ Field.MAX_SIZE
  txHash : o.txHash < 2 ^ 256
  hash : o.hash < 2 ^ 256
  nHeight : o.nHeight < 2 ^ 64
  nTime : o.nTime < 2 ^ 64
  n : o.n < 2 ^ 64
  nPrice : o.nPrice < 2 ^ 64
  nQty_low : -2 ^ 63 ≤ o.nQty
  nQty_high : o.nQty < 2 ^ 63
  nFee : o.nFee < 2 ^ 64
  length_accepts : o.accepts.length ≤ Field.MAX_SIZE
  accepts : ∀ a ∈ o.accepts, a.InRange

structure CCertItem.InRange (c : CCertItem) : Prop where
  vchRand : c.vchRand.length ≤ Field.MAX_SIZE
  vchTitle : c.vchTitle.length ≤ Field.MAX_SIZE
  vchData : c.vchData.length ≤ Field.MAX_SIZE
  txHash : c.txHash < 2 ^ 256
  txPayId : c.txPayId < 2 ^ 256
  nHeight : c.nHeight < 2 ^ 64
  nTime : c.nTime < 2 ^ 64
  nFee : c.nFee < 2 ^ 64

structure CCertIssuer.InRange (c : CCertIssuer) : Prop where
  vchRand : c.vchRand.length ≤ Field.MAX_SIZE
  vchTitle : c.vchTitle.length ≤ Field.MAX_SIZE
  vchData : c.vchData.length ≤ Field.MAX_SIZE
  txHash : c.txHash < 2 ^ 256
  nHeight : c.nHeight < 2 ^ 64
  nTime : c.nTime < 2 ^ 64
  hash : c.hash < 2 ^ 256
  n : c.n < 2 ^ 64
  nFee : c.nFee < 2 ^ 64
  length_certs : c.certs.length ≤ Field.MAX_SIZE
  certs : ∀ item ∈ c.certs, item.InRange

theorem reads_accept {a : COfferAccept} (h : a.InRange) (a₀ : COfferAccept) :
    Field.Reads COfferAccept.read a₀ (COffer.writeAccept a) a := by
  unfold COfferAccept.read COffer.writeAccept
  simp only [List.append_assoc]
  apply (Field.reads_vch h.vchRand).cons
  apply (Field.reads_vch h.vchMessage).cons
  apply (Field.reads_vch h.vchAddress).cons
  apply (Field.reads_uint256 h.txHash).cons
  apply (Field.reads_uint256 h.txPayId).cons
  apply (Field.reads_uint64 h.nHeight).cons
  apply (Field.reads_uint64 h.nTime).cons
  apply (Field.reads_int64 h.nQty_low h.nQty_high).cons
  apply (Field.reads_uint64 h.nPrice).cons
  apply (Field.reads_uint64 h.nFee).cons
  exact Field.reads_bool.last

theorem reads_item {c : CCertItem} (h : c.InRange) (c₀ : CCertItem) :
    Field.Reads CCertItem.read c₀ (CCertIssuer.writeItem c) c := by
  unfold CCertItem.read CCertIssuer.writeItem
  simp only [List.append_assoc]
  apply (Field.reads_vch h.vchRand).cons
  apply (Field.reads_vch h.vchTitle).cons
  apply (Field.reads_vch h.vchData).cons
  apply (Field.reads_uint256 h.txHash).cons
  apply (Field.reads_uint256 h.txPayId).cons
  apply (Field.reads_uint64 h.nHeight).cons
  apply (Field.reads_uint64 h.nTime).cons
  exact (Field.reads_uint64 h.nFee).last

theorem reads_offer {o : COffer} (h : o.InRange) (o₀ : COffer) : ∃ s, o.serializeToString = encodeBase64 s ∧
    Field.Reads COffer.read o₀ s o := by
  refine ⟨_, rfl, ?_⟩
  unfold COffer.read
  simp only [List.append_assoc]
  apply (Field.reads_vch h.vchRand).cons
  apply (Field.reads_vch h.vchPaymentAddress).cons
  apply (Field.reads_vch h.sCategory).cons
  apply (Field.reads_vch h.sTitle).cons
  apply (Field.reads_vch h.sDescription).cons
  apply (Field.reads_uint256 h.txHash).cons
  apply (Field.reads_uint256 h.hash).cons
  apply (Field.reads_uint64 h.nHeight).cons
  apply (Field.reads_uint64 h.nTime).cons
  apply (Field.reads_uint64 h.n).cons
  apply (Field.reads_uint64 h.nPrice).cons
  apply (Field.reads_int64 h.nQty_low h.nQty_high).cons
  apply (Field.reads_uint64 h.nFee).cons
  apply Field.Reads.last
  exact Field.reads_vector h.length_accepts fun a ha => reads_accept (h.accepts a ha) _

theorem reads_issuer {c : CCertIssuer} (h : c.InRange) (c₀ : CCertIssuer) : ∃ s, c.serializeToString = encodeBase64 s ∧
    Field.Reads CCertIssuer.read c₀ s c := by
  refine ⟨_, rfl, ?_⟩
  unfold CCertIssuer.read
  simp only [List.append_assoc]
  apply (Field.reads_vch h.vchRand).cons
  apply (Field.reads_vch h.vchTitle).cons
  apply (Field.reads_vch h.vchData).cons
  apply (Field.reads_uint256 h.txHash).cons
  apply (Field.reads_uint64 h.nHeight).cons
  apply (Field.reads_uint64 h.nTime).cons
  apply (Field.reads_uint256 h.hash).cons
  apply (Field.reads_uint64 h.n).cons
  apply (Field.reads_uint64 h.nFee).cons
  apply Field.Reads.last
  exact Field.reads_vector h.length_certs fun item hitem => reads_item (h.certs item hitem) _

/-- What a field reads comes back through the text as well, with nothing left over. -/
theorem read_encodeBase64 {α : Type} {read : Field α} {a b : α} {s : Bytes} (h : Field.Reads read a s b) :
    read a (decodeBase64 (encodeBase64 s)) = (b, some []) := by
  have hread := h []
  rw [List.append_nil] at hread
  rw [decodeBase64_encodeBase64, hread]

/-- **Payloads come back.** An offer or a certificate issuer in the data field of a transaction is read back without an
    exception and as it was, into whatever object it is read. -/
theorem payloads_round_trip (tx : CTransaction) :
    (∀ o o₀ : COffer, o.InRange → tx.data = o.serializeToString →
      COffer.read o₀ (decodeBase64 tx.data) = (o, some []) ∧ COffer.ofTx tx = o) ∧
    (∀ c c₀ : CCertIssuer, c.InRange → tx.data = c.serializeToString →
      CCertIssuer.read c₀ (decodeBase64 tx.data) = (c, some []) ∧ CCertIssuer.ofTx tx = c) := by
  constructor
  · intro o o₀ hrange hdata
    have hread : ∀ o₀, COffer.read o₀ (decodeBase64 tx.data) = (o, some []) := by
      intro o₀
      obtain ⟨s, htext, hreads⟩ := reads_offer hrange o₀
      rw [hdata, htext]
      exact read_encodeBase64 hreads
    refine ⟨hread o₀, ?_⟩
    unfold COffer.ofTx unserializeFromData
    rw [hread]
  · intro c c₀ hrange hdata
    have hread : ∀ c₀, CCertIssuer.read c₀ (decodeBase64 tx.data) = (c, some []) := by
      intro c₀
      obtain ⟨s, htext, hreads⟩ := reads_issuer hrange c₀
      rw [hdata, htext]
      exact read_encodeBase64 hreads
    refine ⟨hread c₀, ?_⟩
    unfold CCertIssuer.ofTx unserializeFromData
    rw [hread]

namespace Cakenet

/-- The offer in a buyer's payload. -/
def acceptedOffer : COffer :=
  { offer with accepts := [{ COfferAccept.null with vchRand := vchRand, nQty := 2, nPrice := 1000000000 }] }

theorem acceptedOffer_inRange : acceptedOffer.InRange := by
  have haccept : ({ COfferAccept.null with vchRand := vchRand, nQty := 2, nPrice := 1000000000 } : COfferAccept).InRange := by
    constructor <;> decide +kernel
  constructor
  case accepts =>
    intro a ha
    rw [List.mem_singleton.mp ha]
    exact haccept
  all_goals decide +kernel

theorem issuer_inRange : issuer.InRange := by
  constructor
  case certs =>
    intro item hitem
    cases hitem
  all_goals decide +kernel

/-- A buyer's payload, and that of a new issuer. -/
theorem payloads_read : COffer.ofTx offerAcceptTx = acceptedOffer ∧ CCertIssuer.ofTx issuerActivateTx = issuer :=
  ⟨((payloads_round_trip offerAcceptTx).1 acceptedOffer COffer.null acceptedOffer_inRange rfl).2,
    ((payloads_round_trip issuerActivateTx).2 issuer CCertIssuer.null issuer_inRange rfl).2⟩

end Cakenet

end Syscoin

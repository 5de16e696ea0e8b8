import Syscoin.Correctness.Payload
import Syscoin.Lib.Regroup
import Syscoin.Primitives.BaseCodes

/-!
# `Correctness.BaseCodes` — base 64 and base 32 decode what they encode

A byte is eight bits and a character is six or five. The encoder has always given the bits of the bytes that it has
read, except for the few that are in `left` (`Encodes`), and so has the decoder (`Decodes`); each mode of each machine
regroups the bits that it holds with those that come (`bits_regroup`). At the end of the bytes zeros fill the last
character, fewer than a byte has. Since bits are grouped in one way only, the decoder has the same bytes then and holds
the zeros, which tell how much padding there is (`base_codes_round_trip`).
-/

namespace Syscoin

open Lib

namespace Util

/-- The bits of bytes. -/
def byteBits (pch : Bytes) : List Bool := (pch.map UInt8.toNat).flatMap (bits 8)

theorem byteBits_append (pch pch' : Bytes) : byteBits (pch ++ pch') = byteBits pch ++ byteBits pch' := by
  rw [byteBits, List.map_append, List.flatMap_append, byteBits, byteBits]

theorem byteBits_singleton (c : UInt8) : byteBits [c] = bits 8 c.toNat := by
  rw [byteBits, List.map_singleton, List.flatMap_singleton]

theorem byteBits_ofNat (n : Nat) : byteBits [UInt8.ofNat n] = bits 8 n := by
  rw [byteBits_singleton, UInt8.toNat_ofNat']
  exact bits_mod 8 n

/-! ## What a machine has done -/

section Machines

variable {k h h' : Nat} {alphabet : List Char} {held : Nat → Nat} {pch : Bytes} {digits : List Nat}

/-- The encoder has written digits of `k` bits and holds `h`, whose length the mode tells, on top of the next one. -/
structure Encodes (k : Nat) (alphabet : List Char) (held : Nat → Nat) (pch : Bytes) (s : Encoder) (digits : List Nat)
    (h : Nat) : Prop where
  strRet : s.strRet = digits.map (charAt alphabet)
  digits_lt : ∀ d ∈ digits, d < 2 ^ k
  left : s.mode ≠ 0 → s.left = h <<< (k - held s.mode)
  held_lt : h < 2 ^ held s.mode
  bits_eq : byteBits pch = digits.flatMap (bits k) ++ bits (held s.mode) h

theorem Encodes.push {s s' : Encoder} (hs : Encodes k alphabet held pch s digits h) (c : UInt8)
    (ds : List Nat) (hstr : s'.strRet = s.strRet ++ ds.map (charAt alphabet)) (hds : ∀ d ∈ ds, d < 2 ^ k)
    (hleft : s'.mode ≠ 0 → s'.left = h' <<< (k - held s'.mode)) (hheld : h' < 2 ^ held s'.mode)
    (hbits : bits (held s.mode) h ++ bits 8 c.toNat = ds.flatMap (bits k) ++ bits (held s'.mode) h') :
    Encodes k alphabet held (pch ++ [c]) s' (digits ++ ds) h' where
  strRet := by rw [hstr, hs.strRet, List.map_append]
  digits_lt d hd := (List.mem_append.mp hd).elim (hs.digits_lt d) (hds d)
  left := hleft
  held_lt := hheld
  bits_eq := by
    rw [byteBits_append, byteBits_singleton, hs.bits_eq, List.append_assoc, hbits, List.flatMap_append,
      List.append_assoc]

/-- The decoder has read digits, given the bytes that are full, and holds the other bits. -/
structure Decodes (k : Nat) (held : Nat → Nat) (digits : List Nat) (s : Decoder) : Prop where
  left_lt : s.mode ≠ 0 → s.left < 2 ^ held s.mode
  bits_eq : digits.flatMap (bits k) = byteBits s.vchRet ++ bits (held s.mode) s.left

theorem Decodes.push {s s' : Decoder} (hs : Decodes k held digits s) (dec : Nat) (vch : Bytes)
    (hret : s'.vchRet = s.vchRet ++ vch) (hleft : s'.mode ≠ 0 → s'.left < 2 ^ held s'.mode)
    (hbits : bits (held s.mode) s.left ++ bits k dec = byteBits vch ++ bits (held s'.mode) s'.left) :
    Decodes k held (digits ++ [dec]) s' where
  left_lt := hleft
  bits_eq := by
    rw [List.flatMap_append, List.flatMap_singleton, hs.bits_eq, List.append_assoc, hbits, hret, byteBits_append,
      List.append_assoc]

/-- At the end of the bytes zeros fill the character that is begun. -/
theorem Encodes.filled {s : Encoder} (hs : Encodes k alphabet held pch s digits h) (hmode : s.mode ≠ 0)
    (hle : held s.mode ≤ k) :
    s.left < 2 ^ k ∧
      (digits ++ [s.left]).flatMap (bits k) = byteBits pch ++ List.replicate (k - held s.mode) false := by
  have hk : held s.mode + (k - held s.mode) = k := Nat.add_sub_cancel' hle
  have hleft : s.left = h <<< (k - held s.mode) ||| 0 := by rw [hs.left hmode, Nat.or_zero]
  have hzero : 0 < 2 ^ (k - held s.mode) := Nat.two_pow_pos _
  have hlt := shiftLeft_or_lt hs.held_lt hzero
  have hbits := bits_append (a := held s.mode) (m := h) hzero
  rw [hk, ← hleft] at hlt hbits
  refine ⟨hlt, ?_⟩
  rw [List.flatMap_append, List.flatMap_singleton, hs.bits_eq, ← hbits, bits_zero, List.append_assoc]

/-- A text of digits with the bits of the bytes, zeros behind them, and the padding for so many zeros. -/
def Spells (k : Nat) (alphabet : List Char) (paddings : List (Nat × Nat)) (pch : Bytes) (text : List Char) : Prop :=
  ∃ (digits : List Nat) (n m : Nat), text = digits.map (charAt alphabet) ++ List.replicate m '=' ∧
    (∀ d ∈ digits, d < 2 ^ k) ∧ digits.flatMap (bits k) = byteBits pch ++ List.replicate n false ∧ (n, m) ∈ paddings

theorem Encodes.spells {s : Encoder} {paddings : List (Nat × Nat)} {m : Nat}
    (hs : Encodes k alphabet held pch s digits h) (hmode : s.mode ≠ 0) (hle : held s.mode ≤ k)
    (hpad : (k - held s.mode, m) ∈ paddings) :
    Spells k alphabet paddings pch (s.strRet ++ [charAt alphabet s.left] ++ List.replicate m '=') := by
  obtain ⟨hlt, hfilled⟩ := hs.filled hmode hle
  refine ⟨digits ++ [s.left], _, m, ?_, ?_, hfilled, hpad⟩
  · rw [hs.strRet, List.map_append, List.map_singleton]
  · exact List.forall_mem_append.mpr ⟨hs.digits_lt, List.forall_mem_singleton.mpr hlt⟩

/-- At the end of a group nothing is held. -/
theorem Encodes.spells_whole {s : Encoder} {paddings : List (Nat × Nat)} (hs : Encodes k alphabet held pch s digits h)
    (hheld : held s.mode = 0) (hpad : (0, 0) ∈ paddings) : Spells k alphabet paddings pch s.strRet := by
  refine ⟨digits, 0, 0, ?_, hs.digits_lt, ?_, hpad⟩
  · rw [hs.strRet, List.replicate_zero, List.append_nil]
  · rw [hs.bits_eq, hheld, bits, List.append_nil, List.replicate_zero, List.append_nil]

/-- **A decoder that has read all bits of some bytes has these bytes**, and what it holds are the zeros behind them. -/
theorem Decodes.bytes_eq {s : Decoder} {n : Nat} (hs : Decodes k held digits s)
    (hbits : digits.flatMap (bits k) = byteBits pch ++ List.replicate n false) (hn : n < 8) (hheld : held s.mode < 8) :
    s.vchRet = pch ∧ held s.mode = n ∧ (s.mode ≠ 0 → s.left = 0) := by
  have hbyte : ∀ vch : Bytes, ∀ n ∈ vch.map UInt8.toNat, n < 2 ^ 8 := by
    intro vch n hn
    obtain ⟨c, -, rfl⟩ := List.mem_map.mp hn
    exact c.toNat_lt
  obtain ⟨hbytes, hrest⟩ := groups_inj (hbyte s.vchRet) (hbyte pch) (by rwa [length_bits])
    (by rwa [List.length_replicate]) (hs.bits_eq.symm.trans hbits)
  have hlength : held s.mode = n := by
    rw [← length_bits (held s.mode) s.left, hrest, List.length_replicate]
  refine ⟨List.map_injective_iff.mpr (fun a b => UInt8.toNat_inj.mp) hbytes, hlength, ?_⟩
  intro hmode
  apply bits_inj (hs.left_lt hmode) (Nat.two_pow_pos _)
  rw [hrest, bits_zero, hlength]

/-! ## Runs -/

theorem encodes_run {modes : Nat} {step : Encoder → UInt8 → Encoder} (hmodes : 0 < modes) (hheld : held 0 = 0)
    (hstep : ∀ {pch s digits h}, Encodes k alphabet held pch s digits h → s.mode < modes → ∀ c,
      (step s c).mode < modes ∧ ∃ digits' h', Encodes k alphabet held (pch ++ [c]) (step s c) digits' h')
    (pch : Bytes) : (pch.foldl step ⟨0, 0, []⟩).mode < modes ∧
      ∃ digits h, Encodes k alphabet held pch (pch.foldl step ⟨0, 0, []⟩) digits h := by
  induction pch using List.reverseRecOn with
  | nil =>
    refine ⟨hmodes, [], 0, rfl, ?_, fun hne => absurd rfl hne, Nat.two_pow_pos _, ?_⟩
    · intro d hd
      exact absurd hd List.not_mem_nil
    · show [] = bits (held 0) 0
      rw [hheld, bits]
  | append_singleton pch c ih =>
    obtain ⟨hmode, digits, h, hs⟩ := ih
    rw [List.foldl_append, List.foldl_cons, List.foldl_nil]
    exact hstep hs hmode c

theorem decodes_run {modes : Nat} {step : Decoder → Nat → Decoder} (hmodes : 0 < modes) (hheld : held 0 = 0)
    (hstep : ∀ {digits s}, Decodes k held digits s → s.mode < modes → ∀ {dec}, dec < 2 ^ k →
      (step s dec).mode < modes ∧ Decodes k held (digits ++ [dec]) (step s dec))
    (hdigits : ∀ d ∈ digits, d < 2 ^ k) :
    (digits.foldl step ⟨0, 0, []⟩).mode < modes ∧ Decodes k held digits (digits.foldl step ⟨0, 0, []⟩) := by
  induction digits using List.reverseRecOn with
  | nil =>
    refine ⟨hmodes, fun hne => absurd rfl hne, ?_⟩
    show [] = bits (held 0) 0
    rw [hheld, bits]
  | append_singleton digits dec ih =>
    obtain ⟨hinit, hlast⟩ := List.forall_mem_append.mp hdigits
    obtain ⟨hmode, hs⟩ := ih hinit
    rw [List.foldl_append, List.foldl_cons, List.foldl_nil]
    exact hstep hs hmode (hlast dec List.mem_cons_self)

/-- The decoder takes the characters of the alphabet one by one, up to another one. -/
theorem decodeLoop_digits {table : List Int} {step : Decoder → Nat → Decoder} {rest : List Char}
    (htable : ∀ d < 2 ^ k, table.getD (charAt alphabet d).toNat (-1) = d)
    (hrest : ∀ s, decodeLoop table step s rest = (s, rest)) (hdigits : ∀ d ∈ digits, d < 2 ^ k) (s : Decoder) :
    decodeLoop table step s (digits.map (charAt alphabet) ++ rest) = (digits.foldl step s, rest) := by
  induction digits generalizing s with
  | nil => exact hrest s
  | cons d digits ih =>
    obtain ⟨hd, hdigits⟩ := List.forall_mem_cons.mp hdigits
    have hne : (d : Int) ≠ -1 := by omega
    rw [List.map_cons, List.cons_append, decodeLoop]
    simp only [htable d hd, if_neg hne, Int.toNat_natCast]
    exact ih hdigits (step s d)

end Machines

/-! ## Base 64, mode by mode -/

section Base64

variable {pch : Bytes} {digits : List Nat} {h : Nat}

/-- The bits that the encoder holds. -/
def encoderBits64 : Nat → Nat
  | 0 => 0
  | 1 => 2
  | _ => 4

/-- The bits that the decoder holds. -/
def decoderBits64 : Nat → Nat
  | 0 => 0
  | 1 => 6
  | 2 => 4
  | _ => 2

theorem encodeStep64_encodes {s : Encoder} (hs : Encodes 6 pbase64 encoderBits64 pch s digits h) (hmode : s.mode < 3)
    (c : UInt8) : (encodeStep64 s c).mode < 3 ∧
      ∃ digits' h', Encodes 6 pbase64 encoderBits64 (pch ++ [c]) (encodeStep64 s c) digits' h' := by
  obtain ⟨mode, left, strRet⟩ := s
  have hc : c.toNat < 2 ^ 8 := c.toNat_lt
  have hheld := hs.held_lt
  match mode, hmode with
  | 0, _ =>
    refine ⟨(by decide : 1 < 3), _, c.toNat &&& 3, hs.push c [c.toNat >>> 2] rfl ?_ (fun _ => rfl) ?_ ?_⟩
    · exact List.forall_mem_singleton.mpr (shiftRight_lt hc)
    · exact Nat.and_lt_two_pow (n := 2) _ (by decide)
    · have hmask : bits 2 (c.toNat &&& 3) = bits 2 c.toNat := bits_mask 2 c.toNat
      show bits 8 c.toNat = [c.toNat >>> 2].flatMap (bits 6) ++ bits 2 (c.toNat &&& 3)
      rw [List.flatMap_singleton, hmask, ← bits_add]
  | 1, _ =>
    have hleft : left = h <<< 4 := hs.left Nat.one_ne_zero
    refine ⟨(by decide : 2 < 3), _, c.toNat &&& 15, hs.push c [left ||| c.toNat >>> 4] rfl ?_ (fun _ => rfl) ?_ ?_⟩
    · rw [hleft]
      exact List.forall_mem_singleton.mpr (shiftLeft_or_lt hheld (shiftRight_lt hc))
    · exact Nat.and_lt_two_pow (n := 4) _ (by decide)
    · have hmask : bits 4 (c.toNat &&& 15) = bits 4 c.toNat := bits_mask 4 c.toNat
      show bits 2 h ++ bits 8 c.toNat = [left ||| c.toNat >>> 4].flatMap (bits 6) ++ bits 4 (c.toNat &&& 15)
      rw [List.flatMap_singleton, hmask, hleft]
      exact bits_regroup (a := 4) (b := 4) 2 h hc
  | 2, _ =>
    have hleft : left = h <<< 2 := hs.left (Nat.succ_ne_zero 1)
    refine ⟨(by decide : 0 < 3), _, 0, hs.push c [left ||| c.toNat >>> 6, c.toNat &&& 63] ?_ ?_
      (fun hne => absurd rfl hne) Nat.one_pos ?_⟩
    · exact List.append_assoc _ _ _
    · rw [hleft]
      refine List.forall_mem_cons.mpr ⟨shiftLeft_or_lt hheld (shiftRight_lt hc), List.forall_mem_singleton.mpr ?_⟩
      exact Nat.and_lt_two_pow _ (by decide)
    · have hmask : bits 6 (c.toNat &&& 63) = bits 6 c.toNat := bits_mask 6 c.toNat
      show bits 4 h ++ bits 8 c.toNat = [left ||| c.toNat >>> 6, c.toNat &&& 63].flatMap (bits 6) ++ []
      rw [List.flatMap_cons, List.flatMap_singleton, hmask, hleft, List.append_nil]
      exact bits_regroup (a := 2) (b := 6) 4 h hc

theorem decodeStep64_decodes {s : Decoder} (hs : Decodes 6 decoderBits64 digits s) (hmode : s.mode < 4) {dec : Nat}
    (hdec : dec < 2 ^ 6) :
    (decodeStep64 s dec).mode < 4 ∧ Decodes 6 decoderBits64 (digits ++ [dec]) (decodeStep64 s dec) := by
  obtain ⟨mode, left, vchRet⟩ := s
  match mode, hmode with
  | 0, _ => exact ⟨(by decide : 1 < 4), hs.push dec [] (List.append_nil _).symm (fun _ => hdec) rfl⟩
  | 1, _ =>
    have hmask : bits 4 (dec &&& 15) = bits 4 dec := bits_mask 4 dec
    refine ⟨(by decide : 2 < 4), hs.push dec [_] rfl (fun _ => Nat.and_lt_two_pow (n := 4) _ (by decide)) ?_⟩
    show bits 6 left ++ bits 6 dec = byteBits [UInt8.ofNat (left <<< 2 ||| dec >>> 4)] ++ bits 4 (dec &&& 15)
    rw [byteBits_ofNat, hmask]
    exact bits_regroup (a := 2) (b := 4) 6 left hdec
  | 2, _ =>
    have hmask : bits 2 (dec &&& 3) = bits 2 dec := bits_mask 2 dec
    refine ⟨(by decide : 3 < 4), hs.push dec [_] rfl (fun _ => Nat.and_lt_two_pow (n := 2) _ (by decide)) ?_⟩
    show bits 4 left ++ bits 6 dec = byteBits [UInt8.ofNat (left <<< 4 ||| dec >>> 2)] ++ bits 2 (dec &&& 3)
    rw [byteBits_ofNat, hmask]
    exact bits_regroup (a := 4) (b := 2) 4 left hdec
  | 3, _ =>
    refine ⟨(by decide : 0 < 4), hs.push dec [_] rfl (fun hne => absurd rfl hne) ?_⟩
    show bits 2 left ++ bits 6 dec = byteBits [UInt8.ofNat (left <<< 6 ||| dec)] ++ []
    rw [byteBits_ofNat, List.append_nil]
    exact bits_append hdec

theorem table64 : ∀ d < 2 ^ 6, decode64_table.getD (charAt pbase64 d).toNat (-1) = d := by decide

theorem decodeLoop64_padding (n : Nat) (s : Decoder) :
    decodeLoop decode64_table decodeStep64 s (List.replicate n '=') = (s, List.replicate n '=') := by
  cases n <;> rfl

/-- The zeros behind the last byte, and the padding that the decoder asks for then. -/
def paddings64 : List (Nat × Nat) := [(0, 0), (4, 2), (2, 1)]

theorem encodeBase64_spells (pch : Bytes) : Spells 6 pbase64 paddings64 pch (encodeBase64 pch) := by
  obtain ⟨hmode, digits, h, hs⟩ := encodes_run (by decide) rfl encodeStep64_encodes pch
  unfold encodeBase64
  generalize pch.foldl encodeStep64 ⟨0, 0, []⟩ = s at hmode hs
  obtain ⟨mode, left, strRet⟩ := s
  match mode, hmode with
  | 0, _ => exact hs.spells_whole rfl (by decide)
  | 1, _ =>
    have htext : strRet ++ [charAt pbase64 left] ++ ['='] ++ ['='] =
        strRet ++ [charAt pbase64 left] ++ List.replicate 2 '=' := List.append_assoc _ _ _
    show Spells 6 pbase64 paddings64 pch (strRet ++ [charAt pbase64 left] ++ ['='] ++ ['='])
    rw [htext]
    exact hs.spells Nat.one_ne_zero (by decide : 2 ≤ 6) (by decide : (4, 2) ∈ paddings64)
  | 2, _ =>
    show Spells 6 pbase64 paddings64 pch (strRet ++ [charAt pbase64 left] ++ ['='] ++ [])
    rw [List.append_nil]
    exact hs.spells (Nat.succ_ne_zero 1) (by decide : 4 ≤ 6) (by decide : (2, 1) ∈ paddings64)

theorem invalid64_padding {s : Decoder} {m : Nat} (hmode : s.mode < 4) (hleft : s.mode ≠ 0 → s.left = 0)
    (hpad : (decoderBits64 s.mode, m) ∈ paddings64) : invalid64 s (List.replicate m '=') = false := by
  obtain ⟨mode, left, vchRet⟩ := s
  match mode, hmode with
  | 0, _ => rfl
  | 1, _ => simp [decoderBits64, paddings64] at hpad
  | 2, _ =>
    obtain rfl : left = 0 := hleft (Nat.succ_ne_zero 1)
    obtain rfl : m = 2 := by simpa [decoderBits64, paddings64] using hpad
    rfl
  | 3, _ =>
    obtain rfl : left = 0 := hleft (Nat.succ_ne_zero 2)
    obtain rfl : m = 1 := by simpa [decoderBits64, paddings64] using hpad
    rfl

theorem decode_encode64 (pch : Bytes) : decodeBase64 (encodeBase64 pch) = (pch, false) := by
  obtain ⟨digits, n, m, htext, hdigits, hbits, hpad⟩ := encodeBase64_spells pch
  obtain ⟨hmode, hs⟩ := decodes_run (by decide) rfl decodeStep64_decodes hdigits
  have hn : ∀ pad ∈ paddings64, pad.1 < 8 := by decide
  have hheld : ∀ mode < 4, decoderBits64 mode < 8 := by decide
  obtain ⟨hbytes, hlength, hleft⟩ := hs.bytes_eq hbits (hn _ hpad) (hheld _ hmode)
  rw [← hlength] at hpad
  rw [htext, decodeBase64, decodeLoop_digits table64 (decodeLoop64_padding m) hdigits]
  simp only [hbytes, invalid64_padding hmode hleft hpad]

end Base64

/-! ## Base 32, mode by mode -/

section Base32

variable {pch : Bytes} {digits : List Nat} {h : Nat}

def encoderBits32 : Nat → Nat
  | 0 => 0
  | 1 => 3
  | 2 => 1
  | 3 => 4
  | _ => 2

def decoderBits32 : Nat → Nat
  | 0 => 0
  | 1 => 5
  | 2 => 2
  | 3 => 7
  | 4 => 4
  | 5 => 1
  | 6 => 6
  | _ => 3

theorem encodeStep32_encodes {s : Encoder} (hs : Encodes 5 pbase32 encoderBits32 pch s digits h) (hmode : s.mode < 5)
    (c : UInt8) : (encodeStep32 s c).mode < 5 ∧
      ∃ digits' h', Encodes 5 pbase32 encoderBits32 (pch ++ [c]) (encodeStep32 s c) digits' h' := by
  obtain ⟨mode, left, strRet⟩ := s
  have hc : c.toNat < 2 ^ 8 := c.toNat_lt
  have hheld := hs.held_lt
  have hmask5 : ∀ n, bits 5 (n &&& 31) = bits 5 n := bits_mask 5
  match mode, hmode with
  | 0, _ =>
    refine ⟨(by decide : 1 < 5), _, c.toNat &&& 7, hs.push c [c.toNat >>> 3] rfl ?_ (fun _ => rfl) ?_ ?_⟩
    · exact List.forall_mem_singleton.mpr (shiftRight_lt hc)
    · exact Nat.and_lt_two_pow (n := 3) _ (by decide)
    · have hmask : bits 3 (c.toNat &&& 7) = bits 3 c.toNat := bits_mask 3 c.toNat
      show bits 8 c.toNat = [c.toNat >>> 3].flatMap (bits 5) ++ bits 3 (c.toNat &&& 7)
      rw [List.flatMap_singleton, hmask, ← bits_add]
  | 1, _ =>
    -- two bits fill the character, five more are one, and one is held
    have hleft : left = h <<< 2 := hs.left Nat.one_ne_zero
    refine ⟨(by decide : 2 < 5), _, c.toNat &&& 1, hs.push c [left ||| c.toNat >>> 6, (c.toNat >>> 1) &&& 31] ?_ ?_
      (fun _ => rfl) ?_ ?_⟩
    · exact List.append_assoc _ _ _
    · rw [hleft]
      refine List.forall_mem_cons.mpr ⟨shiftLeft_or_lt hheld (shiftRight_lt hc), List.forall_mem_singleton.mpr ?_⟩
      exact Nat.and_lt_two_pow _ (by decide)
    · exact Nat.and_lt_two_pow (n := 1) _ (by decide)
    · have hmask : bits 1 (c.toNat &&& 1) = bits 1 c.toNat := bits_mask 1 c.toNat
      show bits 3 h ++ bits 8 c.toNat =
        [left ||| c.toNat >>> 6, (c.toNat >>> 1) &&& 31].flatMap (bits 5) ++ bits 1 (c.toNat &&& 1)
      rw [List.flatMap_cons, List.flatMap_singleton, hmask, hmask5, hleft, List.append_assoc, ← bits_add 5 1]
      exact bits_regroup (a := 2) (b := 6) 3 h hc
  | 2, _ =>
    have hleft : left = h <<< 4 := hs.left (Nat.succ_ne_zero 1)
    refine ⟨(by decide : 3 < 5), _, c.toNat &&& 15, hs.push c [left ||| c.toNat >>> 4] rfl ?_ (fun _ => rfl) ?_ ?_⟩
    · rw [hleft]
      exact List.forall_mem_singleton.mpr (shiftLeft_or_lt hheld (shiftRight_lt hc))
    · exact Nat.and_lt_two_pow (n := 4) _ (by decide)
    · have hmask : bits 4 (c.toNat &&& 15) = bits 4 c.toNat := bits_mask 4 c.toNat
      show bits 1 h ++ bits 8 c.toNat = [left ||| c.toNat >>> 4].flatMap (bits 5) ++ bits 4 (c.toNat &&& 15)
      rw [List.flatMap_singleton, hmask, hleft]
      exact bits_regroup (a := 4) (b := 4) 1 h hc
  | 3, _ =>
    have hleft : left = h <<< 1 := hs.left (Nat.succ_ne_zero 2)
    refine ⟨(by decide : 4 < 5), _, c.toNat &&& 3, hs.push c [left ||| c.toNat >>> 7, (c.toNat >>> 2) &&& 31] ?_ ?_
      (fun _ => rfl) ?_ ?_⟩
    · exact List.append_assoc _ _ _
    · rw [hleft]
      refine List.forall_mem_cons.mpr ⟨shiftLeft_or_lt hheld (shiftRight_lt hc), List.forall_mem_singleton.mpr ?_⟩
      exact Nat.and_lt_two_pow _ (by decide)
    · exact Nat.and_lt_two_pow (n := 2) _ (by decide)
    · have hmask : bits 2 (c.toNat &&& 3) = bits 2 c.toNat := bits_mask 2 c.toNat
      show bits 4 h ++ bits 8 c.toNat =
        [left ||| c.toNat >>> 7, (c.toNat >>> 2) &&& 31].flatMap (bits 5) ++ bits 2 (c.toNat &&& 3)
      rw [List.flatMap_cons, List.flatMap_singleton, hmask, hmask5, hleft, List.append_assoc, ← bits_add 5 2]
      exact bits_regroup (a := 1) (b := 7) 4 h hc
  | 4, _ =>
    have hleft : left = h <<< 3 := hs.left (Nat.succ_ne_zero 3)
    refine ⟨(by decide : 0 < 5), _, 0, hs.push c [left ||| c.toNat >>> 5, c.toNat &&& 31] ?_ ?_
      (fun hne => absurd rfl hne) Nat.one_pos ?_⟩
    · exact List.append_assoc _ _ _
    · rw [hleft]
      refine List.forall_mem_cons.mpr ⟨shiftLeft_or_lt hheld (shiftRight_lt hc), List.forall_mem_singleton.mpr ?_⟩
      exact Nat.and_lt_two_pow _ (by decide)
    · show bits 2 h ++ bits 8 c.toNat = [left ||| c.toNat >>> 5, c.toNat &&& 31].flatMap (bits 5) ++ []
      rw [List.flatMap_cons, List.flatMap_singleton, hmask5, hleft, List.append_nil]
      exact bits_regroup (a := 3) (b := 5) 2 h hc

theorem decodeStep32_decodes {s : Decoder} (hs : Decodes 5 decoderBits32 digits s) (hmode : s.mode < 8) {dec : Nat}
    (hdec : dec < 2 ^ 5) :
    (decodeStep32 s dec).mode < 8 ∧ Decodes 5 decoderBits32 (digits ++ [dec]) (decodeStep32 s dec) := by
  obtain ⟨mode, left, vchRet⟩ := s
  match mode, hmode with
  | 0, _ => exact ⟨(by decide : 1 < 8), hs.push dec [] (List.append_nil _).symm (fun _ => hdec) rfl⟩
  | 1, _ =>
    have hmask : bits 2 (dec &&& 3) = bits 2 dec := bits_mask 2 dec
    refine ⟨(by decide : 2 < 8), hs.push dec [_] rfl (fun _ => Nat.and_lt_two_pow (n := 2) _ (by decide)) ?_⟩
    show bits 5 left ++ bits 5 dec = byteBits [UInt8.ofNat (left <<< 3 ||| dec >>> 2)] ++ bits 2 (dec &&& 3)
    rw [byteBits_ofNat, hmask]
    exact bits_regroup (a := 3) (b := 2) 5 left hdec
  | 2, _ =>
    -- seven bits are no byte yet
    have hleft : left < 2 ^ 2 := hs.left_lt (Nat.succ_ne_zero 1)
    refine ⟨(by decide : 3 < 8), hs.push dec [] (List.append_nil _).symm (fun _ => shiftLeft_or_lt hleft hdec) ?_⟩
    exact bits_append hdec
  | 3, _ =>
    have hmask : bits 4 (dec &&& 15) = bits 4 dec := bits_mask 4 dec
    refine ⟨(by decide : 4 < 8), hs.push dec [_] rfl (fun _ => Nat.and_lt_two_pow (n := 4) _ (by decide)) ?_⟩
    show bits 7 left ++ bits 5 dec = byteBits [UInt8.ofNat (left <<< 1 ||| dec >>> 4)] ++ bits 4 (dec &&& 15)
    rw [byteBits_ofNat, hmask]
    exact bits_regroup (a := 1) (b := 4) 7 left hdec
  | 4, _ =>
    have hmask : bits 1 (dec &&& 1) = bits 1 dec := bits_mask 1 dec
    refine ⟨(by decide : 5 < 8), hs.push dec [_] rfl (fun _ => Nat.and_lt_two_pow (n := 1) _ (by decide)) ?_⟩
    show bits 4 left ++ bits 5 dec = byteBits [UInt8.ofNat (left <<< 4 ||| dec >>> 1)] ++ bits 1 (dec &&& 1)
    rw [byteBits_ofNat, hmask]
    exact bits_regroup (a := 4) (b := 1) 4 left hdec
  | 5, _ =>
    have hleft : left < 2 ^ 1 := hs.left_lt (Nat.succ_ne_zero 4)
    refine ⟨(by decide : 6 < 8), hs.push dec [] (List.append_nil _).symm (fun _ => shiftLeft_or_lt hleft hdec) ?_⟩
    exact bits_append hdec
  | 6, _ =>
    have hmask : bits 3 (dec &&& 7) = bits 3 dec := bits_mask 3 dec
    refine ⟨(by decide : 7 < 8), hs.push dec [_] rfl (fun _ => Nat.and_lt_two_pow (n := 3) _ (by decide)) ?_⟩
    show bits 6 left ++ bits 5 dec = byteBits [UInt8.ofNat (left <<< 2 ||| dec >>> 3)] ++ bits 3 (dec &&& 7)
    rw [byteBits_ofNat, hmask]
    exact bits_regroup (a := 2) (b := 3) 6 left hdec
  | 7, _ =>
    refine ⟨(by decide : 0 < 8), hs.push dec [_] rfl (fun hne => absurd rfl hne) ?_⟩
    show bits 3 left ++ bits 5 dec = byteBits [UInt8.ofNat (left <<< 5 ||| dec)] ++ []
    rw [byteBits_ofNat, List.append_nil]
    exact bits_append hdec

theorem table32 : ∀ d < 2 ^ 5, decode32_table.getD (charAt pbase32 d).toNat (-1) = d := by decide

theorem decodeLoop32_padding (n : Nat) (s : Decoder) :
    decodeLoop decode32_table decodeStep32 s (List.replicate n '=') = (s, List.replicate n '=') := by
  cases n <;> rfl

def paddings32 : List (Nat × Nat) := [(0, 0), (2, 6), (4, 4), (1, 3), (3, 1)]

theorem encodeBase32_spells (pch : Bytes) : Spells 5 pbase32 paddings32 pch (encodeBase32 pch) := by
  obtain ⟨hmode, digits, h, hs⟩ := encodes_run (by decide) rfl encodeStep32_encodes pch
  unfold encodeBase32
  generalize pch.foldl encodeStep32 ⟨0, 0, []⟩ = s at hmode hs
  obtain ⟨mode, left, strRet⟩ := s
  match mode, hmode with
  | 0, _ => exact hs.spells_whole rfl (by decide)
  | 1, _ => exact hs.spells Nat.one_ne_zero (by decide : 3 ≤ 5) (by decide : (2, 6) ∈ paddings32)
  | 2, _ => exact hs.spells (Nat.succ_ne_zero 1) (by decide : 1 ≤ 5) (by decide : (4, 4) ∈ paddings32)
  | 3, _ => exact hs.spells (Nat.succ_ne_zero 2) (by decide : 4 ≤ 5) (by decide : (1, 3) ∈ paddings32)
  | 4, _ => exact hs.spells (Nat.succ_ne_zero 3) (by decide : 2 ≤ 5) (by decide : (3, 1) ∈ paddings32)

theorem invalid32_padding {s : Decoder} {m : Nat} (hmode : s.mode < 8) (hleft : s.mode ≠ 0 → s.left = 0)
    (hpad : (decoderBits32 s.mode, m) ∈ paddings32) : invalid32 s (List.replicate m '=') = false := by
  obtain ⟨mode, left, vchRet⟩ := s
  match mode, hmode with
  | 0, _ => rfl
  | 1, _ | 3, _ | 6, _ => simp [decoderBits32, paddings32] at hpad
  | 2, _ =>
    obtain rfl : left = 0 := hleft (Nat.succ_ne_zero 1)
    obtain rfl : m = 6 := by simpa [decoderBits32, paddings32] using hpad
    rfl
  | 4, _ =>
    obtain rfl : left = 0 := hleft (Nat.succ_ne_zero 3)
    obtain rfl : m = 4 := by simpa [decoderBits32, paddings32] using hpad
    rfl
  | 5, _ =>
    obtain rfl : left = 0 := hleft (Nat.succ_ne_zero 4)
    obtain rfl : m = 3 := by simpa [decoderBits32, paddings32] using hpad
    rfl
  | 7, _ =>
    obtain rfl : left = 0 := hleft (Nat.succ_ne_zero 6)
    obtain rfl : m = 1 := by simpa [decoderBits32, paddings32] using hpad
    rfl

theorem decode_encode32 (pch : Bytes) : decodeBase32 (encodeBase32 pch) = (pch, false) := by
  obtain ⟨digits, n, m, htext, hdigits, hbits, hpad⟩ := encodeBase32_spells pch
  obtain ⟨hmode, hs⟩ := decodes_run (by decide) rfl decodeStep32_decodes hdigits
  have hn : ∀ pad ∈ paddings32, pad.1 < 8 := by decide
  have hheld : ∀ mode < 8, decoderBits32 mode < 8 := by decide
  obtain ⟨hbytes, hlength, hleft⟩ := hs.bytes_eq hbits (hn _ hpad) (hheld _ hmode)
  rw [← hlength] at hpad
  rw [htext, decodeBase32, decodeLoop_digits table32 (decodeLoop32_padding m) hdigits]
  simp only [hbytes, invalid32_padding hmode hleft hpad]

end Base32

/-- **Base 64 and base 32 decode what they encode**, and find nothing wrong with it; two byte strings never have one
    text. -/
theorem base_codes_round_trip :
    (∀ pch : Bytes, decodeBase64 (encodeBase64 pch) = (pch, false) ∧ decodeBase32 (encodeBase32 pch) = (pch, false)) ∧
      Function.Injective encodeBase64 ∧ Function.Injective encodeBase32 := by
  refine ⟨fun pch => ⟨decode_encode64 pch, decode_encode32 pch⟩, ?_, ?_⟩
  · intro pch pch' htext
    have hdecode := congrArg (fun text => (decodeBase64 text).1) htext
    simpa only [decode_encode64] using hdecode
  · intro pch pch' htext
    have hdecode := congrArg (fun text => (decodeBase32 text).1) htext
    simpa only [decode_encode32] using hdecode

/-! ## The texts of offers and certificates -/

end Util

end Syscoin

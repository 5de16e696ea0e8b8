import Syscoin.Primitives.Payload

/-!
# `Primitives.BaseCodes` — base 64 and base 32

`EncodeBase64`, `DecodeBase64`, `EncodeBase32` and `DecodeBase32` as the state machines that they are: `mode` says how
many bits are in `left`, which the encoder holds as the top of the next character and the decoder as a plain number. The
decoders stop at the first character outside the alphabet and then say whether the text could have ended there.

A text is a list of characters, and behind its end is a zero. The decoder of base 64 in `Primitives.Payload` is this one
without its verdict (`Correctness.BaseCodes`).
-/

namespace Syscoin

namespace Util

/-- `p[i]` -/
def charAt (p : List Char) (i : Nat) : Char := p.getD i '\x00'

/-- What the loop of an encoder keeps. -/
structure Encoder where
  mode : Nat
  left : Nat
  strRet : List Char
deriving DecidableEq, Repr

/-- What the loop of a decoder keeps. -/
structure Decoder where
  mode : Nat
  left : Nat
  vchRet : Bytes
deriving DecidableEq, Repr

/-- The loop of the decoders: look a character up, take a step, stop where the table has no number. -/
def decodeLoop (table : List Int) (step : Decoder → Nat → Decoder) : Decoder → List Char → Decoder × List Char
  | s, [] => (s, [])
  | s, c :: p =>
    let dec := table.getD c.toNat (-1)
    if dec = -1 then (s, c :: p) else decodeLoop table step (step s dec.toNat) p

/-! ## Base 64 -/

def pbase64 : List Char :=
  ['A', 'B', 'C', 'D', 'E', 'F', 'G', 'H', 'I', 'J', 'K', 'L', 'M', 'N', 'O', 'P', 'Q', 'R', 'S', 'T', 'U', 'V', 'W',
    'X', 'Y', 'Z', 'a', 'b', 'c', 'd', 'e', 'f', 'g', 'h', 'i', 'j', 'k', 'l', 'm', 'n', 'o', 'p', 'q', 'r', 's', 't',
    'u', 'v', 'w', 'x', 'y', 'z', '0', '1', '2', '3', '4', '5', '6', '7', '8', '9', '+', '/']

/-- One turn of the loop of `EncodeBase64`. -/
def encodeStep64 (s : Encoder) (c : UInt8) : Encoder :=
  let enc := c.toNat
  match s.mode with
  | 0 => ⟨1, (enc &&& 3) <<< 4, s.strRet ++ [charAt pbase64 (enc >>> 2)]⟩
  | 1 => ⟨2, (enc &&& 15) <<< 2, s.strRet ++ [charAt pbase64 (s.left ||| (enc >>> 4))]⟩
  | 2 => ⟨0, s.left, s.strRet ++ [charAt pbase64 (s.left ||| (enc >>> 6))] ++ [charAt pbase64 (enc &&& 63)]⟩
  | _ => s

/-- **`EncodeBase64`** -/
def encodeBase64 (pch : Bytes) : List Char :=
  let s := pch.foldl encodeStep64 ⟨0, 0, []⟩
  if s.mode ≠ 0 then s.strRet ++ [charAt pbase64 s.left] ++ ['='] ++ (if s.mode = 1 then ['='] else []) else s.strRet

def decode64_table : List Int :=
  [-1, -1, -1, -1, -1, -1, -1, -1, -1, -1, -1, -1, -1, -1, -1, -1, -1, -1, -1, -1,
    -1, -1, -1, -1, -1, -1, -1, -1, -1, -1, -1, -1, -1, -1, -1, -1, -1, -1, -1, -1,
    -1, -1, -1, 62, -1, -1, -1, 63, 52, 53, 54, 55, 56, 57, 58, 59, 60, 61, -1, -1,
    -1, -1, -1, -1, -1, 0, 1, 2, 3, 4, 5, 6, 7, 8, 9, 10, 11, 12, 13, 14,
    15, 16, 17, 18, 19, 20, 21, 22, 23, 24, 25, -1, -1, -1, -1, -1, -1, 26, 27, 28,
    29, 30, 31, 32, 33, 34, 35, 36, 37, 38, 39, 40, 41, 42, 43, 44, 45, 46, 47, 48,
    49, 50, 51, -1, -1, -1, -1, -1, -1, -1, -1, -1, -1, -1, -1, -1, -1, -1, -1, -1,
    -1, -1, -1, -1, -1, -1, -1, -1, -1, -1, -1, -1, -1, -1, -1, -1, -1, -1, -1, -1,
    -1, -1, -1, -1, -1, -1, -1, -1, -1, -1, -1, -1, -1, -1, -1, -1, -1, -1, -1, -1,
    -1, -1, -1, -1, -1, -1, -1, -1, -1, -1, -1, -1, -1, -1, -1, -1, -1, -1, -1, -1,
    -1, -1, -1, -1, -1, -1, -1, -1, -1, -1, -1, -1, -1, -1, -1, -1, -1, -1, -1, -1,
    -1, -1, -1, -1, -1, -1, -1, -1, -1, -1, -1, -1, -1, -1, -1, -1, -1, -1, -1, -1,
    -1, -1, -1, -1, -1, -1, -1, -1, -1, -1, -1, -1, -1, -1, -1, -1]

/-- One turn of the loop of `DecodeBase64`. -/
def decodeStep64 (s : Decoder) (dec : Nat) : Decoder :=
  match s.mode with
  | 0 => ⟨1, dec, s.vchRet⟩
  | 1 => ⟨2, dec &&& 15, s.vchRet ++ [UInt8.ofNat ((s.left <<< 2) ||| (dec >>> 4))]⟩
  | 2 => ⟨3, dec &&& 3, s.vchRet ++ [UInt8.ofNat ((s.left <<< 4) ||| (dec >>> 2))]⟩
  | 3 => ⟨0, s.left, s.vchRet ++ [UInt8.ofNat ((s.left <<< 6) ||| dec)]⟩
  | _ => s

/-- `*pfInvalid` at the end, with `p` where the loop stopped. -/
def invalid64 (s : Decoder) (p : List Char) : Bool :=
  match s.mode with
  | 0 => false
  | 1 => true
  | 2 => s.left ≠ 0 || charAt p 0 ≠ '=' || charAt p 1 ≠ '=' || decode64_table.getD (charAt p 2).toNat (-1) ≠ -1
  | 3 => s.left ≠ 0 || charAt p 0 ≠ '=' || decode64_table.getD (charAt p 1).toNat (-1) ≠ -1
  | _ => false

/-- **`DecodeBase64`**: the bytes, and whether the text is bad. -/
def decodeBase64 (p : List Char) : Bytes × Bool :=
  let (s, p) := decodeLoop decode64_table decodeStep64 ⟨0, 0, []⟩ p
  (s.vchRet, invalid64 s p)

/-! ## Base 32 -/

def pbase32 : List Char :=
  ['a', 'b', 'c', 'd', 'e', 'f', 'g', 'h', 'i', 'j', 'k', 'l', 'm', 'n', 'o', 'p', 'q', 'r', 's', 't', 'u', 'v', 'w',
    'x', 'y', 'z', '2', '3', '4', '5', '6', '7']

/-- One turn of the loop of `EncodeBase32`. -/
def encodeStep32 (s : Encoder) (c : UInt8) : Encoder :=
  let enc := c.toNat
  match s.mode with
  | 0 => ⟨1, (enc &&& 7) <<< 2, s.strRet ++ [charAt pbase32 (enc >>> 3)]⟩
  | 1 => ⟨2, (enc &&& 1) <<< 4, s.strRet ++ [charAt pbase32 (s.left ||| (enc >>> 6))] ++
      [charAt pbase32 ((enc >>> 1) &&& 31)]⟩
  | 2 => ⟨3, (enc &&& 15) <<< 1, s.strRet ++ [charAt pbase32 (s.left ||| (enc >>> 4))]⟩
  | 3 => ⟨4, (enc &&& 3) <<< 3, s.strRet ++ [charAt pbase32 (s.left ||| (enc >>> 7))] ++
      [charAt pbase32 ((enc >>> 2) &&& 31)]⟩
  | 4 => ⟨0, s.left, s.strRet ++ [charAt pbase32 (s.left ||| (enc >>> 5))] ++ [charAt pbase32 (enc &&& 31)]⟩
  | _ => s

def nPadding : List Nat := [0, 6, 4, 3, 1]

/-- **`EncodeBase32`** -/
def encodeBase32 (pch : Bytes) : List Char :=
  let s := pch.foldl encodeStep32 ⟨0, 0, []⟩
  if s.mode ≠ 0 then s.strRet ++ [charAt pbase32 s.left] ++ List.replicate (nPadding.getD s.mode 0) '=' else s.strRet

def decode32_table : List Int :=
  [-1, -1, -1, -1, -1, -1, -1, -1, -1, -1, -1, -1, -1, -1, -1, -1, -1, -1, -1, -1,
    -1, -1, -1, -1, -1, -1, -1, -1, -1, -1, -1, -1, -1, -1, -1, -1, -1, -1, -1, -1,
    -1, -1, -1, -1, -1, -1, -1, -1, -1, -1, 26, 27, 28, 29, 30, 31, -1, -1, -1, -1,
    -1, -1, -1, -1, -1, 0, 1, 2, 3, 4, 5, 6, 7, 8, 9, 10, 11, 12, 13, 14,
    15, 16, 17, 18, 19, 20, 21, 22, 23, 24, 25, -1, -1, -1, -1, -1, -1, 0, 1, 2,
    3, 4, 5, 6, 7, 8, 9, 10, 11, 12, 13, 14, 15, 16, 17, 18, 19, 20, 21, 22,
    23, 24, 25, -1, -1, -1, -1, -1, -1, -1, -1, -1, -1, -1, -1, -1, -1, -1, -1, -1,
    -1, -1, -1, -1, -1, -1, -1, -1, -1, -1, -1, -1, -1, -1, -1, -1, -1, -1, -1, -1,
    -1, -1, -1, -1, -1, -1, -1, -1, -1, -1, -1, -1, -1, -1, -1, -1, -1, -1, -1, -1,
    -1, -1, -1, -1, -1, -1, -1, -1, -1, -1, -1, -1, -1, -1, -1, -1, -1, -1, -1, -1,
    -1, -1, -1, -1, -1, -1, -1, -1, -1, -1, -1, -1, -1, -1, -1, -1, -1, -1, -1, -1,
    -1, -1, -1, -1, -1, -1, -1, -1, -1, -1, -1, -1, -1, -1, -1, -1, -1, -1, -1, -1,
    -1, -1, -1, -1, -1, -1, -1, -1, -1, -1, -1, -1, -1, -1, -1, -1]

/-- One turn of the loop of `DecodeBase32`. -/
def decodeStep32 (s : Decoder) (dec : Nat) : Decoder :=
  match s.mode with
  | 0 => ⟨1, dec, s.vchRet⟩
  | 1 => ⟨2, dec &&& 3, s.vchRet ++ [UInt8.ofNat ((s.left <<< 3) ||| (dec >>> 2))]⟩
  | 2 => ⟨3, s.left <<< 5 ||| dec, s.vchRet⟩
  | 3 => ⟨4, dec &&& 15, s.vchRet ++ [UInt8.ofNat ((s.left <<< 1) ||| (dec >>> 4))]⟩
  | 4 => ⟨5, dec &&& 1, s.vchRet ++ [UInt8.ofNat ((s.left <<< 4) ||| (dec >>> 1))]⟩
  | 5 => ⟨6, s.left <<< 5 ||| dec, s.vchRet⟩
  | 6 => ⟨7, dec &&& 7, s.vchRet ++ [UInt8.ofNat ((s.left <<< 2) ||| (dec >>> 3))]⟩
  | 7 => ⟨0, s.left, s.vchRet ++ [UInt8.ofNat ((s.left <<< 5) ||| dec)]⟩
  | _ => s

/-- Whether `n` padding characters and no character of the alphabet follow. -/
def padded32 (n : Nat) (p : List Char) : Bool :=
  (List.range n).all (fun i => charAt p i = '=') && decode32_table.getD (charAt p n).toNat (-1) = -1

/-- `*pfInvalid` at the end, with `p` where the loop stopped. -/
def invalid32 (s : Decoder) (p : List Char) : Bool :=
  match s.mode with
  | 0 => false
  | 1 | 3 | 6 => true
  | 2 => s.left ≠ 0 || !padded32 6 p
  | 4 => s.left ≠ 0 || !padded32 4 p
  | 5 => s.left ≠ 0 || !padded32 3 p
  | 7 => s.left ≠ 0 || !padded32 1 p
  | _ => false

/-- **`DecodeBase32`** -/
def decodeBase32 (p : List Char) : Bytes × Bool :=
  let (s, p) := decodeLoop decode32_table decodeStep32 ⟨0, 0, []⟩ p
  (s.vchRet, invalid32 s p)

end Util

end Syscoin

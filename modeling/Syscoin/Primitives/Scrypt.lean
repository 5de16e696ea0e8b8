import Mathlib.Logic.Function.Iterate
import Syscoin.Lib.Slots
import Syscoin.Primitives.Script

/-!
# `Primitives.Scrypt` — the proof-of-work hash, for any processor and for SSE2

`scrypt_1024_1_1_256_sp_generic` and `scrypt_1024_1_1_256_sp_sse2` with everything under them except SHA-256, which is a
parameter: a context of it is the message that it was fed so far. The two functions read the same bytes into words, mix
them 2048 times with a table that they write on the way, and hash what is left. The second one keeps the words in a
different order, so that four of them lie in one register and are worked on together.

The words of a block are fields, named as the local variables of `xor_salsa8` are. The table `V` is only used in rows
of two blocks each, so it is a table of such rows.
-/

namespace Syscoin

namespace Scrypt

/-- `uint32_t` -/
abbrev Word := BitVec 32

/-! ## Words and bytes -/

def byteOf (x : Word) : UInt8 := UInt8.ofBitVec (x.setWidth 8)

/-- `(uint32_t)(p[i])` -/
def wordAt (p : Bytes) (i : Nat) : Word := (p.getD i 0).toBitVec.setWidth 32

def le32dec (p : Bytes) : Word := wordAt p 0 + (wordAt p 1 <<< 8) + (wordAt p 2 <<< 16) + (wordAt p 3 <<< 24)

def le32enc (x : Word) : Bytes := [byteOf x, byteOf (x >>> 8), byteOf (x >>> 16), byteOf (x >>> 24)]

def be32enc (x : Word) : Bytes := [byteOf (x >>> 24), byteOf (x >>> 16), byteOf (x >>> 8), byteOf x]

/-! ## HMAC and the derivation of keys -/

section Hash

variable (SHA256 : Bytes → Bytes)

/-- What was fed to the inner and to the outer hash. -/
structure HMAC_SHA256_CTX where
  ictx : Bytes
  octx : Bytes
deriving DecidableEq, Repr

/-- `memset(pad, c, 64)`, and the first `Klen` bytes combined with the key. -/
def hmacPad (c : UInt8) (K : Bytes) (Klen : Nat) : Bytes :=
  (List.range 64).map fun i => if i < Klen then c ^^^ K.getD i 0 else c

def HMAC_SHA256_Init (K : Bytes) : HMAC_SHA256_CTX :=
  let Klen := K.length
  -- a long key is really its hash
  let khash := SHA256 K
  let (K, Klen) := if 64 < Klen then (khash, 32) else (K, Klen)
  { ictx := hmacPad 0x36 K Klen, octx := hmacPad 0x5c K Klen }

def HMAC_SHA256_Update (ctx : HMAC_SHA256_CTX) (data : Bytes) : HMAC_SHA256_CTX := { ctx with ictx := ctx.ictx ++ data }

def HMAC_SHA256_Final (ctx : HMAC_SHA256_CTX) : Bytes :=
  let ihash := SHA256 ctx.ictx
  SHA256 (ctx.octx ++ ihash)

/-- One round `j` of the inner loop: the next `U`, and `T` combined with it. -/
def pbkdf2Round (passwd : Bytes) (UT : Bytes × Bytes) : Bytes × Bytes :=
  let hctx := HMAC_SHA256_Update (HMAC_SHA256_Init SHA256 passwd) UT.1
  let U := HMAC_SHA256_Final SHA256 hctx
  (U, List.zipWith (· ^^^ ·) UT.2 U)

/-- The body of the outer loop, for `i`. -/
def pbkdf2Block (passwd : Bytes) (PShctx : HMAC_SHA256_CTX) (c i : Nat) : Bytes :=
  let ivec := be32enc (BitVec.ofNat 32 (i + 1))
  let hctx := HMAC_SHA256_Update PShctx ivec
  let U := HMAC_SHA256_Final SHA256 hctx
  let T := U
  ((pbkdf2Round SHA256 passwd)^[c - 1] (U, T)).2

/-- What is in `buf` at the end. The outer loop runs while `i * 32 < dkLen`. -/
def PBKDF2_SHA256 (passwd salt : Bytes) (c dkLen : Nat) : Bytes :=
  let PShctx := HMAC_SHA256_Update (HMAC_SHA256_Init SHA256 passwd) salt
  (List.range ((dkLen + 31) / 32)).foldl (fun buf i =>
    let T := pbkdf2Block SHA256 passwd PShctx c i
    let clen := dkLen - i * 32
    let clen := if 32 < clen then 32 else clen
    buf ++ T.take clen) []

end Hash

/-! ## The mixing of one block -/

def ROTL (a : Word) (b : Nat) : Word := (a <<< b) ||| (a >>> (32 - b))

/-- `uint32_t B[16]` -/
structure Block where
  x00 : Word
  x01 : Word
  x02 : Word
  x03 : Word
  x04 : Word
  x05 : Word
  x06 : Word
  x07 : Word
  x08 : Word
  x09 : Word
  x10 : Word
  x11 : Word
  x12 : Word
  x13 : Word
  x14 : Word
  x15 : Word
deriving DecidableEq, Repr

namespace Block

/-- `B[i]` -/
def word (B : Block) : Nat → Word
  | 0 => B.x00
  | 1 => B.x01
  | 2 => B.x02
  | 3 => B.x03
  | 4 => B.x04
  | 5 => B.x05
  | 6 => B.x06
  | 7 => B.x07
  | 8 => B.x08
  | 9 => B.x09
  | 10 => B.x10
  | 11 => B.x11
  | 12 => B.x12
  | 13 => B.x13
  | 14 => B.x14
  | 15 => B.x15
  | _ => 0

def ofWords (w : Nat → Word) : Block :=
  ⟨w 0, w 1, w 2, w 3, w 4, w 5, w 6, w 7, w 8, w 9, w 10, w 11, w 12, w 13, w 14, w 15⟩

/-- One operation on the words in each place. -/
def zip (f : Word → Word → Word) (B Bx : Block) : Block := ofWords fun k => f (B.word k) (Bx.word k)

end Block

/-- Operate on columns. -/
def columns : Block → Block
  | ⟨x00, x01, x02, x03, x04, x05, x06, x07, x08, x09, x10, x11, x12, x13, x14, x15⟩ =>
    let x04 := x04 ^^^ ROTL (x00 + x12) 7
    let x09 := x09 ^^^ ROTL (x05 + x01) 7
    let x14 := x14 ^^^ ROTL (x10 + x06) 7
    let x03 := x03 ^^^ ROTL (x15 + x11) 7
    let x08 := x08 ^^^ ROTL (x04 + x00) 9
    let x13 := x13 ^^^ ROTL (x09 + x05) 9
    let x02 := x02 ^^^ ROTL (x14 + x10) 9
    let x07 := x07 ^^^ ROTL (x03 + x15) 9
    let x12 := x12 ^^^ ROTL (x08 + x04) 13
    let x01 := x01 ^^^ ROTL (x13 + x09) 13
    let x06 := x06 ^^^ ROTL (x02 + x14) 13
    let x11 := x11 ^^^ ROTL (x07 + x03) 13
    let x00 := x00 ^^^ ROTL (x12 + x08) 18
    let x05 := x05 ^^^ ROTL (x01 + x13) 18
    let x10 := x10 ^^^ ROTL (x06 + x02) 18
    let x15 := x15 ^^^ ROTL (x11 + x07) 18
    ⟨x00, x01, x02, x03, x04, x05, x06, x07, x08, x09, x10, x11, x12, x13, x14, x15⟩

/-- Operate on rows. -/
def rows : Block → Block
  | ⟨x00, x01, x02, x03, x04, x05, x06, x07, x08, x09, x10, x11, x12, x13, x14, x15⟩ =>
    let x01 := x01 ^^^ ROTL (x00 + x03) 7
    let x06 := x06 ^^^ ROTL (x05 + x04) 7
    let x11 := x11 ^^^ ROTL (x10 + x09) 7
    let x12 := x12 ^^^ ROTL (x15 + x14) 7
    let x02 := x02 ^^^ ROTL (x01 + x00) 9
    let x07 := x07 ^^^ ROTL (x06 + x05) 9
    let x08 := x08 ^^^ ROTL (x11 + x10) 9
    let x13 := x13 ^^^ ROTL (x12 + x15) 9
    let x03 := x03 ^^^ ROTL (x02 + x01) 13
    let x04 := x04 ^^^ ROTL (x07 + x06) 13
    let x09 := x09 ^^^ ROTL (x08 + x11) 13
    let x14 := x14 ^^^ ROTL (x13 + x12) 13
    let x00 := x00 ^^^ ROTL (x03 + x02) 18
    let x05 := x05 ^^^ ROTL (x04 + x07) 18
    let x10 := x10 ^^^ ROTL (x09 + x08) 18
    let x15 := x15 ^^^ ROTL (x14 + x13) 18
    ⟨x00, x01, x02, x03, x04, x05, x06, x07, x08, x09, x10, x11, x12, x13, x14, x15⟩

/-- What is done with the local variables in one pass of the loop. -/
def doubleRound (x : Block) : Block := rows (columns x)

/-- What is in `B` afterwards. The loop counts to eight by twos. -/
def xor_salsa8 (B Bx : Block) : Block :=
  let B := Block.zip (· ^^^ ·) B Bx
  let x := doubleRound^[4] B
  Block.zip (· + ·) B x

/-! ## The same with four words at a time -/

/-- `__m128i`, as four lanes. -/
structure M128i where
  u0 : Word
  u1 : Word
  u2 : Word
  u3 : Word
deriving DecidableEq, Repr

namespace M128i

def lane (a : M128i) : Nat → Word
  | 0 => a.u0
  | 1 => a.u1
  | 2 => a.u2
  | 3 => a.u3
  | _ => 0

end M128i

def _mm_add_epi32 (a b : M128i) : M128i := ⟨a.u0 + b.u0, a.u1 + b.u1, a.u2 + b.u2, a.u3 + b.u3⟩

def _mm_xor_si128 (a b : M128i) : M128i := ⟨a.u0 ^^^ b.u0, a.u1 ^^^ b.u1, a.u2 ^^^ b.u2, a.u3 ^^^ b.u3⟩

def _mm_slli_epi32 (a : M128i) (n : Nat) : M128i := ⟨a.u0 <<< n, a.u1 <<< n, a.u2 <<< n, a.u3 <<< n⟩

def _mm_srli_epi32 (a : M128i) (n : Nat) : M128i := ⟨a.u0 >>> n, a.u1 >>> n, a.u2 >>> n, a.u3 >>> n⟩

/-- Two bits of `imm` for each lane say where it comes from. -/
def _mm_shuffle_epi32 (a : M128i) (imm : Nat) : M128i :=
  ⟨a.lane (imm % 4), a.lane (imm / 4 % 4), a.lane (imm / 16 % 4), a.lane (imm / 64 % 4)⟩

/-- `__m128i B[4]`, which is also `uint32_t[16]`. -/
structure Lanes where
  X0 : M128i
  X1 : M128i
  X2 : M128i
  X3 : M128i
deriving DecidableEq, Repr

namespace Lanes

/-- `u32[i]` -/
def word (B : Lanes) (i : Nat) : Word :=
  match i / 4 with
  | 0 => B.X0.lane (i % 4)
  | 1 => B.X1.lane (i % 4)
  | 2 => B.X2.lane (i % 4)
  | 3 => B.X3.lane (i % 4)
  | _ => 0

def ofWords (w : Nat → Word) : Lanes :=
  ⟨⟨w 0, w 1, w 2, w 3⟩, ⟨w 4, w 5, w 6, w 7⟩, ⟨w 8, w 9, w 10, w 11⟩, ⟨w 12, w 13, w 14, w 15⟩⟩

/-- One operation on the registers in each place. -/
def zip (f : M128i → M128i → M128i) (B Bx : Lanes) : Lanes := ⟨f B.X0 Bx.X0, f B.X1 Bx.X1, f B.X2 Bx.X2, f B.X3 Bx.X3⟩

end Lanes

/-- `X ^= T << n; X ^= T >> (32 - n)`, the second shift as the source has it. -/
def xorShifts (X T : M128i) (left right : Nat) : M128i :=
  let X := _mm_xor_si128 X (_mm_slli_epi32 T left)
  _mm_xor_si128 X (_mm_srli_epi32 T right)

/-- Operate on "columns", and rearrange data. -/
def columnsSse2 : Lanes → Lanes
  | ⟨X0, X1, X2, X3⟩ =>
    let T := _mm_add_epi32 X0 X3
    let X1 := xorShifts X1 T 7 25
    let T := _mm_add_epi32 X1 X0
    let X2 := xorShifts X2 T 9 23
    let T := _mm_add_epi32 X2 X1
    let X3 := xorShifts X3 T 13 19
    let T := _mm_add_epi32 X3 X2
    let X0 := xorShifts X0 T 18 14
    let X1 := _mm_shuffle_epi32 X1 0x93
    let X2 := _mm_shuffle_epi32 X2 0x4E
    let X3 := _mm_shuffle_epi32 X3 0x39
    ⟨X0, X1, X2, X3⟩

/-- Operate on "rows", and rearrange data. -/
def rowsSse2 : Lanes → Lanes
  | ⟨X0, X1, X2, X3⟩ =>
    let T := _mm_add_epi32 X0 X1
    let X3 := xorShifts X3 T 7 25
    let T := _mm_add_epi32 X3 X0
    let X2 := xorShifts X2 T 9 23
    let T := _mm_add_epi32 X2 X3
    let X1 := xorShifts X1 T 13 19
    let T := _mm_add_epi32 X1 X2
    let X0 := xorShifts X0 T 18 14
    let X1 := _mm_shuffle_epi32 X1 0x39
    let X2 := _mm_shuffle_epi32 X2 0x4E
    let X3 := _mm_shuffle_epi32 X3 0x93
    ⟨X0, X1, X2, X3⟩

def doubleRoundSse2 (X : Lanes) : Lanes := rowsSse2 (columnsSse2 X)

def xor_salsa8_sse2 (B Bx : Lanes) : Lanes :=
  let B := Lanes.zip _mm_xor_si128 B Bx
  let X := doubleRoundSse2^[4] B
  Lanes.zip _mm_add_epi32 B X

/-! ## The table -/

section Mixing

/-- `X`, two blocks: `&X[0]` and `&X[16]`, or `&X.i128[0]` and `&X.i128[4]`. -/
structure Halves (β : Type) where
  lo : β
  hi : β
deriving DecidableEq, Repr

def Halves.map {β γ : Type} (f : β → γ) (X : Halves β) : Halves γ := ⟨f X.lo, f X.hi⟩

def Halves.zip {β : Type} (f : β → β → β) (X Y : Halves β) : Halves β := ⟨f X.lo Y.lo, f X.hi Y.hi⟩

variable {β : Type} (salsa xor : β → β → β) (word : β → Nat → Word)

/-- `xor_salsa8(&X[0], &X[16]); xor_salsa8(&X[16], &X[0]);` -/
def mixHalves (X : Halves β) : Halves β :=
  let lo := salsa X.lo X.hi
  ⟨lo, salsa X.hi lo⟩

/-- The first loop, which writes one row of `V` after the other. -/
def fillLoop (XV : Halves β × Array (Halves β)) : Halves β × Array (Halves β) :=
  let (X, V) := XV
  (mixHalves salsa X, V.push X)

/-- The second loop: the row to combine with is chosen by `X[16] & 1023`. -/
def readLoop (V : Array (Halves β)) (X : Halves β) : Halves β :=
  let j := (word X.hi 0 &&& 1023).toNat
  mixHalves salsa (Halves.zip xor X (V.getD j X))

/-- Both loops, of `passes` passes each: what is in `X` afterwards. With 1024 of them, every row that the second loop
reads was written by the first. -/
def mixLoops (passes : Nat) (X : Halves β) : Halves β :=
  let XV := (fillLoop salsa)^[passes] (X, #[])
  (readLoop salsa xor word XV.2)^[passes] XV.1

end Mixing

/-! ## The hash -/

section Hash

variable (SHA256 : Bytes → Bytes)

/-- `X[k]` -/
def Halves.word {β : Type} (word : β → Nat → Word) (X : Halves β) (k : Nat) : Word :=
  if k < 16 then word X.lo k else word X.hi (k - 16)

/-- `for (k = 0; k < 32; k++) le32enc(&B[4 * k], X[k]);` -/
def storeGeneric (X : Halves Block) (B : Bytes) : Bytes :=
  (List.range 32).foldl (fun B k => Lib.poke B (4 * k) (le32enc (X.word Block.word k))) B

/-- What is in the 32 bytes of `output`, from the first 80 of `input`. -/
def scrypt_1024_1_1_256_sp_generic (input : Bytes) : Bytes :=
  let input := input.take 80
  let B := PBKDF2_SHA256 SHA256 input input 1 128
  let X : Halves Block :=
    ⟨Block.ofWords fun k => le32dec (B.drop (4 * k)), Block.ofWords fun k => le32dec (B.drop (4 * (16 + k)))⟩
  let X := mixLoops xor_salsa8 (Block.zip (· ^^^ ·)) Block.word 1024 X
  let B := storeGeneric X B
  PBKDF2_SHA256 SHA256 input B 1 32

/-- The place in `B` of the word `k * 16 + i` of `X`. -/
def sse2Place (k i : Nat) : Nat := k * 16 + i * 5 % 16

/-- The loops `for (k < 2) for (i < 16) le32enc(&B[(k * 16 + (i * 5 % 16)) * 4], X.u32[k * 16 + i])`. -/
def storeSse2 (X : Halves Lanes) (B : Bytes) : Bytes :=
  (List.range 2).foldl (fun B k => (List.range 16).foldl (fun B i =>
    Lib.poke B (sse2Place k i * 4) (le32enc (X.word Lanes.word (k * 16 + i)))) B) B

def scrypt_1024_1_1_256_sp_sse2 (input : Bytes) : Bytes :=
  let input := input.take 80
  let B := PBKDF2_SHA256 SHA256 input input 1 128
  let X : Halves Lanes :=
    ⟨Lanes.ofWords fun i => le32dec (B.drop (sse2Place 0 i * 4)),
      Lanes.ofWords fun i => le32dec (B.drop (sse2Place 1 i * 4))⟩
  let X := mixLoops xor_salsa8_sse2 (Lanes.zip _mm_xor_si128) Lanes.word 1024 X
  let B := storeSse2 X B
  PBKDF2_SHA256 SHA256 input B 1 32

/-- What `scrypt_1024_1_1_256_sp_detected` points to. -/
inductive Detected where
  | generic
  | sse2
deriving DecidableEq, Repr

/-- What `scrypt_detect_sse2` sets, from the features of the processor. Before it is called, it is `generic`. -/
def scrypt_detect_sse2 (cpuid_edx : Word) : Detected := if cpuid_edx &&& (1 <<< 26) ≠ 0 then .sse2 else .generic

/-- How the program was built. -/
structure Build where
  USE_SSE2 : Bool
  USE_SSE2_ALWAYS : Bool
deriving DecidableEq, Repr

/-- The scratchpad is written before it is read, so nothing depends on what is in it. -/
def scrypt_1024_1_1_256 (build : Build) (detected : Detected) (input : Bytes) : Bytes :=
  if build.USE_SSE2 then
    if build.USE_SSE2_ALWAYS then scrypt_1024_1_1_256_sp_sse2 SHA256 input
    else
      match detected with
      | .generic => scrypt_1024_1_1_256_sp_generic SHA256 input
      | .sse2 => scrypt_1024_1_1_256_sp_sse2 SHA256 input
  else scrypt_1024_1_1_256_sp_generic SHA256 input

end Hash

end Scrypt

end Syscoin

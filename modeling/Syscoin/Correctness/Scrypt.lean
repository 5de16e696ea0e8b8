import Mathlib.Data.List.GetD
import Mathlib.Tactic.IntervalCases
import Syscoin.Primitives.Scrypt

/-!
# `Correctness.Scrypt` — one hash, by either path

With SSE2 the sixteen words of a block are kept in another order, so that the four columns lie across the registers, and
after a rearrangement the four rows (`columnsSse2_layout`, `rowsSse2_rowLayout`). Everything that the generic function
does to blocks it does in that order (`xor_salsa8_sse2_layout`, `mixLoops_map`), and the words are put back where they
belong (`storeSse2_eq`). So the two functions compute the same (`scrypt_sse2_eq_generic`), and the hash of a header does
not depend on the processor (`scrypt_1024_1_1_256_eq`).

Under both of them is a derivation of keys from the hash, which is the one of its standard (`pbkdf2_sha256_eq`).
-/

namespace Syscoin

namespace Scrypt

/-! ## Rotations -/

/-- The two halves of a rotation have no bit in common. -/
theorem ROTL_eq_xor (a : Word) {b : Nat} (hb : b ≤ 32) : ROTL a b = (a <<< b) ^^^ (a >>> (32 - b)) := by
  unfold ROTL
  apply BitVec.eq_of_getLsbD_eq
  intro i hi
  simp only [BitVec.getLsbD_or, BitVec.getLsbD_xor, BitVec.getLsbD_shiftLeft, BitVec.getLsbD_ushiftRight]
  rcases Nat.lt_or_ge i b with hib | hib
  · simp [hib]
  · have hhigh : a.getLsbD (32 - b + i) = false := BitVec.getLsbD_of_ge a _ (by omega)
    simp [hhigh]

/-- Two shifts and two combinations are a rotation of each lane. -/
theorem xorShifts_eq (X T : M128i) {left right : Nat} (h : left + right = 32) :
    xorShifts X T left right = ⟨X.u0 ^^^ ROTL T.u0 left, X.u1 ^^^ ROTL T.u1 left, X.u2 ^^^ ROTL T.u2 left,
      X.u3 ^^^ ROTL T.u3 left⟩ := by
  have hright : 32 - left = right := by omega
  simp only [ROTL_eq_xor _ (show left ≤ 32 by omega), hright, ← BitVec.xor_assoc]
  rfl

/-! ## The order of the words -/

/-- The words as `scrypt_1024_1_1_256_sp_sse2` loads them: each register has one word of every column. -/
def layout (B : Block) : Lanes := Lanes.ofWords fun i => B.word (i * 5 % 16)

/-- The words when it works on rows. -/
def rowLayout (x : Block) : Lanes :=
  ⟨⟨x.x00, x.x05, x.x10, x.x15⟩, ⟨x.x03, x.x04, x.x09, x.x14⟩, ⟨x.x02, x.x07, x.x08, x.x13⟩,
    ⟨x.x01, x.x06, x.x11, x.x12⟩⟩

theorem layout_ofWords (w : Nat → Word) : layout (Block.ofWords w) = Lanes.ofWords fun i => w (i * 5 % 16) := rfl

/-- Adding or combining word by word can be done in either order. -/
theorem layout_zip {f : Word → Word → Word} {g : M128i → M128i → M128i}
    (hg : ∀ a b, g a b = ⟨f a.u0 b.u0, f a.u1 b.u1, f a.u2 b.u2, f a.u3 b.u3⟩) (B Bx : Block) :
    Lanes.zip g (layout B) (layout Bx) = layout (Block.zip f B Bx) := by
  simp only [Lanes.zip, hg]
  rfl

theorem columnsSse2_layout (x : Block) : columnsSse2 (layout x) = rowLayout (columns x) := by
  cases x
  simp only [columnsSse2, layout, Lanes.ofWords, xorShifts_eq]
  rfl

theorem rowsSse2_rowLayout (x : Block) : rowsSse2 (rowLayout x) = layout (rows x) := by
  cases x
  simp only [rowsSse2, rowLayout, xorShifts_eq]
  rfl

theorem doubleRoundSse2_layout (x : Block) : doubleRoundSse2 (layout x) = layout (doubleRound x) := by
  rw [doubleRoundSse2, columnsSse2_layout, rowsSse2_rowLayout, doubleRound]

/-- **The mixing of a block in the other order** is the mixing of the block. -/
theorem xor_salsa8_sse2_layout (B Bx : Block) : xor_salsa8_sse2 (layout B) (layout Bx) = layout (xor_salsa8 B Bx) := by
  have hround : Function.Semiconj layout doubleRound doubleRoundSse2 := fun x => (doubleRoundSse2_layout x).symm
  have hxor := layout_zip (f := (· ^^^ ·)) (g := _mm_xor_si128) (fun _ _ => rfl)
  have hadd := layout_zip (f := (· + ·)) (g := _mm_add_epi32) (fun _ _ => rfl)
  simp only [xor_salsa8_sse2, xor_salsa8, hxor, ← (hround.iterate_right 4).eq, hadd]

/-! ## The table in the other order -/

section Mixing

variable {β γ : Type} {φ : β → γ} {salsa xor : β → β → β} {salsa' xor' : γ → γ → γ} {word : β → Nat → Word}
  {word' : γ → Nat → Word}

theorem mixHalves_map (hsalsa : ∀ a b, salsa' (φ a) (φ b) = φ (salsa a b)) (X : Halves β) :
    mixHalves salsa' (X.map φ) = (mixHalves salsa X).map φ := by
  simp only [mixHalves, Halves.map, hsalsa]

theorem fillLoop_map (hsalsa : ∀ a b, salsa' (φ a) (φ b) = φ (salsa a b)) (XV : Halves β × Array (Halves β)) :
    fillLoop salsa' (XV.1.map φ, XV.2.map (Halves.map φ)) =
      ((fillLoop salsa XV).1.map φ, (fillLoop salsa XV).2.map (Halves.map φ)) := by
  simp only [fillLoop, mixHalves_map hsalsa, Array.map_push]

theorem readLoop_map (hsalsa : ∀ a b, salsa' (φ a) (φ b) = φ (salsa a b)) (hxor : ∀ a b, xor' (φ a) (φ b) = φ (xor a b))
    (hword : ∀ a, word' (φ a) 0 = word a 0) (V : Array (Halves β)) (X : Halves β) :
    readLoop salsa' xor' word' (V.map (Halves.map φ)) (X.map φ) = (readLoop salsa xor word V X).map φ := by
  have hrow : ∀ j, (V.map (Halves.map φ)).getD j (X.map φ) = (V.getD j X).map φ := by
    intro j
    rw [Array.getD_eq_getD_getElem?, Array.getElem?_map, Option.getD_map, ← Array.getD_eq_getD_getElem?]
  have hzip : ∀ Y : Halves β, Halves.zip xor' (X.map φ) (Y.map φ) = (Halves.zip xor X Y).map φ := by
    intro Y
    simp only [Halves.zip, Halves.map, hxor]
  have hj : word' (X.map φ).hi 0 = word X.hi 0 := hword X.hi
  simp only [readLoop, hj, hrow, hzip, mixHalves_map hsalsa]

/-- The table is filled with the rows in the new representation. -/
theorem fillLoop_iterate_map (hsalsa : ∀ a b, salsa' (φ a) (φ b) = φ (salsa a b)) (n : Nat) (X : Halves β) :
    (fillLoop salsa')^[n] (X.map φ, #[]) =
      (((fillLoop salsa)^[n] (X, #[])).1.map φ, ((fillLoop salsa)^[n] (X, #[])).2.map (Halves.map φ)) := by
  induction n with
  | zero => simp
  | succ n ih =>
    rw [Function.iterate_succ_apply', ih, fillLoop_map hsalsa, ← Function.iterate_succ_apply' (fillLoop salsa)]

/-- The same rows of it are read. -/
theorem readLoop_iterate_map (hsalsa : ∀ a b, salsa' (φ a) (φ b) = φ (salsa a b))
    (hxor : ∀ a b, xor' (φ a) (φ b) = φ (xor a b)) (hword : ∀ a, word' (φ a) 0 = word a 0) (n : Nat)
    (V : Array (Halves β)) (X : Halves β) :
    (readLoop salsa' xor' word' (V.map (Halves.map φ)))^[n] (X.map φ) = ((readLoop salsa xor word V)^[n] X).map φ := by
  have hread : Function.Semiconj (Halves.map φ) (readLoop salsa xor word V)
      (readLoop salsa' xor' word' (V.map (Halves.map φ))) := fun X => (readLoop_map hsalsa hxor hword V X).symm
  exact ((hread.iterate_right n).eq X).symm

/-- **A change of representation** that the steps respect is respected by the loops. -/
theorem mixLoops_map (hsalsa : ∀ a b, salsa' (φ a) (φ b) = φ (salsa a b)) (hxor : ∀ a b, xor' (φ a) (φ b) = φ (xor a b))
    (hword : ∀ a, word' (φ a) 0 = word a 0) (passes : Nat) (X : Halves β) :
    mixLoops salsa' xor' word' passes (X.map φ) = (mixLoops salsa xor word passes X).map φ := by
  simp only [mixLoops, fillLoop_iterate_map hsalsa, readLoop_iterate_map hsalsa hxor hword]

end Mixing

/-! ## Loading and storing -/

theorem le32enc_length (x : Word) : (le32enc x).length = 4 := rfl

/-- The word that a register holds is the word of its place. -/
theorem word_layout (X : Halves Block) {k i : Nat} (hk : k < 2) (hi : i < 16) :
    (X.map layout).word Lanes.word (k * 16 + i) = X.word Block.word (sse2Place k i) := by
  have hword : ∀ B : Block, Lanes.word (layout B) i = B.word (i * 5 % 16) := by
    have hall : ∀ i < 16, ∀ B : Block, Lanes.word (layout B) i = B.word (i * 5 % 16) := by
      intro i hi B
      interval_cases i <;> rfl
    exact hall i hi
  have hplace : i * 5 % 16 < 16 := Nat.mod_lt _ (by decide)
  have hcases : k = 0 ∨ k = 1 := by omega
  rcases hcases with rfl | rfl
  · simp only [Halves.word, sse2Place, Nat.zero_mul, Nat.zero_add, if_pos hi, if_pos hplace]
    exact hword X.lo
  · have hhi : ¬ 1 * 16 + i < 16 := by omega
    have hhi' : ¬ 1 * 16 + i * 5 % 16 < 16 := by omega
    simp only [Halves.word, sse2Place, if_neg hhi, if_neg hhi', Nat.one_mul, Nat.add_sub_cancel_left]
    exact hword X.hi

/-- The places in the order in which the loops of `storeSse2` come to them. -/
def sse2Places : List Nat := (List.range 2).flatMap fun k => (List.range 16).map (sse2Place k)

theorem mem_sse2Places : ∀ k, k ∈ sse2Places ↔ k ∈ List.range 32 := by
  have hmem : ∀ k < 32, k ∈ sse2Places := by decide
  have hlt : ∀ k ∈ sse2Places, k < 32 := by decide
  intro k
  rw [List.mem_range]
  exact ⟨hlt k, hmem k⟩

/-- **The words are put back where they belong.** -/
theorem storeSse2_eq (X : Halves Block) {B : Bytes} (hB : B.length = 128) :
    storeSse2 (X.map layout) B = storeGeneric X B := by
  have hslots : storeSse2 (X.map layout) B = Lib.fillSlots 4 (fun k => le32enc (X.word Block.word k)) sse2Places B := by
    rw [storeSse2, Lib.fillSlots, sse2Places, List.foldl_flatMap]
    apply List.foldl_ext
    intro B k hk
    rw [List.foldl_map]
    apply List.foldl_ext
    intro B i hi
    rw [word_layout X (List.mem_range.mp hk) (List.mem_range.mp hi), Nat.mul_comm]
  rw [hslots, storeGeneric]
  apply Lib.fillSlots_congr (by decide) (fun _ => le32enc_length _) _ mem_sse2Places
  intro k hk
  have hlt : k < 32 := List.mem_range.mp ((mem_sse2Places k).mp hk)
  omega

/-! ## The derivation of keys -/

section Hash

variable (SHA256 : Bytes → Bytes)

/-- The keyed hash: the key is filled up with zeros to a block of the hash, and hashed first if it is longer. -/
def hmac (K m : Bytes) : Bytes :=
  let K := if 64 < K.length then SHA256 K else K
  let K := K ++ List.replicate (64 - K.length) 0
  SHA256 (K.map (0x5c ^^^ ·) ++ SHA256 (K.map (0x36 ^^^ ·) ++ m))

/-- The number of a block, in four bytes, the highest first. -/
def blockNumber (i : Nat) : Bytes :=
  [UInt8.ofNat (i / 2 ^ 24), UInt8.ofNat (i / 2 ^ 16), UInt8.ofNat (i / 2 ^ 8), UInt8.ofNat i]

/-- The iterates of the keyed hash that make up block `i`. -/
def keyIterate (passwd salt : Bytes) (i : Nat) : Nat → Bytes
  | 0 => hmac SHA256 passwd (salt ++ blockNumber i)
  | j + 1 => hmac SHA256 passwd (keyIterate passwd salt i j)

/-- Block `i` of the derived key: the first `c` iterates combined. -/
def keyBlock (passwd salt : Bytes) (c i : Nat) : Bytes :=
  (List.range (c - 1)).foldl (fun T j => List.zipWith (· ^^^ ·) T (keyIterate SHA256 passwd salt i (j + 1)))
    (keyIterate SHA256 passwd salt i 0)

/-- The derived key: the blocks from the first on, cut off at its length. -/
def derivedKey (passwd salt : Bytes) (c dkLen : Nat) : Bytes :=
  ((List.range ((dkLen + 31) / 32)).flatMap fun i => keyBlock SHA256 passwd salt c (i + 1)).take dkLen

variable {SHA256}

/-- The key and zeros behind it, combined with the byte of the pad. -/
theorem hmacPad_eq (c : UInt8) {K : Bytes} (hK : K.length ≤ 64) :
    hmacPad c K K.length = (K ++ List.replicate (64 - K.length) 0).map (c ^^^ ·) := by
  apply List.ext_getElem
  · simp only [hmacPad, List.length_map, List.length_range, List.length_append, List.length_replicate]
    omega
  · intro i hi hi'
    simp only [hmacPad, List.getElem_map, List.getElem_range]
    by_cases hin : i < K.length
    · rw [if_pos hin, List.getElem_append_left hin, List.getD_eq_getElem _ _ hin]
    · rw [if_neg hin, List.getElem_append_right (by omega), List.getElem_replicate]
      simp

/-- **Feeding a message in pieces** is hashing it with the key. -/
theorem hmac_final_eq (hsha : ∀ m, (SHA256 m).length = 32) (K m : Bytes) :
    HMAC_SHA256_Final SHA256 (HMAC_SHA256_Update (HMAC_SHA256_Init SHA256 K) m) = hmac SHA256 K m := by
  by_cases hlong : 64 < K.length
  · have hpad : ∀ c, hmacPad c (SHA256 K) 32 =
        (SHA256 K ++ List.replicate (64 - (SHA256 K).length) 0).map (c ^^^ ·) := by
      intro c
      rw [← hmacPad_eq c (by rw [hsha]; decide), hsha]
    simp only [HMAC_SHA256_Final, HMAC_SHA256_Update, HMAC_SHA256_Init, hmac, if_pos hlong, hpad]
  · have hpad : ∀ c, hmacPad c K K.length = (K ++ List.replicate (64 - K.length) 0).map (c ^^^ ·) :=
      fun c => hmacPad_eq c (by omega)
    simp only [HMAC_SHA256_Final, HMAC_SHA256_Update, HMAC_SHA256_Init, hmac, if_neg hlong, hpad]

theorem update_update (ctx : HMAC_SHA256_CTX) (a b : Bytes) :
    HMAC_SHA256_Update (HMAC_SHA256_Update ctx a) b = HMAC_SHA256_Update ctx (a ++ b) := by
  simp only [HMAC_SHA256_Update, List.append_assoc]

theorem length_keyIterate (hsha : ∀ m, (SHA256 m).length = 32) (passwd salt : Bytes) (i j : Nat) :
    (keyIterate SHA256 passwd salt i j).length = 32 := by
  cases j <;> exact hsha _

theorem be32enc_eq {i : Nat} (hi : i < 2 ^ 32) : be32enc (BitVec.ofNat 32 i) = blockNumber i := by
  have hbyte : ∀ s, byteOf (BitVec.ofNat 32 i >>> s) = UInt8.ofNat (i / 2 ^ s) := by
    intro s
    apply UInt8.toNat.inj
    have hi : i % 4294967296 = i := Nat.mod_eq_of_lt hi
    simp [byteOf, hi, Nat.shiftRight_eq_div_pow]
  have hlow : byteOf (BitVec.ofNat 32 i) = UInt8.ofNat i := by
    have := hbyte 0
    simpa using this
  simp only [be32enc, hbyte, hlow, blockNumber]

/-- The inner loop keeps the last iterate and the combination of all so far. -/
theorem pbkdf2Round_iterate (hsha : ∀ m, (SHA256 m).length = 32) (passwd salt : Bytes) (i n : Nat) :
    (pbkdf2Round SHA256 passwd)^[n] (keyIterate SHA256 passwd salt i 0, keyIterate SHA256 passwd salt i 0) =
      (keyIterate SHA256 passwd salt i n,
        (List.range n).foldl (fun T j => List.zipWith (· ^^^ ·) T (keyIterate SHA256 passwd salt i (j + 1)))
          (keyIterate SHA256 passwd salt i 0)) := by
  induction n with
  | zero => rfl
  | succ n ih =>
    rw [Function.iterate_succ_apply', ih, List.range_succ, List.foldl_append]
    simp only [pbkdf2Round, hmac_final_eq hsha, List.foldl_cons, List.foldl_nil]
    rfl

/-- The context after the password and the salt serves for every block. -/
theorem pbkdf2Block_eq (hsha : ∀ m, (SHA256 m).length = 32) (passwd salt : Bytes) (c : Nat) {i : Nat}
    (hi : i + 1 < 2 ^ 32) :
    pbkdf2Block SHA256 passwd (HMAC_SHA256_Update (HMAC_SHA256_Init SHA256 passwd) salt) c i =
      keyBlock SHA256 passwd salt c (i + 1) := by
  have hfirst : HMAC_SHA256_Final SHA256 (HMAC_SHA256_Update
      (HMAC_SHA256_Update (HMAC_SHA256_Init SHA256 passwd) salt) (be32enc (BitVec.ofNat 32 (i + 1)))) =
      keyIterate SHA256 passwd salt (i + 1) 0 := by
    rw [update_update, hmac_final_eq hsha, be32enc_eq hi]
    rfl
  simp only [pbkdf2Block, hfirst, pbkdf2Round_iterate hsha]
  rfl

theorem length_keyBlock (hsha : ∀ m, (SHA256 m).length = 32) (passwd salt : Bytes) (c i : Nat) :
    (keyBlock SHA256 passwd salt c i).length = 32 := by
  rw [keyBlock]
  induction c - 1 with
  | zero => exact length_keyIterate hsha passwd salt i 0
  | succ n ih =>
    rw [List.range_succ, List.foldl_append, List.foldl_cons, List.foldl_nil, List.length_zipWith, ih,
      length_keyIterate hsha]
    rfl

theorem length_blocks {T : Nat → Bytes} (hT : ∀ i, (T i).length = 32) (n : Nat) :
    ((List.range n).flatMap T).length = n * 32 := by
  rw [List.length_flatMap]
  simp [hT]

/-- Blocks of one width, each cut off where the whole is, are the whole cut off. -/
theorem foldl_blocks {T : Nat → Bytes} (hT : ∀ i, (T i).length = 32) (dkLen n : Nat) :
    (List.range n).foldl (fun buf i => buf ++ (T i).take (if 32 < dkLen - i * 32 then 32 else dkLen - i * 32)) [] =
      ((List.range n).flatMap T).take dkLen := by
  induction n with
  | zero => simp
  | succ n ih =>
    have hcut : (T n).take (if 32 < dkLen - n * 32 then 32 else dkLen - n * 32) = (T n).take (dkLen - n * 32) := by
      split
      · rw [List.take_of_length_le (by rw [hT]), List.take_of_length_le (by rw [hT]; omega)]
      · rfl
    rw [List.range_succ, List.foldl_append, ih, List.flatMap_append, List.take_append, length_blocks hT]
    simp only [List.foldl_cons, List.foldl_nil, List.flatMap_cons, List.flatMap_nil, List.append_nil, hcut]

/-- **The key that is derived is the one of the standard**, as long as the number of a block fits in its four bytes. -/
theorem pbkdf2_sha256_eq (hsha : ∀ m, (SHA256 m).length = 32) (passwd salt : Bytes) (c : Nat) {dkLen : Nat}
    (hlen : dkLen ≤ 32 * (2 ^ 32 - 1)) :
    PBKDF2_SHA256 SHA256 passwd salt c dkLen = derivedKey SHA256 passwd salt c dkLen := by
  rw [derivedKey, ← foldl_blocks (fun i => length_keyBlock hsha passwd salt c (i + 1)), PBKDF2_SHA256]
  apply List.foldl_ext
  intro buf i hi
  have hi : i < (dkLen + 31) / 32 := List.mem_range.mp hi
  rw [pbkdf2Block_eq hsha passwd salt c (by omega)]

theorem length_derivedKey (hsha : ∀ m, (SHA256 m).length = 32) (passwd salt : Bytes) (c dkLen : Nat) :
    (derivedKey SHA256 passwd salt c dkLen).length = dkLen := by
  have hblocks := length_blocks (fun i => length_keyBlock hsha passwd salt c (i + 1)) ((dkLen + 31) / 32)
  rw [derivedKey, List.length_take, hblocks]
  omega

end Hash

/-! ## The hash function -/

section Sha256

/-- The fractions of the cube roots of the first 64 primes. -/
def roundConstants : List Word :=
  [0x428a2f98, 0x71374491, 0xb5c0fbcf, 0xe9b5dba5, 0x3956c25b, 0x59f111f1, 0x923f82a4, 0xab1c5ed5,
    0xd807aa98, 0x12835b01, 0x243185be, 0x550c7dc3, 0x72be5d74, 0x80deb1fe, 0x9bdc06a7, 0xc19bf174,
    0xe49b69c1, 0xefbe4786, 0x0fc19dc6, 0x240ca1cc, 0x2de92c6f, 0x4a7484aa, 0x5cb0a9dc, 0x76f988da,
    0x983e5152, 0xa831c66d, 0xb00327c8, 0xbf597fc7, 0xc6e00bf3, 0xd5a79147, 0x06ca6351, 0x14292967,
    0x27b70a85, 0x2e1b2138, 0x4d2c6dfc, 0x53380d13, 0x650a7354, 0x766a0abb, 0x81c2c92e, 0x92722c85,
    0xa2bfe8a1, 0xa81a664b, 0xc24b8b70, 0xc76c51a3, 0xd192e819, 0xd6990624, 0xf40e3585, 0x106aa070,
    0x19a4c116, 0x1e376c08, 0x2748774c, 0x34b0bcb5, 0x391c0cb3, 0x4ed8aa4a, 0x5b9cca4f, 0x682e6ff3,
    0x748f82ee, 0x78a5636f, 0x84c87814, 0x8cc70208, 0x90befffa, 0xa4506ceb, 0xbef9a3f7, 0xc67178f2]

def rotr (x : Word) (n : Nat) : Word := (x >>> n) ||| (x <<< (32 - n))

/-- The next word of the schedule. -/
def expand (w : Array Word) : Array Word :=
  let i := w.size
  let a := w.getD (i - 15) 0
  let b := w.getD (i - 2) 0
  let s0 := rotr a 7 ^^^ rotr a 18 ^^^ (a >>> 3)
  let s1 := rotr b 17 ^^^ rotr b 19 ^^^ (b >>> 10)
  w.push (w.getD (i - 16) 0 + s0 + w.getD (i - 7) 0 + s1)

/-- The chaining value: `a` to `h`. -/
structure Chaining where
  a : Word
  b : Word
  c : Word
  d : Word
  e : Word
  f : Word
  g : Word
  h : Word
deriving DecidableEq, Repr

def shaRound (v : Chaining) (kw : Word × Word) : Chaining :=
  let s1 := rotr v.e 6 ^^^ rotr v.e 11 ^^^ rotr v.e 25
  let ch := (v.e &&& v.f) ^^^ (~~~v.e &&& v.g)
  let t1 := v.h + s1 + ch + kw.1 + kw.2
  let s0 := rotr v.a 2 ^^^ rotr v.a 13 ^^^ rotr v.a 22
  let maj := (v.a &&& v.b) ^^^ (v.a &&& v.c) ^^^ (v.b &&& v.c)
  ⟨t1 + (s0 + maj), v.a, v.b, v.c, v.d + t1, v.e, v.f, v.g⟩

def shaBlock (v : Chaining) (block : Bytes) : Chaining :=
  let first := (List.range 16).map fun i => le32dec (((block.drop (4 * i)).take 4).reverse)
  let w := expand^[48] first.toArray
  let u := (roundConstants.zip w.toList).foldl shaRound v
  ⟨v.a + u.a, v.b + u.b, v.c + u.c, v.d + u.d, v.e + u.e, v.f + u.f, v.g + u.g, v.h + u.h⟩

/-- The message with a one, zeros, and its length in bits. -/
def shaPadded (m : Bytes) : Bytes :=
  let zeros := (119 - m.length % 64) % 64
  m ++ [0x80] ++ List.replicate zeros 0 ++ (List.range 8).map fun i => UInt8.ofNat (8 * m.length / 256 ^ (7 - i))

/-- SHA-256, as the hash of the two functions is. -/
def sha256 (m : Bytes) : Bytes :=
  let padded := shaPadded m
  let start : Chaining :=
    ⟨0x6a09e667, 0xbb67ae85, 0x3c6ef372, 0xa54ff53a, 0x510e527f, 0x9b05688c, 0x1f83d9ab, 0x5be0cd19⟩
  let v := (List.range (padded.length / 64)).foldl (fun v i => shaBlock v (padded.drop (64 * i))) start
  [v.a, v.b, v.c, v.d, v.e, v.f, v.g, v.h].flatMap be32enc

theorem length_sha256 (m : Bytes) : (sha256 m).length = 32 := rfl

/-- Two blocks, the second one cut off, and a salt of three bytes. -/
theorem pbkdf2_sha256_eq_two_blocks :
    PBKDF2_SHA256 sha256 [1, 2] [3, 4, 5] 2 40 = derivedKey sha256 [1, 2] [3, 4, 5] 2 40 :=
  pbkdf2_sha256_eq length_sha256 _ _ _ (by decide)

end Sha256

section Hash

variable {SHA256 : Bytes → Bytes}

/-! ## One hash -/

/-- **Both functions compute the same hash.** -/
theorem scrypt_sse2_eq_generic (hsha : ∀ m, (SHA256 m).length = 32) (input : Bytes) :
    scrypt_1024_1_1_256_sp_sse2 SHA256 input = scrypt_1024_1_1_256_sp_generic SHA256 input := by
  have hB : (PBKDF2_SHA256 SHA256 (input.take 80) (input.take 80) 1 128).length = 128 := by
    rw [pbkdf2_sha256_eq hsha _ _ _ (by decide), length_derivedKey hsha]
  have hmix : ∀ n (X : Halves Block), mixLoops xor_salsa8_sse2 (Lanes.zip _mm_xor_si128) Lanes.word n (X.map layout) =
      (mixLoops xor_salsa8 (Block.zip (· ^^^ ·)) Block.word n X).map layout :=
    mixLoops_map xor_salsa8_sse2_layout (layout_zip fun _ _ => rfl) fun _ => rfl
  rw [scrypt_1024_1_1_256_sp_sse2, scrypt_1024_1_1_256_sp_generic, ← storeSse2_eq _ hB, ← hmix]
  simp only [Halves.map, layout_ofWords, sse2Place, Nat.zero_mul, Nat.zero_add, Nat.one_mul, Nat.mul_comm _ 4]

/-- **The hash of a header does not depend on the build or the processor.** -/
theorem scrypt_1024_1_1_256_eq (hsha : ∀ m, (SHA256 m).length = 32) (build : Build) (detected : Detected)
    (input : Bytes) :
    scrypt_1024_1_1_256 SHA256 build detected input = scrypt_1024_1_1_256_sp_generic SHA256 input := by
  have hsse2 := scrypt_sse2_eq_generic hsha input
  obtain ⟨useSse2, always⟩ := build
  cases useSse2 with
  | false => rfl
  | true =>
    cases always with
    | true => exact hsse2
    | false =>
      cases detected with
      | generic => rfl
      | sse2 => exact hsse2

theorem scrypt_1024_1_1_256_eq_zeros :
    scrypt_1024_1_1_256 sha256 ⟨true, false⟩ (scrypt_detect_sse2 0x0fabfbff) (List.replicate 80 0) =
      scrypt_1024_1_1_256_sp_generic sha256 (List.replicate 80 0) :=
  scrypt_1024_1_1_256_eq length_sha256 _ _ _

end Hash

end Scrypt

end Syscoin

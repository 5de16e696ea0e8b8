import Syscoin.Primitives.Serialize

/-!
# `Network.Bloom` — the filter of a peer

A peer loads a Bloom filter and adds to it, and is sent the transactions that match it. A match in an output can add the
output to the filter. `IsFull` and `IsEmpty` are shortcuts around the bit array.

`Hash` divides by the number of bits. What comes to a division by zero is `none`. `inserted` is not part of a filter: it
remembers what was inserted since the filter was made.
-/

namespace Syscoin

def MAX_BLOOM_FILTER_SIZE : Nat := 36000
def MAX_HASH_FUNCS : Nat := 50
def BLOOM_UPDATE_ALL : UInt8 := 1
def BLOOM_UPDATE_P2PUBKEY_ONLY : UInt8 := 2
def BLOOM_UPDATE_MASK : UInt8 := 3

/-! ## `MurmurHash3` -/

def rotl32 (x r : UInt32) : UInt32 := (x <<< r) ||| (x >>> (32 - r))

def murmurMix (k1 : UInt32) : UInt32 := rotl32 (k1 * 0xcc9e2d51) 15 * 0x1b873593

/-- The blocks of four bytes, and the bytes that are left. -/
def murmurBody (h1 : UInt32) : Bytes → UInt32 × Bytes
  | b0 :: b1 :: b2 :: b3 :: rest =>
    let k1 := murmurMix (UInt32.ofNat (fromLE [b0, b1, b2, b3]))
    murmurBody (rotl32 (h1 ^^^ k1) 13 * 5 + 0xe6546b64) rest
  | tail => (h1, tail)

def murmurHash3 (nHashSeed : UInt32) (vDataToHash : Bytes) : UInt32 :=
  let (h1, tail) := murmurBody nHashSeed vDataToHash
  let h1 := if tail = [] then h1 else h1 ^^^ murmurMix (UInt32.ofNat (fromLE tail))
  let h1 := h1 ^^^ UInt32.ofNat vDataToHash.length
  let h1 := (h1 ^^^ (h1 >>> 16)) * 0x85ebca6b
  let h1 := (h1 ^^^ (h1 >>> 13)) * 0xc2b2ae35
  h1 ^^^ (h1 >>> 16)

/-! ## The filter -/

def bitMask (n : Nat) : UInt8 := [0x01, 0x02, 0x04, 0x08, 0x10, 0x20, 0x40, 0x80].getD n 0

def setBit (vData : Bytes) (nIndex : Nat) : Bytes := vData.modify (nIndex / 8) (· ||| bitMask (nIndex % 8))

def testBit (vData : Bytes) (nIndex : Nat) : Bool := vData.getD (nIndex / 8) 0 &&& bitMask (nIndex % 8) ≠ 0

structure CBloomFilter where
  vData : Bytes
  isFull : Bool
  isEmpty : Bool
  nHashFuncs : Nat
  nTweak : UInt32
  nFlags : UInt8
  inserted : List Bytes
deriving DecidableEq, Repr

/-- The instructions of a script up to the first one that cannot be read: the operands that `GetOp` returns. -/
def scriptData : Nat → CScript → List Bytes
  | 0, _ => []
  | fuel + 1, pc =>
    match getOp pc with
    | none => []
    | some (_, data, pc) => data :: scriptData fuel pc

def CScript.data (script : CScript) : List Bytes := scriptData script.length script

namespace CBloomFilter

/-- The constructor without arguments, which leaves everything but `isFull` as it happens to be. -/
def new (isEmpty : Bool) (nHashFuncs : Nat) (nTweak : UInt32) (nFlags : UInt8) : CBloomFilter :=
  ⟨[], true, isEmpty, nHashFuncs, nTweak, nFlags, []⟩

variable (f : CBloomFilter)

def hash (vData : Bytes) (nHashNum : Nat) (vDataToHash : Bytes) : Option Nat :=
  if vData.length * 8 = 0 then none
  else some ((murmurHash3 (UInt32.ofNat nHashNum * 0xfba4c795 + f.nTweak) vDataToHash).toNat % (vData.length * 8))

/-- **`insert`.** -/
def insert (vKey : Bytes) : Option CBloomFilter :=
  if f.isFull then some { f with inserted := vKey :: f.inserted }
  else do
    let vData ← (List.range f.nHashFuncs).foldlM (fun vData i => do
      let nIndex ← f.hash vData i vKey
      some (setBit vData nIndex)) f.vData
    some { f with vData := vData, isEmpty := false, inserted := vKey :: f.inserted }

/-- **`contains`.** -/
def contains (vKey : Bytes) : Option Bool :=
  if f.isFull then some true
  else if f.isEmpty then some false
  else (List.range f.nHashFuncs).allM fun i => do
    let nIndex ← f.hash f.vData i vKey
    some (testBit f.vData nIndex)

def isWithinSizeConstraints : Prop := f.vData.length ≤ MAX_BLOOM_FILTER_SIZE ∧ f.nHashFuncs ≤ MAX_HASH_FUNCS

instance : Decidable f.isWithinSizeConstraints := inferInstanceAs (Decidable (_ ∧ _))

/-- **`UpdateEmptyFull`.** -/
def updateEmptyFull : CBloomFilter := { f with isFull := f.vData.all (· = 0xff), isEmpty := f.vData.all (· = 0) }

/-- The filter matches an operand of a script. Operands without bytes are passed over. -/
def matchesScript (script : CScript) : Option Bool :=
  script.data.anyM fun data => if data.length ≠ 0 then f.contains data else some false

/-- An output matched. `solver` says whether the script is a bare key or a bare multisignature. -/
def updateWith (solver : CScript → Bool) (hash : Uint256) (txout : CTxOut) (i : Nat) : Option CBloomFilter :=
  if f.nFlags &&& BLOOM_UPDATE_MASK = BLOOM_UPDATE_ALL then f.insert (COutPoint.serialize ⟨hash, i⟩)
  else if f.nFlags &&& BLOOM_UPDATE_MASK = BLOOM_UPDATE_P2PUBKEY_ONLY then
    if solver txout.scriptPubKey then f.insert (COutPoint.serialize ⟨hash, i⟩) else some f
  else some f

/-- The loop over the outputs, from output `i` on. -/
def matchOutputs (solver : CScript → Bool) (hash : Uint256) : Nat → List CTxOut → Bool → CBloomFilter →
    Option (Bool × CBloomFilter)
  | _, [], fFound, f => some (fFound, f)
  | i, txout :: vout, fFound, f => do
    if ← f.matchesScript txout.scriptPubKey then
      let f ← f.updateWith solver hash txout i
      matchOutputs solver hash (i + 1) vout true f
    else matchOutputs solver hash (i + 1) vout fFound f

/-- The body of the loop over the inputs. -/
def matchesInput (txin : CTxIn) : Option Bool := do
  if ← f.contains txin.prevout.serialize then some true else f.matchesScript txin.scriptSig

/-- **`IsRelevantAndUpdate`.** -/
def isRelevantAndUpdate (solver : CScript → Bool) (tx : CTransaction) (hash : Uint256) :
    Option (Bool × CBloomFilter) :=
  if f.isFull then some (true, f)
  else if f.isEmpty then some (false, f)
  else do
    let fFound ← f.contains (toLE 32 hash)
    let (fFound, f) ← matchOutputs solver hash 0 tx.vout fFound f
    if fFound then some (true, f)
    else do
      let fFound ← tx.vin.anyM f.matchesInput
      some (fFound, f)

end CBloomFilter

/-! ## The messages of a peer -/

/-- What happens to a peer's filter: its messages, and the transactions that are held against it. -/
inductive FilterOp where
  | filterload (vData : Bytes) (nHashFuncs : Nat) (nTweak : UInt32) (nFlags : UInt8)
  | filteradd (vData : Bytes)
  | filterclear (isEmpty : Bool) (nHashFuncs : Nat) (nTweak : UInt32) (nFlags : UInt8)
  | isRelevantAndUpdate (tx : CTransaction) (hash : Uint256)

namespace CBloomFilter

variable (solver : CScript → Bool)

/-- The filter afterwards. A filter that is too large, or an element, leaves the old one in place. -/
def apply (f : CBloomFilter) : FilterOp → Option CBloomFilter
  | .filterload vData nHashFuncs nTweak nFlags =>
    let filter : CBloomFilter := ⟨vData, true, true, nHashFuncs, nTweak, nFlags, []⟩
    if filter.isWithinSizeConstraints then some filter.updateEmptyFull else some f
  | .filteradd vData => if MAX_SCRIPT_ELEMENT_SIZE < vData.length then some f else f.insert vData
  | .filterclear isEmpty nHashFuncs nTweak nFlags => some (.new isEmpty nHashFuncs nTweak nFlags)
  | .isRelevantAndUpdate tx hash => (f.isRelevantAndUpdate solver tx hash).map (·.2)

/-- The filters of a peer. A connection starts with a new one. -/
inductive Reached : CBloomFilter → Prop where
  | new (isEmpty : Bool) (nHashFuncs : Nat) (nTweak : UInt32) (nFlags : UInt8) :
      Reached (.new isEmpty nHashFuncs nTweak nFlags)
  | step {f f' : CBloomFilter} {op : FilterOp} (prev : Reached f) (h : f.apply solver op = some f') : Reached f'

end CBloomFilter

end Syscoin

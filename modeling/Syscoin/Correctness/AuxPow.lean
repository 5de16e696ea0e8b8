import Syscoin.Chain.Run
import Syscoin.Network.AuxPow
import Syscoin.Correctness.Faults
import Syscoin.Network.BlockFormat

/-!
# `Correctness.AuxPow` — a parent's work counts once

Everything that `Check` compares the block with is a function of the coinbase script and the chain: where the root is,
how deep the tree is and which slot this chain has (`checkCoinbase_ok`). Two blocks that go with the same script therefore
lead to the same root along branches of the same length at the same index, and are the same block.
-/

namespace Syscoin

open Lib

/-- What `search` finds is there. -/
theorem search_occurs {pattern bs : Bytes} (h : search pattern bs ≠ bs.length) :
    pattern <+: bs.drop (search pattern bs) := by
  induction bs with
  | nil => exact absurd rfl h
  | cons b bs ih =>
    unfold search at h ⊢
    split
    · rename_i hhere
      exact hhere
    · rename_i hhere
      rw [if_neg hhere, List.length_cons, Nat.add_comm 1] at h
      rw [Nat.add_comm 1, List.drop_succ_cons]
      exact ih fun heq => h (by rw [heq])

section Check

variable {env : Env} {getAuxHash : CTransaction → Uint256} {hashAuxBlock : Uint256} {nChainID : Int} {a : CAuxPow}
  {script : CScript}

/-- Where the root has to be: right behind the header. -/
def rootPos (script : CScript) : Nat := search pchMergedMiningHeader script + pchMergedMiningHeader.length

/-- **What the script says**: the root, the depth of the tree and the slot. -/
theorem checkCoinbase_ok (h : a.checkCoinbase env hashAuxBlock nChainID script = .ok ()) :
    a.vchRootHash env hashAuxBlock = (script.drop (rootPos script)).take 32 ∧
      (2 : Int) ^ a.vChainMerkleBranch.length = readInt (script.drop (rootPos script + 32)) ∧
      a.nChainIndex = chainSlot (readInt (script.drop (rootPos script + 32 + 4))) nChainID %
        UInt32.ofInt (readInt (script.drop (rootPos script + 32))) := by
  have hlen : (a.vchRootHash env hashAuxBlock).length = 32 := by
    rw [CAuxPow.vchRootHash, List.length_reverse, length_toLE]
  unfold CAuxPow.checkCoinbase at h
  dsimp only at h
  obtain ⟨hhead, h⟩ := require_bind_ok_iff.mp h
  obtain ⟨hroot, h⟩ := require_bind_ok_iff.mp h
  rw [if_pos hhead] at h
  obtain ⟨-, h⟩ := require_bind_ok_iff.mp h
  obtain ⟨hadjacent, h⟩ := require_bind_ok_iff.mp h
  obtain ⟨-, h⟩ := require_bind_ok_iff.mp h
  obtain ⟨hsize, h⟩ := require_bind_ok_iff.mp h
  have hslot := require_ok_iff.mp h
  have hpos : rootPos script = search (a.vchRootHash env hashAuxBlock) script := hadjacent
  rw [hlen] at hsize hslot
  rw [hpos]
  refine ⟨?_, hsize.symm, hslot⟩
  have hoccurs := List.prefix_iff_eq_take.mp (search_occurs hroot)
  rwa [hlen] at hoccurs

theorem check_ok (h : a.check env getAuxHash hashAuxBlock nChainID = .ok ()) :
    a.vChainMerkleBranch.length ≤ 30 ∧
      ∃ txin ∈ a.tx.vin.head?, a.checkCoinbase env hashAuxBlock nChainID txin.scriptSig = .ok () := by
  unfold CAuxPow.check at h
  obtain ⟨-, h⟩ := require_bind_ok_iff.mp h
  obtain ⟨-, h⟩ := require_bind_ok_iff.mp h
  obtain ⟨hlen, h⟩ := require_bind_ok_iff.mp h
  obtain ⟨-, h⟩ := require_bind_ok_iff.mp h
  refine ⟨hlen, ?_⟩
  cases hvin : a.tx.vin with
  | nil =>
    rw [hvin] at h
    cases h
  | cons txin vin =>
    rw [hvin] at h
    exact ⟨txin, rfl, h⟩

/-- The pairs that are hashed between the block and the root. -/
def CAuxPow.hashed (env : Env) (hashAuxBlock : Uint256) (a : CAuxPow) : List (Uint256 × Uint256) :=
  branchPairs env.hashPair hashAuxBlock a.vChainMerkleBranch ((a.nChainIndex.toNat : Int).bmod (2 ^ 32))

end Check

theorem branchRoot_lt {H : Nat → Nat → Nat} {bound hash : Nat} (hH : ∀ x y, H x y < bound) (hhash : hash < bound)
    (branch : List Nat) (nIndex : Int) : branchRoot H hash branch nIndex < bound := by
  induction branch generalizing hash nIndex with
  | nil => exact hhash
  | cons otherside branch ih => exact ih (hH _ _) _

/-- The size of a tree that is not too deep fits. -/
theorem toNat_ofInt_two_pow {depth : Nat} (hdepth : depth ≤ 30) :
    (UInt32.ofInt ((2 : Int) ^ depth)).toNat = 2 ^ depth := by
  have hpos : 0 < (2 : Nat) ^ depth := Nat.pow_pos (by decide)
  have hcast : (2 : Int) ^ depth = ((2 ^ depth : Nat) : Int) := by push_cast; rfl
  have hsmall : (2 : Nat) ^ depth < 2 ^ 32 :=
    lt_of_le_of_lt (Nat.pow_le_pow_right (by decide) hdepth) (by decide)
  have hmod : ((2 : Int) ^ depth % 2 ^ 32).toNat = 2 ^ depth := by omega
  rw [UInt32.ofInt, hmod]
  exact UInt32.toNat_ofNat_of_lt' hsmall

/-- A slot of a tree that is not too deep is an index. -/
theorem slot_lt {slot : UInt32} {depth : Nat} (hdepth : depth ≤ 30) :
    (slot % UInt32.ofInt ((2 : Int) ^ depth)).toNat < 2 ^ 30 := by
  have hpow : (2 : Nat) ^ depth ≤ 2 ^ 30 := Nat.pow_le_pow_right (by decide) hdepth
  have hpos : 0 < (2 : Nat) ^ depth := Nat.pow_pos (by decide)
  rw [UInt32.toNat_mod, toNat_ofInt_two_pow hdepth]
  exact lt_of_lt_of_le (Nat.mod_lt _ hpos) hpow

/-- **One block for a parent's work.** Two blocks that are accepted with the same script in the parent's coinbase are the
    same, unless two different pairs on their ways to the root have the same hash. -/
theorem auxpow_backs_one_block {env : Env} {getAuxHash : CTransaction → Uint256}
    {hashAuxBlock₁ hashAuxBlock₂ : Uint256} {nChainID : Int} {a₁ a₂ : CAuxPow} {script : CScript}
    (hwidth : ∀ x y, env.hashPair x y < 2 ^ 256) (hblock₁ : hashAuxBlock₁ < 2 ^ 256) (hblock₂ : hashAuxBlock₂ < 2 ^ 256)
    (hinj : Set.InjOn (fun p : Uint256 × Uint256 => env.hashPair p.1 p.2)
      {p | p ∈ a₁.hashed env hashAuxBlock₁ ∨ p ∈ a₂.hashed env hashAuxBlock₂})
    (hscript₁ : a₁.tx.vin.head?.map (·.scriptSig) = some script)
    (hscript₂ : a₂.tx.vin.head?.map (·.scriptSig) = some script)
    (h₁ : a₁.check env getAuxHash hashAuxBlock₁ nChainID = .ok ())
    (h₂ : a₂.check env getAuxHash hashAuxBlock₂ nChainID = .ok ()) : hashAuxBlock₁ = hashAuxBlock₂ := by
  obtain ⟨hdepth₁, txin₁, hin₁, hcb₁⟩ := check_ok h₁
  obtain ⟨hdepth₂, txin₂, hin₂, hcb₂⟩ := check_ok h₂
  rw [Option.mem_def.mp hin₁, Option.map_some, Option.some.injEq] at hscript₁
  rw [Option.mem_def.mp hin₂, Option.map_some, Option.some.injEq] at hscript₂
  rw [hscript₁] at hcb₁
  rw [hscript₂] at hcb₂
  obtain ⟨hroot₁, hsize₁, hslot₁⟩ := checkCoinbase_ok hcb₁
  obtain ⟨hroot₂, hsize₂, hslot₂⟩ := checkCoinbase_ok hcb₂
  -- the script fixes the depth and the index
  have hlen : a₁.vChainMerkleBranch.length = a₂.vChainMerkleBranch.length := by
    have hpow : (2 : Int) ^ a₁.vChainMerkleBranch.length = 2 ^ a₂.vChainMerkleBranch.length := hsize₁.trans hsize₂.symm
    exact Nat.pow_right_injective (le_refl 2) (by exact_mod_cast hpow)
  have hindex : a₂.nChainIndex = a₁.nChainIndex := hslot₂.trans hslot₁.symm
  have hfits : (a₁.nChainIndex.toNat : Int).bmod (2 ^ 32) ≠ -1 := by
    have hlt : a₁.nChainIndex.toNat < 2 ^ 30 := by
      rw [hslot₁, ← hsize₁]
      exact slot_lt hdepth₁
    rw [Int.bmod_eq_of_le_mul_two (by omega) (by omega)]
    omega
  -- and the root
  have hroot : a₁.nRootHash env hashAuxBlock₁ = a₂.nRootHash env hashAuxBlock₂ := by
    have hbytes := List.reverse_inj.mp (hroot₁.trans hroot₂.symm)
    refine toLE_inj ?_ ?_ hbytes
    · rw [CAuxPow.nRootHash, checkMerkleBranch, if_neg hfits]
      exact branchRoot_lt hwidth hblock₁ _ _
    · rw [CAuxPow.nRootHash, checkMerkleBranch, hindex, if_neg hfits]
      exact branchRoot_lt hwidth hblock₂ _ _
  rw [CAuxPow.nRootHash, CAuxPow.nRootHash, checkMerkleBranch, checkMerkleBranch, hindex, if_neg hfits, if_neg hfits]
    at hroot
  rw [CAuxPow.hashed, CAuxPow.hashed, hindex] at hinj
  exact branchRoot_inj env.hashPair hlen hinj hroot

namespace Cakenet

/-- The slot of the chain in a tree of two. -/
def mergedIndex : UInt32 := chainSlot 7 1 % 2

/-- A coinbase script for block 1234 next to 99 in the tree of chains. -/
def mergedScript : CScript :=
  pchMergedMiningHeader ++ (toLE 32 (checkMerkleBranch env 1234 [99] mergedIndex.toNat)).reverse ++ toLE 4 2 ++ toLE 4 7

/-- A parent block, which is told from others by the lock time of its coinbase. -/
def mergedParent (nLockTime : Nat) : CAuxPow where
  tx := ⟨1, [⟨⟨0, 2 ^ 32 - 1⟩, mergedScript, 2 ^ 32 - 1⟩], [], nLockTime, []⟩
  vMerkleBranch := []
  nIndex := 0
  vChainMerkleBranch := [99]
  nChainIndex := mergedIndex
  parentBlockHeader := ⟨1, nLockTime⟩

theorem merged_parents_back_one_block :
    (mergedParent 5).check env env.getHash 1234 1 = .ok () ∧ (mergedParent 6).check env env.getHash 1234 1 = .ok () ∧
      (1234 : Uint256) = 1234 := by
  have hcheck₁ : (mergedParent 5).check env env.getHash 1234 1 = .ok () := by decide +kernel
  have hcheck₂ : (mergedParent 6).check env env.getHash 1234 1 = .ok () := by decide +kernel
  have hone : (mergedParent 6).hashed env 1234 = (mergedParent 5).hashed env 1234 := rfl
  have hscript : ∀ n, (mergedParent n).tx.vin.head?.map (·.scriptSig) = some mergedScript := fun _ => rfl
  refine ⟨hcheck₁, hcheck₂, auxpow_backs_one_block ?_ (by decide) (by decide) ?_ (hscript 5) (hscript 6) hcheck₁ hcheck₂⟩
  · intro x y
    exact Nat.mod_lt _ (by decide)
  · rw [hone]
    refine Set.Subsingleton.injOn ?_ _
    rintro p (hp | hp) q (hq | hq) <;> rw [List.mem_singleton.mp hp, List.mem_singleton.mp hq]

end Cakenet

end Syscoin

/-! ## Merged mining reads what is there

Every byte of a merged mining proof comes from a peer. In the coinbase each access stands behind a test that makes room
for it: what was searched for and found is there to its end, and the tree is no deeper than an `int` has bits. The access
to the first input stands behind nothing.
-/

namespace Syscoin

open Lib

section Check

variable {env : Env} {getAuxHash : CTransaction → Uint256} {hashAuxBlock : Uint256} {nChainID : Int} {a : CAuxPow}
  {script : CScript}

theorem search_le (pattern bs : Bytes) : search pattern bs ≤ bs.length := by
  induction bs with
  | nil => exact Nat.le_refl _
  | cons b bs ih =>
    unfold search
    rw [List.length_cons]
    split
    · omega
    · omega

/-- What was found has room. -/
theorem search_add_length_le {pattern bs : Bytes} (h : search pattern bs ≠ bs.length) :
    search pattern bs + pattern.length ≤ bs.length := by
  have hlen := (search_occurs h).length_le
  have hle := search_le pattern bs
  rw [List.length_drop] at hlen
  omega

theorem readInt_take (vch : Bytes) : readInt (vch.take 4) = readInt vch := by
  unfold readInt
  rw [List.take_take, Nat.min_self]

theorem ofInt_two_pow_ne_zero {depth : Nat} (hdepth : depth ≤ 30) : UInt32.ofInt ((2 : Int) ^ depth) ≠ 0 := by
  intro hzero
  have hsize := toNat_ofInt_two_pow hdepth
  rw [hzero] at hsize
  exact absurd hsize.symm (Nat.pow_pos (by decide)).ne'

/-- With a tree of bounded depth every access to the coinbase is in bounds. -/
theorem checkCoinbaseAccesses_eq (hdepth : a.vChainMerkleBranch.length ≤ 30) :
    a.checkCoinbaseAccesses env hashAuxBlock nChainID script = a.checkCoinbase env hashAuxBlock nChainID script := by
  unfold CAuxPow.checkCoinbaseAccesses CAuxPow.checkCoinbase
  dsimp only
  refine require_bind_congr Iff.rfl fun hhead => require_bind_congr Iff.rfl fun hroot => ?_
  -- both searches succeeded, so that their patterns lie inside the script
  have hheadEnd := search_add_length_le hhead
  have hrootEnd := search_add_length_le hroot
  have hfour : pchMergedMiningHeader.length = 4 := rfl
  rw [if_pos hhead, if_pos hhead, Access.advance_eq (by omega), ok_bind]
  refine require_bind_congr Iff.rfl fun _ => ?_
  rw [Access.advance_eq hheadEnd, ok_bind]
  refine require_bind_congr Iff.rfl fun _ => ?_
  rw [Access.advance_eq hrootEnd, ok_bind]
  generalize search (a.vchRootHash env hashAuxBlock) script + (a.vchRootHash env hashAuxBlock).length = pc at hrootEnd ⊢
  refine require_bind_congr (by omega) fun hsize => ?_
  rw [Access.copy_eq (by omega), ok_bind, Access.shiftOne_eq (by omega), ok_bind, readInt_take]
  refine require_bind_congr Iff.rfl fun hleaves => ?_
  have hne : UInt32.ofInt (readInt (script.drop pc)) ≠ 0 := by
    rw [hleaves]
    exact ofInt_two_pow_ne_zero hdepth
  rw [Access.copy_eq (by omega), ok_bind, readInt_take, Access.modulo_eq hne, ok_bind]

/-- The first input is asked for where a match on the inputs would be. -/
theorem checkAccesses_eq :
    a.checkAccesses env getAuxHash hashAuxBlock nChainID = a.check env getAuxHash hashAuxBlock nChainID := by
  unfold CAuxPow.checkAccesses CAuxPow.check
  refine require_bind_congr Iff.rfl fun _ => require_bind_congr Iff.rfl fun _ => ?_
  refine require_bind_congr Iff.rfl fun hdepth => require_bind_congr Iff.rfl fun _ => ?_
  cases a.tx.vin with
  | nil => rfl
  | cons txin vin => exact checkCoinbaseAccesses_eq hdepth

/-- The tests on the coinbase end in a plain `false`. -/
theorem checkCoinbase_silent : Except.Throws Silent (a.checkCoinbase env hashAuxBlock nChainID script) := by
  unfold CAuxPow.checkCoinbase
  dsimp only
  refine silent_guard (silent_guard ?_)
  have htail : ∀ pc, Except.Throws Silent (do
      require (pc + 8 ≤ script.length) (error "Aux POW missing chain merkle tree size and nonce in parent coinbase")
      require (readInt (script.drop pc) = 2 ^ a.vChainMerkleBranch.length)
        (error "Aux POW merkle branch size does not match parent coinbase")
      require (a.nChainIndex = chainSlot (readInt (script.drop (pc + 4))) nChainID %
        UInt32.ofInt (readInt (script.drop pc))) (error "Aux POW wrong index")) := by
    intro pc
    exact silent_guard (silent_guard silent_require)
  split
  · exact silent_guard (silent_guard (htail _))
  · exact silent_guard (htail _)

/-- The tests that come before the first input is read. -/
def CAuxPow.Linked (env : Env) (getAuxHash : CTransaction → Uint256) (nChainID : Int) (a : CAuxPow) : Prop :=
  a.nIndex = 0 ∧ ¬ (env.fTestNet = false ∧ env.fCakeNet = false ∧ a.parentBlockHeader.getChainID = nChainID) ∧
    a.vChainMerkleBranch.length ≤ 30 ∧
    checkMerkleBranch env (getAuxHash a.tx) a.vMerkleBranch a.nIndex = a.parentBlockHeader.hashMerkleRoot

/-- **Where `Check` stays in bounds.** It ends with true or false exactly where the coinbase has an input or a test
    before it fails. -/
theorem auxpow_check_bounded_iff :
    Except.Throws Silent (a.checkAccesses env getAuxHash hashAuxBlock nChainID) ↔
      (a.Linked env getAuxHash nChainID → a.tx.vin ≠ []) := by
  rw [checkAccesses_eq]
  constructor
  · rintro h ⟨hindex, hchain, hdepth, hroot⟩ hvin
    have hcrash : a.check env getAuxHash hashAuxBlock nChainID = .error (crash "vin[0]") := by
      unfold CAuxPow.check
      rw [require_bind_of hindex, require_bind_of hchain, require_bind_of hdepth, require_bind_of hroot, hvin]
    exact loud_crash _ (h _ hcrash)
  · intro h
    unfold CAuxPow.check
    refine .guard (silent_error _) fun hindex => .guard (silent_error _) fun hchain => ?_
    refine .guard (silent_error _) fun hdepth => .guard (silent_error _) fun hroot => ?_
    cases hvin : a.tx.vin with
    | nil => exact absurd hvin (h ⟨hindex, hchain, hdepth, hroot⟩)
    | cons txin vin => exact checkCoinbase_silent

end Check

/-- What `Check` looks at of a proof that came off the wire. -/
def CAuxPow.ofWire (auxpow : Wire.AuxPowFields) (parentBlockHeader : Wire.CBlockHeader) : CAuxPow where
  tx := auxpow.tx
  vMerkleBranch := auxpow.vMerkleBranch
  nIndex := auxpow.nIndex
  vChainMerkleBranch := auxpow.vChainMerkleBranch
  nChainIndex := UInt32.ofNat auxpow.nChainIndex
  parentBlockHeader := ⟨parentBlockHeader.fields.nVersion, parentBlockHeader.fields.hashMerkleRoot⟩

namespace Cakenet

/-- A coinbase without inputs, as the only transaction of its block. -/
def bareAuxpow : Wire.AuxPowFields where
  tx := ⟨1, [], [], 5, []⟩
  hashBlock := 0
  vMerkleBranch := []
  nIndex := 0
  vChainMerkleBranch := []
  nChainIndex := 0

def bareParent : Wire.HeaderFields := ⟨1, 0, 5, 1400000000, 0, 0⟩

/-- The bytes of such a proof are read, and checking it reads an input that is not there. -/
theorem bare_coinbase_faults :
    Wire.AuxPowFields.unserialize SER_NETWORK (bareAuxpow.serialize SER_NETWORK) = some (bareAuxpow, []) ∧
      Wire.CBlockHeader.unserialize SER_NETWORK 1 bareParent.serialize = some (.plain bareParent, []) ∧
      (CAuxPow.ofWire bareAuxpow (.plain bareParent)).checkAccesses env env.getHash 1234 1 =
        .error (crash "vin[0]") :=
  ⟨by decide +kernel, by decide +kernel, by decide +kernel⟩

end Cakenet

end Syscoin

import Mathlib.Algebra.Order.Ring.Nat
import Syscoin.Primitives.Tx

/-!
# `Chain.Index` — block index entries

A `CBlockIndex` stands for a block in its place in the tree: the block and the blocks below it, parent first.
Two entries are equal iff they are the same block on the same ancestry, which is what comparing the pointers
of `mapBlockIndex` decides. Height and parent are read off the ancestry.

`relativeDepth` is the walk that `CheckTransactionAtRelativeDepth` and its two copies make along `pprev`;
`relativeDepth_eq_some_iff` replaces the walk by arithmetic.
-/

namespace Syscoin

structure CBlockIndex where
  block : CBlock
  ancestors : List CBlock
deriving DecidableEq, Repr

namespace CBlockIndex

def nHeight (pindex : CBlockIndex) : Nat := pindex.ancestors.length

def nTime (pindex : CBlockIndex) : Nat := pindex.block.nTime

def pprev (pindex : CBlockIndex) : Option CBlockIndex :=
  match pindex.ancestors with
  | [] => none
  | block :: ancestors => some ⟨block, ancestors⟩

/-- The blocks of the chain that ends in this entry, tip first. -/
def chain (pindex : CBlockIndex) : List CBlock := pindex.block :: pindex.ancestors

theorem nHeight_eq_succ_of_pprev {pindex parent : CBlockIndex} (h : pindex.pprev = some parent) :
    pindex.nHeight = parent.nHeight + 1 := by
  unfold pprev at h
  split at h
  · cases h
  · rename_i b bs hb
    rw [Option.some.injEq] at h
    subst h
    simp [nHeight, hb]

theorem chain_eq_cons_of_pprev {pindex parent : CBlockIndex} (h : pindex.pprev = some parent) :
    pindex.chain = pindex.block :: parent.chain := by
  unfold pprev at h
  split at h
  · cases h
  · rename_i b bs hb
    rw [Option.some.injEq] at h
    subst h
    simp [chain, hb]

end CBlockIndex

/-- The walk down from height `nTop`: the depth at which height `nTxHeight` is met, looking at fewer than
    `maxDepth` blocks. -/
def walkDepth (nTop nTxHeight maxDepth : Nat) : List CBlock → Option Nat
  | [] => none
  | _ :: below =>
    if nTop - below.length < maxDepth then
      if below.length = nTxHeight then some (nTop - below.length)
      else walkDepth nTop nTxHeight maxDepth below
    else none

/-- **`CheckTransactionAtRelativeDepth`**; `none` is the code's `-1`. -/
def relativeDepth (pindexBlock : CBlockIndex) (nTxHeight maxDepth : Nat) : Option Nat :=
  walkDepth pindexBlock.nHeight nTxHeight maxDepth pindexBlock.chain

theorem walkDepth_eq_some_iff {nTop nTxHeight maxDepth d : Nat} {path : List CBlock}
    (hle : path.length ≤ nTop + 1) :
    walkDepth nTop nTxHeight maxDepth path = some d ↔
      nTxHeight < path.length ∧ d = nTop - nTxHeight ∧ d < maxDepth := by
  induction path with
  | nil => simp [walkDepth]
  | cons b below ih =>
    simp only [List.length_cons] at hle
    unfold walkDepth
    split
    · split
      · rename_i hlt heq
        subst heq
        simp only [Option.some.injEq, List.length_cons]
        constructor
        · rintro rfl; exact ⟨by omega, rfl, hlt⟩
        · rintro ⟨-, rfl, -⟩; rfl
      · rw [ih (by omega), List.length_cons]
        constructor
        · rintro ⟨h₁, h₂, h₃⟩; exact ⟨by omega, h₂, h₃⟩
        · rintro ⟨h₁, h₂, h₃⟩; exact ⟨by omega, h₂, h₃⟩
    · -- the walk stops: every block further down is deeper still
      rename_i hge
      simp only [List.length_cons, reduceCtorEq, false_iff]
      rintro ⟨h₁, h₂, h₃⟩
      omega

/-- The walk finds a transaction iff its height is on the chain and less than `maxDepth` below the block. -/
theorem relativeDepth_eq_some_iff {pindexBlock : CBlockIndex} {nTxHeight maxDepth d : Nat} :
    relativeDepth pindexBlock nTxHeight maxDepth = some d ↔
      nTxHeight ≤ pindexBlock.nHeight ∧ d = pindexBlock.nHeight - nTxHeight ∧ d < maxDepth := by
  unfold relativeDepth
  rw [walkDepth_eq_some_iff (by simp [CBlockIndex.chain, CBlockIndex.nHeight])]
  simp only [CBlockIndex.chain, CBlockIndex.nHeight, List.length_cons]
  omega

theorem relativeDepth_isSome_iff {pindexBlock : CBlockIndex} {nTxHeight maxDepth : Nat} :
    (relativeDepth pindexBlock nTxHeight maxDepth).isSome = true ↔
      nTxHeight ≤ pindexBlock.nHeight ∧ pindexBlock.nHeight < nTxHeight + maxDepth := by
  rw [Option.isSome_iff_exists]
  simp only [relativeDepth_eq_some_iff]
  constructor
  · rintro ⟨d, hle, rfl, hlt⟩
    exact ⟨hle, by omega⟩
  · rintro ⟨hle, hlt⟩
    exact ⟨_, hle, rfl, by omega⟩

theorem relativeDepth_eq_none_iff {pindexBlock : CBlockIndex} {nTxHeight maxDepth : Nat} :
    relativeDepth pindexBlock nTxHeight maxDepth = none ↔
      ¬ (nTxHeight ≤ pindexBlock.nHeight ∧ pindexBlock.nHeight < nTxHeight + maxDepth) := by
  rw [← relativeDepth_isSome_iff, Bool.not_eq_true, Option.isSome_eq_false_iff, Option.isNone_iff_eq_none]

end Syscoin

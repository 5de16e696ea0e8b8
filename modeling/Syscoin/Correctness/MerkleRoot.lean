import Syscoin.Lib.Merkle
import Syscoin.Chain.Run
import Syscoin.Chain.MerkleTree

/-!
# `Correctness.MerkleRoot` — the root commits to the transactions

`BuildMerkleTree` pairs the last node of an odd level with itself, so a list and the same list with its end repeated
have the same root. `CheckBlock` refuses repeated transactions before it compares roots, and then the root pins the
list: `merkleRoot_commits`. What is asked of the hash concerns only the pairs hashed for the two blocks.
-/

namespace Syscoin

open Lib

section Commitment

variable {env : Env}

theorem merkleLevel_eq (level : List Uint256) : merkleLevel env level = levelUp env.hashPair level := by
  induction level using levelPairs.induct with
  | case1 => rfl
  | case2 a => rfl
  | case3 a b rest ih =>
    rw [merkleLevel, ih]
    rfl

/-- The root is the top of the tree. -/
theorem isLevel_merkleRoot {fuel : Nat} {level : List Uint256} (hne : level ≠ []) (hfuel : level.length ≤ fuel) :
    IsLevel env.hashPair level [merkleRoot env fuel level] := by
  induction fuel generalizing level with
  | zero => exact absurd (List.length_eq_zero_iff.mp (Nat.le_zero.mp hfuel)) hne
  | succ fuel ih =>
    match level, hne with
    | [a], _ => exact .refl
    | a :: b :: rest, _ =>
      have hlen : 1 < (a :: b :: rest).length := by simp
      have hshort := length_levelUp (H := env.hashPair) (a :: b :: rest)
      refine isLevel_of_levelUp hlen ?_
      show IsLevel env.hashPair _ [merkleRoot env fuel (merkleLevel env (a :: b :: rest))]
      rw [merkleLevel_eq]
      refine ih ?_ ?_
      · rw [← List.length_pos_iff_ne_nil, hshort]
        simp only [List.length_cons]
        omega
      · rw [hshort]
        omega

def CBlock.txHashes (env : Env) (block : CBlock) : List Uint256 := block.vtx.map env.getHash

/-- What `CheckBlock` has found of a transaction list that passes the tests for duplicates and for the root: the size
    test before them leaves no empty list. -/
structure CBlock.PassesMerkle (env : Env) (block : CBlock) : Prop where
  ne_nil : block.vtx ≠ []
  nodup : (block.txHashes env).Nodup
  root : block.hashMerkleRoot = block.buildMerkleTree env

/-- The pairs that `BuildMerkleTree` hashes. -/
def merklePairs (env : Env) (level : List Uint256) : List (Uint256 × Uint256) :=
  treePairs env.hashPair level.length level

/-- **No collisions**: `Hash` tells apart the pairs hashed for the two lists, and no transaction hash is the hash of one
    of them. -/
structure HashesApart (env : Env) (l l' : List Uint256) : Prop where
  pairs : Set.InjOn (fun p : Uint256 × Uint256 => env.hashPair p.1 p.2)
    { p | p ∈ merklePairs env l ++ merklePairs env l' }
  leaves : ∀ a ∈ l ++ l', ∀ p ∈ merklePairs env l ++ merklePairs env l', a ≠ env.hashPair p.1 p.2

theorem checkBlock_passesMerkle {nNow : Nat} {pindex : CBlockIndex} {fCheckPOW : Bool}
    (h : checkBlock env nNow pindex fCheckPOW true = .ok ()) : pindex.block.PassesMerkle env := by
  unfold checkBlock at h
  obtain ⟨hsize, h⟩ := require_bind_ok_iff.mp h
  obtain ⟨-, h⟩ := require_bind_ok_iff.mp h
  obtain ⟨-, h⟩ := require_bind_ok_iff.mp h
  obtain ⟨-, h⟩ := require_bind_ok_iff.mp h
  obtain ⟨-, h⟩ := require_bind_ok_iff.mp h
  obtain ⟨_, -, h⟩ := Except.bind_ok_iff.mp h
  obtain ⟨hnodup, h⟩ := require_bind_ok_iff.mp h
  obtain ⟨-, h⟩ := require_bind_ok_iff.mp h
  exact ⟨hsize.1, hnodup, require_ok_iff.mp h rfl⟩

theorem txHashes_eq_of_root {block block' : CBlock}
    (apart : HashesApart env (block.txHashes env) (block'.txHashes env))
    (hroot : block'.hashMerkleRoot = block.hashMerkleRoot) (h : block.PassesMerkle env)
    (h' : block'.PassesMerkle env) : block.txHashes env = block'.txHashes env := by
  have top : ∀ b : CBlock, b.PassesMerkle env → IsLevel env.hashPair (b.txHashes env) [b.hashMerkleRoot] := by
    intro b hb
    rw [hb.root, CBlock.buildMerkleTree]
    exact isLevel_merkleRoot (by simpa [CBlock.txHashes] using hb.ne_nil) (by simp [CBlock.txHashes])
  have htop' := top block' h'
  rw [hroot] at htop'
  have hp : ∀ p ∈ Hashed env.hashPair (block.txHashes env), p ∈ merklePairs env (block.txHashes env) :=
    fun p => hashed_subset_treePairs (Nat.le_refl _)
  have hp' : ∀ p ∈ Hashed env.hashPair (block'.txHashes env), p ∈ merklePairs env (block'.txHashes env) :=
    fun p => hashed_subset_treePairs (Nat.le_refl _)
  refine eq_of_top h.nodup h'.nodup (apart.pairs.mono ?_) ?_ ?_ (top block h) htop'
  · rintro p (h | h)
    · exact List.mem_append_left _ (hp p h)
    · exact List.mem_append_right _ (hp' p h)
  · intro a ha p h
    exact apart.leaves a (List.mem_append_left _ ha) p (List.mem_append_right _ (hp' p h))
  · intro a ha p h
    exact apart.leaves a (List.mem_append_right _ ha) p (List.mem_append_left _ (hp p h))

/-- **The merkle root commits to the transaction list.** Two blocks with the same root that pass the two tests have the
    same transaction hashes; beside a block that `CheckBlock` accepts, it refuses every other with that root and other
    transaction hashes, or other transactions where these have hashes of their own. -/
theorem merkleRoot_commits {block block' : CBlock}
    (apart : HashesApart env (block.txHashes env) (block'.txHashes env))
    (hroot : block'.hashMerkleRoot = block.hashMerkleRoot) :
    (block.PassesMerkle env → block'.PassesMerkle env → block.txHashes env = block'.txHashes env) ∧
    ∀ {nNow nNow' : Nat} {ancestors ancestors' : List CBlock} {fCheckPOW fCheckPOW' : Bool},
      checkBlock env nNow ⟨block, ancestors⟩ fCheckPOW true = .ok () →
      (block'.txHashes env ≠ block.txHashes env ∨
        block'.vtx ≠ block.vtx ∧ Set.InjOn env.getHash { tx | tx ∈ block.vtx ∨ tx ∈ block'.vtx }) →
      ∃ e, checkBlock env nNow' ⟨block', ancestors'⟩ fCheckPOW' true = .error e := by
  refine ⟨txHashes_eq_of_root apart hroot, ?_⟩
  intro nNow nNow' ancestors ancestors' fCheckPOW fCheckPOW' hok hdiff
  cases hok' : checkBlock env nNow' ⟨block', ancestors'⟩ fCheckPOW' true with
  | error e => exact ⟨e, rfl⟩
  | ok u =>
    have heq := txHashes_eq_of_root apart hroot (checkBlock_passesMerkle hok) (checkBlock_passesMerkle hok')
    rcases hdiff with hne | ⟨hne, hinj⟩
    · exact absurd heq.symm hne
    · exact absurd (map_inj_of_injOn hinj (fun _ => .inr) (fun _ => .inl) heq.symm) hne

end Commitment

/-! ## A block with its last transaction repeated -/

namespace Cakenet

/-- Three transactions, and the same list with the third one twice. -/
def threeTxs : CBlockIndex := mine block8 9 [aliasNewTx, offerNewTx]

def fourTxs : CBlock := { threeTxs.block with vtx := threeTxs.block.vtx ++ [offerNewTx] }

theorem repeated_transaction_refused :
    fourTxs.hashMerkleRoot = fourTxs.buildMerkleTree env ∧ checkBlock env 2000000000 threeTxs true true = .ok () ∧
      ∃ e, checkBlock env 2000000000 ⟨fourTxs, threeTxs.ancestors⟩ true true = .error e := by
  have hok : checkBlock env 2000000000 threeTxs true true = .ok () := by decide +kernel
  have apart : HashesApart env (threeTxs.block.txHashes env) (fourTxs.txHashes env) := by
    constructor
    · show ∀ p ∈ merklePairs env (threeTxs.block.txHashes env) ++ merklePairs env (fourTxs.txHashes env),
        ∀ q ∈ merklePairs env (threeTxs.block.txHashes env) ++ merklePairs env (fourTxs.txHashes env), _
      decide +kernel
    · decide +kernel
  refine ⟨by decide +kernel, hok, ?_⟩
  exact (merkleRoot_commits apart rfl).2 hok (.inl (by decide +kernel))

end Cakenet

end Syscoin

/-! ## Branches verify

The array that `BuildMerkleTree` leaves is the levels of the tree, one behind the other (`vMerkleTree_eq`). With what is
in front of a level left out, `GetMerkleBranch` reads the sibling at each level (`readBranch_eq`), and from there on it is
a matter of trees: the branch of a leaf leads to the root, and to this root no other leaf leads at the same index.
-/

namespace Syscoin

open Lib

section Array

variable {env : Env} {before level : List Uint256}

theorem getD_append_length {i : Nat} (d : Uint256) : (before ++ level).getD (before.length + i) d = level.getD i d := by
  rw [List.getD_eq_getElem?_getD, List.getD_eq_getElem?_getD, List.getElem?_append_right (Nat.le_add_right _ _),
    Nat.add_sub_cancel_left]

/-- The nodes of the next level come one after the other. -/
theorem pushLevel_eq (before level : List Uint256) :
    pushLevel env before.length level.length (before ++ level) = before ++ level ++ levelUp env.hashPair level := by
  have hrounds : ∀ n ≤ (level.length + 1) / 2, (List.range n).foldl (fun vMerkleTree k =>
      let i := 2 * k
      let i2 := min (i + 1) (level.length - 1)
      vMerkleTree ++ [env.hashPair (vMerkleTree.getD (before.length + i) 0) (vMerkleTree.getD (before.length + i2) 0)])
        (before ++ level) = before ++ level ++ (levelUp env.hashPair level).take n := by
    intro n hn
    induction n with
    | zero => simp
    | succ n ih =>
      have hup := length_levelUp (H := env.hashPair) level
      have hget : ∀ i < level.length, (before ++ level ++ (levelUp env.hashPair level).take n).getD (before.length + i) 0 =
          level.getD i 0 := by
        intro i hi
        rw [List.append_assoc, getD_append_length, List.getD_append _ _ _ _ hi]
      have hnode : (levelUp env.hashPair level)[n]? = some (env.hashPair (level.getD (2 * n) 0)
          (level.getD (min (2 * n + 1) (level.length - 1)) 0)) := by
        have hval : (levelUp env.hashPair level).getD n 0 = _ := levelUp_getD 0 (by omega)
        have hright : (if n * 2 + 1 < level.length then n * 2 + 1 else n * 2) = min (2 * n + 1) (level.length - 1) := by
          split
          · omega
          · omega
        rw [hright, Nat.mul_comm n 2] at hval
        rw [← hval, List.getD_eq_getElem?_getD, List.getElem?_eq_getElem (by omega)]
        rfl
      rw [List.range_succ, List.foldl_append, ih (by omega), List.foldl_cons, List.foldl_nil]
      dsimp only
      rw [hget _ (by omega), hget _ (by omega), List.take_add_one, hnode]
      simp
  have hall := hrounds ((level.length + 1) / 2) le_rfl
  rw [List.take_of_length_le (by rw [length_levelUp])] at hall
  exact hall

theorem pushLevels_eq {fuel : Nat} (before level : List Uint256) :
    pushLevels env fuel before.length level.length (before ++ level) = before ++ flatLevels env.hashPair fuel level := by
  induction fuel generalizing before level with
  | zero => rfl
  | succ fuel ih =>
    rw [pushLevels, flatLevels]
    by_cases hlen : 1 < level.length
    · have hnext := ih (before ++ level) (levelUp env.hashPair level)
      rw [List.length_append, length_levelUp] at hnext
      rw [if_pos hlen, if_pos hlen, pushLevel_eq, hnext, List.append_assoc]
    · rw [if_neg hlen, if_neg hlen]

/-- The array is the levels of the tree. -/
theorem vMerkleTree_eq (block : CBlock) :
    block.vMerkleTree env = flatLevels env.hashPair block.vtx.length (block.txHashes env) := by
  have hlevels : pushLevels env block.vtx.length _ _ _ = _ := pushLevels_eq [] (block.txHashes env)
  rw [CBlock.txHashes, List.length_map] at hlevels
  exact hlevels

/-- What is read is the sibling at every level. -/
theorem readBranch_eq {fuel nIndex : Nat} (before level : List Uint256) (hindex : nIndex < level.length) :
    readBranch (before ++ flatLevels env.hashPair fuel level) fuel before.length level.length nIndex =
      branchOf env.hashPair 0 fuel level nIndex := by
  induction fuel generalizing before level nIndex with
  | zero => rfl
  | succ fuel ih =>
    rw [readBranch, branchOf, flatLevels]
    by_cases hlen : 1 < level.length
    · have hup := length_levelUp (H := env.hashPair) level
      have hhalf : nIndex / 2 < (levelUp env.hashPair level).length := by omega
      have hnext := ih (before ++ level) (levelUp env.hashPair level) hhalf
      rw [List.length_append, length_levelUp, List.append_assoc] at hnext
      rw [if_pos hlen, if_pos hlen, if_pos hlen, getD_append_length, List.getD_append _ _ _ _ (by omega), hnext]
    · rw [if_neg hlen, if_neg hlen]

end Array

section Branches

variable {env : Env} (block : CBlock)

/-- What `BuildMerkleTree` returns is the end of the array. -/
theorem getLast?_vMerkleTree (hne : block.vtx ≠ []) :
    (block.vMerkleTree env).getLast? = some (block.buildMerkleTree env) := by
  rw [vMerkleTree_eq]
  have hlen : (block.txHashes env).length ≤ block.vtx.length := Nat.le_of_eq (List.length_map _)
  exact getLast?_flatLevels (isLevel_merkleRoot (by simpa [CBlock.txHashes] using hne) hlen) hlen

theorem getMerkleBranch_eq {vMerkleTree : List Uint256} {i : Nat} (hi : i < block.vtx.length)
    (htree : vMerkleTree = [] ∨ vMerkleTree = block.vMerkleTree env) :
    block.getMerkleBranch env vMerkleTree i = branchOf env.hashPair 0 block.vtx.length (block.txHashes env) i := by
  have hcached : (if vMerkleTree = [] then block.vMerkleTree env else vMerkleTree) = block.vMerkleTree env := by
    rcases htree with rfl | rfl
    · rw [if_pos rfl]
    · exact ite_id _
  have hindex : i < (block.txHashes env).length := by simpa [CBlock.txHashes] using hi
  have hread := @readBranch_eq env block.vtx.length i [] _ hindex
  rw [CBlock.txHashes, List.length_map] at hread
  rw [CBlock.getMerkleBranch, hcached, vMerkleTree_eq]
  exact hread

/-- **Merkle branches verify.** In a block without an array yet, or with its own, the branch of a transaction leads from
    its hash to what `BuildMerkleTree` returns, and a branch of that length leads there from no other hash at the same
    index, unless two different pairs on the two ways have the same hash. -/
theorem merkle_branch_verifies {vMerkleTree : List Uint256} {i : Nat} (hi : i < block.vtx.length)
    (htree : vMerkleTree = [] ∨ vMerkleTree = block.vMerkleTree env) :
    checkMerkleBranch env (env.getHash block.vtx[i]) (block.getMerkleBranch env vMerkleTree i) i =
        (block.vMerkleTree env).getLastD 0 ∧
      (block.vMerkleTree env).getLastD 0 = block.buildMerkleTree env ∧
      ∀ (hash : Uint256) (vMerkleBranch : List Uint256),
        vMerkleBranch.length = (block.getMerkleBranch env vMerkleTree i).length →
        Set.InjOn (fun p : Uint256 × Uint256 => env.hashPair p.1 p.2)
          { p | p ∈ branchPairs env.hashPair hash vMerkleBranch i ∨
            p ∈ branchPairs env.hashPair (env.getHash block.vtx[i]) (block.getMerkleBranch env vMerkleTree i) i } →
        checkMerkleBranch env hash vMerkleBranch i = (block.vMerkleTree env).getLastD 0 →
        hash = env.getHash block.vtx[i] := by
  have hne : block.vtx ≠ [] := List.ne_nil_of_length_pos (Nat.zero_lt_of_lt hi)
  have hback : (block.vMerkleTree env).getLastD 0 = block.buildMerkleTree env := by
    rw [List.getLastD_eq_getLast?, getLast?_vMerkleTree block hne, Option.getD_some]
  have hcheck : ∀ (hash : Uint256) (branch : List Uint256),
      checkMerkleBranch env hash branch i = branchRoot env.hashPair hash branch i := by
    intro hash branch
    exact if_neg (by omega)
  have hleaf : (block.txHashes env).getD i 0 = env.getHash block.vtx[i] := by
    simp [CBlock.txHashes, List.getD_eq_getElem?_getD, hi]
  have hroot : branchRoot env.hashPair (env.getHash block.vtx[i]) (block.getMerkleBranch env vMerkleTree i) i =
      block.buildMerkleTree env := by
    rw [getMerkleBranch_eq block hi htree, ← hleaf]
    have hlen : (block.txHashes env).length = block.vtx.length := List.length_map _
    exact branchRoot_branchOf (isLevel_merkleRoot (by simpa [CBlock.txHashes] using hne) hlen.le) hlen.le
      (by rwa [hlen])
  refine ⟨?_, hback, ?_⟩
  · rw [hcheck, hroot, hback]
  · intro hash vMerkleBranch hlen hinj heq
    rw [hcheck, hback, ← hroot] at heq
    exact branchRoot_inj env.hashPair hlen hinj heq

end Branches

namespace Cakenet

/-- The last of three transactions, whose sibling is itself, and no hash but its own goes with the branch. -/
theorem third_branch_verifies :
    checkMerkleBranch env (env.getHash offerNewTx) (threeTxs.block.getMerkleBranch env [] 2) 2 =
        threeTxs.block.buildMerkleTree env ∧
      threeTxs.block.getMerkleBranch env [] 2 =
        [env.getHash offerNewTx, env.hashPair (env.getHash threeTxs.block.vtx[0]) (env.getHash aliasNewTx)] := by
  have hverifies := @merkle_branch_verifies env threeTxs.block [] 2 (by decide +kernel) (.inl rfl)
  exact ⟨hverifies.1.trans hverifies.2.1, by decide +kernel⟩

end Cakenet

end Syscoin

import Mathlib.Data.List.GetD
import Mathlib.Tactic.IntervalCases
import Syscoin.Correctness.MerkleRoot
import Syscoin.Network.PartialMerkle
import Mathlib.Data.Nat.Pairing

/-!
# `Correctness.PartialMerkle` — partial merkle trees are complete

Both walks visit the same nodes in the same order. `nodeBits` and `nodeHashes` list what the builder writes below a node;
`traverseAndExtract_node` says that the extractor, standing at the start of such a list, comes back at its end with the
hash of the node and the matched transactions below it.
-/

namespace Syscoin

open Lib Lib.Reader

namespace CPartialMerkleTree

/-! ## Widths -/

section Width

variable {n height pos : Nat}

theorem calcTreeWidth_zero : calcTreeWidth n 0 = n := by simp [calcTreeWidth]

theorem calcTreeWidth_succ : calcTreeWidth n (height + 1) = (calcTreeWidth n height + 1) / 2 := by
  have hpos : 0 < 2 ^ height := Nat.two_pow_pos height
  unfold calcTreeWidth
  rw [← Nat.add_div_right _ hpos, Nat.div_div_eq_div_mul, pow_succ]
  congr 1
  omega

/-- A node is there iff a leaf below it is. -/
theorem lt_calcTreeWidth_iff : pos < calcTreeWidth n height ↔ pos * 2 ^ height < n := by
  have hpos : 0 < 2 ^ height := Nat.two_pow_pos height
  unfold calcTreeWidth
  rw [Nat.lt_iff_add_one_le, Nat.le_div_iff_mul_le hpos, Nat.add_mul, Nat.one_mul]
  omega

theorem calcHeight_spec (fuel : Nat) (hfuel : calcTreeWidth n (height + fuel) ≤ 1)
    (hlow : ∀ j < height, 1 < calcTreeWidth n j) :
    calcTreeWidth n (calcHeight n fuel height) ≤ 1 ∧ calcHeight n fuel height ≤ height + fuel ∧
      ∀ j < calcHeight n fuel height, 1 < calcTreeWidth n j := by
  induction fuel generalizing height with
  | zero => exact ⟨hfuel, Nat.le_refl _, hlow⟩
  | succ fuel ih =>
    rw [calcHeight]
    split
    · rename_i hwide
      have hsum : height + 1 + fuel = height + (fuel + 1) := by omega
      have hlow' : ∀ j < height + 1, 1 < calcTreeWidth n j := by
        intro j hj
        rcases Nat.lt_succ_iff_lt_or_eq.mp hj with hj | rfl
        · exact hlow j hj
        · exact hwide
      obtain ⟨h₁, h₂, h₃⟩ := ih (by rwa [hsum]) hlow'
      exact ⟨h₁, by omega, h₃⟩
    · rename_i hnarrow
      exact ⟨Nat.le_of_not_lt hnarrow, by omega, hlow⟩

/-- The height of the tree: the lowest level of one node. -/
theorem nHeight_spec : calcTreeWidth n (nHeight n) ≤ 1 ∧ nHeight n ≤ n ∧
    ∀ j < nHeight n, 1 < calcTreeWidth n j := by
  have htop : calcTreeWidth n (0 + n) ≤ 1 := by
    rw [Nat.zero_add, ← Nat.not_lt, lt_calcTreeWidth_iff, Nat.one_mul]
    exact Nat.not_lt.mpr (Nat.lt_two_pow_self).le
  have h := calcHeight_spec n htop (by simp)
  rwa [Nat.zero_add] at h

end Width

/-! ## The hashes of the nodes -/

section Hashes

variable {env : Env} {vTxid : List Uint256} {height pos : Nat}

theorem length_iterate_levelUp (hashPair : Uint256 → Uint256 → Uint256) (vTxid : List Uint256) (height : Nat) :
    ((levelUp hashPair)^[height] vTxid).length = calcTreeWidth vTxid.length height := by
  induction height with
  | zero => exact calcTreeWidth_zero.symm
  | succ height ih => rw [Function.iterate_succ_apply', length_levelUp, ih, calcTreeWidth_succ]

/-- `CalcHash` computes the nodes of the levels of `BuildMerkleTree`. -/
theorem calcHash_eq (hashPair : Uint256 → Uint256 → Uint256) (hpos : pos < calcTreeWidth vTxid.length height) :
    calcHash hashPair vTxid height pos = ((levelUp hashPair)^[height] vTxid).getD pos 0 := by
  induction height generalizing pos with
  | zero => rfl
  | succ height ih =>
    rw [calcTreeWidth_succ] at hpos
    have hleft : pos * 2 < calcTreeWidth vTxid.length height := by omega
    have hlen := length_iterate_levelUp hashPair vTxid height
    rw [Function.iterate_succ_apply', levelUp_getD 0 (by rw [hlen]; exact hleft), hlen, calcHash, ih hleft]
    by_cases hright : pos * 2 + 1 < calcTreeWidth vTxid.length height
    · rw [if_pos hright, if_pos hright, ih hright]
    · rw [if_neg hright, if_neg hright]

/-- Going up a number of levels, none of them the top, leaves the root as it is. -/
theorem merkleRoot_iterate {k fuel : Nat} (hfuel : k ≤ fuel) (hwide : ∀ j < k, 1 < calcTreeWidth vTxid.length j) :
    merkleRoot env fuel vTxid = merkleRoot env (fuel - k) ((levelUp env.hashPair)^[k] vTxid) := by
  induction k with
  | zero => rfl
  | succ k ih =>
    have hlen := length_iterate_levelUp env.hashPair vTxid k
    have hk := hwide k (Nat.lt_succ_self k)
    rw [ih (by omega) (fun j hj => hwide j (by omega)), Function.iterate_succ_apply']
    obtain ⟨f, hf⟩ : ∃ f, fuel - k = f + 1 := ⟨fuel - k - 1, by omega⟩
    have hf' : fuel - (k + 1) = f := by omega
    rw [hf, hf', ← merkleLevel_eq]
    generalize (levelUp env.hashPair)^[k] vTxid = level at hlen
    match level with
    | [] => simp at hlen; omega
    | [a] => simp at hlen; omega
    | a :: b :: rest => rfl

/-- **The hash of the root node is the merkle root.** -/
theorem calcHash_root (hne : vTxid ≠ []) :
    calcHash env.hashPair vTxid (nHeight vTxid.length) 0 = merkleRoot env vTxid.length vTxid := by
  obtain ⟨htop, hle, hwide⟩ := nHeight_spec (n := vTxid.length)
  have hpos : 0 < calcTreeWidth vTxid.length (nHeight vTxid.length) := by
    rw [lt_calcTreeWidth_iff, Nat.zero_mul]
    exact List.length_pos_iff_ne_nil.mpr hne
  have hlen := length_iterate_levelUp env.hashPair vTxid (nHeight vTxid.length)
  rw [calcHash_eq _ hpos, merkleRoot_iterate hle hwide]
  obtain ⟨a, ha⟩ := List.length_eq_one_iff.mp (hlen.trans (by omega))
  rw [ha]
  cases vTxid.length - nHeight vTxid.length <;> rfl

end Hashes

/-! ## What is below a node -/

section Nodes

variable (hashPair : Uint256 → Uint256 → Uint256) (vTxid : List Uint256) (vMatch : List Bool)

/-- The bits written for a node and what is below it. -/
def nodeBits : Nat → Nat → List Bool
  | 0, pos => [parentOfMatch vTxid vMatch 0 pos]
  | height + 1, pos =>
    parentOfMatch vTxid vMatch (height + 1) pos ::
      if parentOfMatch vTxid vMatch (height + 1) pos = false then []
      else nodeBits height (pos * 2) ++
        if pos * 2 + 1 < calcTreeWidth vTxid.length height then nodeBits height (pos * 2 + 1) else []

/-- The hashes written for a node and what is below it. -/
def nodeHashes : Nat → Nat → List Uint256
  | 0, pos => [calcHash hashPair vTxid 0 pos]
  | height + 1, pos =>
    if parentOfMatch vTxid vMatch (height + 1) pos = false then [calcHash hashPair vTxid (height + 1) pos]
    else nodeHashes height (pos * 2) ++
      if pos * 2 + 1 < calcTreeWidth vTxid.length height then nodeHashes height (pos * 2 + 1) else []

/-- The positions of the matched transactions below a node. -/
def matchedBelow (height pos : Nat) : List Nat :=
  (List.range' (pos * 2 ^ height) (2 ^ height)).filter fun p => decide (p < vTxid.length) && vMatch.getD p false

/-- Their ids. -/
def nodeMatches (height pos : Nat) : List Uint256 := (matchedBelow vTxid vMatch height pos).map fun p => vTxid.getD p 0

variable {hashPair vTxid vMatch} {height pos : Nat}

/-- The builder appends the two lists. -/
theorem traverseAndBuild_eq (tree : CPartialMerkleTree) :
    traverseAndBuild hashPair vTxid vMatch height pos tree =
      { tree with
        vBits := tree.vBits ++ nodeBits vTxid vMatch height pos
        vHash := tree.vHash ++ nodeHashes hashPair vTxid vMatch height pos } := by
  induction height generalizing pos tree with
  | zero => rfl
  | succ height ih =>
    rw [traverseAndBuild, nodeBits, nodeHashes]
    by_cases hmatch : parentOfMatch vTxid vMatch (height + 1) pos = false
    · simp [hmatch]
    · by_cases hright : pos * 2 + 1 < calcTreeWidth vTxid.length height
      · simp [hmatch, hright, ih]
      · simp [hmatch, hright, ih]

/-- The range below a node is that below its two children. -/
theorem matchedBelow_succ :
    matchedBelow vTxid vMatch (height + 1) pos =
      matchedBelow vTxid vMatch height (pos * 2) ++ matchedBelow vTxid vMatch height (pos * 2 + 1) := by
  have hstart : pos * 2 ^ (height + 1) = pos * 2 * 2 ^ height := by rw [pow_succ]; ring
  have hmid : (pos * 2 + 1) * 2 ^ height = pos * 2 * 2 ^ height + 2 ^ height := by ring
  have hlen : 2 ^ (height + 1) = 2 ^ height + 2 ^ height := by rw [pow_succ]; ring
  rw [matchedBelow, matchedBelow, matchedBelow, ← List.filter_append, hstart, hmid, hlen, List.range'_append_1]

/-- Nothing is below a node that is not there. -/
theorem matchedBelow_eq_nil (h : ¬ pos < calcTreeWidth vTxid.length height) :
    matchedBelow vTxid vMatch height pos = [] := by
  rw [lt_calcTreeWidth_iff] at h
  refine List.filter_eq_nil_iff.mpr fun p hp => ?_
  rw [List.mem_range'_1] at hp
  have hlt : ¬ p < vTxid.length := by omega
  simp [hlt]

theorem parentOfMatch_eq_false_iff :
    parentOfMatch vTxid vMatch height pos = false ↔ matchedBelow vTxid vMatch height pos = [] := by
  rw [parentOfMatch, matchedBelow, List.any_eq_false, List.filter_eq_nil_iff]

theorem nodeMatches_succ :
    nodeMatches vTxid vMatch (height + 1) pos = nodeMatches vTxid vMatch height (pos * 2) ++
      (if pos * 2 + 1 < calcTreeWidth vTxid.length height then nodeMatches vTxid vMatch height (pos * 2 + 1) else []) := by
  rw [nodeMatches, matchedBelow_succ, List.map_append]
  split
  · rfl
  · rename_i hright
    rw [matchedBelow_eq_nil hright]
    rfl

theorem nodeMatches_zero (hashPair : Uint256 → Uint256 → Uint256) (vTxid : List Uint256) (vMatch : List Bool)
    (pos : Nat) :
    nodeMatches vTxid vMatch 0 pos =
      if parentOfMatch vTxid vMatch 0 pos = true then [calcHash hashPair vTxid 0 pos] else [] := by
  have hrange : List.range' (pos * 2 ^ 0) (2 ^ 0) = [pos] := by simp
  rw [nodeMatches, matchedBelow, parentOfMatch, hrange, List.any_cons, List.any_nil, Bool.or_false,
    List.filter_cons, List.filter_nil]
  by_cases hmatch : (decide (pos < vTxid.length) && vMatch.getD pos false) = true
  · rw [if_pos hmatch, if_pos hmatch]
    rfl
  · rw [if_neg hmatch, if_neg hmatch]
    rfl

end Nodes

/-! ## The extractor retraces the builder -/

section Retrace

variable {hashPair : Uint256 → Uint256 → Uint256} {vTxid : List Uint256} {vMatch : List Bool} {height pos : Nat}
  {tree : CPartialMerkleTree} {bits bits' : List Bool} {hashes hashes' : List Uint256} {found : List Uint256}

theorem useHash_eq {cur : Cursor} {hash : Uint256} {fParentOfMatch : Bool} (h : tree.vHash[cur.nHashUsed]? = some hash) :
    useHash tree height fParentOfMatch cur =
      (hash, { cur with
        nHashUsed := cur.nHashUsed + 1
        vMatch := if height = 0 ∧ fParentOfMatch = true then cur.vMatch ++ [hash] else cur.vMatch }) := by
  rw [useHash, h]

/-- **One node.** Standing where the builder started on a node, the extractor ends where it ended, with the hash of the
    node and the matched transactions below it. -/
theorem traverseAndExtract_node (hn : tree.nTransactions = vTxid.length)
    (hbits : tree.vBits = bits ++ (nodeBits vTxid vMatch height pos ++ bits'))
    (hhashes : tree.vHash = hashes ++ (nodeHashes hashPair vTxid vMatch height pos ++ hashes'))
    (hpos : pos < calcTreeWidth vTxid.length height) :
    traverseAndExtract hashPair tree height pos ⟨bits.length, hashes.length, found, false⟩ =
      (calcHash hashPair vTxid height pos,
        ⟨bits.length + (nodeBits vTxid vMatch height pos).length,
          hashes.length + (nodeHashes hashPair vTxid vMatch height pos).length,
          found ++ nodeMatches vTxid vMatch height pos, false⟩) := by
  induction height generalizing pos bits bits' hashes hashes' found with
  | zero =>
    have hbit : tree.vBits[bits.length]? = some (parentOfMatch vTxid vMatch 0 pos) := by
      rw [hbits]
      simp [nodeBits]
    have hhash : tree.vHash[hashes.length]? = some (calcHash hashPair vTxid 0 pos) := by
      rw [hhashes]
      simp [nodeHashes]
    rw [traverseAndExtract, hbit]
    dsimp only
    have hmatches := nodeMatches_zero hashPair vTxid vMatch pos
    rw [useHash_eq hhash, hmatches]
    cases parentOfMatch vTxid vMatch 0 pos <;> simp [nodeBits, nodeHashes]
  | succ height ih =>
    have hbit : tree.vBits[bits.length]? = some (parentOfMatch vTxid vMatch (height + 1) pos) := by
      rw [hbits, nodeBits]
      simp
    rw [traverseAndExtract, hbit]
    dsimp only
    by_cases hmatch : parentOfMatch vTxid vMatch (height + 1) pos = false
    · have hhash : tree.vHash[hashes.length]? = some (calcHash hashPair vTxid (height + 1) pos) := by
        rw [hhashes, nodeHashes, if_pos hmatch]
        simp
      have hnone : nodeMatches vTxid vMatch (height + 1) pos = [] := by
        rw [nodeMatches, parentOfMatch_eq_false_iff.mp hmatch]
        rfl
      rw [if_pos hmatch, useHash_eq hhash]
      simp [nodeBits, nodeHashes, hmatch, hnone]
    · rw [if_neg hmatch]
      rw [calcTreeWidth_succ] at hpos
      have hleft : pos * 2 < calcTreeWidth vTxid.length height := by omega
      have hset : parentOfMatch vTxid vMatch (height + 1) pos = true := by simpa using hmatch
      rw [nodeBits, if_neg hmatch, hset] at hbits
      rw [nodeHashes, if_neg hmatch] at hhashes
      have hbits₁ : tree.vBits = bits ++ [true] ++ (nodeBits vTxid vMatch height (pos * 2) ++
          ((if pos * 2 + 1 < calcTreeWidth vTxid.length height then nodeBits vTxid vMatch height (pos * 2 + 1)
            else []) ++ bits')) := by
        rw [hbits]
        simp
      have hhashes₁ : tree.vHash = hashes ++ (nodeHashes hashPair vTxid vMatch height (pos * 2) ++
          ((if pos * 2 + 1 < calcTreeWidth vTxid.length height then
            nodeHashes hashPair vTxid vMatch height (pos * 2 + 1) else []) ++ hashes')) := by
        rw [hhashes, List.append_assoc]
      have hL : traverseAndExtract hashPair tree height (pos * 2)
          ⟨(bits ++ [true]).length, hashes.length, found, false⟩ = _ := ih hbits₁ hhashes₁ hleft
      rw [List.length_append, List.length_singleton] at hL
      rw [hL, hn, nodeBits, nodeHashes, calcHash, nodeMatches_succ, if_neg hmatch, if_neg hmatch]
      dsimp only
      by_cases hright : pos * 2 + 1 < calcTreeWidth vTxid.length height
      · -- the right child starts where the left one ended
        rw [if_pos hright, ← List.append_assoc] at hbits₁ hhashes₁
        have hR : traverseAndExtract hashPair tree height (pos * 2 + 1)
            ⟨(bits ++ [true] ++ nodeBits vTxid vMatch height (pos * 2)).length,
              (hashes ++ nodeHashes hashPair vTxid vMatch height (pos * 2)).length,
              found ++ nodeMatches vTxid vMatch height (pos * 2), false⟩ = _ := ih hbits₁ hhashes₁ hright
        simp only [List.length_append, List.length_singleton] at hR
        rw [if_pos hright, hR, if_pos hright, if_pos hright, if_pos hright, if_pos hright]
        simp only [List.length_cons, List.length_append, List.append_assoc, Prod.mk.injEq, Cursor.mk.injEq, and_true,
          true_and]
        constructor <;> omega
      · rw [if_neg hright, if_neg hright, if_neg hright, if_neg hright, if_neg hright]
        simp only [List.length_cons, List.append_nil, Prod.mk.injEq, Cursor.mk.injEq, and_true, true_and]
        omega

end Retrace

/-! ## Sizes -/

section Sizes

variable {hashPair : Uint256 → Uint256 → Uint256} {vTxid : List Uint256} {vMatch : List Bool} {height pos : Nat}

/-- Every stored hash stands for leaves of its own. -/
theorem length_nodeHashes_le (hpos : pos < calcTreeWidth vTxid.length height) :
    (nodeHashes hashPair vTxid vMatch height pos).length ≤
      min ((pos + 1) * 2 ^ height) vTxid.length - pos * 2 ^ height := by
  induction height generalizing pos with
  | zero =>
    rw [calcTreeWidth_zero] at hpos
    simp only [nodeHashes, List.length_singleton, pow_zero, Nat.mul_one]
    omega
  | succ height ih =>
    have hwide := lt_calcTreeWidth_iff.mp hpos
    have hpow : 2 ^ (height + 1) = 2 * 2 ^ height := by rw [pow_succ, Nat.mul_comm]
    have hone : 0 < 2 ^ height := Nat.two_pow_pos height
    have h₀ : pos * 2 ^ (height + 1) = 2 * (pos * 2 ^ height) := by rw [hpow]; ring
    have h₁ : (pos + 1) * 2 ^ (height + 1) = 2 * (pos * 2 ^ height) + 2 * 2 ^ height := by rw [hpow]; ring
    have h₂ : pos * 2 * 2 ^ height = 2 * (pos * 2 ^ height) := by ring
    have h₃ : (pos * 2 + 1) * 2 ^ height = 2 * (pos * 2 ^ height) + 2 ^ height := by ring
    have h₄ : (pos * 2 + 1 + 1) * 2 ^ height = 2 * (pos * 2 ^ height) + 2 * 2 ^ height := by ring
    rw [h₀] at hwide
    rw [nodeHashes, h₀, h₁]
    split
    · rw [List.length_singleton]
      omega
    · have hleft : (nodeHashes hashPair vTxid vMatch height (pos * 2)).length ≤
          min ((pos * 2 + 1) * 2 ^ height) vTxid.length - pos * 2 * 2 ^ height :=
        ih (by rw [lt_calcTreeWidth_iff, h₂]; exact hwide)
      rw [h₂, h₃] at hleft
      rw [List.length_append]
      split
      · rename_i hright
        have hr := ih hright
        rw [lt_calcTreeWidth_iff, h₃] at hright
        rw [h₃, h₄] at hr
        omega
      · rw [List.length_nil]
        omega

theorem length_nodeHashes_le_bits :
    (nodeHashes hashPair vTxid vMatch height pos).length ≤ (nodeBits vTxid vMatch height pos).length := by
  induction height generalizing pos with
  | zero => exact Nat.le_refl _
  | succ height ih =>
    have hl : (nodeHashes hashPair vTxid vMatch height (pos * 2)).length ≤
        (nodeBits vTxid vMatch height (pos * 2)).length := ih
    have hr : (nodeHashes hashPair vTxid vMatch height (pos * 2 + 1)).length ≤
        (nodeBits vTxid vMatch height (pos * 2 + 1)).length := ih
    rw [nodeHashes, nodeBits, List.length_cons]
    split
    · exact Nat.le_refl _
    · rw [List.length_append, List.length_append]
      split
      · omega
      · rw [List.length_nil, List.length_nil]
        omega

theorem length_nodeBits_lt : (nodeBits vTxid vMatch height pos).length < 2 ^ (height + 1) := by
  induction height generalizing pos with
  | zero => exact Nat.lt_succ_self 1
  | succ height ih =>
    have hl : (nodeBits vTxid vMatch height (pos * 2)).length < 2 ^ (height + 1) := ih
    have hr : (nodeBits vTxid vMatch height (pos * 2 + 1)).length < 2 ^ (height + 1) := ih
    have hpow : 2 ^ (height + 1 + 1) = 2 * 2 ^ (height + 1) := by rw [pow_succ, Nat.mul_comm]
    rw [nodeBits, List.length_cons]
    split
    · rw [List.length_nil]
      omega
    · rw [List.length_append]
      split
      · omega
      · rw [List.length_nil]
        omega

theorem mem_nodeHashes_lt (hhash : ∀ a b, hashPair a b < 2 ^ 256) (htxid : ∀ t ∈ vTxid, t < 2 ^ 256) {hash : Uint256}
    (h : hash ∈ nodeHashes hashPair vTxid vMatch height pos) : hash < 2 ^ 256 := by
  have hcalc : ∀ height pos, calcHash hashPair vTxid height pos < 2 ^ 256 := by
    intro height pos
    cases height with
    | zero =>
      by_cases hpos : pos < vTxid.length
      · rw [calcHash, List.getD_eq_getElem _ _ hpos]
        exact htxid _ (List.getElem_mem hpos)
      · rw [calcHash, List.getD_eq_default _ _ (Nat.le_of_not_lt hpos)]
        exact Nat.two_pow_pos 256
    | succ height => exact hhash _ _
  induction height generalizing pos with
  | zero =>
    rw [nodeHashes, List.mem_singleton] at h
    exact h ▸ hcalc 0 pos
  | succ height ih =>
    rw [nodeHashes] at h
    split at h
    · rw [List.mem_singleton] at h
      exact h ▸ hcalc _ _
    · rcases List.mem_append.mp h with h | h
      · exact ih h
      · split at h
        · exact ih h
        · cases h

end Sizes

/-! ## Bits in bytes -/

/-- The bits come back, filled up to whole bytes. -/
theorem unpackBits_packBits (vBits : List Bool) :
    unpackBits (packBits vBits) =
      vBits ++ List.replicate ((vBits.length + 7) / 8 * 8 - vBits.length) false := by
  have hlen : (packBits vBits).length = (vBits.length + 7) / 8 := by simp [packBits]
  refine List.ext_getElem ?_ fun p hp hp' => ?_
  · simp only [unpackBits, hlen, List.length_map, List.length_range, List.length_append, List.length_replicate]
    omega
  · have hbyte : p / 8 < (vBits.length + 7) / 8 := by
      simp only [unpackBits, hlen, List.length_map, List.length_range] at hp
      omega
    have hget : (packBits vBits).getD (p / 8) 0 = packByte (vBits.drop (8 * (p / 8))) := by
      rw [List.getD_eq_getElem _ _ (by rw [hlen]; exact hbyte)]
      simp [packBits]
    have hpos : 8 * (p / 8) + p % 8 = p := Nat.div_add_mod p 8
    have hbit : (unpackBits (packBits vBits))[p] = vBits.getD p false := by
      simp only [unpackBits, List.getElem_map, List.getElem_range]
      rw [hget, testBit_packByte _ (Nat.mod_lt _ (by decide))]
      simp only [List.getD_eq_getElem?_getD, List.getElem?_drop, hpos]
    rw [hbit]
    by_cases hin : p < vBits.length
    · rw [List.getElem_append_left hin, List.getD_eq_getElem _ _ hin]
    · rw [List.getElem_append_right (Nat.le_of_not_lt hin), List.getElem_replicate,
        List.getD_eq_default _ _ (Nat.le_of_not_lt hin)]

/-! ## The round trip -/

section RoundTrip

variable {tree : CPartialMerkleTree}

/-- On the wire the bits are filled up to whole bytes. -/
def padded (tree : CPartialMerkleTree) : CPartialMerkleTree :=
  { tree with
    vBits := tree.vBits ++ List.replicate ((tree.vBits.length + 7) / 8 * 8 - tree.vBits.length) false
    fBad := false }

theorem reads_unserialize (hn : tree.nTransactions < 2 ^ 32) (hhashes : tree.vHash.length ≤ Field.MAX_SIZE)
    (hbits : tree.vBits.length ≤ Field.MAX_SIZE) (hhash : ∀ hash ∈ tree.vHash, hash < 2 ^ 256) :
    Reads unserialize (serialize tree) tree.padded := by
  have hlen : (packBits tree.vBits).length ≤ Field.MAX_SIZE := by
    have hpack : (packBits tree.vBits).length = (tree.vBits.length + 7) / 8 := by simp [packBits]
    rw [hpack]
    have hmax : tree.vBits.length ≤ 0x02000000 := hbits
    show (tree.vBits.length + 7) / 8 ≤ 0x02000000
    omega
  have hnum : Reads (readLE 4) (toLE 4 tree.nTransactions) tree.nTransactions := reads_readLE hn
  have hvec : Reads (readVector readUint256) (writeVector writeUint256 tree.vHash) tree.vHash :=
    reads_readVector hhashes fun hash hmem => reads_readLE (hhash hash hmem)
  have hbytes := (reads_readVch hlen).bind_pure
    (g := fun vBytes => (⟨tree.nTransactions, unpackBits vBytes, tree.vHash, false⟩ : CPartialMerkleTree))
  rw [unpackBits_packBits] at hbytes
  exact hnum.bind (hvec.bind hbytes)

end RoundTrip

/-! ## Completeness -/

section Complete

variable {env : Env} {vTxid : List Uint256} {vMatch : List Bool}

/-- The transaction ids that the mask selects. -/
def selected (vTxid : List Uint256) (vMatch : List Bool) : List Uint256 :=
  ((vTxid.zip vMatch).filter (·.2)).map (·.1)

theorem map_filter_range_eq_selected (hlen : vMatch.length = vTxid.length) :
    ((List.range vTxid.length).filter fun p => vMatch.getD p false).map (fun p => vTxid.getD p 0) =
      selected vTxid vMatch := by
  induction vTxid generalizing vMatch with
  | nil => rfl
  | cons t vTxid ih =>
    cases vMatch with
    | nil => cases hlen
    | cons m vMatch =>
      have htail := ih (Nat.succ.inj hlen)
      rw [selected, List.length_cons, List.range_succ_eq_map, List.filter_cons, List.filter_map, List.zip_cons_cons,
        List.filter_cons]
      rw [selected] at htail
      cases m
      · simpa [Function.comp_def] using htail
      · simpa [Function.comp_def] using htail

/-- Below the root are all the transactions. -/
theorem nodeMatches_root (hlen : vMatch.length = vTxid.length) :
    nodeMatches vTxid vMatch (nHeight vTxid.length) 0 = selected vTxid vMatch := by
  obtain ⟨htop, -, -⟩ := nHeight_spec (n := vTxid.length)
  have hle : vTxid.length ≤ 2 ^ nHeight vTxid.length := by
    have hnot : ¬ 1 < calcTreeWidth vTxid.length (nHeight vTxid.length) := Nat.not_lt.mpr htop
    rw [lt_calcTreeWidth_iff, Nat.one_mul] at hnot
    exact Nat.le_of_not_lt hnot
  have hsplit : List.range' 0 (2 ^ nHeight vTxid.length) =
      List.range vTxid.length ++ List.range' vTxid.length (2 ^ nHeight vTxid.length - vTxid.length) := by
    have happend := List.range'_append_1 (s := 0) (m := vTxid.length) (n := 2 ^ nHeight vTxid.length - vTxid.length)
    rw [Nat.zero_add, Nat.add_sub_cancel' hle] at happend
    rw [List.range_eq_range', happend]
  rw [nodeMatches, matchedBelow, Nat.zero_mul, hsplit, List.filter_append, List.map_append]
  have hhigh : (List.range' vTxid.length (2 ^ nHeight vTxid.length - vTxid.length)).filter
      (fun p => decide (p < vTxid.length) && vMatch.getD p false) = [] := by
    refine List.filter_eq_nil_iff.mpr fun p hp => ?_
    have hp := (List.mem_range'_1.mp hp).1
    simp [Nat.not_lt.mpr hp]
  have hlow : (List.range vTxid.length).filter (fun p => decide (p < vTxid.length) && vMatch.getD p false) =
      (List.range vTxid.length).filter fun p => vMatch.getD p false := by
    refine List.filter_congr fun p hp => ?_
    simp [List.mem_range.mp hp]
  rw [hhigh, hlow, map_filter_range_eq_selected hlen, List.map_nil, List.append_nil]

theorem ofTxids_eq (hashPair : Uint256 → Uint256 → Uint256) (vTxid : List Uint256) (vMatch : List Bool) :
    ofTxids hashPair vTxid vMatch =
      ⟨vTxid.length, nodeBits vTxid vMatch (nHeight vTxid.length) 0,
        nodeHashes hashPair vTxid vMatch (nHeight vTxid.length) 0, false⟩ := by
  rw [ofTxids, traverseAndBuild_eq]
  rfl

theorem calcTreeWidth_root_pos (hne : vTxid ≠ []) : 0 < calcTreeWidth vTxid.length (nHeight vTxid.length) := by
  rw [lt_calcTreeWidth_iff, Nat.zero_mul]
  exact List.length_pos_iff_ne_nil.mpr hne

theorem length_nodeHashes_root (hne : vTxid ≠ []) :
    (nodeHashes env.hashPair vTxid vMatch (nHeight vTxid.length) 0).length ≤ vTxid.length := by
  have hle : (nodeHashes env.hashPair vTxid vMatch (nHeight vTxid.length) 0).length ≤
      min ((0 + 1) * 2 ^ nHeight vTxid.length) vTxid.length - 0 * 2 ^ nHeight vTxid.length :=
    length_nodeHashes_le (calcTreeWidth_root_pos hne)
  omega

/-- The tree is at most one level higher than the transactions need. -/
theorem length_nodeBits_root (hne : vTxid ≠ []) :
    (nodeBits vTxid vMatch (nHeight vTxid.length) 0).length < 4 * vTxid.length := by
  obtain ⟨-, -, hwide⟩ := nHeight_spec (n := vTxid.length)
  have hpos := List.length_pos_iff_ne_nil.mpr hne
  have hlt : (nodeBits vTxid vMatch (nHeight vTxid.length) 0).length < 2 ^ (nHeight vTxid.length + 1) :=
    length_nodeBits_lt
  generalize nHeight vTxid.length = height at hwide hlt ⊢
  cases height with
  | zero =>
    have hone : 2 ^ (0 + 1) = 2 := rfl
    omega
  | succ height =>
    have hlow := hwide height (Nat.lt_succ_self height)
    rw [lt_calcTreeWidth_iff, Nat.one_mul] at hlow
    have hpow : 2 ^ (height + 1 + 1) = 4 * 2 ^ height := by rw [pow_succ, pow_succ]; ring
    omega

/-- The tests at the start and at the end of `ExtractMatches` let an honest tree pass. -/
theorem extractMatches_padded (hne : vTxid ≠ []) (hmax : vTxid.length ≤ MAX_BLOCK_SIZE / 60)
    (hlen : vMatch.length = vTxid.length) :
    extractMatches env.hashPair (ofTxids env.hashPair vTxid vMatch).padded =
      (merkleRoot env vTxid.length vTxid, selected vTxid vMatch) := by
  have hpos := List.length_pos_iff_ne_nil.mpr hne
  have hhashes : (nodeHashes env.hashPair vTxid vMatch (nHeight vTxid.length) 0).length ≤ vTxid.length :=
    length_nodeHashes_root hne
  have hle : (nodeHashes env.hashPair vTxid vMatch (nHeight vTxid.length) 0).length ≤
      (nodeBits vTxid vMatch (nHeight vTxid.length) 0).length := length_nodeHashes_le_bits
  rw [ofTxids_eq, padded]
  dsimp only
  generalize hpad : (nodeBits vTxid vMatch (nHeight vTxid.length) 0).length = count at hle ⊢
  generalize htree : (⟨vTxid.length, nodeBits vTxid vMatch (nHeight vTxid.length) 0 ++
    List.replicate ((count + 7) / 8 * 8 - count) false, nodeHashes env.hashPair vTxid vMatch (nHeight vTxid.length) 0,
    false⟩ : CPartialMerkleTree) = tree
  have hwalk : traverseAndExtract env.hashPair tree (nHeight vTxid.length) 0
      ⟨([] : List Bool).length, ([] : List Uint256).length, [], false⟩ = _ :=
    traverseAndExtract_node (by rw [← htree]) (by rw [← htree]; rfl)
      (by rw [← htree]; exact (List.append_nil _).symm) (calcTreeWidth_root_pos hne)
  rw [calcHash_root hne, nodeMatches_root hlen, hpad] at hwalk
  have hn : tree.nTransactions = vTxid.length := by rw [← htree]
  have hvHash : tree.vHash.length = (nodeHashes env.hashPair vTxid vMatch (nHeight vTxid.length) 0).length := by
    rw [← htree]
  have hvBits : tree.vBits.length = (count + 7) / 8 * 8 := by
    rw [← htree, List.length_append, List.length_replicate, hpad]
    omega
  have hfBad : tree.fBad = false := by rw [← htree]
  unfold extractMatches
  rw [if_neg (by omega), hn, hfBad]
  simp only [List.length_nil, Nat.zero_add, List.nil_append] at hwalk
  rw [hwalk]
  dsimp only
  rw [if_neg]
  -- all bits but the padding and all hashes are used
  rintro (h | h | h)
  · cases h
  · exact h (by omega)
  · exact h hvHash.symm

/-- **Partial merkle trees are complete.** Built from transaction ids and a mask, written and read back, the tree gives
    the merkle root and the selected ids in their order. Transaction ids and hashes are 256 bits wide. -/
theorem extractMatches_complete (hhash : ∀ a b, env.hashPair a b < 2 ^ 256) (htxid : ∀ t ∈ vTxid, t < 2 ^ 256)
    (hne : vTxid ≠ []) (hmax : vTxid.length ≤ MAX_BLOCK_SIZE / 60) (hlen : vMatch.length = vTxid.length) :
    ∃ tree, unserialize (serialize (ofTxids env.hashPair vTxid vMatch)) = some (tree, []) ∧
      extractMatches env.hashPair tree = (merkleRoot env vTxid.length vTxid, selected vTxid vMatch) := by
  have hcount : vTxid.length ≤ 34952 := hmax
  have hread : Reads unserialize (serialize (ofTxids env.hashPair vTxid vMatch))
      (ofTxids env.hashPair vTxid vMatch).padded := by
    have hhashes : (nodeHashes env.hashPair vTxid vMatch (nHeight vTxid.length) 0).length ≤ vTxid.length :=
      length_nodeHashes_root hne
    have hbits : (nodeBits vTxid vMatch (nHeight vTxid.length) 0).length < 4 * vTxid.length := length_nodeBits_root hne
    rw [ofTxids_eq]
    refine reads_unserialize ?_ ?_ ?_ fun hash h => mem_nodeHashes_lt hhash htxid h
    · show vTxid.length < 4294967296
      omega
    · show (nodeHashes env.hashPair vTxid vMatch (nHeight vTxid.length) 0).length ≤ 0x02000000
      omega
    · show (nodeBits vTxid vMatch (nHeight vTxid.length) 0).length ≤ 0x02000000
      omega
  refine ⟨_, ?_, extractMatches_padded hne hmax hlen⟩
  have h := hread []
  rwa [List.append_nil] at h

/-- Five transactions, of which the second and the last are matched. -/
theorem extractMatches_five :
    ∃ tree, unserialize (serialize (ofTxids Cakenet.env.hashPair [10, 20, 30, 40, 50] [false, true, false, false, true]))
        = some (tree, []) ∧
      extractMatches Cakenet.env.hashPair tree = (merkleRoot Cakenet.env 5 [10, 20, 30, 40, 50], [20, 50]) :=
  extractMatches_complete (fun _ _ => Nat.mod_lt _ (Nat.two_pow_pos 256)) (by decide) (by decide) (by decide) rfl

end Complete

end CPartialMerkleTree

end Syscoin

/-! ## What a partial merkle tree proves

Bits and hashes come from a peer. Each is read behind a test that it is there, and a walk that comes back with the hash
of an honest node has met nothing but honest hashes below it, so that what it matched are transactions of the block in
their order. The number that `ExtractMatches` returns for a bad tree is zero, and a bad tree may have matched anything.
-/

namespace Syscoin

open Lib

namespace CPartialMerkleTree

section Accesses

variable {hashPair : Uint256 → Uint256 → Uint256} {tree : CPartialMerkleTree}

theorem useHashAccesses_eq (height : Nat) (fParentOfMatch : Bool) (cur : Cursor) :
    useHashAccesses tree height fParentOfMatch cur = .ok (useHash tree height fParentOfMatch cur) := by
  unfold useHashAccesses useHash
  by_cases hend : tree.vHash.length ≤ cur.nHashUsed
  · rw [if_pos hend, List.getElem?_eq_none hend]
  · have hread := List.getElem?_eq_getElem (Nat.lt_of_not_le hend)
    rw [if_neg hend, Access.element_eq hread, ok_bind, hread]

/-- The walk reads where there are bits and hashes. -/
theorem traverseAndExtractAccesses_eq (height pos : Nat) (cur : Cursor) :
    traverseAndExtractAccesses hashPair tree height pos cur = .ok (traverseAndExtract hashPair tree height pos cur) := by
  induction height generalizing pos cur with
  | zero =>
    rw [traverseAndExtractAccesses, traverseAndExtract]
    by_cases hend : tree.vBits.length ≤ cur.nBitsUsed
    · rw [if_pos hend, List.getElem?_eq_none hend]
    · have hread := List.getElem?_eq_getElem (Nat.lt_of_not_le hend)
      rw [if_neg hend, Access.element_eq hread, ok_bind, hread]
      exact useHashAccesses_eq _ _ _
  | succ height ih =>
    rw [traverseAndExtractAccesses, traverseAndExtract]
    by_cases hend : tree.vBits.length ≤ cur.nBitsUsed
    · rw [if_pos hend, List.getElem?_eq_none hend]
    · have hread := List.getElem?_eq_getElem (Nat.lt_of_not_le hend)
      rw [if_neg hend, Access.element_eq hread, ok_bind, hread]
      dsimp only
      split
      · exact useHashAccesses_eq _ _ _
      · rw [ih, ok_bind]
        split
        · rw [ih, ok_bind]
        · rfl

theorem extractMatchesAccesses_eq : extractMatchesAccesses hashPair tree = .ok (extractMatches hashPair tree) := by
  unfold extractMatchesAccesses extractMatches
  split
  · rfl
  · rw [traverseAndExtractAccesses_eq, ok_bind]
    dsimp only
    split
    · rfl
    · rfl

end Accesses

/-! ## The pairs that are hashed -/

section Pairs

variable (hashPair : Uint256 → Uint256 → Uint256) (tree : CPartialMerkleTree)

/-- The pairs that the walk below a node hashes. -/
def walkPairs : Nat → Nat → Cursor → List (Uint256 × Uint256)
  | 0, _, _ => []
  | height + 1, pos, cur =>
    match tree.vBits[cur.nBitsUsed]? with
    | none => []
    | some false => []
    | some true =>
      let cur := { cur with nBitsUsed := cur.nBitsUsed + 1 }
      let (left, cur') := traverseAndExtract hashPair tree height (pos * 2) cur
      if pos * 2 + 1 < calcTreeWidth tree.nTransactions height then
        let (right, _) := traverseAndExtract hashPair tree height (pos * 2 + 1) cur'
        (left, right) :: (walkPairs height (pos * 2) cur ++ walkPairs height (pos * 2 + 1) cur')
      else (left, left) :: walkPairs height (pos * 2) cur

/-- The pairs that `ExtractMatches` hashes. -/
def extractPairs : List (Uint256 × Uint256) :=
  walkPairs hashPair tree (nHeight tree.nTransactions) 0 ⟨0, 0, [], tree.fBad⟩

end Pairs

/-- The hashes of the two nodes below a node, or of the last one twice. -/
def childHashes (hashPair : Uint256 → Uint256 → Uint256) (vTxid : List Uint256) (height pos : Nat) : Uint256 × Uint256 :=
  (calcHash hashPair vTxid height (pos * 2),
    if pos * 2 + 1 < calcTreeWidth vTxid.length height then calcHash hashPair vTxid height (pos * 2 + 1)
    else calcHash hashPair vTxid height (pos * 2))

section Nodes

variable {env : Env} {hashPair : Uint256 → Uint256 → Uint256} {vTxid : List Uint256} {height pos : Nat}

theorem calcHash_succ :
    calcHash hashPair vTxid (height + 1) pos =
      hashPair (childHashes hashPair vTxid height pos).1 (childHashes hashPair vTxid height pos).2 := rfl

/-- What is hashed for a node is hashed for the merkle root. -/
theorem childHashes_mem (hheight : height < nHeight vTxid.length) (hpos : pos < calcTreeWidth vTxid.length (height + 1)) :
    childHashes env.hashPair vTxid height pos ∈ merklePairs env vTxid := by
  obtain ⟨-, -, hwide⟩ := nHeight_spec (n := vTxid.length)
  have hlen := length_iterate_levelUp env.hashPair vTxid height
  rw [calcTreeWidth_succ] at hpos
  have hleft : pos * 2 < calcTreeWidth vTxid.length height := by omega
  have hlevel : IsLevel env.hashPair vTxid ((levelUp env.hashPair)^[height] vTxid) := by
    refine isLevel_iterate fun j hj => ?_
    rw [length_iterate_levelUp]
    exact hwide j (by omega)
  have hpair : childHashes env.hashPair vTxid height pos ∈ levelPairs ((levelUp env.hashPair)^[height] vTxid) := by
    have hget := levelPairs_getElem? (0 : Uint256) (hlen.symm ▸ hleft)
    rw [hlen] at hget
    refine List.mem_of_getElem? (hget.trans ?_)
    rw [childHashes, calcHash_eq _ hleft]
    by_cases hright : pos * 2 + 1 < calcTreeWidth vTxid.length height
    · rw [if_pos hright, if_pos hright, calcHash_eq _ hright]
    · rw [if_neg hright, if_neg hright]
  exact hashed_subset_treePairs (Nat.le_refl _) ⟨_, hlevel, hlen.symm ▸ hwide height hheight, hpair⟩

/-- The ids of the transactions below a node. -/
def txidsBelow (vTxid : List Uint256) (height pos : Nat) : List Uint256 :=
  (vTxid.drop (pos * 2 ^ height)).take (2 ^ height)

theorem txidsBelow_zero (hpos : pos < vTxid.length) : txidsBelow vTxid 0 pos = [calcHash hashPair vTxid 0 pos] := by
  have hdrop : vTxid.drop (pos * 2 ^ 0) = vTxid[pos] :: vTxid.drop (pos + 1) := by
    rw [pow_zero, Nat.mul_one]
    exact List.drop_eq_getElem_cons hpos
  rw [txidsBelow, hdrop, calcHash, List.getD_eq_getElem _ _ hpos]
  rfl

theorem txidsBelow_succ :
    txidsBelow vTxid (height + 1) pos = txidsBelow vTxid height (pos * 2) ++ txidsBelow vTxid height (pos * 2 + 1) := by
  have hstart : pos * 2 ^ (height + 1) = pos * 2 * 2 ^ height := by rw [pow_succ]; ring
  have hmid : (pos * 2 + 1) * 2 ^ height = pos * 2 * 2 ^ height + 2 ^ height := by ring
  have hlen : 2 ^ (height + 1) = 2 ^ height + 2 ^ height := by rw [pow_succ]; ring
  rw [txidsBelow, txidsBelow, txidsBelow, hstart, hmid, hlen, List.take_add, List.drop_drop]

end Nodes

/-! ## Soundness -/

/-- Between two points of the walk transactions below the node were matched, in their order. -/
def Found (vTxid : List Uint256) (height pos : Nat) (cur cur' : Cursor) : Prop :=
  ∃ matched, cur'.vMatch = cur.vMatch ++ matched ∧ matched.Sublist (txidsBelow vTxid height pos)

section Sound

variable {env : Env} {tree : CPartialMerkleTree} {block : CBlock} {vTxid : List Uint256} {height pos : Nat}
  {cur cur' cur₁ cur₂ : Cursor} {hash : Uint256}

theorem Found.none (h : cur'.vMatch = cur.vMatch) : Found vTxid height pos cur cur' :=
  ⟨[], by rw [h, List.append_nil], List.nil_sublist _⟩

theorem Found.left (h : Found vTxid height (pos * 2) cur cur') : Found vTxid (height + 1) pos cur cur' := by
  obtain ⟨matched, heq, hsub⟩ := h
  refine ⟨matched, heq, ?_⟩
  rw [txidsBelow_succ]
  exact hsub.trans (List.sublist_append_left _ _)

theorem Found.both (hleft : Found vTxid height (pos * 2) cur cur₁) (hright : Found vTxid height (pos * 2 + 1) cur₁ cur') :
    Found vTxid (height + 1) pos cur cur' := by
  obtain ⟨matched, heq, hsub⟩ := hleft
  obtain ⟨matched', heq', hsub'⟩ := hright
  refine ⟨matched ++ matched', by rw [heq', heq, List.append_assoc], ?_⟩
  rw [txidsBelow_succ]
  exact hsub.append hsub'

/-- What a stored hash adds to the matches. -/
theorem useHash_matches {fParentOfMatch : Bool} (h : useHash tree height fParentOfMatch cur = (hash, cur')) :
    cur'.vMatch = cur.vMatch ∨ height = 0 ∧ cur'.vMatch = cur.vMatch ++ [hash] := by
  unfold useHash at h
  split at h
  · cases h
    exact .inl rfl
  · cases h
    dsimp only
    split
    · rename_i hmatch
      exact .inr ⟨hmatch.1, rfl⟩
    · exact .inl rfl

/-- **One node.** A walk that comes back with the hash of the node has matched transactions below it, in their order. -/
theorem traverseAndExtract_sound (hn : tree.nTransactions = vTxid.length) (hheight : height ≤ nHeight vTxid.length)
    (hpos : pos < calcTreeWidth vTxid.length height)
    (apart : ∀ p ∈ merklePairs env vTxid, ∀ q ∈ walkPairs env.hashPair tree height pos cur,
      env.hashPair q.1 q.2 = env.hashPair p.1 p.2 → q = p)
    (h : traverseAndExtract env.hashPair tree height pos cur = (hash, cur'))
    (hhash : hash = calcHash env.hashPair vTxid height pos) : Found vTxid height pos cur cur' := by
  induction height generalizing pos cur cur' hash with
  | zero =>
    rw [calcTreeWidth_zero] at hpos
    rw [traverseAndExtract] at h
    cases hbit : tree.vBits[cur.nBitsUsed]? with
    | none =>
      rw [hbit] at h
      cases h
      exact .none rfl
    | some fParentOfMatch =>
      rw [hbit] at h
      rcases useHash_matches h with hsame | ⟨-, hadd⟩
      · exact .none hsame
      · exact ⟨_, hadd, by rw [txidsBelow_zero hpos, hhash]⟩
  | succ height ih =>
    rw [traverseAndExtract, hn] at h
    rw [walkPairs, hn] at apart
    cases hbit : tree.vBits[cur.nBitsUsed]? with
    | none =>
      rw [hbit] at h
      cases h
      exact .none rfl
    | some fParentOfMatch =>
      rw [hbit] at h apart
      cases fParentOfMatch with
      | false =>
        rcases useHash_matches h with hsame | ⟨hzero, -⟩
        · exact .none hsame
        · cases hzero
      | true =>
        dsimp only [Bool.true_eq_false, if_false] at h apart
        have hpair : childHashes env.hashPair vTxid height pos ∈ merklePairs env vTxid :=
          childHashes_mem (Nat.lt_of_succ_le hheight) hpos
        rw [calcTreeWidth_succ] at hpos
        have hleft : pos * 2 < calcTreeWidth vTxid.length height := by omega
        obtain ⟨left, cur₁, hL⟩ : ∃ left cur₁, traverseAndExtract env.hashPair tree height (pos * 2)
            { cur with nBitsUsed := cur.nBitsUsed + 1 } = (left, cur₁) := ⟨_, _, rfl⟩
        rw [hL] at h apart
        rw [calcHash_succ] at hhash
        by_cases hright : pos * 2 + 1 < calcTreeWidth vTxid.length height
        · rw [if_pos hright] at apart
          simp only [if_pos hright] at h
          obtain ⟨right, cur₂, hR⟩ : ∃ right cur₂,
              traverseAndExtract env.hashPair tree height (pos * 2 + 1) cur₁ = (right, cur₂) := ⟨_, _, rfl⟩
          rw [hR] at h apart
          cases h
          -- the hash is that of the honest children, and so the children are the honest ones
          have heq := apart _ hpair (left, right) List.mem_cons_self hhash
          rw [childHashes, if_pos hright] at heq
          have hfoundL := ih (by omega) hleft
            (fun p hp q hq => apart p hp q (List.mem_cons_of_mem _ (List.mem_append_left _ hq))) hL (Prod.mk.inj heq).1
          have hfoundR := ih (by omega) hright
            (fun p hp q hq => apart p hp q (List.mem_cons_of_mem _ (List.mem_append_right _ hq))) hR (Prod.mk.inj heq).2
          exact Found.both hfoundL hfoundR
        · rw [if_neg hright] at apart
          simp only [if_neg hright] at h
          cases h
          have heq := apart _ hpair (left, left) List.mem_cons_self hhash
          rw [childHashes, if_neg hright] at heq
          have hfoundL := ih (by omega) hleft (fun p hp q hq => apart p hp q (List.mem_cons_of_mem _ hq)) hL
            (Prod.mk.inj heq).1
          exact Found.left hfoundL

/-- **Partial merkle trees are sound.** No read of a received tree is out of range. If it has as many transactions as a
    block, and the hash tells the pairs hashed for the block from the others that are hashed for the tree, then a tree
    that gives the block's merkle root has matched transactions of the block, in their order. The root must not be the
    number that stands for a bad tree. -/
theorem extractMatches_sound (tree : CPartialMerkleTree) (block : CBlock) (env : Env) :
    extractMatchesAccesses env.hashPair tree = .ok (extractMatches env.hashPair tree) ∧
      (tree.nTransactions = block.vtx.length →
        Set.InjOn (fun p : Uint256 × Uint256 => env.hashPair p.1 p.2)
          { p | p ∈ merklePairs env (block.txHashes env) ++ extractPairs env.hashPair tree } →
        block.buildMerkleTree env ≠ 0 → (extractMatches env.hashPair tree).1 = block.buildMerkleTree env →
        (extractMatches env.hashPair tree).2.Sublist (block.txHashes env)) := by
  refine ⟨extractMatchesAccesses_eq, ?_⟩
  intro hn apart hroot heq
  have hlen : (block.txHashes env).length = block.vtx.length := List.length_map ..
  rw [CBlock.buildMerkleTree, ← hlen] at hroot heq
  rw [← hlen] at hn
  have hne : block.txHashes env ≠ [] := by
    intro hnil
    apply hroot
    show merkleRoot env (block.txHashes env).length (block.txHashes env) = 0
    rw [hnil]
    rfl
  unfold extractMatches at heq ⊢
  obtain ⟨hash, cur, hwalk⟩ : ∃ hash cur, traverseAndExtract env.hashPair tree (nHeight tree.nTransactions) 0
      ⟨0, 0, [], tree.fBad⟩ = (hash, cur) := ⟨_, _, rfl⟩
  split at heq
  · exact absurd heq.symm hroot
  · rename_i hsizes
    rw [if_neg hsizes]
    rw [hwalk] at heq ⊢
    dsimp only at heq ⊢
    split at heq
    · exact absurd heq.symm hroot
    · rename_i hgood
      rw [if_neg hgood]
      rw [hn] at hwalk
      -- the walk starts at the root, where the hash is the block's
      have hfound : Found (block.txHashes env) (nHeight (block.txHashes env).length) 0 ⟨0, 0, [], tree.fBad⟩ cur := by
        refine traverseAndExtract_sound hn (Nat.le_refl _) (calcTreeWidth_root_pos hne) ?_ hwalk ?_
        · intro p hp q hq hpq
          refine apart (List.mem_append_right _ ?_) (List.mem_append_left _ hp) hpq
          rw [extractPairs, hn]
          exact hq
        · rw [calcHash_root hne]
          exact heq
      obtain ⟨matched, hmatched, hsub⟩ := hfound
      rw [List.nil_append] at hmatched
      rw [hmatched]
      refine hsub.trans ?_
      rw [txidsBelow, Nat.zero_mul, List.drop_zero]
      exact List.take_sublist _ _

end Sound

end CPartialMerkleTree

/-! ## Three transactions, and a root that is zero -/

namespace Cakenet

open CPartialMerkleTree

/-- The tree of three transactions with the second one matched. -/
def secondMatched : CPartialMerkleTree :=
  (ofTxids env.hashPair (threeTxs.block.txHashes env) [false, true, false]).padded

theorem second_matched :
    (extractMatches env.hashPair secondMatched).2.Sublist (threeTxs.block.txHashes env) := by
  refine (extractMatches_sound secondMatched threeTxs.block env).2 (by decide +kernel) ?_ (by decide +kernel)
    (by decide +kernel)
  show ∀ p ∈ merklePairs env (threeTxs.block.txHashes env) ++ extractPairs env.hashPair secondMatched,
    ∀ q ∈ merklePairs env (threeTxs.block.txHashes env) ++ extractPairs env.hashPair secondMatched, _
  decide +kernel

example : extractMatches env.hashPair (ofTxids env.hashPair [5, 7, 9] [false, true, false]).padded =
    (calcHash env.hashPair [5, 7, 9] 2 0, [7]) := by
  decide +kernel

/-- A hash under which the one transaction of a block has the id zero. -/
def zeroEnv : Env := { env with getHash := fun _ => 0, hashPair := Nat.pair }

def oneTx : CBlock := { threeTxs.block with vtx := [offerNewTx] }

/-- A hash for the one transaction, and a byte of bits more than the walk uses. -/
def leftOver : CPartialMerkleTree := ⟨1, List.replicate 16 true, [5], false⟩

/-- **A bad tree gives zero**, with a transaction that the block does not have. -/
theorem bad_tree_matches_stranger :
    (∀ a b c d, zeroEnv.hashPair a b = zeroEnv.hashPair c d → a = c ∧ b = d) ∧
      unserialize (serialize leftOver) = some (leftOver, []) ∧ leftOver.nTransactions = oneTx.vtx.length ∧
      (extractMatches zeroEnv.hashPair leftOver).1 = oneTx.buildMerkleTree zeroEnv ∧
      ¬ (extractMatches zeroEnv.hashPair leftOver).2.Sublist (oneTx.txHashes zeroEnv) :=
  ⟨fun _ _ _ _ h => Nat.pair_eq_pair.mp h, by decide, rfl, by decide, by decide⟩

end Cakenet

end Syscoin

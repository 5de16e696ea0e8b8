import Mathlib.Data.Nat.Bitwise
import Mathlib.Data.Set.Function
import Mathlib.Data.List.Nodup
import Mathlib.Logic.Relation

/-!
# `Lib.Merkle` — the root that a branch leads to

A branch lists the other node at every level, and the bits of an index say on which side it is. The hash is a parameter.
No hash of fixed width is injective, so what is asked of it is that it tells apart the pairs that were hashed.

The tree over a list pairs neighbours at every level, the last of an odd level with itself. Two lists may share a root,
then, but not two lists without repetitions: `eq_of_top`. The branch of a leaf is read off the tree, and leads to the
root: `branchRoot_branchOf`.
-/

namespace Lib

variable {α : Type} (H : α → α → α)

/-- The two nodes of a level, in order. -/
def branchPair (hash otherside : α) (nIndex : Int) : α × α :=
  if nIndex % 2 = 1 then (otherside, hash) else (hash, otherside)

def branchRoot : α → List α → Int → α
  | hash, [], _ => hash
  | hash, otherside :: branch, nIndex =>
    branchRoot (H (branchPair hash otherside nIndex).1 (branchPair hash otherside nIndex).2) branch (nIndex / 2)

/-- The pairs that are hashed on the way to the root. -/
def branchPairs : α → List α → Int → List (α × α)
  | _, [], _ => []
  | hash, otherside :: branch, nIndex =>
    branchPair hash otherside nIndex ::
      branchPairs (H (branchPair hash otherside nIndex).1 (branchPair hash otherside nIndex).2) branch (nIndex / 2)

theorem branchPair_inj {hash hash' otherside otherside' : α} {nIndex : Int}
    (h : branchPair hash otherside nIndex = branchPair hash' otherside' nIndex) :
    hash = hash' ∧ otherside = otherside' := by
  unfold branchPair at h
  split at h
  · exact ⟨(Prod.mk.inj h).2, (Prod.mk.inj h).1⟩
  · exact ⟨(Prod.mk.inj h).1, (Prod.mk.inj h).2⟩

/-- **A root pins its leaf.** Two branches of the same length at the same index that lead to the same root start from the
    same leaf, unless two different pairs on the way have the same hash. -/
theorem branchRoot_inj {branch branch' : List α} {hash hash' : α} {nIndex : Int}
    (hlen : branch.length = branch'.length)
    (hinj : Set.InjOn (fun p : α × α => H p.1 p.2)
      {p | p ∈ branchPairs H hash branch nIndex ∨ p ∈ branchPairs H hash' branch' nIndex})
    (heq : branchRoot H hash branch nIndex = branchRoot H hash' branch' nIndex) : hash = hash' := by
  induction branch generalizing branch' hash hash' nIndex with
  | nil =>
    obtain rfl : branch' = [] := List.length_eq_zero_iff.mp hlen.symm
    exact heq
  | cons otherside branch ih =>
    cases branch' with
    | nil => cases hlen
    | cons otherside' branch' =>
      -- the level above first: its two nodes are hashes of the pairs here
      have hnode := ih (Nat.succ.inj hlen) (hinj.mono ?_) heq
      · have hpair := hinj (.inl List.mem_cons_self) (.inr List.mem_cons_self) hnode
        exact (branchPair_inj hpair).1
      · rintro p (hp | hp)
        · exact .inl (List.mem_cons_of_mem _ hp)
        · exact .inr (List.mem_cons_of_mem _ hp)

/-! ## The tree over a list -/

/-- The pairs hashed at one level. -/
def levelPairs : List α → List (α × α)
  | [] => []
  | [a] => [(a, a)]
  | a :: b :: rest => (a, b) :: levelPairs rest

/-- The next level. -/
def levelUp (l : List α) : List α := (levelPairs l).map fun p => H p.1 p.2

/-- Up one level, while there is more than one node. -/
inductive LevelStep (l : List α) : List α → Prop where
  | up (h : 1 < l.length) : LevelStep l (levelUp H l)

/-- `m` is a level of the tree over `l`. -/
abbrev IsLevel (l m : List α) : Prop := Relation.ReflTransGen (LevelStep H) l m

/-- The pairs hashed in the tree over a list; its length is fuel enough. -/
def treePairs : Nat → List α → List (α × α)
  | 0, _ => []
  | fuel + 1, l => if 1 < l.length then levelPairs l ++ treePairs fuel (levelUp H l) else []

/-- The same as a set. -/
def Hashed (l : List α) : Set (α × α) := { p | ∃ m, IsLevel H l m ∧ 1 < m.length ∧ p ∈ levelPairs m }

section Tree

variable {H} {l l' m : List α} {r : α} {S : Set (α × α)}

theorem length_levelPairs (l : List α) : (levelPairs l).length = (l.length + 1) / 2 := by
  induction l using levelPairs.induct with
  | case1 => simp [levelPairs]
  | case2 a => simp [levelPairs]
  | case3 a b rest ih =>
    simp only [levelPairs, List.length_cons, ih]
    omega

theorem length_levelUp (l : List α) : (levelUp H l).length = (l.length + 1) / 2 := by
  rw [levelUp, List.length_map, length_levelPairs]

/-- The two nodes below a node, or the last one twice. -/
theorem levelPairs_getElem? {pos : Nat} (d : α) (h : pos * 2 < l.length) :
    (levelPairs l)[pos]? =
      some (l.getD (pos * 2) d, l.getD (if pos * 2 + 1 < l.length then pos * 2 + 1 else pos * 2) d) := by
  induction l using levelPairs.induct generalizing pos with
  | case1 => simp at h
  | case2 a =>
    obtain rfl : pos = 0 := by
      rw [List.length_singleton] at h
      omega
    simp [levelPairs]
  | case3 a b rest ih =>
    cases pos with
    | zero => simp [levelPairs]
    | succ pos =>
      have hrest : pos * 2 < rest.length := by
        simp only [List.length_cons] at h
        omega
      have hleft : (pos + 1) * 2 = pos * 2 + 2 := by omega
      have hiff : pos * 2 + 2 + 1 < (a :: b :: rest).length ↔ pos * 2 + 1 < rest.length := by
        simp only [List.length_cons]
        omega
      rw [levelPairs, List.getElem?_cons_succ, ih hrest, hleft]
      by_cases hr : pos * 2 + 1 < rest.length
      · rw [if_pos hr, if_pos (hiff.mpr hr)]
        rfl
      · rw [if_neg hr, if_neg (fun h => hr (hiff.mp h))]
        rfl

/-- A node is the hash of the two below it, or of the last one below it twice. -/
theorem levelUp_getD {pos : Nat} (d : α) (h : pos * 2 < l.length) :
    (levelUp H l).getD pos d =
      H (l.getD (pos * 2) d) (l.getD (if pos * 2 + 1 < l.length then pos * 2 + 1 else pos * 2) d) := by
  rw [List.getD_eq_getElem?_getD, levelUp, List.getElem?_map, levelPairs_getElem? d h]
  rfl

theorem mem_of_mem_levelPairs {p : α × α} (h : p ∈ levelPairs l) : p.1 ∈ l ∧ p.2 ∈ l := by
  induction l using levelPairs.induct with
  | case1 => cases h
  | case2 a =>
    rw [levelPairs, List.mem_singleton] at h
    simp [h]
  | case3 a b rest ih =>
    rcases List.mem_cons.mp h with rfl | h
    · simp
    · exact ⟨by simp [(ih h).1], by simp [(ih h).2]⟩

theorem nodup_levelPairs (h : l.Nodup) : (levelPairs l).Nodup := by
  induction l using levelPairs.induct with
  | case1 => exact List.nodup_nil
  | case2 a => exact List.nodup_singleton _
  | case3 a b rest ih =>
    rw [List.nodup_cons, List.nodup_cons] at h
    refine List.nodup_cons.mpr ⟨fun hmem => ?_, ih h.2.2⟩
    exact h.1 (List.mem_cons_of_mem _ (mem_of_mem_levelPairs hmem).1)

/-- **The pairs give the level back** when no node is in it twice: only the last of an odd level is paired with
    itself. -/
theorem levelPairs_inj (hl : l.Nodup) (hl' : l'.Nodup) (h : levelPairs l = levelPairs l') : l = l' := by
  induction l using levelPairs.induct generalizing l' with
  | case1 =>
    cases l' using levelPairs.fun_cases with
    | case1 => rfl
    | case2 a => cases h
    | case3 a b rest => cases h
  | case2 a =>
    cases l' using levelPairs.fun_cases with
    | case1 => cases h
    | case2 a' =>
      cases h
      rfl
    | case3 a' b' rest =>
      simp only [levelPairs, List.cons.injEq, Prod.mk.injEq] at h
      obtain ⟨⟨rfl, rfl⟩, -⟩ := h
      simp at hl'
  | case3 a b rest ih =>
    cases l' using levelPairs.fun_cases with
    | case1 => cases h
    | case2 a' =>
      simp only [levelPairs, List.cons.injEq, Prod.mk.injEq] at h
      obtain ⟨⟨rfl, rfl⟩, -⟩ := h
      simp at hl
    | case3 a' b' rest' =>
      simp only [levelPairs, List.cons.injEq, Prod.mk.injEq] at h
      obtain ⟨⟨rfl, rfl⟩, htail⟩ := h
      rw [ih (List.nodup_cons.mp (List.nodup_cons.mp hl).2).2 (List.nodup_cons.mp (List.nodup_cons.mp hl').2).2 htail]

theorem nodup_levelUp (h : l.Nodup) (hinj : Set.InjOn (fun p : α × α => H p.1 p.2) { p | p ∈ levelPairs l }) :
    (levelUp H l).Nodup :=
  (nodup_levelPairs h).map_on fun _ hp _ hq heq => hinj hp hq heq

theorem map_inj_of_injOn {β γ : Type} {f : β → γ} {ps qs : List β} {S : Set β} (hinj : Set.InjOn f S) (hps : ∀ p ∈ ps, p ∈ S)
    (hqs : ∀ q ∈ qs, q ∈ S) (h : ps.map f = qs.map f) : ps = qs := by
  induction ps generalizing qs with
  | nil => exact (List.map_eq_nil_iff.mp h.symm).symm
  | cons p ps ih =>
    cases qs with
    | nil => cases h
    | cons q qs =>
      rw [List.forall_mem_cons] at hps hqs
      rw [List.map_cons, List.map_cons, List.cons.injEq] at h
      rw [hinj hps.1 hqs.1 h.1, ih hps.2 hqs.2 h.2]

/-- One level determines the one below it. -/
theorem levelUp_inj (hl : l.Nodup) (hl' : l'.Nodup) (hinj : Set.InjOn (fun p : α × α => H p.1 p.2) S)
    (hS : ∀ p ∈ levelPairs l, p ∈ S) (hS' : ∀ p ∈ levelPairs l', p ∈ S) (h : levelUp H l = levelUp H l') : l = l' := by
  refine levelPairs_inj hl hl' ?_
  exact map_inj_of_injOn hinj hS hS' h

/-- From the next level on the levels are the same. -/
theorem IsLevel.tail (h : IsLevel H l m) (hlen : 1 < m.length) : IsLevel H l (levelUp H m) :=
  Relation.ReflTransGen.tail h (.up hlen)

theorem isLevel_of_levelUp (hlen : 1 < l.length) (h : IsLevel H (levelUp H l) m) : IsLevel H l m :=
  Relation.ReflTransGen.head (.up hlen) h

/-- Levels of more than one node are all levels of the tree. -/
theorem isLevel_iterate {k : Nat} (hwide : ∀ j < k, 1 < ((levelUp H)^[j] l).length) : IsLevel H l ((levelUp H)^[k] l) := by
  induction k with
  | zero => exact .refl
  | succ k ih =>
    rw [Function.iterate_succ_apply']
    have hlevel := ih fun j hj => hwide j (by omega)
    exact hlevel.tail (hwide k (Nat.lt_succ_self k))

theorem hashed_levelUp (hlen : 1 < l.length) : Hashed H (levelUp H l) ⊆ Hashed H l := by
  rintro p ⟨m, hm, hp⟩
  exact ⟨m, isLevel_of_levelUp hlen hm, hp⟩

theorem levelPairs_subset_hashed (hlen : 1 < l.length) : ∀ p ∈ levelPairs l, p ∈ Hashed H l :=
  fun _ hp => ⟨l, .refl, hlen, hp⟩

theorem hashed_subset_treePairs {fuel : Nat} (hfuel : l.length ≤ fuel) {p : α × α} (hp : p ∈ Hashed H l) :
    p ∈ treePairs H fuel l := by
  obtain ⟨m, hm, hlen, hp⟩ := hp
  induction fuel generalizing l with
  | zero =>
    obtain rfl := List.length_eq_zero_iff.mp (Nat.le_zero.mp hfuel)
    rcases Relation.ReflTransGen.cases_head hm with rfl | ⟨_, hstep, -⟩
    · simp at hlen
    · cases hstep with
      | up h => simp at h
  | succ fuel ih =>
    rcases Relation.ReflTransGen.cases_head hm with rfl | ⟨_, hstep, hm⟩
    · rw [treePairs, if_pos hlen]
      exact List.mem_append_left _ hp
    · cases hstep with
      | up h =>
        have hshort : (levelUp H l).length ≤ fuel := by
          rw [length_levelUp]
          omega
        rw [treePairs, if_pos h]
        exact List.mem_append_right _ (ih hshort hm)

/-- Without repetitions at the bottom there are none further up. -/
theorem IsLevel.nodup (h : IsLevel H l m) (hl : l.Nodup)
    (hinj : Set.InjOn (fun p : α × α => H p.1 p.2) (Hashed H l)) : m.Nodup := by
  induction h with
  | refl => exact hl
  | @tail m _ hm hstep ih =>
    cases hstep with
    | up hlen =>
      have hsub : { p | p ∈ levelPairs m } ⊆ Hashed H l := fun p hp => ⟨m, hm, hlen, hp⟩
      exact nodup_levelUp ih (hinj.mono hsub)

theorem IsLevel.next (h : IsLevel H l [r]) (hlen : 1 < l.length) : IsLevel H (levelUp H l) [r] := by
  rcases Relation.ReflTransGen.cases_head h with rfl | ⟨m, hstep, hm⟩
  · simp at hlen
  · cases hstep with
    | up _ => exact hm

/-- A list with no next level is its own top. -/
theorem IsLevel.eq_top (h : IsLevel H l [r]) (hlen : ¬ 1 < l.length) : l = [r] := by
  rcases Relation.ReflTransGen.cases_head h with rfl | ⟨m, hstep, -⟩
  · rfl
  · cases hstep with
    | up hup => exact absurd hup hlen

/-- One level down on both sides. -/
theorem IsLevel.down (hl : l.Nodup) (hl' : l'.Nodup)
    (hinj : Set.InjOn (fun p : α × α => H p.1 p.2) (Hashed H l ∪ Hashed H l')) (hlen : 1 < l.length)
    (hlen' : 1 < l'.length) (h : IsLevel H (levelUp H l') (levelUp H l)) : IsLevel H l' l := by
  have hpairs : ∀ p ∈ levelPairs l, p ∈ Hashed H l ∪ Hashed H l' :=
    fun p hp => .inl (levelPairs_subset_hashed hlen p hp)
  rcases Relation.ReflTransGen.cases_tail h with heq | ⟨m, hm, hstep⟩
  · have hpairs' : ∀ p ∈ levelPairs l', p ∈ Hashed H l ∪ Hashed H l' :=
      fun p hp => .inr (levelPairs_subset_hashed hlen' p hp)
    rw [levelUp_inj hl hl' hinj hpairs hpairs' heq]
  · generalize hup : levelUp H l = u at hstep
    cases hstep with
    | up hmlen =>
      have hm := isLevel_of_levelUp hlen' hm
      have hmnodup := hm.nodup hl' (hinj.mono Set.subset_union_right)
      rw [levelUp_inj hl hmnodup hinj hpairs (fun p hp => .inr ⟨m, hm, hmlen, hp⟩) hup]
      exact hm

/-- **Of two lists with a common top, one is a level of the tree over the other.** Down from the top, one level after
    the other is the same. -/
theorem isLevel_or_of_top (hl : l.Nodup) (hl' : l'.Nodup)
    (hinj : Set.InjOn (fun p : α × α => H p.1 p.2) (Hashed H l ∪ Hashed H l')) (h : IsLevel H l [r])
    (h' : IsLevel H l' [r]) : IsLevel H l' l ∨ IsLevel H l l' := by
  induction hn : l.length using Nat.strong_induction_on generalizing l l' with
  | _ n ih =>
    subst hn
    by_cases hlen : 1 < l.length
    · by_cases hlen' : 1 < l'.length
      · have hnodup := IsLevel.nodup (.single (.up hlen)) hl (hinj.mono Set.subset_union_left)
        have hnodup' := IsLevel.nodup (.single (.up hlen')) hl' (hinj.mono Set.subset_union_right)
        have hup := hinj.mono (Set.union_subset_union (hashed_levelUp hlen) (hashed_levelUp hlen'))
        have hshort : (levelUp H l).length < l.length := by
          rw [length_levelUp]
          omega
        rcases ih _ hshort hnodup hnodup' hup (h.next hlen) (h'.next hlen') rfl with hlow | hlow
        · exact .inl (hlow.down hl hl' hinj hlen hlen')
        · rw [Set.union_comm] at hinj
          exact .inr (hlow.down hl' hl hinj hlen' hlen)
      · rw [h'.eq_top hlen']
        exact .inr h
    · rw [h.eq_top hlen]
      exact .inl h'

/-- A level that is no hash of a pair is the bottom. -/
theorem IsLevel.eq_of_not_hash (h : IsLevel H l' l) (hne : l ≠ [])
    (hleaf : ∀ a ∈ l, ∀ p ∈ Hashed H l', a ≠ H p.1 p.2) : l = l' := by
  rcases Relation.ReflTransGen.cases_tail h with heq | ⟨m, hm, hstep⟩
  · exact heq
  · cases hstep with
    | up hlen =>
      obtain ⟨a, ha⟩ := List.exists_mem_of_ne_nil _ hne
      obtain ⟨p, hp, rfl⟩ := List.mem_map.mp ha
      exact absurd rfl (hleaf _ ha p ⟨m, hm, hlen, hp⟩)

/-- **A top pins its list**, of whatever length, among the lists without repetitions whose nodes are no hashes of
    pairs. -/
theorem eq_of_top (hl : l.Nodup) (hl' : l'.Nodup)
    (hinj : Set.InjOn (fun p : α × α => H p.1 p.2) (Hashed H l ∪ Hashed H l'))
    (hleaf : ∀ a ∈ l, ∀ p ∈ Hashed H l', a ≠ H p.1 p.2) (hleaf' : ∀ a ∈ l', ∀ p ∈ Hashed H l, a ≠ H p.1 p.2)
    (h : IsLevel H l [r]) (h' : IsLevel H l' [r]) : l = l' := by
  have hne : l ≠ [] := by
    rintro rfl
    exact absurd (h.eq_top (by simp)) (by simp)
  have hne' : l' ≠ [] := by
    rintro rfl
    exact absurd (h'.eq_top (by simp)) (by simp)
  rcases isLevel_or_of_top hl hl' hinj h h' with hlow | hlow
  · exact hlow.eq_of_not_hash hne hleaf
  · exact (hlow.eq_of_not_hash hne' hleaf').symm

end Tree

/-! ## The branch of a leaf -/

section Branch

/-- The other node at every level on the way from a position to the top. Past the end of an odd level it is the last
    node once more. -/
def branchOf (d : α) : Nat → List α → Nat → List α
  | 0, _, _ => []
  | fuel + 1, l, i =>
    if 1 < l.length then l.getD (min (i ^^^ 1) (l.length - 1)) d :: branchOf d fuel (levelUp H l) (i / 2) else []

/-- The levels of a tree, one behind the other. -/
def flatLevels : Nat → List α → List α
  | 0, l => l
  | fuel + 1, l => if 1 < l.length then l ++ flatLevels fuel (levelUp H l) else l

variable {H} {l : List α} {d r : α} {fuel i : Nat}

/-- A node and its sibling, in order, are the pair below the node above them. -/
theorem branchPair_sibling (hi : i < l.length) :
    branchPair (l.getD i d) (l.getD (min (i ^^^ 1) (l.length - 1)) d) i =
      (l.getD (i / 2 * 2) d, l.getD (if i / 2 * 2 + 1 < l.length then i / 2 * 2 + 1 else i / 2 * 2) d) := by
  rcases Nat.even_or_odd i with heven | hodd
  · have hmod := Nat.even_iff.mp heven
    have hleft : i / 2 * 2 = i := by omega
    have hside : ¬ (i : Int) % 2 = 1 := by omega
    rw [branchPair, if_neg hside, Nat.xor_one_of_even heven, hleft]
    by_cases hlast : i + 1 < l.length
    · rw [if_pos hlast, Nat.min_eq_left (by omega)]
    · rw [if_neg hlast, Nat.min_eq_right (by omega)]
      have hend : l.length - 1 = i := by omega
      rw [hend]
  · have hmod := Nat.odd_iff.mp hodd
    have hleft : i / 2 * 2 = i - 1 := by omega
    have hright : i - 1 + 1 = i := by omega
    have hside : (i : Int) % 2 = 1 := by omega
    rw [branchPair, if_pos hside, Nat.xor_one_of_odd hodd, hleft, hright, if_pos hi, Nat.min_eq_left (by omega)]

/-- **The branch of a leaf leads to the top.** -/
theorem branchRoot_branchOf (h : IsLevel H l [r]) (hfuel : l.length ≤ fuel) (hi : i < l.length) :
    branchRoot H (l.getD i d) (branchOf H d fuel l i) i = r := by
  induction fuel generalizing l i with
  | zero => omega
  | succ fuel ih =>
    rw [branchOf]
    by_cases hlen : 1 < l.length
    · have hup := length_levelUp (H := H) l
      have hnode : H (l.getD (i / 2 * 2) d) (l.getD (if i / 2 * 2 + 1 < l.length then i / 2 * 2 + 1 else i / 2 * 2) d) =
          (levelUp H l).getD (i / 2) d := (levelUp_getD d (by omega)).symm
      have hindex : (i : Int) / 2 = (i / 2 : Nat) := rfl
      rw [if_pos hlen, branchRoot, branchPair_sibling hi, hnode, hindex]
      exact ih (h.next hlen) (by omega) (by omega)
    · obtain rfl := h.eq_top hlen
      obtain rfl : i = 0 := Nat.lt_one_iff.mp hi
      rw [if_neg hlen]
      rfl

/-- The top comes last. -/
theorem getLast?_flatLevels (h : IsLevel H l [r]) (hfuel : l.length ≤ fuel) : (flatLevels H fuel l).getLast? = some r := by
  induction fuel generalizing l with
  | zero =>
    have hnil : l = [] := List.length_eq_zero_iff.mp (Nat.le_zero.mp hfuel)
    rw [hnil] at h
    exact absurd (h.eq_top (by simp)) (by simp)
  | succ fuel ih =>
    rw [flatLevels]
    by_cases hlen : 1 < l.length
    · have hup := length_levelUp (H := H) l
      rw [if_pos hlen, List.getLast?_append, ih (h.next hlen) (by omega), Option.some_or]
    · rw [if_neg hlen, h.eq_top hlen]
      rfl

end Branch

end Lib

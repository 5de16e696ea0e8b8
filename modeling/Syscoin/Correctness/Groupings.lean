import Syscoin.Lib.Access
import Syscoin.Lib.Components
import Syscoin.Wallet.Groupings

/-!
# `Correctness.Groupings` — the groupings are connected components

After each turn of the merging loop `uniqueGroupings` points to the blocks in use, `setmap` leads from an address to the
one group that holds it, and the groups are the components of the sets walked so far (`Merged`). The blocks that a turn
deletes are the ones that `setmap` gave, each of them once, so no turn uses a deleted block. Since components are unique,
neither the order of the sets nor the addresses that `new` gives show in the result.
-/

namespace Syscoin

open Lib

namespace Merging

variable {α : Type} [DecidableEq α] {st : Merging α} {F : Set (Set α)} {grouping : Finset α} {A : Allocator}

/-! ## The blocks -/

omit [DecidableEq α] in
theorem deref_of_live {p : Nat} (h : p ∈ st.live) : st.deref p = .ok (st.group p) := by
  unfold deref
  rw [if_pos h]

/-- The hit groups join the new one, and their blocks are gone. -/
theorem foldlM_absorb {merged : Nat} {hits : List Nat} (hnodup : hits.Nodup) (hlive : ∀ p ∈ hits, p ∈ st.live)
    (hmerged : merged ∈ st.live) (hfresh : merged ∉ hits) :
    hits.foldlM (absorb merged) st = .ok { st with
      live := st.live \ hits.toFinset
      group := Function.update st.group merged (st.group merged ∪ hits.toFinset.biUnion st.group)
      uniqueGroupings := st.uniqueGroupings \ hits.toFinset } := by
  induction hits generalizing st with
  | nil => simp [pure, Except.pure]
  | cons hit rest ih =>
    obtain ⟨hout, hrest⟩ := List.nodup_cons.mp hnodup
    have hne : merged ≠ hit := List.ne_of_not_mem_cons hfresh
    have hfresh : merged ∉ rest := List.not_mem_of_not_mem_cons hfresh
    have hstep : absorb merged st hit = .ok { st with
        live := st.live.erase hit
        group := Function.update st.group merged (st.group merged ∪ st.group hit)
        uniqueGroupings := st.uniqueGroupings.erase hit } := by
      unfold absorb
      rw [deref_of_live (hlive hit List.mem_cons_self), deref_of_live hmerged]
      rfl
    rw [List.foldlM_cons, hstep]
    refine (ih hrest ?_ ?_ hfresh).trans ?_
    · intro p hp
      refine Finset.mem_erase.mpr ⟨?_, hlive p (List.mem_cons_of_mem hit hp)⟩
      rintro rfl
      exact hout hp
    · exact Finset.mem_erase.mpr ⟨hne, hmerged⟩
    · -- the groups of the rest are not touched by the first turn
      have hsame : rest.toFinset.biUnion (Function.update st.group merged (st.group merged ∪ st.group hit)) =
          rest.toFinset.biUnion st.group := by
        refine Finset.biUnion_congr rfl fun p hp => ?_
        refine Function.update_of_ne ?_ _ _
        rintro rfl
        exact hfresh (List.mem_toFinset.mp hp)
      simp only [hsame, Function.update_self, Function.update_idem, List.toFinset_cons, Finset.biUnion_insert,
        Finset.union_assoc, Finset.sdiff_insert, Finset.erase_sdiff_comm]

/-! ## One turn -/

/-- What holds between two turns, for the sets walked so far. -/
structure Merged (F : Set (Set α)) (st : Merging α) : Prop where
  unique : st.uniqueGroupings = st.live
  refers : ∀ a p, st.setmap a = some p ↔ p ∈ st.live ∧ a ∈ st.group p
  components : Components F (st.live : Set Nat) fun p => (st.group p : Set α)

omit [DecidableEq α] in
theorem merged_empty : Merged ∅ (empty : Merging α) where
  unique := rfl
  refers := by simp [empty]
  components := by
    rw [show ((empty : Merging α).live : Set Nat) = ∅ from Finset.coe_empty]
    exact .empty

omit [DecidableEq α] in
theorem Merged.mem_hits (h : Merged F st) {p : Nat} :
    p ∈ st.hits grouping ↔ p ∈ st.live ∧ ((st.group p : Set α) ∩ (grouping : Set α)).Nonempty := by
  have hpoints : p ∈ st.hits grouping ↔ ∃ a ∈ grouping, st.setmap a = some p := by simp [hits]
  rw [hpoints]
  constructor
  · rintro ⟨a, ha, hap⟩
    obtain ⟨hlive, hmem⟩ := (h.refers a p).mp hap
    exact ⟨hlive, a, hmem, ha⟩
  · rintro ⟨hlive, a, hmem, ha⟩
    exact ⟨a, ha, (h.refers a p).mpr ⟨hlive, hmem⟩⟩

/-- The new group of a turn. -/
def members (st : Merging α) (grouping : Finset α) : Finset α := grouping ∪ (st.hits grouping).biUnion st.group

/-- What a turn leaves. -/
def turned (A : Allocator) (st : Merging α) (grouping : Finset α) : Merging α where
  live := insert (A.malloc st.live) (st.live \ st.hits grouping)
  group := Function.update st.group (A.malloc st.live) (st.members grouping)
  uniqueGroupings := insert (A.malloc st.live) (st.uniqueGroupings \ st.hits grouping)
  setmap := fun address => if address ∈ st.members grouping then some (A.malloc st.live) else st.setmap address

/-- **A turn** uses no deleted block if the groups that it hits are there. -/
theorem mergeOne_eq (hlive : ∀ p ∈ st.hits grouping, p ∈ st.live) :
    mergeOne A st grouping = .ok (turned A st grouping) := by
  set m := A.malloc st.live with hm
  have hfresh : m ∉ st.live := A.fresh st.live
  have hmiss : m ∉ st.hits grouping := fun hin => hfresh (hlive m hin)
  set st₂ : Merging α := { st with
    live := insert m (st.live \ st.hits grouping)
    group := Function.update st.group m (st.members grouping)
    uniqueGroupings := st.uniqueGroupings \ st.hits grouping } with hst₂
  have hloop : ((st.hits grouping).sort (· ≤ ·)).foldlM (absorb m)
      { st with live := insert m st.live, group := Function.update st.group m grouping } = .ok st₂ := by
    refine (foldlM_absorb (Finset.sort_nodup _ _) ?_ ?_ ?_).trans ?_
    · intro p hp
      exact Finset.mem_insert_of_mem (hlive p ((Finset.mem_sort _).mp hp))
    · exact Finset.mem_insert_self m st.live
    · simpa using hmiss
    · have hsame : (st.hits grouping).biUnion (Function.update st.group m grouping) =
          (st.hits grouping).biUnion st.group := by
        refine Finset.biUnion_congr rfl fun p hp => Function.update_of_ne ?_ _ _
        rintro rfl
        exact hfresh (hlive _ hp)
      simp only [Finset.sort_toFinset, hsame, Function.update_self, Function.update_idem,
        Finset.insert_sdiff_of_notMem _ hmiss, hst₂, members]
  have hderef : st₂.deref m = .ok (st.members grouping) := by
    rw [deref_of_live (Finset.mem_insert_self m _), hst₂]
    simp only [Function.update_self]
  unfold mergeOne
  simp only [← hm, hloop, ok_bind, hderef]
  rfl

theorem Merged.turn (h : Merged F st) (hG : grouping.Nonempty) :
    Merged (insert (grouping : Set α) F) (turned A st grouping) := by
  set m := A.malloc st.live with hm
  have hold : ∀ p ∈ st.live, p ≠ m := by
    rintro p hp rfl
    exact A.fresh st.live hp
  have hmem : ∀ a, a ∈ st.members grouping ↔
      a ∈ grouping ∨ ∃ p ∈ st.live, a ∈ st.group p ∧ ((st.group p : Set α) ∩ (grouping : Set α)).Nonempty := by
    intro a
    simp only [members, Finset.mem_union, Finset.mem_biUnion, h.mem_hits]
    tauto
  have hlive : ∀ p, p ∈ (turned A st grouping).live ↔
      p = m ∨ p ∈ st.live ∧ ¬ ((st.group p : Set α) ∩ (grouping : Set α)).Nonempty := by
    intro p
    simp only [turned, ← hm, Finset.mem_insert, Finset.mem_sdiff, h.mem_hits]
    tauto
  have hmlive : m ∈ (turned A st grouping).live := (hlive m).mpr (.inl rfl)
  have hgroup : ∀ p, p ≠ m → (turned A st grouping).group p = st.group p := fun p hp => Function.update_of_ne hp _ _
  have hnew : (turned A st grouping).group m = st.members grouping := Function.update_self m _ st.group
  have hcomponents : Components (insert (grouping : Set α) F) ((turned A st grouping).live : Set Nat)
      fun p => ((turned A st grouping).group p : Set α) := by
    refine h.components.merge (m := m) hG ?_ hlive ?_
    · intro a
      rw [hnew]
      exact hmem a
    · intro p hp _
      exact ⟨hold p hp, congrArg _ (hgroup p (hold p hp))⟩
  refine ⟨?_, ?_, hcomponents⟩
  · unfold turned
    rw [h.unique]
  · intro a p
    show (if a ∈ st.members grouping then some m else st.setmap a) = some p ↔ _
    by_cases ha : a ∈ st.members grouping
    · -- the entries of the new group are redirected
      rw [if_pos ha]
      constructor
      · rintro ⟨⟩
        exact ⟨hmlive, hnew ▸ ha⟩
      · rintro ⟨hp, hap⟩
        exact congrArg some (hcomponents.disjoint m hmlive p hp a (Finset.mem_coe.mpr (hnew ▸ ha)) hap)
    · rw [if_neg ha, h.refers]
      constructor
      · rintro ⟨hp, hap⟩
        refine ⟨(hlive p).mpr (.inr ⟨hp, fun hhit => ha ((hmem a).mpr (.inr ⟨p, hp, hap, hhit⟩))⟩), ?_⟩
        rwa [hgroup p (hold p hp)]
      · rintro ⟨hp, hap⟩
        rcases (hlive p).mp hp with rfl | ⟨hp, -⟩
        · exact absurd (hnew ▸ hap) ha
        · rw [hgroup p (hold p hp)] at hap
          exact ⟨hp, hap⟩

theorem Merged.step (h : Merged F st) (hG : grouping.Nonempty) :
    ∃ st', mergeOne A st grouping = .ok st' ∧ Merged (insert (grouping : Set α) F) st' :=
  ⟨_, mergeOne_eq fun _ hp => (h.mem_hits.mp hp).1, h.turn hG⟩

/-! ## The loop -/

/-- The sets that were walked, as a family. -/
def familyOf (groupings : Finset (Finset α)) : Set (Set α) := Set.image (fun grouping : Finset α => (grouping : Set α)) groupings

theorem Merged.run {order : List (Finset α)} (h : Merged F st) (hnonempty : ∀ grouping ∈ order, grouping.Nonempty) :
    ∃ st', order.foldlM (mergeOne A) st = .ok st' ∧ Merged (F ∪ familyOf order.toFinset) st' := by
  induction order generalizing st F with
  | nil =>
    refine ⟨st, rfl, ?_⟩
    simpa [familyOf] using h
  | cons grouping rest ih =>
    obtain ⟨st₁, hfirst, h₁⟩ := h.step (A := A) (hnonempty grouping List.mem_cons_self)
    obtain ⟨st', hrest, h'⟩ := ih h₁ fun g hg => hnonempty g (List.mem_cons_of_mem grouping hg)
    refine ⟨st', ?_, ?_⟩
    · rw [List.foldlM_cons, hfirst]
      exact hrest
    · have hfamily : F ∪ familyOf (grouping :: rest).toFinset = insert (grouping : Set α) F ∪ familyOf rest.toFinset := by
        simp only [familyOf, List.toFinset_cons, Finset.coe_insert, Set.image_insert_eq, Set.union_insert,
          Set.insert_union]
      rw [hfamily]
      exact h'

/-- The last loop reads every block before it deletes it. -/
theorem returned_eq {places : List Nat} (hnodup : places.Nodup) (hlive : ∀ p ∈ places, p ∈ st.live) :
    returned places st = .ok (places.toFinset.image st.group) := by
  induction places generalizing st with
  | nil => rfl
  | cons p rest ih =>
    obtain ⟨hout, hrest⟩ := List.nodup_cons.mp hnodup
    unfold returned
    rw [deref_of_live (hlive p List.mem_cons_self), ok_bind, ih hrest, ok_bind, List.toFinset_cons, Finset.image_insert]
    · rfl
    · intro q hq
      refine Finset.mem_erase.mpr ⟨?_, hlive q (List.mem_cons_of_mem p hq)⟩
      rintro rfl
      exact hout hq

theorem mergeGroupings_ok {order : List (Finset α)} (hnonempty : ∀ grouping ∈ order, grouping.Nonempty) :
    ∃ st, Merged (familyOf order.toFinset) st ∧ mergeGroupings A order = .ok (st.live.image st.group) := by
  obtain ⟨st, hrun, h⟩ := merged_empty.run (A := A) hnonempty
  rw [Set.empty_union] at h
  refine ⟨st, h, ?_⟩
  unfold mergeGroupings
  rw [hrun, ok_bind, returned_eq (Finset.sort_nodup _ _), Finset.sort_toFinset, h.unique]
  intro p hp
  rw [← h.unique]
  exact (Finset.mem_sort _).mp hp

/-! ## What is returned -/

theorem Merged.subset {st' : Merging α} (h : Merged F st) (h' : Merged F st') :
    st.live.image st.group ⊆ st'.live.image st'.group := by
  intro S hS
  obtain ⟨p, hp, rfl⟩ := Finset.mem_image.mp hS
  obtain ⟨q, hq, heq⟩ := h.components.unique h'.components ⟨p, Finset.mem_coe.mpr hp, rfl⟩
  exact Finset.mem_image.mpr ⟨q, Finset.mem_coe.mp hq, Finset.coe_injective heq⟩

/-- Which groups come out does not depend on the order, nor on where the blocks lie. -/
theorem mergeGroupings_unique {A' : Allocator} {order order' : List (Finset α)}
    (hnonempty : ∀ grouping ∈ order, grouping.Nonempty) (hsame : order.toFinset = order'.toFinset) :
    mergeGroupings A order = mergeGroupings A' order' := by
  have hnonempty' : ∀ grouping ∈ order', grouping.Nonempty := by
    intro grouping hin
    refine hnonempty grouping (List.mem_toFinset.mp ?_)
    rw [hsame]
    exact List.mem_toFinset.mpr hin
  obtain ⟨st, h, hret⟩ := mergeGroupings_ok (A := A) hnonempty
  obtain ⟨st', h', hret'⟩ := mergeGroupings_ok (A := A') hnonempty'
  rw [hsame] at h
  rw [hret, hret', (h.subset h').antisymm (h'.subset h)]

end Merging

/-! ## The wallet -/

namespace WalletState

variable {env : WalletEnv} {w : WalletState}

theorem collectGroupings_nonempty {grouping : Finset CTxDestination} (h : grouping ∈ w.collectGroupings env) :
    grouping.Nonempty := by
  obtain ⟨entry, -, hin⟩ := List.mem_flatMap.mp (List.mem_toFinset.mp h)
  rcases List.mem_append.mp hin with hinputs | hlone
  · split at hinputs
    · obtain rfl := List.mem_singleton.mp hinputs
      assumption
    · cases hinputs
  · obtain ⟨address, -, rfl⟩ := List.mem_map.mp hlone
    exact Finset.singleton_nonempty address

end WalletState

/-- A block after all that are in use is not in use. -/
theorem exists_allocator : Nonempty Allocator := by
  refine ⟨⟨fun live => live.sup id + 1, fun live hin => ?_⟩⟩
  have hle : live.sup id + 1 ≤ live.sup id := Finset.le_sup (f := id) hin
  omega

open Merging in
/-- **The address groupings are the connected components of the collected sets.** In whatever order they are walked and
    wherever the blocks lie, the same groups are returned: they are disjoint, together they hold the addresses of the
    sets, and two addresses share a group exactly when a chain of overlapping sets leads from one to the other. After
    every turn `setmap` points to groups that are there. -/
theorem getAddressGroupings_components (env : WalletEnv) (w : WalletState) :
    ∃ ret : Finset (Finset CTxDestination),
      (∀ (A : Allocator) (order : List (Finset CTxDestination)), order.toFinset = w.collectGroupings env →
        mergeGroupings A order = .ok ret) ∧
      ∅ ∉ ret ∧
      (∀ S ∈ ret, ∀ T ∈ ret, ∀ address, address ∈ S → address ∈ T → S = T) ∧
      ret.biUnion id = (w.collectGroupings env).biUnion id ∧
      (∀ a b, (∃ S ∈ ret, a ∈ S ∧ b ∈ S) ↔ Chained (familyOf (w.collectGroupings env)) a b) ∧
      ∀ (A : Allocator) (processed : List (Finset CTxDestination)), (∀ S ∈ processed, S ∈ w.collectGroupings env) →
        ∃ st, processed.foldlM (mergeOne A) .empty = .ok st ∧
          ∀ address p, st.setmap address = some p → p ∈ st.live ∧ p ∈ st.uniqueGroupings ∧ address ∈ st.group p := by
  have horder : (w.collectGroupings env).toList.toFinset = w.collectGroupings env := Finset.toList_toFinset _
  have hnonempty : ∀ S ∈ (w.collectGroupings env).toList, S.Nonempty := fun S hS =>
    WalletState.collectGroupings_nonempty (Finset.mem_toList.mp hS)
  obtain ⟨A₀⟩ := exists_allocator
  obtain ⟨st, h, hret⟩ := mergeGroupings_ok (A := A₀) hnonempty
  rw [horder] at h
  have hsame : ∀ a b, (∃ S ∈ st.live.image st.group, a ∈ S ∧ b ∈ S) ↔
      Chained (familyOf (w.collectGroupings env)) a b := by
    intro a b
    rw [← h.components.same_iff]
    simp
  refine ⟨st.live.image st.group, ?_, ?_, ?_, ?_, hsame, ?_⟩
  · intro A order hall
    rw [← hret]
    refine mergeGroupings_unique ?_ (hall.trans horder.symm)
    intro S hS
    exact WalletState.collectGroupings_nonempty (hall ▸ List.mem_toFinset.mpr hS)
  · intro hempty
    obtain ⟨p, hp, hgroup⟩ := Finset.mem_image.mp hempty
    have hp := h.components.nonempty p hp
    rw [hgroup] at hp
    simp at hp
  · intro S hS T hT address haS haT
    obtain ⟨p, hp, rfl⟩ := Finset.mem_image.mp hS
    obtain ⟨q, hq, rfl⟩ := Finset.mem_image.mp hT
    rw [h.components.disjoint p hp q hq address haS haT]
  · ext address
    have hmem := h.components.mem_iff (a := address)
    simp only [familyOf, Set.mem_image, exists_exists_and_eq_and, Finset.mem_coe] at hmem
    simpa using hmem
  · intro A processed hin
    have hprocessed : ∀ S ∈ processed, S.Nonempty := fun S hS => WalletState.collectGroupings_nonempty (hin S hS)
    obtain ⟨st', hrun, h'⟩ := merged_empty.run (A := A) hprocessed
    refine ⟨st', hrun, ?_⟩
    intro address p hp
    obtain ⟨hlive, hmem⟩ := (h'.refers address p).mp hp
    exact ⟨hlive, h'.unique ▸ hlive, hmem⟩

/-! ## Coins spent together -/

namespace SpentTogether

/-- Transactions have their lock time for a hash. -/
def node : WalletEnv := ⟨(·.nLockTime), keyIDOf, 60⟩

def first : CKeyID := ⟨17, by decide⟩

def second : CKeyID := ⟨18, by decide⟩

def third : CKeyID := ⟨19, by decide⟩

/-- One coin to each of the keys. -/
def paying (hash : Uint256) (vin : List CTxIn) (keys : List CKeyID) : CWalletTx :=
  .init ⟨⟨1, vin, keys.map fun key => ⟨COIN, setDestination (.keyID key)⟩, hash, []⟩, 0, [], -1⟩ ⟨false, 0⟩

/-- Three keys are paid, and a second transaction spends the coins of two of them. -/
def wallet : WalletState where
  keystore := ⟨fun _ => true, fun _ => true, []⟩
  mapAddressBook := [(.keyID first, ""), (.keyID second, ""), (.keyID third, "")]
  vchDefaultKey := []
  mapWallet := ((∅ : AList _).insert 1 (paying 1 [⟨⟨5, 0⟩, [], 0⟩] [first, second, third])).insert 2
    (paying 2 [⟨⟨1, 0⟩, [], 0⟩, ⟨⟨1, 1⟩, [], 0⟩] [first])
  getDepthInMainChain := fun _ => 0
  isInMainChain := fun _ => false

theorem collected : wallet.collectGroupings node =
    [{.keyID first}, {.keyID second}, {.keyID third}, {.keyID first, .keyID second}].toFinset := by decide +kernel

/-- The two keys come back as one group, whatever the allocator, and the third stays alone. -/
theorem wallet_groupings : ∃ ret,
    (∀ A, mergeGroupings A [{.keyID first}, {.keyID second}, {.keyID third}, {.keyID first, .keyID second}] = .ok ret) ∧
      ∃ S ∈ ret, CTxDestination.keyID first ∈ S ∧ CTxDestination.keyID second ∈ S := by
  obtain ⟨ret, hret, -, -, -, hsame, -⟩ := getAddressGroupings_components node wallet
  refine ⟨ret, fun A => hret A _ collected.symm, (hsame _ _).mpr ?_⟩
  refine .of_mem (S := (({.keyID first, .keyID second} : Finset CTxDestination) : Set CTxDestination)) ?_ ?_ ?_
  · refine ⟨_, ?_, rfl⟩
    rw [collected]
    simp
  · simp
  · simp

end SpentTogether

end Syscoin

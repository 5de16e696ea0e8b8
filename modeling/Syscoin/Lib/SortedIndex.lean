import Mathlib.Data.List.AList
import Mathlib.Data.List.Sort

/-!
# `Lib.SortedIndex` — the entries of a map in the order of their values

Beside a map stands the list of its entries, sorted by value, entries of one value in the order they came in. The list
indexes the map (`Indexes`) if it holds every entry once. Putting an entry in, taking one out and changing a value keep
this, and the front of the list is an entry of the smallest value.
-/

namespace Lib

variable {K V : Type} [LinearOrder V] {index rest : List (V × K)} {k k' : K} {v w : V}

/-- Insert behind the entries of the same value. -/
def insertBehind (e : V × K) (index : List (V × K)) : List (V × K) := index.orderedInsert (fun a b => a.1 < b.1) e

theorem insertBehind_perm (e : V × K) (index : List (V × K)) : (insertBehind e index).Perm (e :: index) :=
  List.perm_orderedInsert _ e index

theorem insertBehind_sorted (e : V × K) (h : index.Pairwise fun a b => a.1 ≤ b.1) :
    (insertBehind e index).Pairwise fun a b => a.1 ≤ b.1 := by
  induction index with
  | nil => exact List.pairwise_singleton _ e
  | cons first rest ih =>
    obtain ⟨hfirst, hrest⟩ := List.pairwise_cons.mp h
    unfold insertBehind
    rw [List.orderedInsert_cons]
    split
    · rename_i hlt
      refine List.pairwise_cons.mpr ⟨?_, h⟩
      intro other hother
      rcases List.mem_cons.mp hother with rfl | hother
      · exact hlt.le
      · exact hlt.le.trans (hfirst other hother)
    · rename_i hle
      refine List.pairwise_cons.mpr ⟨?_, ih hrest⟩
      intro other hother
      rcases List.mem_cons.mp ((insertBehind_perm e rest).mem_iff.mp hother) with rfl | hother
      · exact not_lt.mp hle
      · exact hfirst other hother

/-- The list is the index of the map. -/
structure Indexes (index : List (V × K)) (m : AList fun _ : K => V) : Prop where
  sorted : index.Pairwise fun a b => a.1 ≤ b.1
  perm : index.Perm (m.entries.map fun e => (e.2, e.1))

variable {m : AList fun _ : K => V}

theorem Indexes.empty : Indexes ([] : List (V × K)) ∅ where
  sorted := .nil
  perm := .nil

theorem Indexes.length_eq (h : Indexes index m) : index.length = m.entries.length := by
  rw [h.perm.length_eq, List.length_map]

variable [DecidableEq K]

omit [LinearOrder V] in
theorem mem_of_lookup_eq (h : m.lookup k = some v) : k ∈ m := AList.lookup_isSome.mp (Option.isSome_iff_exists.mpr ⟨v, h⟩)

theorem Indexes.mem_iff (h : Indexes index m) : (v, k) ∈ index ↔ m.lookup k = some v := by
  rw [h.perm.mem_iff, ← Option.mem_def, AList.mem_lookup_iff, List.mem_map]
  constructor
  · rintro ⟨e, he, heq⟩
    cases heq
    exact he
  · intro he
    exact ⟨⟨k, v⟩, he, rfl⟩

theorem Indexes.insert (h : Indexes index m) (hk : k ∉ m) : Indexes (insertBehind (v, k) index) (m.insert k v) where
  sorted := insertBehind_sorted (v, k) h.sorted
  perm := by
    rw [AList.entries_insert_of_notMem hk, List.map_cons]
    exact (insertBehind_perm (v, k) index).trans (h.perm.cons (v, k))

theorem Indexes.erase (h : Indexes index m) (hk : m.lookup k = some v) :
    Indexes (index.erase (v, k)) (m.erase k) where
  sorted := h.sorted.sublist List.erase_sublist
  perm := by
    -- the entry is the one in the middle that `erase` takes out of the map
    have hin : k ∈ m.entries.keys := mem_of_lookup_eq hk
    obtain ⟨w, before, behind, hbefore, hentries, herased⟩ := List.exists_of_kerase hin
    have hvalue : w = v := by
      have hw : (⟨k, w⟩ : Sigma fun _ : K => V) ∈ m.entries := by
        rw [hentries]
        simp
      have hw := AList.mem_lookup_iff.mpr hw
      rw [Option.mem_def, hk] at hw
      exact (Option.some.inj hw).symm
    subst hvalue
    have hperm : index.Perm ((w, k) :: (m.erase k).entries.map fun e => (e.2, e.1)) := by
      refine h.perm.trans ?_
      show (m.entries.map fun e => (e.2, e.1)).Perm ((w, k) :: (m.entries.kerase k).map fun e => (e.2, e.1))
      rw [herased, hentries, List.map_append, List.map_append, List.map_cons]
      exact List.perm_middle
    have hmem : (w, k) ∈ index := hperm.mem_iff.mpr List.mem_cons_self
    exact (List.perm_cons _).mp ((List.perm_cons_erase hmem).symm.trans hperm)

theorem Indexes.replace (h : Indexes index m) (hk : m.lookup k = some v) :
    Indexes (insertBehind (w, k) (index.erase (v, k))) (m.insert k w) := by
  have hout : k ∉ m.erase k := fun hin => (AList.mem_erase.mp hin).1 rfl
  have hsame : m.insert k w = (m.erase k).insert k w := by
    refine AList.ext ?_
    rw [AList.entries_insert_of_notMem hout, AList.entries_insert]
    rfl
  rw [hsame]
  exact (h.erase hk).insert hout

/-- **The front of the index** is an entry of the smallest value. -/
theorem Indexes.least (h : Indexes ((v, k) :: rest) m) :
    m.lookup k = some v ∧ ∀ k' w, m.lookup k' = some w → v ≤ w := by
  refine ⟨h.mem_iff.mp List.mem_cons_self, ?_⟩
  intro k' w hw
  rcases List.mem_cons.mp (h.mem_iff.mpr hw) with heq | hin
  · cases heq
    exact le_rfl
  · exact (List.pairwise_cons.mp h.sorted).1 (w, k') hin

theorem Indexes.tail (h : Indexes ((v, k) :: rest) m) : Indexes rest (m.erase k) := by
  have herased := h.erase h.least.1
  rwa [List.erase_cons_head] at herased

end Lib

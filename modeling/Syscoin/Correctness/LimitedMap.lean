import Syscoin.Lib.Access
import Syscoin.Network.LimitedMap

/-!
# `Correctness.LimitedMap` — which calls keep the highest entries

Every call keeps `rmap` the index of `map`, so the asserts hold and only the smallest entry is ever evicted. The size after
the insertion is compared with the capacity, and for equality. A map that is one short of its capacity therefore evicts
already (and finds nothing to evict if the capacity is one), while a map that is full, as `max_size` may leave it, grows
beyond it. The property holds in the runs whose insertions all leave a place free, and in no others.
-/

namespace Syscoin

open Lib

namespace LimitedMap

variable {K V : Type} [DecidableEq K] [LinearOrder V] {m m' : LimitedMap K V} {k k₀ : K} {v v₀ : V} {s : Nat}
  {rest : List (V × K)}

/-- `rmap` indexes the entries of `map` under their current values. -/
def Indexed (m : LimitedMap K V) : Prop := Indexes m.rmap m.map

omit [DecidableEq K] in
theorem indexed_init (N : Nat) : (init N : LimitedMap K V).Indexed := .empty

/-! ## The calls -/

/-- What is in `rmap` is found. -/
theorem eraseTarget_ok {rmap : List (V × K)} (h : (v, k) ∈ rmap) : eraseTarget rmap v k = .ok (rmap.erase (v, k)) := by
  unfold eraseTarget
  cases hfind : (rmap.filter fun it => it.1 = v).find? fun it => it.2 = k with
  | none =>
    have hnone := List.find?_eq_none.mp hfind (v, k) (List.mem_filter.mpr ⟨h, by simp⟩)
    simp at hnone
  | some it =>
    have hkey : it.2 = k := by simpa using List.find?_some hfind
    have hvalue : it.1 = v := by simpa using (List.mem_filter.mp (List.mem_of_find?_eq_some hfind)).2
    subst hkey hvalue
    rfl

theorem insert_of_mem (hk : k ∈ m.map) : m.insert k v = .ok m := by
  unfold insert
  rw [if_pos hk]

omit [LinearOrder V] in
theorem length_insert (hk : k ∉ m.map) : (m.map.insert k v).entries.length = m.size + 1 := by
  rw [AList.entries_insert_of_notMem hk, List.length_cons, size]

theorem insert_of_notMem (hk : k ∉ m.map) :
    m.insert k v = (do
      let m₁ : LimitedMap K V := { m with map := m.map.insert k v }
      let m₂ ← if m.nMaxSize ≠ 0 ∧ m.size + 1 = m.nMaxSize then m₁.eraseFirst else .ok m₁
      pure { m₂ with rmap := insertBehind (v, k) m₂.rmap }) := by
  have hsize : size { m with map := m.map.insert k v } = m.size + 1 := length_insert hk
  unfold insert
  rw [if_neg hk]
  dsimp only
  rw [hsize]

/-- An insertion that evicts nothing. -/
theorem insert_of_room (hk : k ∉ m.map) (hroom : ¬ (m.nMaxSize ≠ 0 ∧ m.size + 1 = m.nMaxSize)) :
    m.insert k v = .ok { m with map := m.map.insert k v, rmap := insertBehind (v, k) m.rmap } := by
  rw [insert_of_notMem hk]
  dsimp only
  rw [if_neg hroom]
  rfl

/-- An insertion that evicts the first entry of `rmap`. -/
theorem insert_of_full (h : m.Indexed) (hk : k ∉ m.map) (hfull : m.nMaxSize ≠ 0 ∧ m.size + 1 = m.nMaxSize)
    (hrmap : m.rmap = (v₀, k₀) :: rest) :
    m.insert k v = .ok { m with map := (m.map.erase k₀).insert k v, rmap := insertBehind (v, k) rest } := by
  have hin : k₀ ∈ m.map := by
    have hleast := (hrmap ▸ h : Indexes ((v₀, k₀) :: rest) m.map).least
    exact mem_of_lookup_eq hleast.1
  have hcomm : (m.map.insert k v).erase k₀ = (m.map.erase k₀).insert k v := by
    have hne : k₀ ≠ k := by
      rintro rfl
      exact hk hin
    refine AList.ext ?_
    rw [AList.entries_insert]
    show ((m.map.insert k v).entries.kerase k₀) = _
    rw [AList.entries_insert, List.kerase_cons_ne hne, List.kerase_comm]
    rfl
  have herase : eraseFirst { m with map := m.map.insert k v } =
      .ok { m with map := (m.map.erase k₀).insert k v, rmap := rest } := by
    unfold eraseFirst
    simp only [hrmap]
    rw [if_pos ((AList.mem_insert m.map).mpr (.inr hin)), hcomm]
  rw [insert_of_notMem hk]
  dsimp only
  rw [if_pos hfull, herase]
  rfl

/-- With a capacity of one, the first insertion finds nothing to evict. -/
theorem insert_of_one (hk : k ∉ m.map) (hfull : m.nMaxSize ≠ 0 ∧ m.size + 1 = m.nMaxSize) (hrmap : m.rmap = []) :
    m.insert k v = .error .emptyBegin := by
  have herase : eraseFirst { m with map := m.map.insert k v } = .error .emptyBegin := by
    unfold eraseFirst
    simp only [hrmap]
  rw [insert_of_notMem hk]
  dsimp only
  rw [if_pos hfull, herase]
  rfl

theorem erase_ok (h : m.Indexed) : ∃ m', m.erase k = .ok m' ∧ m'.Indexed ∧ m'.size ≤ m.size ∧ m'.nMaxSize = m.nMaxSize := by
  unfold erase
  cases hk : m.map.lookup k with
  | none => exact ⟨m, rfl, h, le_rfl, rfl⟩
  | some old =>
    dsimp only
    rw [eraseTarget_ok (h.mem_iff.mpr hk)]
    refine ⟨_, rfl, Indexes.erase h hk, ?_, rfl⟩
    exact (List.kerase_sublist k m.map.entries).length_le

theorem update_ok (h : m.Indexed) :
    ∃ m', m.update k v = .ok m' ∧ m'.Indexed ∧ m'.size = m.size ∧ m'.nMaxSize = m.nMaxSize := by
  unfold update
  cases hk : m.map.lookup k with
  | none => exact ⟨m, rfl, h, rfl, rfl⟩
  | some old =>
    dsimp only
    rw [eraseTarget_ok (h.mem_iff.mpr hk)]
    have hnew := h.replace (w := v) hk
    refine ⟨_, rfl, hnew, ?_, rfl⟩
    -- both indexes have one place for each entry
    have hmem : (old, k) ∈ m.rmap := h.mem_iff.mpr hk
    have hlength := hnew.length_eq
    rw [(insertBehind_perm _ _).length_eq, List.length_cons, List.length_erase_of_mem hmem, h.length_eq] at hlength
    have hpos : 0 < m.map.entries.length := by
      rw [← h.length_eq]
      exact List.length_pos_of_mem hmem
    show (m.map.insert k v).entries.length = m.map.entries.length
    omega

theorem shrink_ok {rmap : List (V × K)} {map : AList fun _ : K => V} (h : Indexes rmap map) :
    ∃ rmap' map', shrink s rmap map = .ok (rmap', map') ∧ Indexes rmap' map' ∧ map'.entries.length ≤ s := by
  induction rmap generalizing map with
  | nil =>
    have hempty : map.entries.length = 0 := by
      rw [← h.length_eq]
      rfl
    refine ⟨[], map, ?_, h, by omega⟩
    unfold shrink
    rw [if_neg (by omega)]
  | cons first rest ih =>
    obtain ⟨v, it⟩ := first
    unfold shrink
    by_cases hmore : map.entries.length > s
    · have hin : it ∈ map := mem_of_lookup_eq h.least.1
      rw [if_pos hmore, if_pos hin]
      exact ih h.tail
    · rw [if_neg hmore]
      exact ⟨_, _, rfl, h, not_lt.mp hmore⟩

theorem setMaxSize_ok (h : m.Indexed) :
    ∃ m', m.setMaxSize s = .ok m' ∧ m'.Indexed ∧ (s ≠ 0 → m'.size ≤ s) ∧ m'.nMaxSize = s := by
  unfold setMaxSize
  by_cases hs : s ≠ 0
  · obtain ⟨rmap', map', hshrink, hindexes, hle⟩ := shrink_ok (s := s) h
    rw [if_pos hs, hshrink]
    exact ⟨_, rfl, hindexes, fun _ => hle, rfl⟩
  · rw [if_neg hs]
    exact ⟨_, rfl, h, fun hne => absurd hne hs, (not_not.mp hs).symm⟩

/-! ## Runs -/

/-- What a call should leave: `rmap` indexes the entries, there are no more of them than the capacity says, and what an
    insertion evicts was the smallest of as many entries as fit. -/
structure Limited (m : LimitedMap K V) (c : Call K V) (m' : LimitedMap K V) : Prop where
  indexed : m'.Indexed
  size_le : m'.nMaxSize ≠ 0 → m'.size ≤ m'.nMaxSize
  evicted : ∀ k v, c = .insert k v → ∀ k₀ v₀, m.map.lookup k₀ = some v₀ → k₀ ∉ m'.map →
    m.nMaxSize ≠ 0 ∧ m.size = m.nMaxSize ∧ ∀ k₁ v₁, m.map.lookup k₁ = some v₁ → v₀ ≤ v₁

/-- Every call of the run succeeds, and leaves what it should. -/
def RunLimited : LimitedMap K V → List (Call K V) → Prop
  | _, [] => True
  | m, c :: rest => ∃ m', m.perform c = .ok m' ∧ Limited m c m' ∧ RunLimited m' rest

/-- An insertion leaves a place free. -/
def Room (m : LimitedMap K V) : Call K V → Prop
  | .insert k _ => k ∈ m.map ∨ m.nMaxSize = 0 ∨ m.size + 1 < m.nMaxSize
  | _ => True

/-- Every insertion of the run leaves a place free. -/
def RunRoom : LimitedMap K V → List (Call K V) → Prop
  | _, [] => True
  | m, c :: rest => m.Room c ∧ ∀ m', m.perform c = .ok m' → RunRoom m' rest

/-- An insertion does what it should exactly when it leaves a place free. -/
theorem limited_insert_iff (h : m.Indexed) (hsize : m.nMaxSize ≠ 0 → m.size ≤ m.nMaxSize) :
    (∃ m', m.insert k v = .ok m' ∧ Limited m (.insert k v) m') ↔ m.Room (.insert k v) := by
  by_cases hk : k ∈ m.map
  · refine ⟨fun _ => .inl hk, fun _ => ⟨m, insert_of_mem hk, h, hsize, ?_⟩⟩
    intro _ _ _ k₀ v₀ hin hout
    exact absurd (mem_of_lookup_eq hin) hout
  · by_cases hfull : m.nMaxSize ≠ 0 ∧ m.size + 1 = m.nMaxSize
    · -- the eviction comes one entry too early
      have hnoroom : ¬ m.Room (.insert k v) := by
        rintro (hin | hzero | hless)
        · exact hk hin
        · exact hfull.1 hzero
        · omega
      refine ⟨?_, fun hroom => absurd hroom hnoroom⟩
      rintro ⟨m', hok, hlimited⟩
      exfalso
      cases hrmap : m.rmap with
      | nil =>
        rw [insert_of_one hk hfull hrmap] at hok
        cases hok
      | cons first rest =>
        have hleast := (hrmap ▸ h : Indexes (first :: rest) m.map).least.1
        rw [insert_of_full h hk hfull hrmap] at hok
        cases hok
        have hout : first.2 ∉ (m.map.erase first.2).insert k v := by
          intro hin
          rcases (AList.mem_insert _).mp hin with heq | hin
          · exact hk (heq ▸ mem_of_lookup_eq hleast)
          · exact (AList.mem_erase.mp hin).1 rfl
        have hcount := (hlimited.evicted k v rfl first.2 first.1 hleast hout).2.1
        omega
    · have hok : m.insert k v = _ := insert_of_room hk hfull
      have hnew : size { m with map := m.map.insert k v, rmap := insertBehind (v, k) m.rmap } = m.size + 1 :=
        length_insert hk
      constructor
      · rintro ⟨m', hok', hlimited⟩
        rw [hok] at hok'
        cases hok'
        by_cases hzero : m.nMaxSize = 0
        · exact .inr (.inl hzero)
        · have hle := hlimited.size_le hzero
          rw [hnew] at hle
          exact .inr (.inr (lt_of_le_of_ne hle fun heq => hfull ⟨hzero, heq⟩))
      · intro hroom
        refine ⟨_, hok, Indexes.insert h hk, ?_, ?_⟩
        · intro hzero
          rw [hnew]
          rcases hroom with hin | hzero' | hless
          · exact absurd hin hk
          · exact absurd hzero' hzero
          · exact hless.le
        · intro _ _ _ k₀ v₀ hin hout
          exact absurd ((AList.mem_insert _).mpr (.inr (mem_of_lookup_eq hin))) hout

/-- **One call** does what it should exactly when it leaves a place free. -/
theorem limited_iff (h : m.Indexed) (hsize : m.nMaxSize ≠ 0 → m.size ≤ m.nMaxSize) (c : Call K V) :
    (∃ m', m.perform c = .ok m' ∧ Limited m c m') ↔ m.Room c := by
  cases c with
  | insert k v => exact limited_insert_iff h hsize
  | erase k =>
    obtain ⟨m', hok, hindexed, hle, hmax⟩ := erase_ok (k := k) h
    refine iff_of_true ⟨m', hok, hindexed, ?_, fun _ _ hc => by cases hc⟩ trivial
    intro hzero
    rw [hmax] at hzero ⊢
    exact hle.trans (hsize hzero)
  | update k v =>
    obtain ⟨m', hok, hindexed, hle, hmax⟩ := update_ok (k := k) (v := v) h
    refine iff_of_true ⟨m', hok, hindexed, ?_, fun _ _ hc => by cases hc⟩ trivial
    intro hzero
    rw [hmax] at hzero ⊢
    exact hle.trans_le (hsize hzero)
  | setMaxSize s =>
    obtain ⟨m', hok, hindexed, hle, hmax⟩ := setMaxSize_ok (s := s) h
    refine iff_of_true ⟨m', hok, hindexed, ?_, fun _ _ hc => by cases hc⟩ trivial
    intro hzero
    rw [hmax] at hzero ⊢
    exact hle hzero

theorem runLimited_iff (h : m.Indexed) (hsize : m.nMaxSize ≠ 0 → m.size ≤ m.nMaxSize) (calls : List (Call K V)) :
    RunLimited m calls ↔ RunRoom m calls := by
  induction calls generalizing m with
  | nil => exact Iff.rfl
  | cons c rest ih =>
    constructor
    · rintro ⟨m', hok, hlimited, hrest⟩
      refine ⟨(limited_iff h hsize c).mp ⟨m', hok, hlimited⟩, ?_⟩
      intro m'' hok'
      rw [hok] at hok'
      cases hok'
      exact (ih hlimited.indexed hlimited.size_le).mp hrest
    · rintro ⟨hroom, hrest⟩
      obtain ⟨m', hok, hlimited⟩ := (limited_iff h hsize c).mpr hroom
      exact ⟨m', hok, hlimited, (ih hlimited.indexed hlimited.size_le).mpr (hrest m' hok)⟩

/-- **The limited map is right in the runs whose insertions leave a place free**, and only in them. -/
theorem limitedmap_runs_iff (N : Nat) (calls : List (Call K V)) :
    RunLimited (init N) calls ↔ RunRoom (init N) calls :=
  runLimited_iff (indexed_init N) (fun _ => Nat.zero_le N) calls

instance (m : LimitedMap K V) : (c : Call K V) → Decidable (m.Room c)
  | .insert k _ => inferInstanceAs (Decidable (k ∈ m.map ∨ m.nMaxSize = 0 ∨ m.size + 1 < m.nMaxSize))
  | .erase _ | .update _ _ | .setMaxSize _ => isTrue trivial

/-- A map of capacity one reads `rmap.begin()` while `rmap` is empty; one of capacity two evicts its only entry; and a
    map cut down to its two entries takes a third. -/
theorem insertions_off_by_one :
    ((init 1 : LimitedMap Nat Int).run [.insert 7 5] = .error .emptyBegin ∧
      ¬ RunLimited (init 1 : LimitedMap Nat Int) [.insert 7 5]) ∧
    (((init 2 : LimitedMap Nat Int).run [.insert 7 5, .insert 8 6]).map (·.map.keys) = .ok [8] ∧
      ¬ RunLimited (init 2 : LimitedMap Nat Int) [.insert 7 5, .insert 8 6]) ∧
    ((init 4 : LimitedMap Nat Int).run [.insert 7 5, .insert 8 6, .setMaxSize 2, .insert 9 4]).map
        (fun m => (m.size, m.nMaxSize)) = .ok (3, 2) ∧
      ¬ RunLimited (init 4 : LimitedMap Nat Int) [.insert 7 5, .insert 8 6, .setMaxSize 2, .insert 9 4] := by
  have hroom : ∀ {N : Nat} {calls : List (Call Nat Int)}, RunLimited (init N) calls → RunRoom (init N) calls :=
    fun h => (runLimited_iff (indexed_init _) (fun _ => Nat.zero_le _) _).mp h
  refine ⟨⟨by decide, fun h => ?_⟩, ⟨by decide, fun h => ?_⟩, by decide, fun h => ?_⟩
  · exact absurd (hroom h).1 (by decide)
  · exact absurd ((hroom h).2 _ rfl).1 (by decide)
  · exact absurd ((((hroom h).2 _ rfl).2 _ rfl).2 _ rfl).1 (by decide)

/-- In a map with a place free an insertion leaves the size below the capacity, by an eviction if need be. -/
theorem insert_bounded (h : m.Indexed) (htwo : 2 ≤ m.nMaxSize) (hsize : m.size < m.nMaxSize) :
    ∃ m', m.insert k v = .ok m' ∧ m'.Indexed ∧ m'.nMaxSize = m.nMaxSize ∧ m'.size < m'.nMaxSize := by
  by_cases hk : k ∈ m.map
  · exact ⟨m, insert_of_mem hk, h, rfl, hsize⟩
  · by_cases hfull : m.nMaxSize ≠ 0 ∧ m.size + 1 = m.nMaxSize
    · cases hrmap : m.rmap with
      | nil =>
        have hempty : m.size = 0 := by
          rw [size, ← h.length_eq, hrmap]
          rfl
        omega
      | cons first rest =>
        have htail := (hrmap ▸ h : Indexes (first :: rest) m.map).tail
        have hnew : Indexes (insertBehind (v, k) rest) ((m.map.erase first.2).insert k v) :=
          htail.insert fun hin => hk (AList.mem_erase.mp hin).2
        refine ⟨_, insert_of_full h hk hfull hrmap, hnew, rfl, ?_⟩
        show ((m.map.erase first.2).insert k v).entries.length < m.nMaxSize
        rw [← hnew.length_eq, (insertBehind_perm _ _).length_eq, List.length_cons]
        have hlength : m.rmap.length = m.size := h.length_eq
        rw [hrmap, List.length_cons] at hlength
        omega
    · refine ⟨_, insert_of_room hk hfull, Indexes.insert h hk, rfl, ?_⟩
      show (m.map.insert k v).entries.length < m.nMaxSize
      rw [length_insert hk]
      have hne : m.size + 1 ≠ m.nMaxSize := fun heq => hfull ⟨by omega, heq⟩
      exact lt_of_le_of_ne hsize hne

end LimitedMap

/-! ## Asking for inventory -/

namespace AskState

variable {CInv : Type} [DecidableEq CInv]

/-- The map indexes its entries and is at least one entry short of its capacity. -/
structure Asked (st : AskState CInv) : Prop where
  indexed : st.mapAlreadyAskedFor.Indexed
  nMaxSize : st.mapAlreadyAskedFor.nMaxSize = MAX_INV_SZ
  size_lt : st.mapAlreadyAskedFor.size < st.mapAlreadyAskedFor.nMaxSize

theorem Asked.askFor {st : AskState CInv} (h : st.Asked) (now : Int) (inv : CInv) :
    ∃ st', st.askFor now inv = .ok st' ∧ st'.Asked := by
  unfold AskState.askFor
  dsimp only
  split
  · obtain ⟨asked, hok, hindexed, hsize, hmax⟩ := LimitedMap.update_ok (k := inv) (v := _) h.indexed
    rw [hok]
    refine ⟨_, rfl, hindexed, hmax.trans h.nMaxSize, ?_⟩
    show asked.size < asked.nMaxSize
    rw [hsize, hmax]
    exact h.size_lt
  · have htwo : 2 ≤ st.mapAlreadyAskedFor.nMaxSize := by
      rw [h.nMaxSize]
      decide
    obtain ⟨asked, hok, hindexed, hmax, hlt⟩ := LimitedMap.insert_bounded (k := inv) (v := _) h.indexed htwo h.size_lt
    rw [hok]
    exact ⟨_, rfl, hindexed, hmax.trans h.nMaxSize, hlt⟩

/-- **Asking for any inventory at any times** never fails, and at most `MAX_INV_SZ - 1` requests are remembered. -/
theorem askFor_run (requests : List (Int × CInv)) :
    ∃ st, requests.foldlM (fun st request => st.askFor request.1 request.2) AskState.init = .ok st ∧
      st.mapAlreadyAskedFor.Indexed ∧ st.mapAlreadyAskedFor.size < MAX_INV_SZ := by
  have hrun : ∀ (requests : List (Int × CInv)) (st : AskState CInv), st.Asked →
      ∃ st', requests.foldlM (fun st request => st.askFor request.1 request.2) st = .ok st' ∧ st'.Asked := by
    intro requests
    induction requests with
    | nil => exact fun st h => ⟨st, rfl, h⟩
    | cons request rest ih =>
      intro st h
      obtain ⟨st₁, hok, h₁⟩ := h.askFor request.1 request.2
      rw [List.foldlM_cons, hok]
      exact ih st₁ h₁
  obtain ⟨st, hok, h⟩ := hrun requests .init ⟨LimitedMap.indexed_init _, rfl, (by decide : 0 < MAX_INV_SZ)⟩
  exact ⟨st, hok, h.indexed, h.nMaxSize ▸ h.size_lt⟩

end AskState

end Syscoin

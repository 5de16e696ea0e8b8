import Mathlib.Data.List.GetD
import Syscoin.Network.Addrman

/-!
# `Correctness.AddrTables` — the tables of the address manager agree

The invariant has two halves. `Shell` is about the indexes: `vRandom` lists the ids of `mapInfo` and every entry knows
its position there, and `mapAddr` finds the id of an address. `Placed` is about the buckets: a tried entry lies in one
tried bucket, a new one in as many new buckets as its reference count says, and the counters count.

`Add_` counts a reference before the entry is in the bucket, and makes room in between; `extra` is what the reference
counts are ahead of the buckets.
-/

namespace Syscoin

open Lib

namespace CAddrMan

variable {m m' : CAddrMan} {nId : Int} {f : CAddrInfo → CAddrInfo}

theorem info_eq {e : CAddrInfo} (h : m.mapInfo.lookup nId = some e) : m.info nId = e := by
  rw [info, h]
  rfl

theorem lookup_info (h : nId ∈ m.mapInfo) : m.mapInfo.lookup nId = some (m.info nId) := by
  obtain ⟨e, he⟩ := Finmap.mem_iff.1 h
  rw [info_eq he, he]

theorem lookup_modifyInfo (m : CAddrMan) (nId : Int) (f : CAddrInfo → CAddrInfo) (id : Int) :
    (m.modifyInfo nId f).mapInfo.lookup id = if id = nId then some (f (m.info nId)) else m.mapInfo.lookup id :=
  lookup_insert_eq _ _ _ _

theorem mem_modifyInfo (h : nId ∈ m.mapInfo) {id : Int} : id ∈ (m.modifyInfo nId f).mapInfo ↔ id ∈ m.mapInfo := by
  show id ∈ m.mapInfo.insert nId _ ↔ _
  rw [Finmap.mem_insert]
  constructor
  · rintro (rfl | hid)
    · exact h
    · exact hid
  · exact Or.inr

/-! ## The entries that were tried, and the others -/

/-- The ids of the entries with a flag. -/
def flagIds (fInTried : Bool) (m : CAddrMan) : Finset Int :=
  m.mapInfo.keys.filter fun id => (m.info id).fInTried = fInTried

theorem mem_flagIds {fInTried : Bool} {id : Int} :
    id ∈ m.flagIds fInTried ↔ ∃ e, m.mapInfo.lookup id = some e ∧ e.fInTried = fInTried := by
  rw [flagIds, Finset.mem_filter, Finmap.mem_keys]
  constructor
  · rintro ⟨hmem, hflag⟩
    exact ⟨_, lookup_info hmem, hflag⟩
  · rintro ⟨e, he, hflag⟩
    exact ⟨Finmap.mem_of_lookup_eq_some he, by rw [info_eq he, hflag]⟩

/-! ## The indexes -/

/-- The indexes are in order, after at most `N` calls. `timely` stands for no call having come with a negative time. -/
structure Shell (N : Int) (timely : Prop) (m : CAddrMan) : Prop where
  positions : Positions m.vRandom fun id => (m.mapInfo.lookup id).map (·.nRandomPos)
  addr_iff : ∀ a id, m.mapAddr.lookup a = some id ↔ ∃ e, m.mapInfo.lookup id = some e ∧ e.toCNetAddr = a
  id_lt : ∀ id ∈ m.mapInfo, 0 ≤ id ∧ id < m.nIdCount
  idCount_nonneg : 0 ≤ m.nIdCount
  idCount_le : m.nIdCount ≤ N
  attempts_le : ∀ id e, m.mapInfo.lookup id = some e → e.nAttempts ≤ N
  lastTry : timely → ∀ id e, m.mapInfo.lookup id = some e → 0 ≤ e.nLastTry

variable {N : Int} {timely : Prop}

theorem Shell.mem_random_iff (h : Shell N timely m) {id : Int} : id ∈ m.vRandom ↔ id ∈ m.mapInfo := by
  rw [h.positions.mem_iff, Option.isSome_map]
  exact Finmap.lookup_isSome

theorem Shell.getD_mem (h : Shell N timely m) {i : Nat} (hi : i < m.vRandom.length) :
    m.vRandom.getD i 0 ∈ m.mapInfo := by
  rw [← h.mem_random_iff, List.getD_eq_getElem _ _ hi]
  exact List.getElem_mem hi

/-- `Shell` reads four fields. -/
theorem Shell.of_eq (h : Shell N timely m) (hcount : m'.nIdCount = m.nIdCount) (hinfo : m'.mapInfo = m.mapInfo)
    (haddr : m'.mapAddr = m.mapAddr) (hrandom : m'.vRandom = m.vRandom) : Shell N timely m' := by
  constructor
  · rw [hrandom, hinfo]
    exact h.positions
  · rw [haddr, hinfo]
    exact h.addr_iff
  · rw [hinfo, hcount]
    exact h.id_lt
  · rw [hcount]
    exact h.idCount_nonneg
  · rw [hcount]
    exact h.idCount_le
  · rw [hinfo]
    exact h.attempts_le
  · rw [hinfo]
    exact h.lastTry

/-- An entry is written to, but not its address and not its position. -/
theorem Shell.modifyInfo (h : Shell N timely m) (hid : nId ∈ m.mapInfo)
    (hpos : (f (m.info nId)).nRandomPos = (m.info nId).nRandomPos)
    (haddr : (f (m.info nId)).toCNetAddr = (m.info nId).toCNetAddr)
    (hattempts : (f (m.info nId)).nAttempts ≤ N) (htry : timely → 0 ≤ (f (m.info nId)).nLastTry) :
    Shell N timely (m.modifyInfo nId f) := by
  have hlook := lookup_info hid
  constructor
  · have hsame : (fun id => ((m.modifyInfo nId f).mapInfo.lookup id).map (·.nRandomPos)) =
        fun id => (m.mapInfo.lookup id).map (·.nRandomPos) := by
      funext id
      rw [lookup_modifyInfo]
      split
      · rename_i heq
        rw [heq, hlook, Option.map_some, Option.map_some, hpos]
      · rfl
    rw [hsame]
    exact h.positions
  · intro a id
    show m.mapAddr.lookup a = some id ↔ _
    rw [h.addr_iff, lookup_modifyInfo]
    split
    · rename_i heq
      rw [heq, hlook]
      simp only [Option.some.injEq, exists_eq_left', haddr]
    · rfl
  · intro id hmem
    exact h.id_lt id ((mem_modifyInfo hid).1 hmem)
  · exact h.idCount_nonneg
  · exact h.idCount_le
  · intro id e he
    rw [lookup_modifyInfo] at he
    split at he
    · rw [← Option.some.inj he]
      exact hattempts
    · exact h.attempts_le id e he
  · intro ht id e he
    rw [lookup_modifyInfo] at he
    split at he
    · rw [← Option.some.inj he]
      exact htry ht
    · exact h.lastTry ht id e he

/-- The shell of an entry that only gets other counts. -/
theorem Shell.modifyCounts (h : Shell N timely m) (hid : nId ∈ m.mapInfo)
    (hpos : ∀ e, (f e).nRandomPos = e.nRandomPos) (haddr : ∀ e, (f e).toCAddress = e.toCAddress)
    (hattempts : ∀ e, (f e).nAttempts = e.nAttempts) : Shell N timely (m.modifyInfo nId f) := by
  have hlook := lookup_info hid
  apply h.modifyInfo hid (hpos _)
  · rw [haddr]
  · rw [hattempts]
    exact h.attempts_le nId _ hlook
  · intro ht
    rw [haddr]
    exact h.lastTry ht nId _ hlook

/-! ## Swapping -/

/-- The same ids, and the entries of the second manager are related to those of the first. -/
def Entries (R : CAddrInfo → CAddrInfo → Prop) (m m' : CAddrMan) : Prop :=
  ∀ id, (id ∈ m'.mapInfo ↔ id ∈ m.mapInfo) ∧
    ∀ e e', m.mapInfo.lookup id = some e → m'.mapInfo.lookup id = some e' → R e e'

theorem Entries.old {R : CAddrInfo → CAddrInfo → Prop} (h : Entries R m m') {id : Int} {e' : CAddrInfo}
    (he' : m'.mapInfo.lookup id = some e') : ∃ e, m.mapInfo.lookup id = some e ∧ R e e' := by
  obtain ⟨e, he⟩ := Finmap.mem_iff.1 ((h id).1.1 (Finmap.mem_of_lookup_eq_some he'))
  exact ⟨e, he, (h id).2 e e' he he'⟩

theorem Entries.new {R : CAddrInfo → CAddrInfo → Prop} (h : Entries R m m') {id : Int} {e : CAddrInfo}
    (he : m.mapInfo.lookup id = some e) : ∃ e', m'.mapInfo.lookup id = some e' ∧ R e e' := by
  obtain ⟨e', he'⟩ := Finmap.mem_iff.1 ((h id).1.2 (Finmap.mem_of_lookup_eq_some he))
  exact ⟨e', he', (h id).2 e e' he he'⟩

theorem Entries.refl {R : CAddrInfo → CAddrInfo → Prop} (hR : ∀ e, R e e) (m : CAddrMan) : Entries R m m := by
  intro id
  refine ⟨Iff.rfl, ?_⟩
  intro e e' he he'
  rw [Option.some.inj (he.symm.trans he')]
  exact hR e'

/-- What an entry is, up to its position. -/
def Moved (e e' : CAddrInfo) : Prop := e' = { e with nRandomPos := e'.nRandomPos }

/-- Only positions differ. -/
structure Reordered (m m' : CAddrMan) : Prop where
  rest : m' = { m with mapInfo := m'.mapInfo, vRandom := m'.vRandom }
  length_eq : m'.vRandom.length = m.vRandom.length
  entries : Entries Moved m m'

theorem Reordered.refl (m : CAddrMan) : Reordered m m := ⟨rfl, rfl, Entries.refl (R := Moved) (fun _ => rfl) m⟩

/-- The state that `SwapRandom` leaves when the two positions differ. -/
def exchange (i j : Nat) (nId1 nId2 : Int) (m : CAddrMan) : CAddrMan :=
  let m := m.modifyInfo nId1 fun e => { e with nRandomPos := (j : Int) }
  let m := m.modifyInfo nId2 fun e => { e with nRandomPos := (i : Int) }
  { m with vRandom := (m.vRandom.set i nId2).set j nId1 }

section Exchange

variable {i j : Nat} {nId1 nId2 : Int}

theorem lookup_exchange (hne : nId2 ≠ nId1) (id : Int) :
    (m.exchange i j nId1 nId2).mapInfo.lookup id =
      if id = nId2 then some { m.info nId2 with nRandomPos := (i : Int) }
      else if id = nId1 then some { m.info nId1 with nRandomPos := (j : Int) } else m.mapInfo.lookup id := by
  have hinfo2 : (m.modifyInfo nId1 fun e => { e with nRandomPos := (j : Int) }).info nId2 = m.info nId2 := by
    rw [info, lookup_modifyInfo, if_neg hne]
    rfl
  show ((m.modifyInfo nId1 fun e => { e with nRandomPos := (j : Int) }).modifyInfo nId2
    fun e => { e with nRandomPos := (i : Int) }).mapInfo.lookup id = _
  rw [lookup_modifyInfo, hinfo2, lookup_modifyInfo]

theorem reordered_exchange (hmem1 : nId1 ∈ m.mapInfo) (hmem2 : nId2 ∈ m.mapInfo) (hne : nId2 ≠ nId1) :
    Reordered m (m.exchange i j nId1 nId2) := by
  refine ⟨rfl, ?_, ?_⟩
  · show ((m.vRandom.set i nId2).set j nId1).length = _
    rw [List.length_set, List.length_set]
  · intro id
    constructor
    · rw [← Finmap.lookup_isSome, lookup_exchange hne, ← Finmap.lookup_isSome]
      split
      · rename_i heq
        rw [heq, lookup_info hmem2]
        rfl
      · split
        · rename_i heq
          rw [heq, lookup_info hmem1]
          rfl
        · rfl
    · intro e e' he he'
      rw [lookup_exchange hne] at he'
      split at he'
      · rename_i heq
        rw [heq, lookup_info hmem2] at he
        rw [← Option.some.inj he', ← Option.some.inj he]
        rfl
      · split at he'
        · rename_i heq
          rw [heq, lookup_info hmem1] at he
          rw [← Option.some.inj he', ← Option.some.inj he]
          rfl
        · rw [Option.some.inj (he.symm.trans he')]
          rfl

theorem Shell.exchange (h : Shell N timely m) (hi : m.vRandom[i]? = some nId1) (hj : m.vRandom[j]? = some nId2)
    (hij : i ≠ j) : Shell N timely (m.exchange i j nId1 nId2) := by
  have hmem1 : nId1 ∈ m.mapInfo := h.mem_random_iff.1 (List.mem_of_getElem? hi)
  have hmem2 : nId2 ∈ m.mapInfo := h.mem_random_iff.1 (List.mem_of_getElem? hj)
  have hne : nId2 ≠ nId1 := by
    rintro rfl
    exact hij (h.positions.unique hi hj)
  have hre : Reordered m (m.exchange i j nId1 nId2) := reordered_exchange hmem1 hmem2 hne
  constructor
  · have hpos : (fun id => ((m.exchange i j nId1 nId2).mapInfo.lookup id).map (·.nRandomPos)) =
        Function.update (Function.update (fun id => (m.mapInfo.lookup id).map (·.nRandomPos)) nId1 (some (j : Int)))
          nId2 (some (i : Int)) := by
      funext id
      rw [lookup_exchange hne, Function.update_apply, Function.update_apply]
      split
      · rfl
      · split
        · rfl
        · rfl
    rw [hpos]
    exact h.positions.swap hi hj hij
  · intro a id
    show m.mapAddr.lookup a = some id ↔ _
    rw [h.addr_iff]
    constructor
    · rintro ⟨e, he, rfl⟩
      obtain ⟨e', he', hmoved⟩ := hre.entries.new he
      exact ⟨e', he', by rw [hmoved]⟩
    · rintro ⟨e', he', rfl⟩
      obtain ⟨e, he, hmoved⟩ := hre.entries.old he'
      exact ⟨e, he, by rw [hmoved]⟩
  · intro id hmem
    exact h.id_lt id ((hre.entries id).1.1 hmem)
  · exact h.idCount_nonneg
  · exact h.idCount_le
  · intro id e' he'
    obtain ⟨e, he, hmoved⟩ := hre.entries.old he'
    rw [hmoved]
    exact h.attempts_le id e he
  · intro ht id e' he'
    obtain ⟨e, he, hmoved⟩ := hre.entries.old he'
    rw [hmoved]
    exact h.lastTry ht id e he

/-- **`SwapRandom`** within the list runs through, and the two ids have changed places. -/
theorem swapRandom_spec (h : Shell N timely m) (hi : i < m.vRandom.length) (hj : j < m.vRandom.length) :
    ∃ m', m.swapRandom i j = .ok m' ∧ Shell N timely m' ∧ Reordered m m' ∧ m'.vRandom[j]? = m.vRandom[i]? := by
  by_cases hij : i = j
  · refine ⟨m, ?_, h, .refl m, by rw [hij]⟩
    rw [swapRandom, if_pos (by rw [hij])]
  · have hget1 : m.vRandom[i]? = some (m.vRandom.getD i 0) := by
      rw [List.getD_eq_getElem _ _ hi, List.getElem?_eq_getElem hi]
    have hget2 : m.vRandom[j]? = some (m.vRandom.getD j 0) := by
      rw [List.getD_eq_getElem _ _ hj, List.getElem?_eq_getElem hj]
    have hne : m.vRandom.getD j 0 ≠ m.vRandom.getD i 0 := by
      intro heq
      rw [heq] at hget2
      exact hij (h.positions.unique hget1 hget2)
    refine ⟨m.exchange i j (m.vRandom.getD i 0) (m.vRandom.getD j 0), ?_, h.exchange hget1 hget2 hij,
      reordered_exchange (h.getD_mem hi) (h.getD_mem hj) hne, ?_⟩
    · rw [swapRandom, if_neg (by exact_mod_cast hij), require_bind_ok_iff]
      refine ⟨by omega, ?_⟩
      simp only [Int.toNat_natCast]
      rw [require_bind_ok_iff, require_bind_ok_iff]
      exact ⟨h.getD_mem hi, h.getD_mem hj, rfl⟩
    · show ((m.vRandom.set i _).set j _)[j]? = _
      rw [List.getElem?_set_self (by rwa [List.length_set]), hget1]

end Exchange

/-- The id at the end of the list is taken out. -/
theorem Shell.pop (h : Shell N timely m) {e : CAddrInfo} (he : m.mapInfo.lookup nId = some e)
    (hlast : m.vRandom[m.vRandom.length - 1]? = some nId) :
    Shell N timely { m with
      vRandom := m.vRandom.dropLast
      mapAddr := m.mapAddr.erase e.toCNetAddr
      mapInfo := m.mapInfo.erase nId } := by
  have hsub : ∀ id e', (m.mapInfo.erase nId).lookup id = some e' → id ≠ nId ∧ m.mapInfo.lookup id = some e' := by
    intro id e' he'
    rw [lookup_erase_eq] at he'
    split at he'
    · exact absurd he' (by simp)
    · rename_i hne
      exact ⟨hne, he'⟩
  constructor
  · -- the record is the last of the random order
    have hpos : (fun id => ((m.mapInfo.erase nId).lookup id).map (·.nRandomPos)) =
        Function.update (fun id => (m.mapInfo.lookup id).map (·.nRandomPos)) nId none := by
      funext id
      rw [lookup_erase_eq, Function.update_apply]
      split
      · rfl
      · rfl
    show Positions m.vRandom.dropLast fun id => ((m.mapInfo.erase nId).lookup id).map (·.nRandomPos)
    rw [hpos]
    exact h.positions.pop hlast
  · intro a id
    show (m.mapAddr.erase e.toCNetAddr).lookup a = some id ↔ ∃ e', (m.mapInfo.erase nId).lookup id = some e' ∧ _
    -- the address was that of this record only
    have hown := (h.addr_iff e.toCNetAddr nId).2 ⟨e, he, rfl⟩
    rw [lookup_erase_eq]
    constructor
    · intro ha
      split at ha
      · exact absurd ha (by simp)
      · rename_i hne
        obtain ⟨e', he', haddr⟩ := (h.addr_iff a id).1 ha
        refine ⟨e', ?_, haddr⟩
        rw [lookup_erase_eq, if_neg, he']
        rintro rfl
        rw [he] at he'
        exact hne (by rw [← haddr, Option.some.inj he'])
    · rintro ⟨e', he', haddr⟩
      obtain ⟨hne, he'⟩ := hsub id e' he'
      have ha := (h.addr_iff a id).2 ⟨e', he', haddr⟩
      rw [if_neg, ha]
      rintro rfl
      exact hne (Option.some.inj (ha.symm.trans hown))
  · intro id hmem
    exact h.id_lt id (Finmap.mem_erase.1 hmem).2
  · exact h.idCount_nonneg
  · exact h.idCount_le
  · intro id e' he'
    exact h.attempts_le id e' (hsub id e' he').2
  · intro ht id e' he'
    exact h.lastTry ht id e' (hsub id e' he').2

/-! ## The buckets -/

/-- What is true of an id that lies in `k` tried and in `r` new buckets. -/
inductive Slot (x : Int) : Option CAddrInfo → Nat → Nat → Prop where
  | unknown : Slot x none 0 0
  | tried {e : CAddrInfo} (flag : e.fInTried = true) (href : e.nRefCount = 0) (hsuccess : 0 < e.nLastSuccess) :
      Slot x (some e) 1 0
  | new {e : CAddrInfo} {r : Nat} (flag : e.fInTried = false) (href : e.nRefCount = r + x) (hlow : 1 ≤ e.nRefCount)
      (hhigh : e.nRefCount ≤ ADDRMAN_NEW_BUCKETS_PER_ADDRESS) (hsuccess : 0 ≤ e.nLastSuccess) : Slot x (some e) 0 r

section Slot

variable {x : Int} {e : CAddrInfo} {k r : Nat}

theorem Slot.of_unknown (h : Slot x none k r) : k = 0 ∧ r = 0 := by
  cases h with
  | unknown => exact ⟨rfl, rfl⟩

theorem Slot.of_tried (h : Slot x (some e) k r) (hflag : e.fInTried = true) :
    k = 1 ∧ r = 0 ∧ e.nRefCount = 0 ∧ 0 < e.nLastSuccess := by
  cases h with
  | tried flag href hsuccess => exact ⟨rfl, rfl, href, hsuccess⟩
  | new flag href hlow hhigh hsuccess => exact absurd (hflag.symm.trans flag) (by simp)

theorem Slot.of_new (h : Slot x (some e) k r) (hflag : e.fInTried = false) :
    k = 0 ∧ e.nRefCount = r + x ∧ 1 ≤ e.nRefCount ∧ e.nRefCount ≤ ADDRMAN_NEW_BUCKETS_PER_ADDRESS ∧
      0 ≤ e.nLastSuccess := by
  cases h with
  | tried flag href hsuccess => exact absurd (hflag.symm.trans flag) (by simp)
  | new flag href hlow hhigh hsuccess => exact ⟨rfl, href, hlow, hhigh, hsuccess⟩

end Slot

/-- The buckets are in order, but for `extra` references that are counted already. -/
structure Placed (extra : Int → Int) (m : CAddrMan) : Prop where
  slot : ∀ id, Slot (extra id) (m.mapInfo.lookup id) (holding m.vvTried id).card (holding m.vvNew id).card
  tried_nodup : ∀ b, (m.vvTried b).Nodup
  tried_size : ∀ b, (m.vvTried b).length ≤ ADDRMAN_TRIED_BUCKET_SIZE
  new_size : ∀ b, (m.vvNew b).card ≤ ADDRMAN_NEW_BUCKET_SIZE
  nTried_eq : m.nTried = (m.flagIds true).card
  nNew_eq : m.nNew = (m.flagIds false).card

variable {extra : Int → Int}

theorem Placed.entry (h : Placed extra m) {e : CAddrInfo} (he : m.mapInfo.lookup nId = some e) :
    Slot (extra nId) (some e) (holding m.vvTried nId).card (holding m.vvNew nId).card := by
  rw [← he]
  exact h.slot nId

theorem Placed.unlisted (h : Placed extra m) (hnone : m.mapInfo.lookup nId = none) :
    (holding m.vvTried nId).card = 0 ∧ (holding m.vvNew nId).card = 0 := by
  have hslot := h.slot nId
  rw [hnone] at hslot
  exact hslot.of_unknown

/-- Whoever lies in a new bucket is a new entry. -/
theorem Placed.of_mem_new (h : Placed extra m) {b : Fin ADDRMAN_NEW_BUCKET_COUNT} (hid : nId ∈ m.vvNew b) :
    nId ∈ m.mapInfo ∧ (m.info nId).fInTried = false ∧ (holding m.vvTried nId).card = 0 ∧
      (m.info nId).nRefCount = (holding m.vvNew nId).card + extra nId := by
  have hpos : 0 < (holding m.vvNew nId).card := card_holding_pos hid
  cases hlook : m.mapInfo.lookup nId with
  | none => exact absurd (h.unlisted hlook).2 hpos.ne'
  | some e =>
    rw [info_eq hlook]
    cases hflag : e.fInTried with
    | true => exact absurd ((h.entry hlook).of_tried hflag).2.1 hpos.ne'
    | false =>
      obtain ⟨hnowhere, href, -⟩ := (h.entry hlook).of_new hflag
      exact ⟨Finmap.mem_of_lookup_eq_some hlook, rfl, hnowhere, href⟩

/-- Whoever lies in a tried bucket is a tried entry. -/
theorem Placed.of_mem_tried (h : Placed extra m) {b : Fin ADDRMAN_TRIED_BUCKET_COUNT} (hid : nId ∈ m.vvTried b) :
    nId ∈ m.mapInfo ∧ (m.info nId).fInTried = true ∧ (holding m.vvTried nId).card = 1 ∧
      (holding m.vvNew nId).card = 0 ∧ 0 < (m.info nId).nLastSuccess := by
  have hpos : 0 < (holding m.vvTried nId).card := card_holding_pos hid
  cases hlook : m.mapInfo.lookup nId with
  | none => exact absurd (h.unlisted hlook).1 hpos.ne'
  | some e =>
    rw [info_eq hlook]
    cases hflag : e.fInTried with
    | true =>
      obtain ⟨hone, hnowhere, -, hsuccess⟩ := (h.entry hlook).of_tried hflag
      exact ⟨Finmap.mem_of_lookup_eq_some hlook, rfl, hone, hnowhere, hsuccess⟩
    | false => exact absurd ((h.entry hlook).of_new hflag).1 hpos.ne'

/-- An entry that was not tried is a new one. -/
theorem Placed.of_new (h : Placed extra m) (hid : nId ∈ m.mapInfo) (hflag : (m.info nId).fInTried = false) :
    (holding m.vvTried nId).card = 0 ∧ (m.info nId).nRefCount = (holding m.vvNew nId).card + extra nId ∧
      1 ≤ (m.info nId).nRefCount ∧ (m.info nId).nRefCount ≤ ADDRMAN_NEW_BUCKETS_PER_ADDRESS ∧
      0 ≤ (m.info nId).nLastSuccess :=
  (h.entry (lookup_info hid)).of_new hflag

/-! ## Entries that keep their counts -/

/-- An entry with the same counts. -/
def Alike (e e' : CAddrInfo) : Prop :=
  e'.fInTried = e.fInTried ∧ e'.nRefCount = e.nRefCount ∧ (e'.nLastSuccess = e.nLastSuccess ∨ 0 < e'.nLastSuccess)

theorem Alike.refl (e : CAddrInfo) : Alike e e := ⟨rfl, rfl, .inl rfl⟩

theorem Moved.alike {e e' : CAddrInfo} (h : Moved e e') : Alike e e' := by
  unfold Moved at h
  rw [h]
  exact ⟨rfl, rfl, .inl rfl⟩

theorem Slot.of_alike {x : Int} {e e' : CAddrInfo} {k r : Nat} (h : Slot x (some e) k r) (ha : Alike e e') :
    Slot x (some e') k r := by
  obtain ⟨hflag, href, hsuccess⟩ := ha
  cases h with
  | tried flag hzero hpos => exact .tried (hflag.trans flag) (href.trans hzero) (by omega)
  | new flag hcount hlow hhigh hpos =>
    exact .new (hflag.trans flag) (href.trans hcount) (by omega) (by rw [href]; exact hhigh) (by omega)

theorem flagIds_congr (h : Entries Alike m m') (fInTried : Bool) : m'.flagIds fInTried = m.flagIds fInTried := by
  ext id
  rw [mem_flagIds, mem_flagIds]
  constructor
  · rintro ⟨e', he', hflag⟩
    obtain ⟨e, he, halike⟩ := h.old he'
    exact ⟨e, he, halike.1.symm.trans hflag⟩
  · rintro ⟨e, he, hflag⟩
    obtain ⟨e', he', halike⟩ := h.new he
    exact ⟨e', he', halike.1.trans hflag⟩

/-- The buckets do not move, and the entries keep their counts. -/
theorem Placed.of_alike (h : Placed extra m) (hentries : Entries Alike m m') (htried : m'.vvTried = m.vvTried)
    (hnew : m'.vvNew = m.vvNew) (hnTried : m'.nTried = m.nTried) (hnNew : m'.nNew = m.nNew) : Placed extra m' := by
  constructor
  · intro id
    have hslot := h.slot id
    rw [htried, hnew]
    cases he' : m'.mapInfo.lookup id with
    | none =>
      have hnot : id ∉ m.mapInfo := by
        rw [← (hentries id).1]
        exact Finmap.lookup_eq_none.1 he'
      rwa [Finmap.lookup_eq_none.2 hnot] at hslot
    | some e' =>
      obtain ⟨e, he, halike⟩ := hentries.old he'
      rw [he] at hslot
      exact hslot.of_alike halike
  · rw [htried]
    exact h.tried_nodup
  · rw [htried]
    exact h.tried_size
  · rw [hnew]
    exact h.new_size
  · rw [hnTried, flagIds_congr hentries, h.nTried_eq]
  · rw [hnNew, flagIds_congr hentries, h.nNew_eq]

theorem Placed.reordered (h : Placed extra m) (hre : Reordered m m') : Placed extra m' := by
  have hrest := hre.rest
  apply h.of_alike
  · intro id
    refine ⟨(hre.entries id).1, ?_⟩
    intro e e' he he'
    exact ((hre.entries id).2 e e' he he').alike
  · rw [hrest]
  · rw [hrest]
  · rw [hrest]
  · rw [hrest]

/-- An entry is written to that keeps its counts. -/
theorem Placed.modifyInfo (h : Placed extra m) (hid : nId ∈ m.mapInfo) (halike : Alike (m.info nId) (f (m.info nId))) :
    Placed extra (m.modifyInfo nId f) := by
  refine h.of_alike ?_ rfl rfl rfl rfl
  intro id
  refine ⟨mem_modifyInfo hid, ?_⟩
  intro e e' he he'
  rw [lookup_modifyInfo] at he'
  split at he'
  · rename_i heq
    rw [heq] at he
    rw [← Option.some.inj he', ← info_eq he]
    exact halike
  · rw [Option.some.inj (he.symm.trans he')]
    exact .refl e'

/-! ## Changes of the sets of ids -/

/-- The ids with a flag, after one entry was written to. -/
theorem flagIds_insert {e : CAddrInfo} (hinfo : m'.mapInfo = m.mapInfo.insert nId e) (fInTried : Bool) :
    m'.flagIds fInTried =
      if e.fInTried = fInTried then insert nId (m.flagIds fInTried) else (m.flagIds fInTried).erase nId := by
  ext id
  rw [mem_flagIds, hinfo, lookup_insert_eq]
  by_cases hid : id = nId
  · subst hid
    rw [if_pos rfl]
    split
    · simpa
    · simpa
  · rw [if_neg hid, ← mem_flagIds]
    split
    · rw [Finset.mem_insert, or_iff_right hid]
    · rw [Finset.mem_erase, and_iff_right hid]

theorem flagIds_erase (hinfo : m'.mapInfo = m.mapInfo.erase nId) (fInTried : Bool) :
    m'.flagIds fInTried = (m.flagIds fInTried).erase nId := by
  ext id
  rw [mem_flagIds, hinfo, Finset.mem_erase, mem_flagIds, lookup_erase_eq]
  by_cases hid : id = nId
  · simp [hid]
  · simp [hid]

theorem mem_flagIds_iff (hid : nId ∈ m.mapInfo) {fInTried : Bool} :
    nId ∈ m.flagIds fInTried ↔ (m.info nId).fInTried = fInTried := by
  rw [mem_flagIds, lookup_info hid]
  simp

theorem flagIds_insert_same {e : CAddrInfo} (hinfo : m'.mapInfo = m.mapInfo.insert nId e) (hid : nId ∈ m.mapInfo)
    (hflag : e.fInTried = (m.info nId).fInTried) (fInTried : Bool) : m'.flagIds fInTried = m.flagIds fInTried := by
  rw [flagIds_insert hinfo, hflag]
  split
  · exact Finset.insert_eq_of_mem (by rwa [mem_flagIds_iff hid])
  · exact Finset.erase_eq_of_notMem (by rwa [mem_flagIds_iff hid])

/-- One entry takes the flag and another one loses it: as many have it as before. -/
theorem card_flagIds_exchange {a b : Int} {e e' : CAddrInfo} {fInTried : Bool}
    (hlook : ∀ id, m'.mapInfo.lookup id = if id = a then some e else if id = b then some e' else m.mapInfo.lookup id)
    (hflag : e.fInTried = fInTried) (hflag' : e'.fInTried ≠ fInTried) (hin : b ∈ m.flagIds fInTried)
    (hout : a ∉ m.flagIds fInTried) : (m'.flagIds fInTried).card = (m.flagIds fInTried).card := by
  have hflags : m'.flagIds fInTried = insert a ((m.flagIds fInTried).erase b) := by
    ext id
    rw [mem_flagIds, hlook, Finset.mem_insert, Finset.mem_erase, mem_flagIds]
    by_cases ha : id = a
    · simp [ha, hflag]
    · by_cases hb : id = b
      · have hba : b ≠ a := fun heq => ha (hb.trans heq)
        simp [hb, hba, hflag']
      · simp [ha, hb]
  rw [hflags, Finset.card_insert_of_notMem fun hmem => hout (Finset.mem_of_mem_erase hmem), Finset.card_erase_add_one hin]

/-! ## An entry leaves a new bucket -/

section Release

variable {b : Fin ADDRMAN_NEW_BUCKET_COUNT}

theorem card_holding_erase_of_ne {id : Int} (hne : id ≠ nId) :
    (holding (Function.update m.vvNew b ((m.vvNew b).erase nId)) id).card = (holding m.vvNew id).card := by
  rw [holding_update_of_iff]
  rw [Finset.mem_erase, and_iff_right hne]

/-- The entry stays, with one reference less. -/
theorem Placed.unref (h : Placed extra m) (hid : nId ∈ m.vvNew b) (hx : extra nId = 0)
    (hmany : (m.info nId).nRefCount - 1 ≠ 0)
    (hinfo : m'.mapInfo = m.mapInfo.insert nId { m.info nId with nRefCount := (m.info nId).nRefCount - 1 })
    (htried : m'.vvTried = m.vvTried) (hnew : m'.vvNew = Function.update m.vvNew b ((m.vvNew b).erase nId))
    (hnTried : m'.nTried = m.nTried) (hnNew : m'.nNew = m.nNew) : Placed extra m' := by
  obtain ⟨hmem, flag, hnowhere, -⟩ := h.of_mem_new hid
  obtain ⟨-, hcount, hlow, hhigh, hsuccess⟩ := h.of_new hmem flag
  constructor
  · intro id
    rw [hinfo, htried, hnew, lookup_insert_eq]
    split
    · rename_i heq
      subst heq
      have hdrop := card_holding_update_drop (Finset.notMem_erase id (m.vvNew b)) hid
      rw [hnowhere]
      refine .new flag ?_ ?_ ?_ hsuccess
      · show (m.info id).nRefCount - 1 = _
        omega
      · show 1 ≤ (m.info id).nRefCount - 1
        omega
      · show (m.info id).nRefCount - 1 ≤ _
        omega
    · rename_i hne
      rw [card_holding_erase_of_ne hne]
      exact h.slot id
  · rw [htried]
    exact h.tried_nodup
  · rw [htried]
    exact h.tried_size
  · rw [hnew]
    exact forall_update (fun s : Finset Int => s.card ≤ ADDRMAN_NEW_BUCKET_SIZE) h.new_size
      (Finset.card_erase_le.trans (h.new_size b))
  · rw [hnTried, flagIds_insert_same hinfo hmem rfl, h.nTried_eq]
  · rw [hnNew, flagIds_insert_same hinfo hmem rfl, h.nNew_eq]

/-- The entry goes with its last reference. -/
theorem Placed.forget (h : Placed extra m) (hid : nId ∈ m.vvNew b) (hx : extra nId = 0)
    (hone : (m.info nId).nRefCount - 1 = 0) (hinfo : m'.mapInfo = m.mapInfo.erase nId)
    (htried : m'.vvTried = m.vvTried) (hnew : m'.vvNew = Function.update m.vvNew b ((m.vvNew b).erase nId))
    (hnTried : m'.nTried = m.nTried) (hnNew : m'.nNew = m.nNew - 1) : Placed extra m' := by
  obtain ⟨hmem, flag, hnowhere, hcount⟩ := h.of_mem_new hid
  have hin : nId ∈ m.flagIds false := (mem_flagIds_iff hmem).2 flag
  have hout : nId ∉ m.flagIds true := by
    rw [mem_flagIds_iff hmem, flag]
    simp
  constructor
  · intro id
    rw [hinfo, htried, hnew, lookup_erase_eq]
    split
    · rename_i heq
      subst heq
      have hdrop := card_holding_update_drop (Finset.notMem_erase id (m.vvNew b)) hid
      have hzero : (holding (Function.update m.vvNew b ((m.vvNew b).erase id)) id).card = 0 := by omega
      rw [hnowhere, hzero]
      exact .unknown
    · rename_i hne
      rw [card_holding_erase_of_ne hne]
      exact h.slot id
  · rw [htried]
    exact h.tried_nodup
  · rw [htried]
    exact h.tried_size
  · rw [hnew]
    exact forall_update (fun s : Finset Int => s.card ≤ ADDRMAN_NEW_BUCKET_SIZE) h.new_size
      (Finset.card_erase_le.trans (h.new_size b))
  · rw [hnTried, flagIds_erase hinfo, Finset.erase_eq_of_notMem hout, h.nTried_eq]
  · have hpos : 0 < (m.flagIds false).card := Finset.card_pos.2 ⟨nId, hin⟩
    have hold := h.nNew_eq
    rw [hnNew, flagIds_erase hinfo, Finset.card_erase_of_mem hin]
    omega

/-- An entry is swapped to the end of the list and taken out of the indexes. -/
theorem swapOut_spec (hs : Shell N timely m) {e : CAddrInfo} (he : m.mapInfo.lookup nId = some e) :
    ∃ m', m.swapRandom e.nRandomPos ((m.vRandom.length : Int) - 1) = .ok m' ∧ Reordered m m' ∧
      Shell N timely { m' with
        vRandom := m'.vRandom.dropLast
        mapAddr := m'.mapAddr.erase e.toCNetAddr
        mapInfo := m'.mapInfo.erase nId } := by
  obtain ⟨p, hpos, hp⟩ := hs.positions.get (by rw [he]; rfl)
  have hpos : e.nRandomPos = p := hpos
  have hlt : p < m.vRandom.length := (List.getElem?_eq_some_iff.1 hp).1
  obtain ⟨m', hswap, hs', hre, hlast⟩ :=
    swapRandom_spec hs hlt (show m.vRandom.length - 1 < m.vRandom.length by omega)
  have hcast : ((m.vRandom.length : Int) - 1) = ((m.vRandom.length - 1 : Nat) : Int) := by omega
  obtain ⟨e', he', hmoved⟩ := hre.entries.new he
  refine ⟨m', ?_, hre, ?_⟩
  · rw [hpos, hcast, hswap]
  · -- the swap has moved the entry, and left its address as it was
    have haddr : e'.toCNetAddr = e.toCNetAddr := by rw [hmoved]
    rw [hp, ← hre.length_eq] at hlast
    have hpop := hs'.pop he' hlast
    rw [haddr] at hpop
    exact hpop

/-- **`ShrinkNew`** with an entry of the bucket that it has chosen. -/
theorem release_spec (hs : Shell N timely m) (hp : Placed extra m) (hid : nId ∈ m.vvNew b) (hx : extra nId = 0) :
    ∃ m', m.release b nId = .ok m' ∧ Shell N timely m' ∧ Placed extra m' ∧
      m'.vvNew = Function.update m.vvNew b ((m.vvNew b).erase nId) ∧
      ∀ id, id ≠ nId → ∀ e, m.mapInfo.lookup id = some e → ∃ e', m'.mapInfo.lookup id = some e' ∧ Alike e e' := by
  have hmem := (hp.of_mem_new hid).1
  have hshell : Shell N timely (m.modifyInfo nId fun e => { e with nRefCount := e.nRefCount - 1 }) :=
    hs.modifyCounts hmem (fun _ => rfl) (fun _ => rfl) (fun _ => rfl)
  have hlook : (m.modifyInfo nId fun e => { e with nRefCount := e.nRefCount - 1 }).mapInfo.lookup nId =
      some { m.info nId with nRefCount := (m.info nId).nRefCount - 1 } := by
    rw [lookup_modifyInfo, if_pos rfl]
  unfold release
  simp only [info_eq hlook]
  by_cases hone : (m.info nId).nRefCount - 1 = 0
  · rw [if_pos hone]
    generalize hm1 : m.modifyInfo nId (fun e => { e with nRefCount := e.nRefCount - 1 }) = m1 at hshell hlook
    obtain ⟨m2, hswap, hre, hpop⟩ := swapOut_spec hshell hlook
    have hswap : m1.swapRandom (m.info nId).nRandomPos ((m1.vRandom.length : Int) - 1) = .ok m2 := hswap
    have htried2 : m2.vvTried = m.vvTried := by
      rw [hre.rest, ← hm1]
      rfl
    have hnew2 : m2.vvNew = m.vvNew := by
      rw [hre.rest, ← hm1]
      rfl
    have hnTried2 : m2.nTried = m.nTried := by
      rw [hre.rest, ← hm1]
      rfl
    have hnNew2 : m2.nNew = m.nNew := by
      rw [hre.rest, ← hm1]
      rfl
    have hsame : ∀ id, id ≠ nId → m1.mapInfo.lookup id = m.mapInfo.lookup id := by
      intro id hne
      rw [← hm1, lookup_modifyInfo, if_neg hne]
    rw [hswap]
    refine ⟨_, rfl, hpop.of_eq rfl rfl rfl rfl, ?_, ?_, ?_⟩
    · -- the other entries are the ones before, but for their positions
      have hforget : Placed extra { m with
          mapInfo := m.mapInfo.erase nId
          vvNew := Function.update m.vvNew b ((m.vvNew b).erase nId)
          nNew := m.nNew - 1 } := hp.forget hid hx hone rfl rfl rfl rfl rfl
      refine hforget.of_alike ?_ htried2 (by rw [← hnew2]) hnTried2 (by rw [← hnNew2])
      intro id
      constructor
      · show id ∈ m2.mapInfo.erase nId ↔ id ∈ m.mapInfo.erase nId
        rw [Finmap.mem_erase, Finmap.mem_erase, (hre.entries id).1]
        apply and_congr_right
        intro hne
        rw [← Finmap.lookup_isSome, hsame id hne, Finmap.lookup_isSome]
      · intro e e' he he'
        replace he : (m.mapInfo.erase nId).lookup id = some e := he
        replace he' : (m2.mapInfo.erase nId).lookup id = some e' := he'
        rw [lookup_erase_eq] at he he'
        split at he
        · exact absurd he (by simp)
        · rename_i hne
          rw [if_neg hne] at he'
          exact ((hre.entries id).2 e e' ((hsame id hne).trans he) he').alike
    · show Function.update m2.vvNew b ((m2.vvNew b).erase nId) = _
      rw [hnew2]
    · intro id hne e he
      obtain ⟨e', he', hmoved'⟩ := hre.entries.new ((hsame id hne).trans he)
      refine ⟨e', ?_, hmoved'.alike⟩
      show (m2.mapInfo.erase nId).lookup id = some e'
      rw [lookup_erase_eq, if_neg hne, he']
  · rw [if_neg hone]
    refine ⟨_, rfl, hshell.of_eq rfl rfl rfl rfl, hp.unref hid hx hone rfl rfl rfl rfl rfl, rfl, ?_⟩
    intro id hne e he
    refine ⟨e, ?_, .refl e⟩
    show (m.modifyInfo nId fun e => { e with nRefCount := e.nRefCount - 1 }).mapInfo.lookup id = some e
    rw [lookup_modifyInfo, if_neg hne, he]

theorem findTerrible_spec (nNow : Int) {ids : List Int} (hknown : ∀ id ∈ ids, id ∈ m.mapInfo) :
    ∃ o, findTerrible nNow m ids = .ok o ∧ ∀ id, o = some id → id ∈ ids := by
  induction ids with
  | nil => exact ⟨none, rfl, by simp⟩
  | cons nId rest ih =>
    obtain ⟨o, hok, hmem⟩ := ih (fun id hid => hknown id (List.mem_cons_of_mem _ hid))
    unfold findTerrible
    by_cases hterrible : (m.info nId).isTerrible nNow = true
    · refine ⟨some nId, ?_, ?_⟩
      · rw [require_bind_ok_iff, if_pos hterrible]
        exact ⟨hknown nId List.mem_cons_self, rfl⟩
      · intro id hid
        rw [← Option.some.inj hid]
        exact List.mem_cons_self
    · refine ⟨o, ?_, ?_⟩
      · rw [require_bind_ok_iff, if_neg hterrible]
        exact ⟨hknown nId List.mem_cons_self, hok⟩
      · intro id hid
        exact List.mem_cons_of_mem _ (hmem id hid)

/-- The loop takes an entry of the bucket as soon as it comes to one of the positions. -/
theorem oldestNew_spec {S : Int → Prop} (n : List Nat) {l : List (Int × Nat)} (hknown : ∀ x ∈ l, S x.1 ∧ x.1 ∈ m.mapInfo)
    {nOldest : Int} (hold : S nOldest ∨ nOldest = -1 ∧ ∃ x ∈ l, x.2 ∈ n) :
    ∃ id, oldestNew n m l nOldest = .ok id ∧ S id := by
  induction l generalizing nOldest with
  | nil =>
    rcases hold with hS | ⟨-, x, hx, -⟩
    · exact ⟨nOldest, rfl, hS⟩
    · exact absurd hx (by simp)
  | cons x rest ih =>
    obtain ⟨nId, nI⟩ := x
    obtain ⟨hS, hmem⟩ := hknown _ List.mem_cons_self
    have hrest : ∀ x ∈ rest, S x.1 ∧ x.1 ∈ m.mapInfo := fun x hx => hknown x (List.mem_cons_of_mem _ hx)
    unfold oldestNew
    by_cases hhit : nI ∈ n
    · rw [if_pos hhit]
      have hnext : S (if nOldest = -1 ∨ (m.info nId).nTime < (m.info nOldest).nTime then nId else nOldest) := by
        split
        · exact hS
        · rename_i hneg
          rcases hold with hS' | ⟨hsentinel, -⟩
          · exact hS'
          · exact absurd (Or.inl hsentinel) hneg
      obtain ⟨id, hok, hid⟩ := ih hrest (.inl hnext)
      refine ⟨id, ?_, hid⟩
      rw [require_bind_ok_iff]
      exact ⟨.inr hmem, hok⟩
    · rw [if_neg hhit]
      apply ih hrest
      rcases hold with hS' | ⟨hsentinel, x, hx, hxn⟩
      · exact .inl hS'
      · refine .inr ⟨hsentinel, x, ?_, hxn⟩
        rcases List.mem_cons.1 hx with rfl | hx
        · exact absurd hxn hhit
        · exact hx

theorem getRandInt_lt (draw : Nat) {nMax : Nat} (h : 0 < nMax) : getRandInt draw nMax < nMax := by
  rw [getRandInt, if_neg (by omega)]
  exact Nat.mod_lt _ h

/-- **`ShrinkNew`** takes one entry out of a bucket that is not empty. -/
theorem shrinkNew_spec (t : Moment) (hs : Shell N timely m) (hp : Placed extra m) (hx : ∀ id ∈ m.vvNew b, extra id = 0)
    (hne : 0 < (m.vvNew b).card) :
    ∃ r m', m.shrinkNew t b = .ok (r, m') ∧ Shell N timely m' ∧ Placed extra m' ∧
      ∃ nId ∈ m.vvNew b, m'.vvNew = Function.update m.vvNew b ((m.vvNew b).erase nId) ∧
        ∀ id, id ≠ nId → ∀ e, m.mapInfo.lookup id = some e → ∃ e', m'.mapInfo.lookup id = some e' ∧ Alike e e' := by
  have hsort : ∀ id ∈ sorted (m.vvNew b), id ∈ m.vvNew b := fun id hid => mem_sorted.mp hid
  have hlen : (sorted (m.vvNew b)).length = (m.vvNew b).card := length_sorted _
  obtain ⟨o, hfind, hterrible⟩ :=
    findTerrible_spec t.nNow (fun id hid => (hp.of_mem_new (hsort id hid)).1)
  unfold shrinkNew
  simp only []
  rw [hfind]
  cases o with
  | some nId =>
    have hid := hsort nId (hterrible nId rfl)
    obtain ⟨m', hok, hs', hp', hothers⟩ := release_spec hs hp hid (hx nId hid)
    refine ⟨0, m', ?_, hs', hp', nId, hid, hothers⟩
    show (m.release b nId >>= fun m => Except.ok (0, m)) = _
    rw [hok]
    rfl
  | none =>
    -- the first random position is a position of the bucket
    have hpos := getRandInt_lt (t.rand 1) (show 0 < (sorted (m.vvNew b)).length by omega)
    obtain ⟨nOldest, hold, hid⟩ := oldestNew_spec (S := fun id => id ∈ m.vvNew b)
      ([1, 2, 3, 4].map fun i => getRandInt (t.rand i) (sorted (m.vvNew b)).length)
      (l := (sorted (m.vvNew b)).zipIdx) (m := m) (by
        intro x hx
        have hfst := hsort x.1 (List.fst_mem_of_mem_zipIdx hx)
        exact ⟨hfst, (hp.of_mem_new hfst).1⟩)
      (.inr ⟨rfl, ((sorted (m.vvNew b)).get ⟨_, hpos⟩, getRandInt (t.rand 1) _),
        List.mk_mem_zipIdx_iff_getElem?.2 (List.getElem?_eq_getElem hpos), List.mem_cons_self⟩)
    obtain ⟨m', hok, hs', hp', hothers⟩ := release_spec hs hp hid (hx nOldest hid)
    refine ⟨1, m', ?_, hs', hp', nOldest, hid, hothers⟩
    rw [Except.bind_ok_iff]
    refine ⟨none, rfl, ?_⟩
    rw [Except.bind_ok_iff]
    refine ⟨nOldest, hold, ?_⟩
    rw [require_bind_ok_iff]
    refine ⟨(hp.of_mem_new hid).1, ?_⟩
    rw [hok]
    rfl

/-- The entry goes into the bucket that its last reference was counted for. -/
theorem Placed.insertNew (h : Placed (Pi.single nId 1) m) (hmem : nId ∈ m.mapInfo)
    (hflag : (m.info nId).fInTried = false) (hnot : nId ∉ m.vvNew b) (hroom : (m.vvNew b).card < ADDRMAN_NEW_BUCKET_SIZE) :
    Placed 0 { m with vvNew := Function.update m.vvNew b (insert nId (m.vvNew b)) } := by
  obtain ⟨hnowhere, hcount, hlow, hhigh, hsuccess⟩ := h.of_new hmem hflag
  constructor
  · intro id
    show Slot 0 (m.mapInfo.lookup id) (holding m.vvTried id).card
      (holding (Function.update m.vvNew b (insert nId (m.vvNew b))) id).card
    by_cases hid : id = nId
    · subst hid
      rw [lookup_info hmem, hnowhere, card_holding_update_add (Finset.mem_insert_self id _) hnot]
      refine .new hflag ?_ hlow hhigh hsuccess
      rw [hcount, Pi.single_eq_same, Nat.cast_add, Nat.cast_one, add_zero]
    · have hslot := h.slot id
      rw [Pi.single_eq_of_ne hid] at hslot
      rw [holding_update_of_iff (by rw [Finset.mem_insert, or_iff_right hid])]
      exact hslot
  · exact h.tried_nodup
  · exact h.tried_size
  · exact forall_update (fun s : Finset Int => s.card ≤ ADDRMAN_NEW_BUCKET_SIZE) h.new_size
      ((Finset.card_insert_le _ _).trans hroom)
  · exact h.nTried_eq
  · exact h.nNew_eq

end Release

section Add

variable (hash : BucketHash) (t : Moment)

/-- The end of **`Add_`**, for an entry that has its next reference counted. -/
theorem insertNew_spec (source : CNetAddr) (hs : Shell N timely m) (hmem : nId ∈ m.mapInfo)
    (hflag : (m.info nId).fInTried = false)
    (hstay : nId ∈ m.vvNew ((m.info nId).getNewBucket hash source) → Placed 0 m)
    (hp : Placed (Pi.single nId 1) (m.modifyInfo nId fun e => { e with nRefCount := e.nRefCount + 1 })) :
    ∃ m', m.insertNew hash t source nId = .ok m' ∧ Shell N timely m' ∧ Placed 0 m' := by
  unfold CAddrMan.insertNew
  simp only []
  generalize (m.info nId).getNewBucket hash source = b at hstay ⊢
  by_cases hin : nId ∈ m.vvNew b
  · rw [if_pos hin]
    exact ⟨m, rfl, hs, hstay hin⟩
  rw [if_neg hin]
  have hs1 : Shell N timely (m.modifyInfo nId fun e => { e with nRefCount := e.nRefCount + 1 }) :=
    hs.modifyCounts hmem (fun _ => rfl) (fun _ => rfl) (fun _ => rfl)
  have hlook1 : (m.modifyInfo nId fun e => { e with nRefCount := e.nRefCount + 1 }).mapInfo.lookup nId =
      some { m.info nId with nRefCount := (m.info nId).nRefCount + 1 } := by
    rw [lookup_modifyInfo, if_pos rfl]
  have hin1 : nId ∉ (m.modifyInfo nId fun e => { e with nRefCount := e.nRefCount + 1 }).vvNew b := hin
  generalize m.modifyInfo nId (fun e => { e with nRefCount := e.nRefCount + 1 }) = m1 at hp hs1 hlook1 hin1 ⊢
  have hmem1 : nId ∈ m1.mapInfo := Finmap.mem_of_lookup_eq_some hlook1
  have hflag1 : (m1.info nId).fInTried = false := by
    rw [info_eq hlook1]
    exact hflag
  -- a full bucket loses a record before it gets this one
  by_cases hfull : (m1.vvNew b).card = ADDRMAN_NEW_BUCKET_SIZE
  · rw [if_pos hfull]
    have hx : ∀ id ∈ m1.vvNew b, (Pi.single nId 1 : Int → Int) id = 0 := by
      intro id hid
      apply Pi.single_eq_of_ne
      rintro rfl
      exact hin1 hid
    obtain ⟨r, m2, hok, hs2, hp2, nVictim, hvictim, hnew2, hothers⟩ :=
      shrinkNew_spec t hs1 hp hx (by rw [hfull]; decide)
    have hne : nId ≠ nVictim := by
      rintro rfl
      exact hin1 hvictim
    obtain ⟨e2, he2, halike⟩ := hothers nId hne _ hlook1
    have hin2 : nId ∉ m2.vvNew b := by
      rw [hnew2, Function.update_self]
      exact fun hmem => hin1 (Finset.mem_of_mem_erase hmem)
    have hroom2 : (m2.vvNew b).card < ADDRMAN_NEW_BUCKET_SIZE := by
      rw [hnew2, Function.update_self, Finset.card_erase_of_mem hvictim, hfull]
      decide
    rw [hok]
    refine ⟨_, rfl, hs2.of_eq rfl rfl rfl rfl, hp2.insertNew (Finmap.mem_of_lookup_eq_some he2) ?_ hin2 hroom2⟩
    rw [info_eq he2, halike.1]
    exact hflag
  · rw [if_neg hfull]
    refine ⟨_, rfl, hs1.of_eq rfl rfl rfl rfl, hp.insertNew hmem1 hflag1 hin1 ?_⟩
    exact lt_of_le_of_ne (hp.new_size b) hfull

/-- An entry in fewer than four buckets gets its next reference counted. -/
theorem Placed.ref (h : Placed 0 m) (hmem : nId ∈ m.mapInfo) (hflag : (m.info nId).fInTried = false)
    (hless : (m.info nId).nRefCount ≠ ADDRMAN_NEW_BUCKETS_PER_ADDRESS) :
    Placed (Pi.single nId 1) (m.modifyInfo nId fun e => { e with nRefCount := e.nRefCount + 1 }) := by
  obtain ⟨hnowhere, hcount, hlow, hhigh, hsuccess⟩ := h.of_new hmem hflag
  have hflags : ∀ flag, (m.modifyInfo nId fun e => { e with nRefCount := e.nRefCount + 1 }).flagIds flag = m.flagIds flag :=
    flagIds_insert_same (e := { m.info nId with nRefCount := (m.info nId).nRefCount + 1 }) rfl hmem rfl
  constructor
  · intro id
    show Slot _ _ (holding m.vvTried id).card (holding m.vvNew id).card
    rw [lookup_modifyInfo]
    by_cases hid : id = nId
    · subst hid
      rw [if_pos rfl, hnowhere, Pi.single_eq_same]
      refine .new hflag ?_ ?_ ?_ hsuccess
      · show (m.info id).nRefCount + 1 = _
        rw [hcount]
        rfl
      · show 1 ≤ (m.info id).nRefCount + 1
        omega
      · show (m.info id).nRefCount + 1 ≤ _
        omega
    · rw [if_neg hid, Pi.single_eq_of_ne hid]
      exact h.slot id
  · exact h.tried_nodup
  · exact h.tried_size
  · exact h.new_size
  · rw [hflags]
    exact h.nTried_eq
  · rw [hflags]
    exact h.nNew_eq

theorem of_wantsBucket {addr : CAddress} {e : CAddrInfo} (h : wantsBucket t addr e = true) :
    e.fInTried = false ∧ e.nRefCount ≠ ADDRMAN_NEW_BUCKETS_PER_ADDRESS := by
  unfold wantsBucket at h
  split at h
  · exact absurd h (by simp)
  · split at h
    · exact absurd h (by simp)
    · rename_i hflag
      split at h
      · exact absurd h (by simp)
      · rename_i hless
        exact ⟨by simpa using hflag, hless⟩

theorem find_eq_some_iff (h : Shell N timely m) {addr : CNetAddr} {e : CAddrInfo} :
    m.find addr = some (nId, e) ↔ m.mapInfo.lookup nId = some e ∧ e.toCNetAddr = addr := by
  unfold CAddrMan.find
  rw [Option.bind_eq_some_iff]
  constructor
  · rintro ⟨id, haddr, hsome⟩
    obtain ⟨e', he', heq⟩ := Option.map_eq_some_iff.1 hsome
    obtain ⟨rfl, rfl⟩ := Prod.mk.inj heq
    obtain ⟨e'', he'', hip⟩ := (h.addr_iff addr id).1 haddr
    rw [he'] at he''
    exact ⟨he', by rw [Option.some.inj he'', hip]⟩
  · rintro ⟨he, hip⟩
    refine ⟨nId, (h.addr_iff addr nId).2 ⟨e, he, hip⟩, ?_⟩
    rw [he]
    rfl

/-- An address that is not found has no entry. -/
theorem lookup_eq_none_of_find (h : Shell N timely m) {addr : CNetAddr} (hfind : m.find addr = none) :
    m.mapAddr.lookup addr = none := by
  cases haddr : m.mapAddr.lookup addr with
  | none => rfl
  | some id =>
    obtain ⟨e, he, hip⟩ := (h.addr_iff addr id).1 haddr
    rw [(find_eq_some_iff h).2 ⟨he, hip⟩] at hfind
    exact absurd hfind (by simp)

/-- More calls allow more. -/
theorem Shell.mono (h : Shell N timely m) {N' : Int} {timely' : Prop} (hN : N ≤ N') (ht : timely' → timely) :
    Shell N' timely' m where
  positions := h.positions
  addr_iff := h.addr_iff
  id_lt := h.id_lt
  idCount_nonneg := h.idCount_nonneg
  idCount_le := h.idCount_le.trans hN
  attempts_le := fun id e he => (h.attempts_le id e he).trans hN
  lastTry := fun htimely => h.lastTry (ht htimely)

/-- The id of the next entry is free. -/
theorem Shell.fresh (h : Shell N timely m) : m.mapInfo.lookup m.nIdCount = none := by
  rw [Finmap.lookup_eq_none]
  intro hmem
  have := (h.id_lt _ hmem).2
  omega

/-- **`Create`**, for an address that has no entry. -/
theorem Shell.create (h : Shell N timely m) {e : CAddrInfo} (haddr : m.mapAddr.lookup e.toCNetAddr = none)
    (hpos : e.nRandomPos = m.vRandom.length) (hattempts : e.nAttempts = 0) (htry : e.nLastTry = 0) :
    Shell (N + 1) timely { m with
      nIdCount := m.nIdCount + 1
      mapInfo := m.mapInfo.insert m.nIdCount e
      mapAddr := m.mapAddr.insert e.toCNetAddr m.nIdCount
      vRandom := m.vRandom ++ [m.nIdCount] } := by
  have hfresh := h.fresh
  have hnonneg := h.idCount_nonneg
  have hle := h.idCount_le
  have hold : ∀ id e', (m.mapInfo.insert m.nIdCount e).lookup id = some e' → e' = e ∨ m.mapInfo.lookup id = some e' := by
    intro id e' he'
    rw [lookup_insert_eq] at he'
    split at he'
    · exact .inl (Option.some.inj he').symm
    · exact .inr he'
  constructor
  · -- the new identifier is at the end of the random order
    have hupdate : (fun id => ((m.mapInfo.insert m.nIdCount e).lookup id).map (·.nRandomPos)) =
        Function.update (fun id => (m.mapInfo.lookup id).map (·.nRandomPos)) m.nIdCount
          (some (m.vRandom.length : Int)) := by
      funext id
      rw [lookup_insert_eq, Function.update_apply]
      split
      · rw [Option.map_some, hpos]
      · rfl
    show Positions (m.vRandom ++ [m.nIdCount]) fun id => ((m.mapInfo.insert m.nIdCount e).lookup id).map (·.nRandomPos)
    rw [hupdate]
    apply h.positions.push
    rw [hfresh]
    rfl
  · intro a id
    show (m.mapAddr.insert e.toCNetAddr m.nIdCount).lookup a = some id ↔
      ∃ e', (m.mapInfo.insert m.nIdCount e).lookup id = some e' ∧ e'.toCNetAddr = a
    rw [lookup_insert_eq, lookup_insert_eq]
    -- the new address has the new identifier, and the other addresses have theirs as before
    by_cases ha : a = e.toCNetAddr
    · rw [if_pos ha]
      constructor
      · intro hid
        rw [if_pos (Option.some.inj hid).symm]
        exact ⟨e, rfl, ha.symm⟩
      · rintro ⟨e', he', hip⟩
        split at he'
        · rename_i heq
          rw [heq]
        · have hown := (h.addr_iff a id).2 ⟨e', he', hip⟩
          rw [ha, haddr] at hown
          exact absurd hown (by simp)
    · rw [if_neg ha, h.addr_iff]
      split
      · rename_i heq
        rw [heq, hfresh]
        constructor
        · rintro ⟨e', he', -⟩
          exact absurd he' (by simp)
        · rintro ⟨e', he', hip⟩
          rw [← Option.some.inj he'] at hip
          exact absurd hip.symm ha
      · rfl
  · intro id hmem
    show 0 ≤ id ∧ id < m.nIdCount + 1
    rcases Finmap.mem_insert.1 hmem with rfl | hmem
    · omega
    · have := h.id_lt id hmem
      omega
  · show 0 ≤ m.nIdCount + 1
    omega
  · show m.nIdCount + 1 ≤ N + 1
    omega
  · intro id e' he'
    rcases hold id e' he' with rfl | he'
    · omega
    · have := h.attempts_le id e' he'
      omega
  · intro ht id e' he'
    rcases hold id e' he' with rfl | he'
    · omega
    · exact h.lastTry ht id e' he'

theorem create_spec (h : Shell N timely m) {addr : CAddress} (haddr : m.mapAddr.lookup addr.toCNetAddr = none)
    (source : CNetAddr) (hroom : m.nIdCount < 2 ^ 31 - 1) :
    ∃ m' e, m.create addr source = .ok (m.nIdCount, m') ∧ Shell (N + 1) timely m' ∧
      m'.mapInfo = m.mapInfo.insert m.nIdCount e ∧ e.fInTried = false ∧ e.nRefCount = 0 ∧ e.nLastSuccess = 0 ∧
      m'.vvTried = m.vvTried ∧ m'.vvNew = m.vvNew ∧ m'.nTried = m.nTried ∧ m'.nNew = m.nNew := by
  refine ⟨_, { CAddrInfo.ofAddress addr source with nRandomPos := m.vRandom.length }, ?_,
    h.create (e := { CAddrInfo.ofAddress addr source with nRandomPos := m.vRandom.length }) haddr rfl rfl rfl,
    rfl, rfl, rfl, rfl, rfl, rfl, rfl, rfl⟩
  rw [CAddrMan.create, require_bind_ok_iff]
  exact ⟨hroom, rfl⟩

/-- A new entry has its first reference counted. -/
theorem Placed.fresh (h : Placed 0 m) {e : CAddrInfo} (hfresh : m.mapInfo.lookup nId = none)
    (hinfo : m'.mapInfo = m.mapInfo.insert nId e) (hflag : e.fInTried = false) (href : e.nRefCount = 1)
    (hsuccess : e.nLastSuccess = 0) (htried : m'.vvTried = m.vvTried) (hnew : m'.vvNew = m.vvNew)
    (hnTried : m'.nTried = m.nTried) (hnNew : m'.nNew = m.nNew + 1) : Placed (Pi.single nId 1) m' := by
  have hnot : ∀ flag, nId ∉ m.flagIds flag := by
    intro flag
    rw [mem_flagIds, hfresh]
    simp
  constructor
  · intro id
    rw [hinfo, htried, hnew, lookup_insert_eq]
    by_cases hid : id = nId
    · subst hid
      obtain ⟨htried0, hnew0⟩ := h.unlisted hfresh
      rw [if_pos rfl, Pi.single_eq_same, htried0, hnew0]
      exact .new hflag (by rw [href]; rfl) (by omega) (by rw [href]; decide) (by omega)
    · rw [if_neg hid, Pi.single_eq_of_ne hid]
      exact h.slot id
  · rw [htried]
    exact h.tried_nodup
  · rw [htried]
    exact h.tried_size
  · rw [hnew]
    exact h.new_size
  · rw [hnTried, flagIds_insert hinfo, if_neg (by rw [hflag]; simp), Finset.erase_eq_of_notMem (hnot true), h.nTried_eq]
  · rw [hnNew, flagIds_insert hinfo, if_pos hflag, Finset.card_insert_of_notMem (hnot false), h.nNew_eq]
    rfl

/-- The end of **`Add_`**, for an entry that was just made. -/
theorem insertFresh_spec (source : CNetAddr) {e : CAddrInfo} (hp : Placed 0 m) (hfresh : m.mapInfo.lookup nId = none)
    (hs : Shell N timely m') (hmap : m'.mapInfo = m.mapInfo.insert nId e) (hflag : e.fInTried = false)
    (href : e.nRefCount = 0) (hsuccess : e.nLastSuccess = 0) (htried : m'.vvTried = m.vvTried)
    (hnew : m'.vvNew = m.vvNew) (hnTried : m'.nTried = m.nTried) (hnNew : m'.nNew = m.nNew + 1) :
    ∃ m'', m'.insertNew hash t source nId = .ok m'' ∧ Shell N timely m'' ∧ Placed 0 m'' := by
  have hlook : m'.mapInfo.lookup nId = some e := by rw [hmap, Finmap.lookup_insert]
  have hinfo := info_eq hlook
  apply insertNew_spec hash t source hs (Finmap.mem_of_lookup_eq_some hlook)
  · rw [hinfo]
    exact hflag
  · intro hin
    rw [hnew] at hin
    exact absurd (hp.of_mem_new hin).1 (Finmap.lookup_eq_none.1 hfresh)
  · refine hp.fresh (e := { e with nRefCount := e.nRefCount + 1 }) hfresh ?_ hflag ?_ hsuccess htried hnew hnTried hnNew
    · show m'.mapInfo.insert nId { m'.info nId with nRefCount := (m'.info nId).nRefCount + 1 } = _
      rw [hmap, Finmap.insert_insert, hinfo]
    · show e.nRefCount + 1 = 1
      omega

/-- **`Add_`** -/
theorem add_spec (addr : CAddress) (source : CNetAddr) (nTimePenalty : Int) (hs : Shell N timely m) (hp : Placed 0 m) :
    (∃ fNew m', m.add_ hash t addr source nTimePenalty = .ok (fNew, m') ∧ Shell (N + 1) timely m' ∧ Placed 0 m') ∨
      m.add_ hash t addr source nTimePenalty = .error .overflow ∧ 2 ^ 31 - 1 ≤ N := by
  have hmono : ∀ {m' : CAddrMan}, Shell N timely m' → Shell (N + 1) timely m' := fun h => h.mono (by omega) id
  unfold CAddrMan.add_
  by_cases hroute : (!addr.isRoutable) = true
  · rw [if_pos hroute]
    exact .inl ⟨false, m, rfl, hmono hs, hp⟩
  rw [if_neg hroute]
  cases hfind : m.find addr.toCNetAddr with
  | some found =>
    left
    -- a known address is refreshed, and may get a bucket more
    obtain ⟨nId, e⟩ := found
    obtain ⟨he, hip⟩ := (find_eq_some_iff hs).1 hfind
    have hmem := Finmap.mem_of_lookup_eq_some he
    have hinfo := info_eq he
    have hs1 : Shell N timely (m.modifyInfo nId (refresh t addr nTimePenalty)) := by
      apply hs.modifyInfo hmem rfl rfl
      · exact hs.attempts_le nId (m.info nId) (lookup_info hmem)
      · exact fun ht => hs.lastTry ht nId (m.info nId) (lookup_info hmem)
    have hp1 : Placed 0 (m.modifyInfo nId (refresh t addr nTimePenalty)) := hp.modifyInfo hmem ⟨rfl, rfl, .inl rfl⟩
    have hlook1 : (m.modifyInfo nId (refresh t addr nTimePenalty)).mapInfo.lookup nId =
        some (refresh t addr nTimePenalty e) := by
      rw [lookup_modifyInfo, if_pos rfl, hinfo]
    have hmem1 := Finmap.mem_of_lookup_eq_some hlook1
    simp only []
    by_cases hwants : wantsBucket t addr (refresh t addr nTimePenalty e) = true
    · obtain ⟨hflag, hless⟩ := of_wantsBucket t hwants
      rw [← info_eq hlook1] at hflag hless
      obtain ⟨m', hok, hs', hp'⟩ :=
        insertNew_spec hash t source hs1 hmem1 hflag (fun _ => hp1) (hp1.ref hmem1 hflag hless)
      rw [if_pos hwants, hok]
      exact ⟨false, m', rfl, hmono hs', hp'⟩
    · rw [if_neg hwants]
      exact ⟨false, _, rfl, hmono hs1, hp1⟩
  | none =>
    -- an unknown one gets an identifier, if there is one left, and a bucket
    have haddr := lookup_eq_none_of_find hs hfind
    have hfresh := hs.fresh
    simp only []
    by_cases hroom : m.nIdCount < 2 ^ 31 - 1
    · left
      obtain ⟨m1, e, hok1, hs1, hmap1, hflag1, href1, hsuccess1, hrest1⟩ := create_spec hs haddr source hroom
      rw [hok1]
      have hlook1 : m1.mapInfo.lookup m.nIdCount = some e := by rw [hmap1, Finmap.lookup_insert]
      have hmem1 := Finmap.mem_of_lookup_eq_some hlook1
      have hs2 : Shell (N + 1) timely (m1.modifyInfo m.nIdCount (penalise nTimePenalty)) := by
        apply hs1.modifyInfo hmem1 rfl rfl
        · exact hs1.attempts_le _ (m1.info m.nIdCount) (lookup_info hmem1)
        · exact fun ht => hs1.lastTry ht _ (m1.info m.nIdCount) (lookup_info hmem1)
      have hmap2 : (m1.modifyInfo m.nIdCount (penalise nTimePenalty)).mapInfo =
          m.mapInfo.insert m.nIdCount (penalise nTimePenalty e) := by
        show m1.mapInfo.insert m.nIdCount (penalise nTimePenalty (m1.info m.nIdCount)) = _
        rw [hmap1, Finmap.insert_insert, info_eq hlook1]
      obtain ⟨htried1, hnew1, hnTried1, hnNew1⟩ := hrest1
      have hs3 : Shell (N + 1) timely { m1.modifyInfo m.nIdCount (penalise nTimePenalty) with nNew := m1.nNew + 1 } :=
        hs2.of_eq rfl rfl rfl rfl
      obtain ⟨m', hok, hs', hp'⟩ := insertFresh_spec hash t source hp hfresh hs3 hmap2 hflag1 href1 hsuccess1 htried1 hnew1
        hnTried1 (by rw [hnNew1])
      refine ⟨true, m', ?_, hs', hp'⟩
      exact Except.bind_ok_iff.2 ⟨(m.nIdCount, m1), rfl, Except.bind_ok_iff.2 ⟨m', hok, rfl⟩⟩
    · right
      have hle := hs.idCount_le
      rw [CAddrMan.create, require_bind_of_not hroom]
      exact ⟨rfl, by omega⟩

end Add

end CAddrMan

end Syscoin

import Mathlib.Data.Int.Interval
import Syscoin.Correctness.AddrHome
import Syscoin.Correctness.BlockFormat
import Syscoin.Network.AddrmanFormat

/-!
# `Correctness.AddrStored` — the address manager is read back

The reader gives out the ids anew: an entry gets the place that it has on the stream. `Enlisted` says what is in the
indexes when a part of the entries has been read and a part of the references has been counted. Each of the three loops
of the reader keeps a state that is made of it.
-/

namespace Syscoin

open Lib Lib.Reader

/-! ## Entries on the stream -/

theorem CNetAddr.reads (a : CNetAddr) : Reads CNetAddr.unserialize a.serialize a := by
  have htake : Reads (take 16) a.ip a.ip := by
    rw [← a.length_ip]
    exact reads_take a.ip
  apply htake.bind_nil
  rw [dif_pos a.length_ip]
  exact reads_pure a

theorem CService.reads (a : CService) : Reads CService.unserialize a.serialize a := by
  have hlength : (toLE 2 a.port.toNat).reverse.length = 2 := by rw [List.length_reverse, length_toLE]
  have htake : Reads (take 2) (toLE 2 a.port.toNat).reverse (toLE 2 a.port.toNat).reverse := by
    have hread := reads_take (toLE 2 a.port.toNat).reverse
    rwa [hlength] at hread
  have hport : UInt16.ofNat (fromLE (toLE 2 a.port.toNat).reverse.reverse) = a.port := by
    have hlt : a.port.toNat < 256 ^ 2 := a.port.toNat_lt
    rw [List.reverse_reverse, fromLE_toLE, Nat.mod_eq_of_lt hlt, UInt16.ofNat_toNat]
  have hread := htake.bind_pure
    (g := fun portN => ({ a.toCNetAddr with port := UInt16.ofNat (fromLE portN.reverse) } : CService))
  rw [hport] at hread
  exact (CNetAddr.reads a.toCNetAddr).bind hread

section

variable {nType : Nat} (hdisk : nType &&& SER_DISK ≠ 0)

include hdisk

/-- An address on disk, whatever version the reader expects. -/
theorem CAddress.reads (a : CAddress) {nVersion : Int} (hversion : -2 ^ 31 ≤ nVersion ∧ nVersion < 2 ^ 31) (nVersion' : Int) :
    Reads (CAddress.unserialize nType nVersion') (a.serialize nType nVersion) { a with nLastTry := 0 } := by
  have htime : ∀ v, CAddress.hasTime nType v = true := by
    intro v
    rw [CAddress.hasTime, decide_eq_true hdisk, Bool.true_or]
  unfold CAddress.unserialize CAddress.serialize
  simp only [if_pos hdisk, htime, if_true]
  refine (reads_int32 hversion).bind ((reads_uint32 a.nTime.toNat_lt).bind ?_)
  have hservices : Reads (readLE 8) (toLE 8 a.nServices.toNat) a.nServices.toNat := reads_readLE a.nServices.toNat_lt
  have hsame : ({ a.toCService with
      nServices := UInt64.ofNat a.nServices.toNat, nTime := UInt32.ofNat a.nTime.toNat, nLastTry := 0 } : CAddress) =
      { a with nLastTry := 0 } := by
    rw [UInt64.ofNat_toNat, UInt32.ofNat_toNat]
  rw [← hsame]
  exact hservices.bind ((CService.reads a.toCService).bind_pure (g := fun service => ({ service with
    nServices := UInt64.ofNat a.nServices.toNat, nTime := UInt32.ofNat a.nTime.toNat, nLastTry := 0 } : CAddress)))

/-- An entry as the reader gets it: what is only in memory is as `Init` leaves it. -/
theorem CAddrInfo.reads {e : CAddrInfo} (h : e.Fits) {nVersion : Int} (hversion : -2 ^ 31 ≤ nVersion ∧ nVersion < 2 ^ 31)
    (nVersion' : Int) :
    Reads (CAddrInfo.unserialize nType nVersion') (e.serialize nType nVersion)
      { e with nLastTry := 0, nRefCount := 0, fInTried := false, nRandomPos := -1 } :=
  (CAddress.reads hdisk e.toCAddress hversion nVersion').bind
    ((CNetAddr.reads e.source).bind ((reads_int64 h.lastSuccess).bind ((reads_int32 h.attempts).bind_pure
      (g := fun nAttempts => { CAddrInfo.ofAddress { e.toCAddress with nLastTry := 0 } e.source with
        nLastSuccess := e.nLastSuccess, nAttempts := nAttempts }))))

end

namespace CAddrMan

/-! ## The order on the stream -/

section Order

variable (m : CAddrMan)

/-- The ids with a flag, in the order in which `mapInfo` is gone through. -/
def idsOf (fInTried : Bool) : List Int := (sorted m.mapInfo.keys).filter fun id => (m.info id).fInTried = fInTried

/-- The ids in the order in which their entries are written. -/
def storedIds : List Int := m.idsOf false ++ m.idsOf true

/-- The id that an entry gets from the reader. -/
def renumber (id : Int) : Int := m.storedIds.idxOf id

variable {m} {id : Int} {fInTried : Bool}

theorem mem_idsOf : id ∈ m.idsOf fInTried ↔ id ∈ m.mapInfo ∧ (m.info id).fInTried = fInTried := by
  rw [idsOf, List.mem_filter, mem_sorted, Finmap.mem_keys, decide_eq_true_iff]

theorem nodup_idsOf : (m.idsOf fInTried).Nodup := (nodup_sorted _).filter _

theorem length_idsOf : (m.idsOf fInTried).length = (m.flagIds fInTried).card := by
  rw [← List.toFinset_card_of_nodup nodup_idsOf]
  congr 1
  ext id
  rw [List.mem_toFinset, mem_idsOf, flagIds, Finset.mem_filter, Finmap.mem_keys]

theorem mem_storedIds : id ∈ m.storedIds ↔ id ∈ m.mapInfo := by
  rw [storedIds, List.mem_append, mem_idsOf, mem_idsOf, ← and_or_left]
  apply and_iff_left_of_imp
  intro _
  cases (m.info id).fInTried
  · exact .inl rfl
  · exact .inr rfl

theorem nodup_storedIds : m.storedIds.Nodup := by
  rw [storedIds, List.nodup_append]
  refine ⟨nodup_idsOf, nodup_idsOf, ?_⟩
  rintro id hnew _ htried rfl
  have hflag := (mem_idsOf.1 hnew).2
  rw [(mem_idsOf.1 htried).2] at hflag
  cases hflag

theorem renumber_inj {id' : Int} (hid : id ∈ m.mapInfo) (h : m.renumber id = m.renumber id') : id = id' :=
  (List.idxOf_inj (mem_storedIds.2 hid)).1 (Int.ofNat.inj h)

variable {done : List Int}

/-- Who is read next gets the next id. -/
theorem renumber_next (h : done ++ [id] <+: m.storedIds) : m.renumber id = done.length := by
  obtain ⟨rest, hrest⟩ := h
  have hnot : id ∉ done := by
    intro hid
    have hnodup := nodup_storedIds (m := m)
    rw [← hrest, List.append_assoc, List.nodup_append] at hnodup
    exact hnodup.2.2 id hid id List.mem_cons_self rfl
  rw [renumber, ← hrest, List.append_assoc, List.idxOf_append_of_notMem hnot, List.singleton_append,
    List.idxOf_cons_self, Nat.add_zero]

theorem renumber_lt (h : done <+: m.storedIds) (hid : id ∈ done) : m.renumber id < done.length := by
  obtain ⟨rest, hrest⟩ := h
  rw [renumber, ← hrest, List.idxOf_append_of_mem hid]
  exact_mod_cast List.idxOf_lt_length_iff.2 hid

end Order

/-! ## Writing -/

section Write

variable {m : CAddrMan} {nType : Nat} {nVersion : Int} {l : List Int} {nIds : Int}

/-- The loop over the new entries stops when it has written all of them, and by then knows all their indexes. -/
theorem writeNew_spec {mapUnkIds : Finmap fun _ : Int => Int} (hnodup : l.Nodup)
    (href : ∀ id ∈ l, (m.info id).nRefCount ≠ 0 ↔ (m.info id).fInTried = false)
    (hcount : nIds + (l.filter fun id => (m.info id).fInTried = false).length = m.nNew) :
    (m.writeNew nType nVersion l nIds mapUnkIds).2 =
        (l.filter fun id => (m.info id).fInTried = false).flatMap (fun id => (m.info id).serialize nType nVersion) ∧
      (∀ id ∈ l.filter fun id => (m.info id).fInTried = false,
        (m.writeNew nType nVersion l nIds mapUnkIds).1.lookup id =
          some (nIds + (l.filter fun id => (m.info id).fInTried = false).idxOf id)) ∧
      ∀ id, id ∉ l → (m.writeNew nType nVersion l nIds mapUnkIds).1.lookup id = mapUnkIds.lookup id := by
  induction l generalizing nIds mapUnkIds with
  | nil => exact ⟨rfl, fun _ hid => absurd hid List.not_mem_nil, fun _ _ => rfl⟩
  | cons nId rest ih =>
    obtain ⟨hfirst, hnodup⟩ := List.nodup_cons.1 hnodup
    have href' := fun id hid => href id (List.mem_cons_of_mem nId hid)
    rw [writeNew]
    by_cases hstop : nIds = m.nNew
    · -- no new entry is left
      have hnone : (nId :: rest).filter (fun id => (m.info id).fInTried = false) = [] := by
        apply List.eq_nil_of_length_eq_zero
        omega
      rw [if_pos hstop, hnone]
      exact ⟨rfl, fun _ hid => absurd hid List.not_mem_nil, fun _ _ => rfl⟩
    rw [if_neg hstop]
    by_cases hnew : (m.info nId).fInTried = false
    · rw [List.filter_cons_of_pos (by exact decide_eq_true hnew)] at hcount ⊢
      rw [List.length_cons] at hcount
      have hcount' : nIds + 1 + (rest.filter fun id => (m.info id).fInTried = false).length = m.nNew := by
        push_cast at hcount
        omega
      obtain ⟨hwritten, hindex, hrest⟩ := @ih _ (mapUnkIds.insert nId nIds) hnodup href' hcount'
      dsimp only
      rw [if_pos ((href nId List.mem_cons_self).2 hnew)]
      refine ⟨?_, ?_, ?_⟩
      · rw [List.flatMap_cons, ← hwritten]
      · intro id hid
        rcases List.mem_cons.1 hid with rfl | hid
        · rw [hrest id hfirst, Finmap.lookup_insert, List.idxOf_cons_self]
          simp
        · have hne : nId ≠ id := by
            rintro rfl
            exact hfirst (List.mem_of_mem_filter hid)
          rw [hindex id hid, List.idxOf_cons_ne _ hne]
          congr 1
          push_cast
          omega
      · intro id hid
        rw [List.mem_cons, not_or] at hid
        rw [hrest id hid.2, Finmap.lookup_insert_of_ne _ hid.1]
    · rw [List.filter_cons_of_neg (by simpa using hnew)] at hcount ⊢
      obtain ⟨hwritten, hindex, hrest⟩ := @ih _ (mapUnkIds.insert nId nIds) hnodup href' hcount
      dsimp only
      rw [if_neg (fun hne => hnew ((href nId List.mem_cons_self).1 hne))]
      refine ⟨hwritten, hindex, ?_⟩
      intro id hid
      rw [List.mem_cons, not_or] at hid
      rw [hrest id hid.2, Finmap.lookup_insert_of_ne _ hid.1]

/-- The loop over the tried entries stops when it has written all of them. -/
theorem writeTried_spec (hcount : nIds + (l.filter fun id => (m.info id).fInTried = true).length = m.nTried) :
    m.writeTried nType nVersion l nIds =
      (l.filter fun id => (m.info id).fInTried = true).flatMap fun id => (m.info id).serialize nType nVersion := by
  induction l generalizing nIds with
  | nil => rfl
  | cons nId rest ih =>
    rw [writeTried]
    by_cases hstop : nIds = m.nTried
    · have hnone : (nId :: rest).filter (fun id => (m.info id).fInTried = true) = [] := by
        apply List.eq_nil_of_length_eq_zero
        omega
      rw [if_pos hstop, hnone]
      rfl
    rw [if_neg hstop]
    by_cases htried : (m.info nId).fInTried = true
    · rw [List.filter_cons_of_pos (by exact decide_eq_true htried)] at hcount ⊢
      rw [List.length_cons] at hcount
      rw [if_pos htried, List.flatMap_cons, ih (by push_cast at hcount; omega)]
    · rw [List.filter_cons_of_neg (by simpa using htried)] at hcount ⊢
      rw [if_neg htried, ih hcount]

end Write

/-! ## Entries that have been read -/

/-- An entry after a restart, when the references from `vv` have been counted. -/
def stored (m : CAddrMan) (vv : Fin ADDRMAN_NEW_BUCKET_COUNT → Finset Int) (id : Int) : CAddrInfo :=
  { m.info id with nLastTry := 0, nRefCount := (holding vv id).card, nRandomPos := m.renumber id }

/-- The indexes when the entries of `done` have been read and the references from `vv` counted. -/
structure Enlisted (m : CAddrMan) (done : List Int) (vv : Fin ADDRMAN_NEW_BUCKET_COUNT → Finset Int) (m' : CAddrMan) :
    Prop where
  random : m'.vRandom = (List.range done.length).map Nat.cast
  lookup : ∀ j e', m'.mapInfo.lookup j = some e' ↔ ∃ id ∈ done, m.renumber id = j ∧ e' = m.stored vv id
  addr : ∀ a j, m'.mapAddr.lookup a = some j ↔ ∃ id ∈ done, m.renumber id = j ∧ (m.info id).toCNetAddr = a

/-- No two entries have the same address. -/
theorem Consistent.eq_of_addr {m : CAddrMan} (hm : m.Consistent) {id id' : Int} (hid : id ∈ m.mapInfo)
    (hid' : id' ∈ m.mapInfo) (h : (m.info id).toCNetAddr = (m.info id').toCNetAddr) : id = id' := by
  have hlook := (hm.addr_iff (m.info id).toCNetAddr id).2 ⟨_, lookup_info hid, rfl⟩
  have hlook' := (hm.addr_iff (m.info id').toCNetAddr id').2 ⟨_, lookup_info hid', rfl⟩
  rw [h, hlook'] at hlook
  exact (Option.some.inj hlook).symm

section Enlist

variable {m m' : CAddrMan} {done : List Int} {vv : Fin ADDRMAN_NEW_BUCKET_COUNT → Finset Int} {id : Int}

/-- `Enlisted` reads three fields. -/
theorem Enlisted.of_eq {m'' : CAddrMan} (h : Enlisted m done vv m') (hinfo : m''.mapInfo = m'.mapInfo)
    (haddr : m''.mapAddr = m'.mapAddr) (hrandom : m''.vRandom = m'.vRandom) : Enlisted m done vv m'' := by
  constructor
  · rw [hrandom]
    exact h.random
  · rw [hinfo]
    exact h.lookup
  · rw [haddr]
    exact h.addr

theorem Enlisted.lookup_renumber (h : Enlisted m done vv m') (hid : id ∈ done) :
    m'.mapInfo.lookup (m.renumber id) = some (m.stored vv id) := (h.lookup _ _).2 ⟨id, hid, rfl, rfl⟩

/-- The next entry is read. -/
theorem Enlisted.enlist {e : CAddrInfo} (h : Enlisted m done vv m') (hm : m.Consistent)
    (hnext : done ++ [id] <+: m.storedIds) (he : { e with nRandomPos := m.renumber id } = m.stored vv id) :
    Enlisted m (done ++ [id]) vv (m'.enlist done.length e) := by
  have hdone : done <+: m.storedIds := (List.prefix_append _ _).trans hnext
  have hmem : ∀ id' ∈ done ++ [id], id' ∈ m.mapInfo := fun id' hid' => mem_storedIds.1 (hnext.subset hid')
  have hid := hmem id (by simp)
  -- the next record gets the next number, which is its place in both lists
  have hlength : (m'.vRandom.length : Int) = m.renumber id := by
    rw [h.random, List.length_map, List.length_range, renumber_next hnext]
  have haddr : e.toCNetAddr = (m.info id).toCNetAddr := congrArg (·.toCNetAddr) he
  constructor
  · show m'.vRandom ++ [(done.length : Int)] = _
    rw [h.random, List.length_append, List.length_singleton, List.range_succ, List.map_append]
    rfl
  · intro j e'
    show (m'.mapInfo.insert (done.length : Int) { e with nRandomPos := m'.vRandom.length }).lookup j = some e' ↔ _
    rw [lookup_insert_eq, hlength, he, ← renumber_next hnext]
    constructor
    · intro hlook
      split at hlook
      · rename_i hj
        exact ⟨id, by simp, hj.symm, (Option.some.inj hlook).symm⟩
      · obtain ⟨id', hid', hj, he'⟩ := (h.lookup j e').1 hlook
        exact ⟨id', List.mem_append_left _ hid', hj, he'⟩
    · rintro ⟨id', hid', rfl, rfl⟩
      rcases List.mem_append.1 hid' with hold | hnew
      · have hlt := renumber_lt hdone hold
        rw [if_neg (by rw [renumber_next hnext]; omega)]
        exact h.lookup_renumber hold
      · rw [List.mem_singleton.1 hnew, if_pos rfl]
  · intro a j
    show (m'.mapAddr.insert e.toCNetAddr (done.length : Int)).lookup a = some j ↔ _
    rw [lookup_insert_eq, haddr, ← renumber_next hnext]
    constructor
    · intro hlook
      split at hlook
      · rename_i ha
        exact ⟨id, by simp, Option.some.inj hlook, ha.symm⟩
      · obtain ⟨id', hid', hj, ha⟩ := (h.addr a j).1 hlook
        exact ⟨id', List.mem_append_left _ hid', hj, ha⟩
    · rintro ⟨id', hid', rfl, rfl⟩
      split
      · rename_i ha
        rw [hm.eq_of_addr (hmem id' hid') hid ha]
      · rename_i ha
        rcases List.mem_append.1 hid' with hold | hnew
        · exact (h.addr _ _).2 ⟨id', hold, rfl, rfl⟩
        · exact absurd (by rw [List.mem_singleton.1 hnew]) ha

/-- A reference from one more bucket is counted. -/
theorem Enlisted.putNew {b : Fin ADDRMAN_NEW_BUCKET_COUNT} (h : Enlisted m done vv m') (hknown : ∀ id ∈ done, id ∈ m.mapInfo)
    (hid : id ∈ done) (hnew : id ∉ vv b) :
    Enlisted m done (Function.update vv b (insert id (vv b))) (m'.putNew b (m.renumber id)) := by
  have hinfo : m'.info (m.renumber id) = m.stored vv id := info_eq (h.lookup_renumber hid)
  have hother : ∀ id', id' ≠ id → m.stored (Function.update vv b (insert id (vv b))) id' = m.stored vv id' := by
    intro id' hne
    rw [stored, stored, holding_update_of_iff (by simp [hne])]
  have hself : { m.stored vv id with nRefCount := (m.stored vv id).nRefCount + 1 } =
      m.stored (Function.update vv b (insert id (vv b))) id := by
    rw [stored, stored, card_holding_update_add (Finset.mem_insert_self id _) hnew]
    push_cast
    rfl
  refine ⟨h.random, ?_, h.addr⟩
  intro j e'
  show (m'.modifyInfo (m.renumber id) fun info => { info with nRefCount := info.nRefCount + 1 }).mapInfo.lookup j = some e'
    ↔ _
  rw [lookup_modifyInfo, hinfo]
  constructor
  · intro hlook
    split at hlook
    · rename_i hj
      exact ⟨id, hid, hj.symm, by rw [← Option.some.inj hlook, hself]⟩
    · rename_i hj
      obtain ⟨id', hid', hj', he'⟩ := (h.lookup j e').1 hlook
      refine ⟨id', hid', hj', ?_⟩
      rw [he', hother]
      rintro rfl
      exact hj hj'.symm
  · rintro ⟨id', hid', rfl, rfl⟩
    split
    · rename_i hj
      rw [renumber_inj (hknown id' hid') hj, hself]
    · rename_i hj
      rw [hother id' (by rintro rfl; exact hj rfl)]
      exact h.lookup_renumber hid'

end Enlist

/-! ## The loops of the reader -/

/-- As long as no reference is counted, an entry is what was read. -/
theorem stored_none {m : CAddrMan} {id : Int} {fInTried : Bool} (hflag : (m.info id).fInTried = fInTried) :
    m.stored (fun _ => ∅) id =
      { m.info id with nLastTry := 0, nRefCount := 0, fInTried := fInTried, nRandomPos := m.renumber id } := by
  have hnone : holding (fun _ : Fin ADDRMAN_NEW_BUCKET_COUNT => (∅ : Finset Int)) id = ∅ :=
    holding_eq_empty_iff.2 fun _ => Finset.notMem_empty id
  rw [stored, hnone, Finset.card_empty, ← hflag]
  rfl

/-- The state of the reader when the new entries of `done` have been read. -/
structure NewRead (m : CAddrMan) (done : List Int) (m' : CAddrMan) : Prop where
  enlisted : Enlisted m done (fun _ => ∅) m'
  tried : m'.vvTried = fun _ => []
  new : m'.vvNew = fun _ => ∅
  nNew_eq : m'.nNew = m.nNew

/-- The state of the reader, with `nLost`, when the new entries and the tried ones of `done` have been read. -/
structure TriedRead (hash : BucketHash) (m : CAddrMan) (done : List Int) (s : CAddrMan × Int) : Prop where
  lost : s.2 = 0
  enlisted : Enlisted m (m.idsOf false ++ done) (fun _ => ∅) s.1
  idCount : s.1.nIdCount = (m.idsOf false ++ done).length
  tried : ∀ b, s.1.vvTried b = (done.filter fun id => (m.info id).getTriedBucket hash = b).map m.renumber
  new : s.1.vvNew = fun _ => ∅
  nNew_eq : s.1.nNew = m.nNew

section Loops

variable {m : CAddrMan} {hash : BucketHash} {nType : Nat} {nVersion : Int}

/-- The loop over the new entries. -/
theorem reads_new (hdisk : nType &&& SER_DISK ≠ 0) (hversion : -2 ^ 31 ≤ nVersion ∧ nVersion < 2 ^ 31)
    (hm : m.Sound hash) :
    ∃ m', Reads ((List.range (m.idsOf false).length).foldlM (readNew hash nType nVersion ADDRMAN_NEW_BUCKET_COUNT)
        { empty with nNew := m.nNew, nTried := m.nTried })
        ((m.idsOf false).flatMap fun id => (m.info id).serialize nType nVersion) m' ∧
      NewRead m (m.idsOf false) m' := by
  apply reads_rounds
  · refine ⟨⟨rfl, ?_, ?_⟩, rfl, rfl, rfl⟩
    · intro j e'
      show (∅ : Finmap fun _ : Int => CAddrInfo).lookup j = some e' ↔ _
      rw [Finmap.lookup_empty]
      simp
    · intro a j
      show (∅ : Finmap fun _ : CNetAddr => Int).lookup a = some j ↔ _
      rw [Finmap.lookup_empty]
      simp
  · intro done id m' hdone hm'
    obtain ⟨hmem, hflag⟩ := mem_idsOf.1 (hdone.subset (List.mem_append_right done List.mem_cons_self))
    have hread := CAddrInfo.reads hdisk (hm.homed.fits id _ (lookup_info hmem)) hversion nVersion
    refine ⟨_, hread.bind_pure, ?_, hm'.tried, hm'.new, hm'.nNew_eq⟩
    exact hm'.enlisted.enlist hm.consistent (hdone.trans (List.prefix_append _ _)) (stored_none hflag).symm

/-- The tried entries of a bucket, in the order in which they are read. -/
theorem home_perm (hm : m.Sound hash) (b : Fin ADDRMAN_TRIED_BUCKET_COUNT) :
    ((m.idsOf true).filter fun id => (m.info id).getTriedBucket hash = b).Perm (m.vvTried b) := by
  rw [List.perm_ext_iff_of_nodup (nodup_idsOf.filter _) (hm.consistent.tried_bucket b).1]
  intro id
  rw [List.mem_filter, mem_idsOf, decide_eq_true_iff]
  constructor
  · rintro ⟨⟨hmem, hflag⟩, hhome⟩
    obtain ⟨-, ⟨c, hc, -⟩, -⟩ := hm.consistent.tried id _ (lookup_info hmem) hflag
    have hhome' := hm.homed.home c id hc _ (lookup_info hmem)
    rwa [← hhome, hhome']
  · intro hid
    have hmem := hm.consistent.tried_known b id hid
    refine ⟨⟨hmem, ?_⟩, hm.homed.home b id hid _ (lookup_info hmem)⟩
    by_contra hflag
    obtain ⟨-, -, -, hnowhere⟩ := hm.consistent.new id _ (lookup_info hmem) (Bool.eq_false_iff.2 hflag)
    exact hnowhere b hid

/-- The loop over the tried entries. Every one of them finds room in its bucket. -/
theorem reads_tried (hdisk : nType &&& SER_DISK ≠ 0) (hversion : -2 ^ 31 ≤ nVersion ∧ nVersion < 2 ^ 31)
    (hm : m.Sound hash) (hids : (m.storedIds.length : Int) < 2 ^ 31) {m₁ : CAddrMan} (h₁ : NewRead m (m.idsOf false) m₁) :
    ∃ s, Reads ((List.range (m.idsOf true).length).foldlM (readTried hash nType nVersion)
        ({ m₁ with nIdCount := (m.idsOf false).length }, 0))
        ((m.idsOf true).flatMap fun id => (m.info id).serialize nType nVersion) s ∧
      TriedRead hash m (m.idsOf true) s := by
  apply reads_rounds
  · refine ⟨rfl, ?_, ?_, ?_, h₁.new, h₁.nNew_eq⟩
    · rw [List.append_nil]
      exact h₁.enlisted.of_eq rfl rfl rfl
    · rw [List.append_nil]
    · intro b
      show m₁.vvTried b = _
      rw [h₁.tried]
      rfl
  · rintro done id ⟨m', nLost⟩ hdone hs
    obtain ⟨hmem, hflag⟩ := mem_idsOf.1 (hdone.subset (List.mem_append_right done List.mem_cons_self))
    have hnext : m.idsOf false ++ done ++ [id] <+: m.storedIds := by
      rw [List.append_assoc]
      exact (List.prefix_append_right_inj _).2 hdone
    have hread := CAddrInfo.reads hdisk (hm.homed.fits id _ (lookup_info hmem)) hversion nVersion
    generalize hhome : (m.info id).getTriedBucket hash = k
    have hfilter : ∀ b, ((done ++ [id]).filter fun id => (m.info id).getTriedBucket hash = b) =
        (done.filter fun id => (m.info id).getTriedBucket hash = b) ++ if k = b then [id] else [] := by
      intro b
      rw [List.filter_append, List.filter_cons, List.filter_nil, hhome]
      simp
    have hcount : m'.nIdCount = m.renumber id := hs.idCount.trans (renumber_next hnext).symm
    -- the bucket was not full in memory
    have hroom : (m'.vvTried k).length < ADDRMAN_TRIED_BUCKET_SIZE := by
      have hsize := (hm.consistent.tried_bucket k).2
      have hsub := (hdone.sublist.filter fun id => (m.info id).getTriedBucket hash = k).length_le
      have htried := hs.tried k
      dsimp only at htried
      rw [hfilter, if_pos rfl, (home_perm hm k).length_eq, List.length_append, List.length_singleton] at hsub
      rw [htried, List.length_map]
      omega
    have hlast : m'.nIdCount < 2 ^ 31 - 1 := by
      have hlen := hnext.length_le
      rw [List.length_append, List.length_singleton] at hlen
      have hidCount := hs.idCount
      dsimp only at hidCount
      omega
    refine ⟨(m'.putTried hash { m.info id with nLastTry := 0, nRefCount := 0, fInTried := false, nRandomPos := -1 }, nLost),
      hread.bind_nil ?_, hs.lost, ?_, ?_, ?_, hs.new, hs.nNew_eq⟩
    · rw [if_pos (hhome ▸ hroom), if_pos hlast]
      exact reads_pure _
    · rw [← List.append_assoc]
      have henlist := hs.enlisted.enlist (e := { m.info id with
        nLastTry := 0, nRefCount := 0, fInTried := true, nRandomPos := -1 }) hm.consistent hnext (stored_none hflag).symm
      rw [← hs.idCount] at henlist
      exact henlist.of_eq rfl rfl rfl
    · show m'.nIdCount + 1 = _
      rw [hs.idCount]
      simp only [List.length_append, List.length_singleton]
      push_cast
      omega
    · intro b
      subst hhome
      show Function.update m'.vvTried ((m.info id).getTriedBucket hash)
        (m'.vvTried ((m.info id).getTriedBucket hash) ++ [m'.nIdCount]) b = _
      rw [hfilter, List.map_append, ← hs.tried, hcount, Function.update_apply]
      split
      · rename_i hb
        rw [if_pos hb.symm, hb]
        rfl
      · rename_i hb
        rw [if_neg (Ne.symm hb)]
        simp

/-- The state of the reader when all entries have been read and the references from `vv` have been counted. -/
structure RefsRead (hash : BucketHash) (m : CAddrMan) (vv : Fin ADDRMAN_NEW_BUCKET_COUNT → Finset Int) (m' : CAddrMan) :
    Prop where
  enlisted : Enlisted m m.storedIds vv m'
  idCount : m'.nIdCount = m.storedIds.length
  tried : ∀ b, m'.vvTried b = ((m.idsOf true).filter fun id => (m.info id).getTriedBucket hash = b).map m.renumber
  new : ∀ b, m'.vvNew b = (vv b).image m.renumber
  nNew_eq : m'.nNew = m.nNew
  nTried_eq : m'.nTried = m.nTried

/-- `mapInfo[nId]` changes nothing where there is an entry. -/
theorem modifyInfo_id {m : CAddrMan} {nId : Int} (hmem : nId ∈ m.mapInfo) : m.modifyInfo nId id = m := by
  have hsame : m.mapInfo.insert nId (m.info nId) = m.mapInfo := by
    apply Finmap.ext_lookup
    intro i
    rw [lookup_insert_eq]
    split
    · rename_i hi
      rw [hi, lookup_info hmem]
    · rfl
  show { m with mapInfo := m.mapInfo.insert nId (m.info nId) } = m
  rw [hsame]

variable {vv : Fin ADDRMAN_NEW_BUCKET_COUNT → Finset Int} {m' : CAddrMan} {b : Fin ADDRMAN_NEW_BUCKET_COUNT}

/-- One index. The entry is not yet in four buckets, since it was not in more in memory. -/
theorem reads_index (hm : m.Sound hash) (hids : (m.storedIds.length : Int) < 2 ^ 31) (h : RefsRead hash m vv m')
    (hsub : ∀ c, vv c ⊆ m.vvNew c) {id : Int} (hid : id ∈ m.vvNew b) (hnew : id ∉ vv b) (n : Nat) :
    Reads (readIndex ADDRMAN_NEW_BUCKET_COUNT b m' n) (writeSigned 4 (m.renumber id)) (m'.putNew b (m.renumber id)) ∧
      RefsRead hash m (Function.update vv b (insert id (vv b))) (m'.putNew b (m.renumber id)) := by
  have hmem := hm.consistent.new_known b id hid
  have hstored := mem_storedIds.2 hmem
  have hlook := h.enlisted.lookup_renumber hstored
  have hlt := renumber_lt (List.prefix_refl _) hstored
  have hflag : (m.info id).fInTried = false := by
    by_contra htried
    obtain ⟨-, -, hnowhere⟩ := hm.consistent.tried id _ (lookup_info hmem) (by simpa using htried)
    exact hnowhere b hid
  have hfew : ((holding vv id).card : Int) < ADDRMAN_NEW_BUCKETS_PER_ADDRESS := by
    obtain ⟨-, hhigh, hcount, -⟩ := hm.consistent.new id _ (lookup_info hmem) hflag
    have hless : (holding vv id).card < (holding m.vvNew id).card := by
      apply Finset.card_lt_card
      rw [Finset.ssubset_iff_of_subset (fun c hc => mem_holding.2 (hsub c (mem_holding.1 hc)))]
      exact ⟨b, mem_holding.2 hid, fun hb => hnew (mem_holding.1 hb)⟩
    have hcount' : (m.info id).nRefCount = (holding m.vvNew id).card := hcount
    omega
  constructor
  · have hnonneg : 0 ≤ m.renumber id := Int.natCast_nonneg _
    apply Reads.bind_nil (reads_int32 ⟨by omega, by omega⟩)
    dsimp only
    rw [modifyInfo_id (Finmap.mem_of_lookup_eq_some hlook), info_eq hlook, if_pos ⟨rfl, hfew⟩]
    exact reads_pure _
  · refine ⟨h.enlisted.putNew (fun _ => mem_storedIds.1) hstored hnew, h.idCount, h.tried, ?_, h.nNew_eq, h.nTried_eq⟩
    intro c
    show Function.update m'.vvNew b (insert (m.renumber id) (m'.vvNew b)) c = _
    rw [Function.update_apply, Function.update_apply]
    split
    · rw [h.new, Finset.image_insert]
    · exact h.new c

/-- The indexes of a bucket. -/
theorem reads_indexes (hm : m.Sound hash) (hids : (m.storedIds.length : Int) < 2 ^ 31) (h : RefsRead hash m vv m')
    (hsub : ∀ c, vv c ⊆ m.vvNew c) (hempty : vv b = ∅) :
    ∃ m'', Reads ((List.range (sorted (m.vvNew b)).length).foldlM (readIndex ADDRMAN_NEW_BUCKET_COUNT b) m')
        ((sorted (m.vvNew b)).flatMap fun id => writeSigned 4 (m.renumber id)) m'' ∧
      RefsRead hash m (Function.update vv b (sorted (m.vvNew b)).toFinset) m'' := by
  apply reads_rounds (I := fun done m' => RefsRead hash m (Function.update vv b done.toFinset) m')
  · rw [List.toFinset_nil, ← hempty, Function.update_eq_self]
    exact h
  · intro done id m' hdone hm'
    have hid : id ∈ sorted (m.vvNew b) := hdone.subset (List.mem_append_right done List.mem_cons_self)
    have hnot : id ∉ done.toFinset := by
      have hnodup := (nodup_sorted (m.vvNew b)).sublist hdone.sublist
      rw [List.nodup_append] at hnodup
      intro hold
      exact hnodup.2.2 id (List.mem_toFinset.1 hold) id List.mem_cons_self rfl
    have hgrown : ∀ c, Function.update vv b done.toFinset c ⊆ m.vvNew c := by
      intro c
      rw [Function.update_apply]
      split
      · rename_i hc
        intro id hold
        rw [hc]
        exact mem_sorted.1 (hdone.subset (List.mem_append_left _ (List.mem_toFinset.1 hold)))
      · exact hsub c
    obtain ⟨hread, hnext⟩ := reads_index hm hids hm' hgrown (b := b) (mem_sorted.1 hid)
      (by rwa [Function.update_self]) done.length
    have hinsert : (done ++ [id]).toFinset = insert id done.toFinset := by
      ext id'
      simp
    rw [Function.update_self, Function.update_idem, ← hinsert] at hnext
    exact ⟨_, hread, hnext⟩

/-- One bucket. -/
theorem reads_bucket (hm : m.Sound hash) (hids : (m.storedIds.length : Int) < 2 ^ 31) (h : RefsRead hash m vv m')
    (hsub : ∀ c, vv c ⊆ m.vvNew c) (hempty : vv b = ∅) {mapUnkIds : Finmap fun _ : Int => Int}
    (hindex : ∀ id ∈ m.vvNew b, mapUnkIds.lookup id = some (m.renumber id)) :
    ∃ m'', Reads (readBucket ADDRMAN_NEW_BUCKET_COUNT m' b) (writeBucket mapUnkIds (m.vvNew b)) m'' ∧
      RefsRead hash m (Function.update vv b (m.vvNew b)) m'' := by
  have hsize : ((m.vvNew b).card : Int) ≤ 64 := by exact_mod_cast hm.consistent.new_bucket b
  have hwritten : ((sorted (m.vvNew b)).flatMap fun id => writeSigned 4 ((mapUnkIds.lookup id).getD 0)) =
      (sorted (m.vvNew b)).flatMap fun id => writeSigned 4 (m.renumber id) := by
    apply List.flatMap_congr
    intro id hid
    rw [hindex id (mem_sorted.1 hid), Option.getD_some]
  have hall : (sorted (m.vvNew b)).toFinset = m.vvNew b := by
    ext id
    rw [List.mem_toFinset, mem_sorted]
  obtain ⟨m'', hreads, hdone⟩ := reads_indexes hm hids h hsub hempty
  rw [hall] at hdone
  refine ⟨m'', ?_, hdone⟩
  unfold readBucket writeBucket
  rw [dif_pos b.isLt, hwritten]
  refine Reads.bind (reads_int32 ⟨by omega, by omega⟩) ?_
  rw [Int.toNat_natCast, ← length_sorted]
  exact hreads

/-- All buckets. -/
theorem reads_buckets (hm : m.Sound hash) (hids : (m.storedIds.length : Int) < 2 ^ 31)
    (h : RefsRead hash m (fun _ => ∅) m') {mapUnkIds : Finmap fun _ : Int => Int}
    (hindex : ∀ b, ∀ id ∈ m.vvNew b, mapUnkIds.lookup id = some (m.renumber id)) :
    ∃ m'', Reads ((List.range ADDRMAN_NEW_BUCKET_COUNT).foldlM (readBucket ADDRMAN_NEW_BUCKET_COUNT) m')
        ((List.finRange ADDRMAN_NEW_BUCKET_COUNT).flatMap fun b => writeBucket mapUnkIds (m.vvNew b)) m'' ∧
      RefsRead hash m m.vvNew m'' := by
  have hrounds : ∃ m'', Reads ((List.range (List.finRange ADDRMAN_NEW_BUCKET_COUNT).length).foldlM
      (readBucket ADDRMAN_NEW_BUCKET_COUNT) m')
        ((List.finRange ADDRMAN_NEW_BUCKET_COUNT).flatMap fun b => writeBucket mapUnkIds (m.vvNew b)) m'' ∧
      RefsRead hash m (fun b => if b ∈ List.finRange ADDRMAN_NEW_BUCKET_COUNT then m.vvNew b else ∅) m'' := by
    apply reads_rounds (I := fun done m' => RefsRead hash m (fun b => if b ∈ done then m.vvNew b else ∅) m')
    · simpa only [List.not_mem_nil, if_false] using h
    · intro done b m' hdone hm'
      have hb : (b : Nat) = done.length := by
        obtain ⟨rest, hrest⟩ := hdone
        have hget : (List.finRange ADDRMAN_NEW_BUCKET_COUNT)[done.length]? = some b := by
          rw [← hrest, List.append_assoc, List.getElem?_append_right le_rfl, Nat.sub_self]
          rfl
        obtain ⟨hlt, hget⟩ := List.getElem?_eq_some_iff.1 hget
        rw [← hget, List.getElem_finRange]
        rfl
      have hnot : b ∉ done := by
        have hnodup := (List.nodup_finRange ADDRMAN_NEW_BUCKET_COUNT).sublist hdone.sublist
        rw [List.nodup_append] at hnodup
        intro hold
        exact hnodup.2.2 b hold b List.mem_cons_self rfl
      have hsub : ∀ c, (if c ∈ done then m.vvNew c else ∅) ⊆ m.vvNew c := by
        intro c
        split
        · exact Finset.Subset.refl _
        · exact Finset.empty_subset _
      obtain ⟨m'', hread, hnext⟩ := reads_bucket hm hids hm' hsub (if_neg hnot) (hindex b)
      rw [hb] at hread
      refine ⟨m'', hread, ?_⟩
      have hupdate : Function.update (fun c => if c ∈ done then m.vvNew c else ∅) b (m.vvNew b) =
          fun c => if c ∈ done ++ [b] then m.vvNew c else ∅ := by
        funext c
        rw [Function.update_apply]
        by_cases hc : c = b
        · simp [hc]
        · simp [hc]
      rw [hupdate] at hnext
      exact hnext
  simpa only [List.length_finRange, List.mem_finRange, if_true] using hrounds

/-! ## The round trip -/

theorem storedIds_length_lt (hm : m.Sound hash) : (m.storedIds.length : Int) < 2 ^ 31 := by
  have hlen : m.storedIds.length = m.mapInfo.keys.card := by
    rw [← List.toFinset_card_of_nodup nodup_storedIds]
    congr 1
    ext id
    rw [List.mem_toFinset, mem_storedIds, Finmap.mem_keys]
  -- the ids are below the next one
  have hsub : m.mapInfo.keys ⊆ Finset.Ico 0 m.nIdCount := by
    intro id hid
    exact Finset.mem_Ico.2 (hm.id_lt id (Finmap.mem_keys.1 hid))
  have hcard := Finset.card_le_card hsub
  have hcount := hm.homed.idCount
  rw [Int.card_Ico] at hcard
  omega

theorem nNew_eq_length (hm : m.Sound hash) : m.nNew = (m.idsOf false).length := by
  rw [length_idsOf]
  exact hm.consistent.nNew_eq

theorem nTried_eq_length (hm : m.Sound hash) : m.nTried = (m.idsOf true).length := by
  rw [length_idsOf]
  exact hm.consistent.nTried_eq

/-- An entry has references exactly when it is a new one. -/
theorem refCount_ne_zero_iff (hm : m.Sound hash) {id : Int} (hmem : id ∈ m.mapInfo) :
    (m.info id).nRefCount ≠ 0 ↔ (m.info id).fInTried = false := by
  cases hflag : (m.info id).fInTried with
  | false =>
    obtain ⟨hlow, -⟩ := hm.consistent.new id _ (lookup_info hmem) hflag
    simp only [iff_true]
    omega
  | true =>
    obtain ⟨hzero, -⟩ := hm.consistent.tried id _ (lookup_info hmem) hflag
    simp [hzero]

end Loops

/-- What **`CAddrMan::Serialize`** writes. It knows the index of every member of a new bucket. -/
theorem serialize_eq {hash : BucketHash} {m : CAddrMan} (hm : m.Sound hash) (nType : Nat) (nKey : Bytes) :
    ∃ mapUnkIds : Finmap fun _ : Int => Int,
      (∀ b, ∀ id ∈ m.vvNew b, mapUnkIds.lookup id = some (m.renumber id)) ∧
      serialize nType nKey m = [0] ++ (writeVch nKey ++ (writeSigned 4 (m.idsOf false).length ++
        (writeSigned 4 (m.idsOf true).length ++ (writeSigned 4 ADDRMAN_NEW_BUCKET_COUNT ++
          ((m.idsOf false).flatMap (fun id => (m.info id).serialize nType 0) ++
            ((m.idsOf true).flatMap (fun id => (m.info id).serialize nType 0) ++
              (List.finRange ADDRMAN_NEW_BUCKET_COUNT).flatMap fun b => writeBucket mapUnkIds (m.vvNew b))))))) := by
  have hnNew := nNew_eq_length hm
  have hnTried := nTried_eq_length hm
  obtain ⟨hnew, hindex, -⟩ := writeNew_spec (m := m) (nodup_sorted m.mapInfo.keys)
    (fun id hid => refCount_ne_zero_iff hm (Finmap.mem_keys.1 (mem_sorted.1 hid)))
    (by rw [Int.zero_add]; exact hnNew.symm)
  have htried : m.writeTried nType 0 (sorted m.mapInfo.keys) 0 =
      (m.idsOf true).flatMap fun id => (m.info id).serialize nType 0 :=
    writeTried_spec (by rw [Int.zero_add]; exact hnTried.symm)
  refine ⟨(m.writeNew nType 0 (sorted m.mapInfo.keys) 0 ∅).1, ?_, ?_⟩
  · intro b id hid
    have hmem := hm.consistent.new_known b id hid
    have hflag : (m.info id).fInTried = false := by
      by_contra htried
      obtain ⟨-, -, hnowhere⟩ := hm.consistent.tried id _ (lookup_info hmem) (by simpa using htried)
      exact hnowhere b hid
    have hnewId : id ∈ m.idsOf false := mem_idsOf.2 ⟨hmem, hflag⟩
    rw [hindex id hnewId, renumber, storedIds, List.idxOf_append_of_mem hnewId, Int.zero_add]
    rfl
  · unfold serialize
    dsimp only
    show [0] ++ (writeVch nKey ++ (writeSigned 4 m.nNew ++ (writeSigned 4 m.nTried ++
      (writeSigned 4 ADDRMAN_NEW_BUCKET_COUNT ++ ((m.writeNew nType 0 (sorted m.mapInfo.keys) 0 ∅).2 ++
        (m.writeTried nType 0 (sorted m.mapInfo.keys) 0 ++ _)))))) = _
    rw [hnew, htried, hnNew, hnTried]
    rfl

/-- What **`CAddrMan::Serialize`** writes is read back by **`CAddrMan::Unserialize`**. -/
theorem reads_manager {hash : Bytes → BucketHash} {nType : Nat} (hdisk : nType &&& SER_DISK ≠ 0) {nKey : Bytes}
    (hkey : nKey.length ≤ Field.MAX_SIZE) {m : CAddrMan} (hm : m.Sound (hash nKey)) :
    ∃ m', Reads (unserialize hash nType) (serialize nType nKey m) (nKey, m') ∧ RefsRead (hash nKey) m m.vvNew m' := by
  have hids := storedIds_length_lt hm
  have hlen : m.storedIds.length = (m.idsOf false).length + (m.idsOf true).length := List.length_append
  have hversion : (-2 : Int) ^ 31 ≤ 0 ∧ (0 : Int) < 2 ^ 31 := by decide
  obtain ⟨mapUnkIds, hindex, hwritten⟩ := serialize_eq hm nType nKey
  obtain ⟨m₁, hreads₁, h₁⟩ := reads_new hdisk hversion hm
  obtain ⟨⟨m₂, nLost⟩, hreads₂, h₂⟩ := reads_tried hdisk hversion hm hids h₁
  have h₂' : RefsRead (hash nKey) m (fun _ => ∅) { m₂ with nTried := m.nTried - nLost } := by
    have hlost : nLost = 0 := h₂.lost
    refine ⟨h₂.enlisted.of_eq rfl rfl rfl, h₂.idCount, h₂.tried, ?_, h₂.nNew_eq, ?_⟩
    · intro b
      have hnew : m₂.vvNew = fun _ => ∅ := h₂.new
      show m₂.vvNew b = _
      rw [hnew, Finset.image_empty]
    · show m.nTried - nLost = m.nTried
      rw [hlost, sub_zero]
  obtain ⟨m₃, hreads₃, h₃⟩ := reads_buckets hm hids h₂' hindex
  refine ⟨m₃, ?_, h₃⟩
  rw [nNew_eq_length hm, nTried_eq_length hm] at hreads₁
  rw [nTried_eq_length hm] at hreads₃
  rw [hwritten]
  refine (reads_one 0).bind ((reads_readVch hkey).bind ((reads_int32 ⟨by omega, by omega⟩).bind
    ((reads_int32 ⟨by omega, by omega⟩).bind ((reads_int32 ⟨by decide, by decide⟩).bind ?_))))
  simp only [Int.toNat_natCast]
  exact hreads₁.bind (hreads₂.bind (hreads₃.bind_pure))

end CAddrMan

end Syscoin

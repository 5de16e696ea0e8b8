import Syscoin.Correctness.AddrStored

/-!
# `Correctness.AddrRestart` — the address manager survives a restart

What the reader has made of the stream is sound, and has every entry of the manager that was written, in the same
buckets. That no tried entry is lost rests on where the tried entries were: the reader finds their buckets by hashing,
and would drop an entry that leads to a full one.
-/

namespace Syscoin

open Lib Lib.Reader

namespace CAddrMan

/-- The same entries under other ids, in the same buckets. Only the time of the last try is forgotten, and `vRandom` has
    the entries in the order of their new ids. -/
structure Renumbered (f : Int → Int) (m m' : CAddrMan) : Prop where
  ids : Set.BijOn f m.mapInfo.keys m'.mapInfo.keys
  entries : ∀ id e, m.mapInfo.lookup id = some e →
    m'.mapInfo.lookup (f id) = some { e with nLastTry := 0, nRandomPos := f id }
  tried : ∀ b, (m'.vvTried b).Perm ((m.vvTried b).map f)
  new : ∀ b, m'.vvNew b = (m.vvNew b).image f

section Restart

variable {m m' : CAddrMan} {hash : BucketHash} {id : Int}

/-- All references have been counted. -/
theorem stored_all (hm : m.Sound hash) (hmem : id ∈ m.mapInfo) :
    m.stored m.vvNew id = { m.info id with nLastTry := 0, nRandomPos := m.renumber id } := by
  have hcount : ((holding m.vvNew id).card : Int) = (m.info id).nRefCount := by
    cases hflag : (m.info id).fInTried with
    | false =>
      obtain ⟨-, -, hcount, -⟩ := hm.consistent.new id _ (lookup_info hmem) hflag
      exact hcount.symm
    | true =>
      obtain ⟨hzero, -, hnowhere⟩ := hm.consistent.tried id _ (lookup_info hmem) hflag
      rw [hzero, holding_eq_empty_iff.2 hnowhere]
      rfl
  rw [stored, hcount]

namespace RefsRead

variable (h : RefsRead hash m m.vvNew m') (hm : m.Sound hash)

include h

theorem mem_iff {j : Int} : j ∈ m'.mapInfo ↔ ∃ id ∈ m.mapInfo, m.renumber id = j := by
  constructor
  · intro hj
    obtain ⟨id, hid, hrenumber, -⟩ := (h.enlisted.lookup j _).1 (lookup_info hj)
    exact ⟨id, mem_storedIds.1 hid, hrenumber⟩
  · rintro ⟨id, hid, rfl⟩
    exact Finmap.mem_of_lookup_eq_some (h.enlisted.lookup_renumber (mem_storedIds.2 hid))

theorem new_iff (hmem : id ∈ m.mapInfo) {b : Fin ADDRMAN_NEW_BUCKET_COUNT} : m.renumber id ∈ m'.vvNew b ↔ id ∈ m.vvNew b := by
  rw [h.new, Finset.mem_image]
  constructor
  · rintro ⟨id', hid', heq⟩
    rwa [renumber_inj hmem heq.symm]
  · intro hid
    exact ⟨id, hid, rfl⟩

include hm

theorem lookup_renumber (hmem : id ∈ m.mapInfo) : m'.mapInfo.lookup (m.renumber id) =
    some { m.info id with nLastTry := 0, nRandomPos := m.renumber id } := by
  rw [h.enlisted.lookup_renumber (mem_storedIds.2 hmem), stored_all hm hmem]

theorem exists_of_lookup {j : Int} {e' : CAddrInfo} (he' : m'.mapInfo.lookup j = some e') :
    ∃ id ∈ m.mapInfo, m.renumber id = j ∧ e' = { m.info id with nLastTry := 0, nRandomPos := m.renumber id } := by
  obtain ⟨id, hid, hj, he'⟩ := (h.enlisted.lookup j e').1 he'
  have hmem := mem_storedIds.1 hid
  exact ⟨id, hmem, hj, he'.trans (stored_all hm hmem)⟩

theorem tried_perm (b : Fin ADDRMAN_TRIED_BUCKET_COUNT) : (m'.vvTried b).Perm ((m.vvTried b).map m.renumber) := by
  rw [h.tried]
  exact (home_perm hm b).map m.renumber

theorem tried_iff (hmem : id ∈ m.mapInfo) {b : Fin ADDRMAN_TRIED_BUCKET_COUNT} :
    m.renumber id ∈ m'.vvTried b ↔ id ∈ m.vvTried b := by
  rw [(h.tried_perm hm b).mem_iff, List.mem_map]
  constructor
  · rintro ⟨id', hid', heq⟩
    rwa [renumber_inj hmem heq.symm]
  · intro hid
    exact ⟨id, hid, rfl⟩

theorem flagIds_eq (fInTried : Bool) : m'.flagIds fInTried = (m.flagIds fInTried).image m.renumber := by
  ext j
  rw [Finset.mem_image, mem_flagIds]
  constructor
  · rintro ⟨e', he', hflag⟩
    obtain ⟨id, hmem, hj, rfl⟩ := h.exists_of_lookup hm he'
    exact ⟨id, (mem_flagIds_iff hmem).2 hflag, hj⟩
  · rintro ⟨id, hid, rfl⟩
    obtain ⟨e, he, hflag⟩ := mem_flagIds.1 hid
    refine ⟨_, h.lookup_renumber hm (Finmap.mem_of_lookup_eq_some he), ?_⟩
    rw [← hflag, info_eq he]

theorem card_flagIds (fInTried : Bool) : (m'.flagIds fInTried).card = (m.flagIds fInTried).card := by
  rw [h.flagIds_eq hm, Finset.card_image_of_injOn]
  intro id hid id' _ heq
  obtain ⟨e, he, -⟩ := mem_flagIds.1 hid
  exact renumber_inj (Finmap.mem_of_lookup_eq_some he) heq

/-- The reader has kept the indexes and the buckets in order. -/
theorem consistent : m'.Consistent where
  random_perm := by
    have hnodup : m'.vRandom.Nodup := by
      rw [h.enlisted.random]
      exact List.nodup_range.map Nat.cast_injective
    -- both lists are without repetitions, so that it is enough that they have the same members
    rw [List.perm_ext_iff_of_nodup hnodup (nodup_sorted _)]
    intro j
    rw [mem_sorted, Finmap.mem_keys, h.mem_iff, h.enlisted.random, List.mem_map]
    constructor
    · rintro ⟨p, hp, rfl⟩
      have hlt := List.mem_range.1 hp
      refine ⟨m.storedIds[p], mem_storedIds.1 (List.getElem_mem hlt), ?_⟩
      rw [renumber, nodup_storedIds.idxOf_getElem]
    · rintro ⟨id, hid, rfl⟩
      exact ⟨m.storedIds.idxOf id, List.mem_range.2 (List.idxOf_lt_length_iff.2 (mem_storedIds.2 hid)), rfl⟩
  random_pos := by
    intro j e' he'
    obtain ⟨id, hmem, rfl, rfl⟩ := h.exists_of_lookup hm he'
    -- a record is where its identifier was in the order it was written in
    refine ⟨m.storedIds.idxOf id, rfl, ?_⟩
    rw [h.enlisted.random, List.getElem?_map,
      List.getElem?_range (List.idxOf_lt_length_iff.2 (mem_storedIds.2 hmem))]
    rfl
  addr_iff := by
    intro a j
    rw [h.enlisted.addr]
    constructor
    · rintro ⟨id, hid, rfl, haddr⟩
      exact ⟨_, h.lookup_renumber hm (mem_storedIds.1 hid), haddr⟩
    · rintro ⟨e', he', haddr⟩
      obtain ⟨id, hmem, hj, rfl⟩ := h.exists_of_lookup hm he'
      exact ⟨id, mem_storedIds.2 hmem, hj, haddr⟩
  nTried_eq := by
    rw [h.nTried_eq, hm.consistent.nTried_eq]
    exact_mod_cast (h.card_flagIds hm true).symm
  nNew_eq := by
    rw [h.nNew_eq, hm.consistent.nNew_eq]
    exact_mod_cast (h.card_flagIds hm false).symm
  tried := by
    intro j e' he' hflag
    obtain ⟨id, hmem, rfl, rfl⟩ := h.exists_of_lookup hm he'
    obtain ⟨hzero, ⟨b, hb, hunique⟩, hnowhere⟩ := hm.consistent.tried id _ (lookup_info hmem) hflag
    refine ⟨hzero, ⟨b, (h.tried_iff hm hmem).2 hb, ?_⟩, ?_⟩
    · intro c hc
      exact hunique c ((h.tried_iff hm hmem).1 hc)
    · intro c hc
      exact hnowhere c ((h.new_iff hmem).1 hc)
  new := by
    intro j e' he' hflag
    obtain ⟨id, hmem, rfl, rfl⟩ := h.exists_of_lookup hm he'
    obtain ⟨hlow, hhigh, hcount, hnowhere⟩ := hm.consistent.new id _ (lookup_info hmem) hflag
    refine ⟨hlow, hhigh, ?_, ?_⟩
    · simp only [h.new_iff hmem]
      exact hcount
    · intro c hc
      exact hnowhere c ((h.tried_iff hm hmem).1 hc)
  tried_known := by
    intro b j hj
    obtain ⟨id, hid, rfl⟩ := List.mem_map.1 ((h.tried_perm hm b).mem_iff.1 hj)
    exact h.mem_iff.2 ⟨id, hm.consistent.tried_known b id hid, rfl⟩
  new_known := by
    intro b j hj
    rw [h.new] at hj
    obtain ⟨id, hid, rfl⟩ := Finset.mem_image.1 hj
    exact h.mem_iff.2 ⟨id, hm.consistent.new_known b id hid, rfl⟩
  tried_bucket := by
    intro b
    obtain ⟨hnodup, hsize⟩ := hm.consistent.tried_bucket b
    rw [(h.tried_perm hm b).nodup_iff, (h.tried_perm hm b).length_eq, List.length_map]
    refine ⟨hnodup.map_on ?_, hsize⟩
    intro id hid id' _ heq
    exact renumber_inj (hm.consistent.tried_known b id hid) heq
  new_bucket := by
    intro b
    rw [h.new]
    exact Finset.card_image_le.trans (hm.consistent.new_bucket b)

theorem sound : m'.Sound hash where
  consistent := h.consistent hm
  homed := by
    refine ⟨?_, ?_, ?_⟩
    · intro b j hj e' he'
      obtain ⟨id, hmem, rfl, rfl⟩ := h.exists_of_lookup hm he'
      have hhome := hm.homed.home b id ((h.tried_iff hm hmem).1 hj) _ (lookup_info hmem)
      exact hhome
    · intro j e' he'
      obtain ⟨id, hmem, -, rfl⟩ := h.exists_of_lookup hm he'
      exact (hm.homed.fits id _ (lookup_info hmem)).congr rfl rfl
    · rw [h.idCount]
      exact storedIds_length_lt hm
  id_lt := by
    intro j hj
    obtain ⟨id, hid, rfl⟩ := h.mem_iff.1 hj
    rw [h.idCount]
    exact ⟨Int.natCast_nonneg _, renumber_lt (List.prefix_refl _) (mem_storedIds.2 hid)⟩
  success := by
    intro j e' he'
    obtain ⟨id, hmem, -, rfl⟩ := h.exists_of_lookup hm he'
    have hsuccess := hm.success id _ (lookup_info hmem)
    exact hsuccess

theorem renumbered : Renumbered m.renumber m m' where
  ids := by
    refine ⟨?_, ?_, ?_⟩
    · intro id hid
      exact Finmap.mem_keys.2 (h.mem_iff.2 ⟨id, Finmap.mem_keys.1 hid, rfl⟩)
    · intro id hid id' _ heq
      exact renumber_inj (Finmap.mem_keys.1 hid) heq
    · intro j hj
      obtain ⟨id, hid, heq⟩ := h.mem_iff.1 (Finmap.mem_keys.1 hj)
      exact ⟨id, Finmap.mem_keys.2 hid, heq⟩
  entries := by
    intro id e he
    rw [h.lookup_renumber hm (Finmap.mem_of_lookup_eq_some he), info_eq he]
  tried := h.tried_perm hm
  new := h.new

end RefsRead

end Restart

/-- A manager that is written to disk and read again is sound, has lost no entry, and differs from the one before in its
    ids, the order of `vRandom` and the times of the last tries only. -/
theorem manager_survives_restart {hash : Bytes → BucketHash} {nType : Nat} (hdisk : nType &&& SER_DISK ≠ 0) {nKey : Bytes}
    (hkey : nKey.length ≤ Field.MAX_SIZE) {m : CAddrMan} (hm : m.Sound (hash nKey)) (rest : Bytes) :
    ∃ m', unserialize hash nType (serialize nType nKey m ++ rest) = some ((nKey, m'), rest) ∧ m'.Sound (hash nKey) ∧
      m'.nNew = m.nNew ∧ m'.nTried = m.nTried ∧ ∃ f, Renumbered f m m' := by
  obtain ⟨m', hreads, h⟩ := reads_manager hdisk hkey hm
  exact ⟨m', hreads rest, h.sound hm, h.nNew_eq, h.nTried_eq, m.renumber, h.renumbered hm⟩

/-! ## Places in `vRandom` -/

/-- The new entries come first. -/
theorem length_le_renumber {m : CAddrMan} {id : Int} (htried : (m.info id).fInTried = true) :
    (m.idsOf false).length ≤ m.renumber id := by
  have hnot : id ∉ m.idsOf false := by
    intro hnew
    rw [(mem_idsOf.1 hnew).2] at htried
    cases htried
  rw [renumber, storedIds, List.idxOf_append_of_notMem hnot]
  push_cast
  omega

/-- The same entries but for the time of the last try: also the places in `vRandom`. -/
def SamePlaces (f : Int → Int) (m m' : CAddrMan) : Prop :=
  ∀ id e, m.mapInfo.lookup id = some e → ∃ e', m'.mapInfo.lookup (f id) = some e' ∧ e' = { e with nLastTry := e'.nLastTry }

/-- A tried entry that stands before as many others as there are new ones gets another place. -/
theorem RefsRead.not_samePlaces {m m' : CAddrMan} {hash : BucketHash} {id : Int} (h : RefsRead hash m m.vvNew m')
    (hm : m.Sound hash) (hmem : id ∈ m.mapInfo) (htried : (m.info id).fInTried = true)
    (hplace : (m.info id).nRandomPos < m.nNew) : ¬ ∃ f, SamePlaces f m m' := by
  rintro ⟨f, hsame⟩
  obtain ⟨e', he', heq⟩ := hsame id _ (lookup_info hmem)
  obtain ⟨id', hmem', -, hrestored⟩ := h.exists_of_lookup hm he'
  -- the address shows which entry it is
  have haddr : (m.info id').toCNetAddr = (m.info id).toCNetAddr := by
    have haddr' : e'.toCNetAddr = (m.info id).toCNetAddr := by rw [heq]
    rw [← haddr', hrestored]
  obtain rfl := hm.consistent.eq_of_addr hmem' hmem haddr
  have hpos : e'.nRandomPos = (m.info id').nRandomPos := by rw [heq]
  have hpos' : e'.nRandomPos = m.renumber id' := by rw [hrestored]
  have hlow := length_le_renumber htried
  rw [nNew_eq_length hm] at hplace
  omega

/-- The manager of two peers, of which the first one was connected to. -/
def onePeerTried : CAddrMan := (empty.run ⟨fun _ => 0, fun _ _ => 0⟩ twoPeers).toOption.getD empty

theorem onePeerTried_run : empty.run ⟨fun _ => 0, fun _ _ => 0⟩ twoPeers = .ok onePeerTried := by
  have hok : (empty.run ⟨fun _ => 0, fun _ _ => 0⟩ twoPeers).isOk = true := by decide +kernel
  unfold onePeerTried
  cases hrun : empty.run ⟨fun _ => 0, fun _ _ => 0⟩ twoPeers with
  | ok m => rfl
  | error e =>
    rw [hrun] at hok
    cases hok

theorem onePeerTried_sound : onePeerTried.Sound ⟨fun _ => 0, fun _ _ => 0⟩ := by
  refine run_sound ?_ onePeerTried_run
  simp [twoPeers, AddrmanOp.Forward, AddrmanOp.InRange]

theorem two_peers_survive :
    ∃ m', unserialize (fun _ => ⟨fun _ => 0, fun _ _ => 0⟩) SER_DISK
        (serialize SER_DISK (List.replicate 32 7) onePeerTried ++ []) = some ((List.replicate 32 7, m'), []) ∧
      m'.Sound ⟨fun _ => 0, fun _ _ => 0⟩ ∧ m'.nNew = onePeerTried.nNew ∧ m'.nTried = onePeerTried.nTried ∧
      ∃ f, Renumbered f onePeerTried m' :=
  manager_survives_restart (by decide) (by rw [List.length_replicate]; decide) onePeerTried_sound []

/-- The tried peer was known first and stands first, but it is read last. -/
theorem tried_peer_moves :
    empty.run ⟨fun _ => 0, fun _ _ => 0⟩ twoPeers = .ok onePeerTried ∧ onePeerTried.Sound ⟨fun _ => 0, fun _ _ => 0⟩ ∧
      ∃ m', unserialize (fun _ => ⟨fun _ => 0, fun _ _ => 0⟩) SER_DISK
        (serialize SER_DISK (List.replicate 32 7) onePeerTried) = some ((List.replicate 32 7, m'), []) ∧
      ¬ ∃ f, SamePlaces f onePeerTried m' := by
  have hkey : (List.replicate 32 7 : Bytes).length ≤ Field.MAX_SIZE := by
    rw [List.length_replicate]
    decide
  have hread : ∃ m', Reads (unserialize (fun _ => ⟨fun _ => 0, fun _ _ => 0⟩) SER_DISK)
      (serialize SER_DISK (List.replicate 32 7) onePeerTried) (List.replicate 32 7, m') ∧
      RefsRead ⟨fun _ => 0, fun _ _ => 0⟩ onePeerTried onePeerTried.vvNew m' :=
    reads_manager (by decide) hkey onePeerTried_sound
  obtain ⟨m', hreads, h⟩ := hread
  refine ⟨onePeerTried_run, onePeerTried_sound, m', ?_, ?_⟩
  · have hrun := hreads []
    rwa [List.append_nil] at hrun
  · have hmem : (0 : Int) ∈ onePeerTried.mapInfo := by decide +kernel
    exact h.not_samePlaces onePeerTried_sound hmem (by decide +kernel) (by decide +kernel)

end CAddrMan

end Syscoin

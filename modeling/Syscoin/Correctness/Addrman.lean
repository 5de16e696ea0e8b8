import Syscoin.Correctness.AddrTables

/-!
# `Correctness.Addrman` — runs of the address manager

The rest of the operations keep the two halves of the invariant, `Shell` and `Placed`, and so does every run. The check
that is compiled in for debugging, `Check_`, then finds nothing wrong.
-/

namespace Syscoin

open Lib

namespace CAddrMan

variable {m m' : CAddrMan} {nId : Int} {f : CAddrInfo → CAddrInfo} {N : Int} {timely : Prop}

/-! ## An entry goes to the tried buckets -/

section Tried

/-- The shuffled part of **`SelectTried`** stays the same bucket, and the position is in it. -/
theorem inspectTried_spec (rand : Nat → Nat) {vTried : List Int} (hknown : ∀ id ∈ vTried, id ∈ m.mapInfo)
    {s : List Int × Int × Int} {i : Nat} (hi : i < vTried.length) (hperm : s.1.Perm vTried)
    (hpos : s.2.1 = -1 ∨ 0 ≤ s.2.2 ∧ s.2.2 < vTried.length) :
    ∃ s', inspectTried rand m s i = .ok s' ∧ s'.1.Perm vTried ∧ 0 ≤ s'.2.2 ∧ s'.2.2 < vTried.length := by
  obtain ⟨v, nOldest, nOldestPos⟩ := s
  have hlen : v.length = vTried.length := hperm.length_eq
  have hrand := getRandInt_lt (rand i) (show 0 < v.length - i by omega)
  have hnPos : getRandInt (rand i) (v.length - i) + i < v.length := by omega
  unfold inspectTried
  simp only []
  generalize getRandInt (rand i) (v.length - i) + i = nPos at hnPos
  have hi' : i < v.length := by omega
  have hswap : ((v.set nPos (v.getD i 0)).set i (v.getD nPos 0)).Perm vTried := by
    rw [List.getD_eq_getElem _ _ hi', List.getD_eq_getElem _ _ hnPos]
    exact (List.set_set_perm hnPos hi').trans hperm
  have htemp : v.getD nPos 0 ∈ m.mapInfo := by
    rw [List.getD_eq_getElem _ _ hnPos]
    exact hknown _ (hperm.mem_iff.1 (List.getElem_mem hnPos))
  by_cases hnext : nOldest = -1 ∨ (m.info (v.getD nPos 0)).nLastSuccess < (m.info nOldest).nLastSuccess
  · refine ⟨((v.set nPos (v.getD i 0)).set i (v.getD nPos 0), v.getD nPos 0, nPos), ?_, hswap, ?_⟩
    · rw [require_bind_ok_iff, if_pos hnext]
      exact ⟨.inr htemp, rfl⟩
    · show (0 : Int) ≤ nPos ∧ (nPos : Int) < vTried.length
      omega
  · refine ⟨((v.set nPos (v.getD i 0)).set i (v.getD nPos 0), nOldest, nOldestPos), ?_, hswap, ?_⟩
    · rw [require_bind_ok_iff, if_neg hnext]
      exact ⟨.inr htemp, rfl⟩
    · exact hpos.resolve_left fun hsentinel => hnext (.inl hsentinel)

theorem inspectTried_run (rand : Nat → Nat) {vTried : List Int} (hknown : ∀ id ∈ vTried, id ∈ m.mapInfo) {l : List Nat}
    (hl : ∀ i ∈ l, i < vTried.length) {s : List Int × Int × Int} (hperm : s.1.Perm vTried)
    (hpos : 0 ≤ s.2.2 ∧ s.2.2 < vTried.length) :
    ∃ s', l.foldlM (inspectTried rand m) s = .ok s' ∧ s'.1.Perm vTried ∧ 0 ≤ s'.2.2 ∧ s'.2.2 < vTried.length := by
  induction l generalizing s with
  | nil => exact ⟨s, rfl, hperm, hpos⟩
  | cons i l ih =>
    obtain ⟨s', hok, hperm', hpos'⟩ := inspectTried_spec rand hknown (hl i List.mem_cons_self) hperm (.inr hpos)
    obtain ⟨s'', hok', hdone⟩ := ih (fun j hj => hl j (List.mem_cons_of_mem _ hj)) hperm' hpos'
    refine ⟨s'', ?_, hdone⟩
    rw [List.foldlM_cons, hok]
    exact hok'

/-- **`SelectTried`** in a bucket that is not empty. -/
theorem selectTried_spec (rand : Nat → Nat) {vTried : List Int} (hknown : ∀ id ∈ vTried, id ∈ m.mapInfo)
    (hne : 0 < vTried.length) :
    ∃ nPos v, selectTried rand m vTried = .ok (nPos, v) ∧ v.Perm vTried ∧ 0 ≤ nPos ∧ nPos < vTried.length := by
  have hrange : List.range (min ADDRMAN_TRIED_ENTRIES_INSPECT_ON_EVICT vTried.length) =
      0 :: (List.range (min ADDRMAN_TRIED_ENTRIES_INSPECT_ON_EVICT vTried.length - 1)).map (· + 1) := by
    have hpos : 0 < ADDRMAN_TRIED_ENTRIES_INSPECT_ON_EVICT := by decide
    obtain ⟨k, hk⟩ : ∃ k, min ADDRMAN_TRIED_ENTRIES_INSPECT_ON_EVICT vTried.length = k + 1 :=
      ⟨min ADDRMAN_TRIED_ENTRIES_INSPECT_ON_EVICT vTried.length - 1, by omega⟩
    rw [hk, List.range_succ_eq_map]
    rfl
  obtain ⟨s, hok, hperm, hpos⟩ :=
    inspectTried_spec rand (s := (vTried, -1, -1)) hknown hne (List.Perm.refl _) (.inl rfl)
  obtain ⟨s', hok', hperm', hpos'⟩ := inspectTried_run rand
    (l := (List.range (min ADDRMAN_TRIED_ENTRIES_INSPECT_ON_EVICT vTried.length - 1)).map (· + 1)) hknown
    (by
      intro i hi
      obtain ⟨j, hj, rfl⟩ := List.mem_map.1 hi
      have := List.mem_range.1 hj
      omega) hperm hpos
  refine ⟨s'.2.2, s'.1, ?_, hperm', hpos'⟩
  unfold selectTried
  rw [hrange, List.foldlM_cons, hok]
  show (List.foldlM (inspectTried rand m) s _ >>= _) = _
  rw [hok']
  rfl

variable {e : CAddrInfo} {k : Fin ADDRMAN_TRIED_BUCKET_COUNT}

/-- A new entry moves to a tried bucket that has room. -/
theorem Placed.moveTried (h : Placed 0 m) (hmem : nId ∈ m.mapInfo) (hnewflag : (m.info nId).fInTried = false)
    (hroom : (m.vvTried k).length < ADDRMAN_TRIED_BUCKET_SIZE) (hinfo : m'.mapInfo = m.mapInfo.insert nId e)
    (hflag : e.fInTried = true) (href : e.nRefCount = 0) (hsuccess : 0 < e.nLastSuccess)
    (htried : m'.vvTried = Function.update m.vvTried k (m.vvTried k ++ [nId]))
    (hnew : m'.vvNew = fun b => (m.vvNew b).erase nId) (hnTried : m'.nTried = m.nTried + 1)
    (hnNew : m'.nNew = m.nNew - 1) : Placed 0 m' := by
  obtain ⟨hnowhere, -, -, -, -⟩ := h.of_new hmem hnewflag
  have hnot : ∀ b, nId ∉ m.vvTried b := holding_eq_empty_iff.1 (Finset.card_eq_zero.1 hnowhere)
  have hin : nId ∈ m.flagIds false := (mem_flagIds_iff hmem).2 hnewflag
  have hout : nId ∉ m.flagIds true := by
    rw [mem_flagIds_iff hmem, hnewflag]
    simp
  constructor
  · intro id
    rw [hinfo, htried, hnew, lookup_insert_eq, holding_erase]
    by_cases hid : id = nId
    · subst hid
      rw [if_pos rfl, if_pos rfl, card_holding_update_add (by simp) (hnot k), hnowhere]
      exact .tried hflag href hsuccess
    · rw [if_neg hid, if_neg hid, holding_update_of_iff (by simp [hid])]
      exact h.slot id
  · rw [htried]
    apply forall_update List.Nodup h.tried_nodup
    rw [List.nodup_append]
    refine ⟨h.tried_nodup k, List.nodup_singleton nId, ?_⟩
    rintro id hid _ hsingle rfl
    rw [List.mem_singleton.1 hsingle] at hid
    exact hnot k hid
  · rw [htried]
    apply forall_update (fun s : List Int => s.length ≤ ADDRMAN_TRIED_BUCKET_SIZE) h.tried_size
    rw [List.length_append, List.length_singleton]
    exact hroom
  · intro b
    rw [hnew]
    exact Finset.card_erase_le.trans (h.new_size b)
  · rw [hnTried, flagIds_insert hinfo, if_pos hflag, Finset.card_insert_of_notMem hout, h.nTried_eq]
    rfl
  · have hpos : 0 < (m.flagIds false).card := Finset.card_pos.2 ⟨nId, hin⟩
    have hold := h.nNew_eq
    rw [hnNew, flagIds_insert hinfo, if_neg (by rw [hflag]; simp), Finset.card_erase_of_mem hin]
    omega

/-- A new entry takes the place of a tried one, which goes to a new bucket that has room. -/
theorem Placed.evict (h : Placed 0 m) (hmem : nId ∈ m.mapInfo) (hnewflag : (m.info nId).fInTried = false)
    {nIdOld : Int} {eOld : CAddrInfo} {v : List Int} {i : Nat} (hperm : v.Perm (m.vvTried k))
    (hold : v[i]? = some nIdOld) {b : Fin ADDRMAN_NEW_BUCKET_COUNT}
    (hroom : ((m.vvNew b).erase nId).card < ADDRMAN_NEW_BUCKET_SIZE)
    (hlook : ∀ id, m'.mapInfo.lookup id =
      if id = nId then some e else if id = nIdOld then some eOld else m.mapInfo.lookup id)
    (hflag : e.fInTried = true) (href : e.nRefCount = 0) (hsuccess : 0 < e.nLastSuccess)
    (holdflag : eOld.fInTried = false) (holdref : eOld.nRefCount = 1) (holdsuccess : 0 ≤ eOld.nLastSuccess)
    (htried : m'.vvTried = Function.update m.vvTried k (v.set i nId))
    (hnew : m'.vvNew = Function.update (fun b => (m.vvNew b).erase nId) b (insert nIdOld ((m.vvNew b).erase nId)))
    (hnTried : m'.nTried = m.nTried) (hnNew : m'.nNew = m.nNew) : Placed 0 m' := by
  obtain ⟨hnowhere, -, -, -, -⟩ := h.of_new hmem hnewflag
  have hnot : ∀ b, nId ∉ m.vvTried b := holding_eq_empty_iff.1 (Finset.card_eq_zero.1 hnowhere)
  have holdin : nIdOld ∈ m.vvTried k := hperm.mem_iff.1 (List.mem_of_getElem? hold)
  obtain ⟨hmemOld, htriedOld, honeOld, hzeroOld, -⟩ := h.of_mem_tried holdin
  have hne : nIdOld ≠ nId := by
    rintro rfl
    exact hnot k holdin
  have hnotNew : ∀ b, nIdOld ∉ m.vvNew b := holding_eq_empty_iff.1 (Finset.card_eq_zero.1 hzeroOld)
  -- the bucket is `nIdOld` and the rest before, `nId` and the rest after
  obtain ⟨rest, hbefore, hafter⟩ := perm_set hold
  replace hafter := hafter nId
  have hnodup : (nIdOld :: rest).Nodup := (hbefore.nodup_iff).1 ((hperm.nodup_iff).2 (h.tried_nodup k))
  have hmemRest : ∀ id, id ∈ m.vvTried k ↔ id = nIdOld ∨ id ∈ rest := by
    intro id
    rw [← hperm.mem_iff, hbefore.mem_iff, List.mem_cons]
  have hmemSet : ∀ id, id ∈ v.set i nId ↔ id = nId ∨ id ∈ rest := by
    intro id
    rw [hafter.mem_iff, List.mem_cons]
  have hrestOld : nIdOld ∉ rest := (List.nodup_cons.1 hnodup).1
  have hrestNew : nId ∉ rest := fun hrest => hnot k ((hmemRest nId).2 (.inr hrest))
  constructor
  · intro id
    rw [hlook, htried, hnew]
    by_cases hid : id = nId
    · subst hid
      rw [if_pos rfl, card_holding_update_add ((hmemSet id).2 (.inl rfl)) (hnot k), hnowhere,
        holding_update_of_iff (by simp [hne.symm]), holding_erase, if_pos rfl]
      exact .tried hflag href hsuccess
    · rw [if_neg hid]
      by_cases hidOld : id = nIdOld
      · subst hidOld
        have hdrop := card_holding_update_drop (b := k) (s := v.set i nId) (a := id)
          (by rw [hmemSet]; simp [hid, hrestOld]) holdin
        have hzero : (holding (Function.update m.vvTried k (v.set i nId)) id).card = 0 := by omega
        rw [if_pos rfl, hzero, card_holding_update_add (Finset.mem_insert_self id _) (by simp [hnotNew]), holding_erase,
          if_neg hid, hzeroOld]
        refine .new holdflag ?_ (by omega) (by rw [holdref]; decide) holdsuccess
        rw [holdref]
        rfl
      · rw [if_neg hidOld, holding_update_of_iff (by rw [hmemSet, hmemRest]; simp [hid, hidOld]),
          holding_update_of_iff (by simp [hidOld]), holding_erase, if_neg hid]
        exact h.slot id
  · rw [htried]
    apply forall_update List.Nodup h.tried_nodup
    rw [hafter.nodup_iff, List.nodup_cons]
    exact ⟨hrestNew, (List.nodup_cons.1 hnodup).2⟩
  · rw [htried]
    apply forall_update (fun s : List Int => s.length ≤ ADDRMAN_TRIED_BUCKET_SIZE) h.tried_size
    rw [List.length_set, hperm.length_eq]
    exact h.tried_size k
  · rw [hnew]
    exact forall_update (fun s : Finset Int => s.card ≤ ADDRMAN_NEW_BUCKET_SIZE)
      (fun c => Finset.card_erase_le.trans (h.new_size c)) ((Finset.card_insert_le _ _).trans hroom)
  · have hin : nIdOld ∈ m.flagIds true := (mem_flagIds_iff hmemOld).2 htriedOld
    have hout : nId ∉ m.flagIds true := by
      rw [mem_flagIds_iff hmem, hnewflag]
      simp
    rw [hnTried, card_flagIds_exchange hlook hflag (by simp [holdflag]) hin hout, h.nTried_eq]
  · have hin : nId ∈ m.flagIds false := (mem_flagIds_iff hmem).2 hnewflag
    have hout : nIdOld ∉ m.flagIds false := by
      rw [mem_flagIds_iff hmemOld, htriedOld]
      simp
    -- the other way round
    have hlook' : ∀ id, m'.mapInfo.lookup id =
        if id = nIdOld then some eOld else if id = nId then some e else m.mapInfo.lookup id := by
      intro id
      rw [hlook]
      by_cases hid : id = nId
      · rw [if_pos hid, if_neg (by rw [hid]; exact hne.symm), if_pos hid]
      · rw [if_neg hid, if_neg hid]
    rw [hnNew, card_flagIds_exchange hlook' holdflag (by simp [hflag]) hin hout, h.nNew_eq]

section MakeTried

variable (hash : BucketHash) (t : Moment) {b : Fin ADDRMAN_NEW_BUCKET_COUNT}

/-- The entry after it has left its new buckets. -/
theorem lookup_removeNew (hp : Placed 0 m) (hin : nId ∈ m.vvNew b) (id : Int) :
    (m.removeNew nId).mapInfo.lookup id =
      if id = nId then some { m.info nId with nRefCount := 0 } else m.mapInfo.lookup id := by
  obtain ⟨-, -, -, hcount⟩ := hp.of_mem_new hin
  have hzero : (m.info nId).nRefCount - (holding m.vvNew nId).card = 0 := by
    rw [hcount]
    show ((holding m.vvNew nId).card : Int) + 0 - (holding m.vvNew nId).card = 0
    omega
  show (m.mapInfo.insert nId { m.info nId with
    nRefCount := (m.info nId).nRefCount - (holding m.vvNew nId).card }).lookup id = _
  rw [lookup_insert_eq, hzero]

theorem mem_removeNew (hmem : nId ∈ m.mapInfo) (id : Int) : id ∈ (m.removeNew nId).mapInfo ↔ id ∈ m.mapInfo :=
  mem_modifyInfo (f := fun e => { e with nRefCount := e.nRefCount - (holding m.vvNew nId).card }) hmem

theorem Shell.removeNew (hs : Shell N timely m) (hmem : nId ∈ m.mapInfo) : Shell N timely (m.removeNew nId) :=
  Shell.of_eq (hs.modifyCounts (f := fun e => { e with nRefCount := e.nRefCount - (holding m.vvNew nId).card }) hmem
    (fun _ => rfl) (fun _ => rfl) (fun _ => rfl)) rfl rfl rfl rfl

theorem Shell.replaceTried (hs : Shell N timely m) (hmem : nId ∈ m.mapInfo) {nIdOld : Int} (hmemOld : nIdOld ∈ m.mapInfo)
    (nHome : Fin ADDRMAN_NEW_BUCKET_COUNT) (v : List Int) : Shell N timely (m.replaceTried nId nIdOld nHome k v) := by
  have hs2 : Shell N timely (m.modifyInfo nIdOld fun e => { e with fInTried := false, nRefCount := 1 }) :=
    hs.modifyCounts hmemOld (fun _ => rfl) (fun _ => rfl) (fun _ => rfl)
  have hs3 : Shell N timely { m.modifyInfo nIdOld (fun e => { e with fInTried := false, nRefCount := 1 }) with
      vvNew := Function.update m.vvNew nHome (insert nIdOld (m.vvNew nHome))
      nNew := m.nNew + 1
      vvTried := Function.update m.vvTried k v } := hs2.of_eq rfl rfl rfl rfl
  exact hs3.modifyCounts (f := fun e => { e with fInTried := true })
    ((mem_modifyInfo (f := fun e => { e with fInTried := false, nRefCount := 1 }) hmemOld).2 hmem)
    (fun _ => rfl) (fun _ => rfl) (fun _ => rfl)

/-- The end of **`MakeTried`**, in a full bucket, for an entry at one of its places. -/
theorem Placed.replaceTried (hp : Placed 0 m) (hin : nId ∈ m.vvNew b) (hsuccess : 0 < (m.info nId).nLastSuccess)
    {v : List Int} {i : Nat} {nIdOld : Int} (hperm : v.Perm (m.vvTried k)) (hget : v[i]? = some nIdOld)
    {nHome : Fin ADDRMAN_NEW_BUCKET_COUNT} (hroom : ((m.vvNew nHome).erase nId).card < ADDRMAN_NEW_BUCKET_SIZE) :
    Placed 0 ((m.removeNew nId).replaceTried nId nIdOld nHome k (v.set i nId)) := by
  obtain ⟨hmem, hflag, hnowhere, -⟩ := hp.of_mem_new hin
  have hlook1 := lookup_removeNew hp hin
  have holdin : nIdOld ∈ m.vvTried k := hperm.mem_iff.1 (List.mem_of_getElem? hget)
  obtain ⟨-, -, -, -, hsuccessOld⟩ := hp.of_mem_tried holdin
  have hne : nIdOld ≠ nId := by
    rintro rfl
    exact absurd hnowhere (card_holding_pos holdin).ne'
  have hinfoOld : (m.removeNew nId).info nIdOld = m.info nIdOld := by
    rw [info, hlook1, if_neg hne]
    rfl
  have hlook : ∀ id, ((m.removeNew nId).replaceTried nId nIdOld nHome k (v.set i nId)).mapInfo.lookup id =
      if id = nId then some { m.info nId with nRefCount := 0, fInTried := true }
      else if id = nIdOld then some { m.info nIdOld with fInTried := false, nRefCount := 1 }
      else m.mapInfo.lookup id := by
    intro id
    have hinfo2 : ((m.removeNew nId).modifyInfo nIdOld fun e => { e with fInTried := false, nRefCount := 1 }).info nId =
        { m.info nId with nRefCount := 0 } := by
      apply info_eq
      rw [lookup_modifyInfo, if_neg hne.symm, hlook1, if_pos rfl]
    unfold CAddrMan.replaceTried
    simp only []
    rw [lookup_modifyInfo]
    show (if id = nId then some { ((m.removeNew nId).modifyInfo nIdOld fun e =>
      { e with fInTried := false, nRefCount := 1 }).info nId with fInTried := true }
      else ((m.removeNew nId).modifyInfo nIdOld fun e =>
        { e with fInTried := false, nRefCount := 1 }).mapInfo.lookup id) = _
    rw [hinfo2, lookup_modifyInfo, hinfoOld, hlook1]
    split
    · rfl
    · rfl
  refine hp.evict hmem hflag hperm hget hroom hlook rfl rfl hsuccess rfl rfl hsuccessOld.le rfl rfl rfl ?_
  show m.nNew - 1 + 1 = m.nNew
  omega

theorem evictTried_spec (hs : Shell N timely m) (hp : Placed 0 m) (hin : nId ∈ m.vvNew b)
    (hsuccess : 0 < (m.info nId).nLastSuccess) {v : List Int} {nPos : Int} (hperm : v.Perm (m.vvTried k))
    (hpos : 0 ≤ nPos) (hlt : nPos < (m.vvTried k).length) :
    ∃ m', (m.removeNew nId).evictTried hash nId b k nPos v = .ok m' ∧ Shell N timely m' ∧ Placed 0 m' := by
  have hmem := (hp.of_mem_new hin).1
  have hget : v[nPos.toNat]? = some (v.getD nPos.toNat 0) := by
    have hlen := hperm.length_eq
    have hi : nPos.toNat < v.length := by omega
    rw [List.getD_eq_getElem _ _ hi, List.getElem?_eq_getElem hi]
  have hmemOld := (hp.of_mem_tried (hperm.mem_iff.1 (List.mem_of_getElem? hget))).1
  have hroom : ∀ nUBucket, ((m.vvNew (if ((m.removeNew nId).vvNew nUBucket).card < ADDRMAN_NEW_BUCKET_SIZE then nUBucket
      else b)).erase nId).card < ADDRMAN_NEW_BUCKET_SIZE := by
    intro nUBucket
    split
    · assumption
    · -- there is certainly place where the other entry came from
      have hsize := hp.new_size b
      have hcard : 0 < (m.vvNew b).card := Finset.card_pos.2 ⟨nId, hin⟩
      rw [Finset.card_erase_of_mem hin]
      omega
  refine ⟨_, ?_, (hs.removeNew hmem).replaceTried ((mem_removeNew hmem _).2 hmem) ((mem_removeNew hmem _).2 hmemOld) _ _,
    hp.replaceTried hin hsuccess hperm hget (hroom (((m.removeNew nId).info (v.getD nPos.toNat 0)).getNewBucket hash
      ((m.removeNew nId).info (v.getD nPos.toNat 0)).source))⟩
  unfold evictTried
  rw [require_bind_ok_iff]
  exact ⟨(mem_removeNew hmem _).2 hmemOld, rfl⟩

/-- **`MakeTried`** -/
theorem makeTried_spec (hs : Shell N timely m) (hp : Placed 0 m) (hin : nId ∈ m.vvNew b)
    (hsuccess : 0 < (m.info nId).nLastSuccess) :
    ∃ m', m.makeTried hash t nId b = .ok m' ∧ Shell N timely m' ∧ Placed 0 m' := by
  obtain ⟨hmem, hflag, -, -⟩ := hp.of_mem_new hin
  have hinfo1 : (m.removeNew nId).info nId = { m.info nId with nRefCount := 0 } :=
    info_eq (by rw [lookup_removeNew hp hin, if_pos rfl])
  have hs1 : Shell N timely (m.removeNew nId) := hs.removeNew hmem
  have hzero : ((m.removeNew nId).info nId).nRefCount = 0 := by rw [hinfo1]
  unfold makeTried
  simp only [require_bind_ok_iff, hin, hzero, true_and]
  generalize ((m.removeNew nId).info nId).getTriedBucket hash = k
  by_cases hroom : ((m.removeNew nId).vvTried k).length < ADDRMAN_TRIED_BUCKET_SIZE
  · rw [if_pos hroom]
    refine ⟨_, rfl, ?_, ?_⟩
    · have hs2 : Shell N timely { m.removeNew nId with
          vvTried := Function.update (m.removeNew nId).vvTried k ((m.removeNew nId).vvTried k ++ [nId])
          nTried := (m.removeNew nId).nTried + 1 } := hs1.of_eq rfl rfl rfl rfl
      exact hs2.modifyCounts (f := fun e => { e with fInTried := true }) ((mem_removeNew hmem _).2 hmem)
        (fun _ => rfl) (fun _ => rfl) (fun _ => rfl)
    · refine hp.moveTried (e := { m.info nId with nRefCount := 0, fInTried := true }) hmem hflag hroom ?_ rfl rfl hsuccess
        rfl rfl rfl rfl
      show (m.mapInfo.insert nId _).insert nId { (m.removeNew nId).info nId with fInTried := true } = _
      rw [Finmap.insert_insert, hinfo1]
  · rw [if_neg hroom]
    have hknown : ∀ id ∈ m.vvTried k, id ∈ (m.removeNew nId).mapInfo :=
      fun id hid => (mem_removeNew hmem id).2 (hp.of_mem_tried hid).1
    have hsize : ADDRMAN_TRIED_BUCKET_SIZE ≤ (m.vvTried k).length := not_lt.1 hroom
    have hne : 0 < (m.vvTried k).length := Nat.lt_of_lt_of_le (by decide) hsize
    obtain ⟨nPos, v, hselect, hperm, hpos, hlt⟩ := selectTried_spec (fun i => t.rand (i + 1)) hknown hne
    obtain ⟨m', hok, hs', hp'⟩ := evictTried_spec hash hs hp hin hsuccess hperm hpos hlt
    refine ⟨m', ?_, hs', hp'⟩
    exact Except.bind_ok_iff.2 ⟨(nPos, v), hselect, hok⟩

/-- **`Good_`** -/
theorem good_spec (addr : CService) {nTime : Int} (htime : 0 < nTime) (hs : Shell N timely m) (hp : Placed 0 m) :
    ∃ m', m.good_ hash t addr nTime = .ok m' ∧ Shell N timely m' ∧ Placed 0 m' := by
  unfold CAddrMan.good_
  cases hfind : m.find addr.toCNetAddr with
  | none => exact ⟨m, rfl, hs, hp⟩
  | some found =>
    obtain ⟨nId, e⟩ := found
    obtain ⟨he, -⟩ := (find_eq_some_iff hs).1 hfind
    have hmem := Finmap.mem_of_lookup_eq_some he
    simp only []
    by_cases hport : e.toCService ≠ addr
    · rw [if_pos hport]
      exact ⟨m, rfl, hs, hp⟩
    rw [if_neg hport]
    -- the record is noted to have answered before anything is moved
    have hs1 : Shell N timely (m.modifyInfo nId fun e =>
        { e with nLastSuccess := nTime, nLastTry := nTime, nTime := UInt32.ofInt nTime, nAttempts := 0 }) := by
      apply hs.modifyInfo hmem rfl rfl
      · have hnonneg := hs.idCount_nonneg
        have hle := hs.idCount_le
        show 0 ≤ N
        omega
      · intro _
        show 0 ≤ nTime
        omega
    have hp1 : Placed 0 (m.modifyInfo nId fun e =>
        { e with nLastSuccess := nTime, nLastTry := nTime, nTime := UInt32.ofInt nTime, nAttempts := 0 }) :=
      hp.modifyInfo hmem ⟨rfl, rfl, .inr htime⟩
    have hlook1 : (m.modifyInfo nId fun e =>
        { e with nLastSuccess := nTime, nLastTry := nTime, nTime := UInt32.ofInt nTime, nAttempts := 0 }).mapInfo.lookup
        nId = some { m.info nId with nLastSuccess := nTime, nLastTry := nTime, nTime := UInt32.ofInt nTime, nAttempts := 0 } := by
      rw [lookup_modifyInfo, if_pos rfl]
    generalize m.modifyInfo nId (fun e =>
      { e with nLastSuccess := nTime, nLastTry := nTime, nTime := UInt32.ofInt nTime, nAttempts := 0 }) = m1 at *
    by_cases htried : e.fInTried = true
    · rw [if_pos htried]
      exact ⟨m1, rfl, hs1, hp1⟩
    rw [if_neg htried]
    cases hnew : m1.findNew t nId with
    | none => exact ⟨m1, rfl, hs1, hp1⟩
    | some nUBucket =>
      -- it is in some bucket of new addresses, and moves to one of tried ones
      have hin : nId ∈ m1.vvNew nUBucket := by
        have := List.find?_some hnew
        simpa using this
      exact makeTried_spec hash t hs1 hp1 hin (by rw [info_eq hlook1]; exact htime)

end MakeTried

end Tried

/-! ## The other operations -/

/-- **`Attempt_`** -/
theorem attempt_spec (addr : CService) (nTime : Int) (hs : Shell N timely m) (hp : Placed 0 m) :
    (∃ m', m.attempt_ addr nTime = .ok m' ∧ Shell (N + 1) (timely ∧ 0 ≤ nTime) m' ∧ Placed 0 m') ∨
      m.attempt_ addr nTime = .error .overflow ∧ 2 ^ 31 - 1 ≤ N := by
  have hs' : Shell (N + 1) (timely ∧ 0 ≤ nTime) m := hs.mono (by omega) And.left
  unfold CAddrMan.attempt_
  cases hfind : m.find addr.toCNetAddr with
  | none => exact .inl ⟨m, rfl, hs', hp⟩
  | some found =>
    obtain ⟨nId, e⟩ := found
    obtain ⟨he, -⟩ := (find_eq_some_iff hs).1 hfind
    have hmem := Finmap.mem_of_lookup_eq_some he
    have hattempts := hs.attempts_le nId e he
    simp only []
    by_cases hport : e.toCService ≠ addr
    · rw [if_pos hport]
      exact .inl ⟨m, rfl, hs', hp⟩
    rw [if_neg hport]
    by_cases hroom : e.nAttempts < 2 ^ 31 - 1
    · left
      refine ⟨m.modifyInfo nId fun e => { e with nLastTry := nTime, nAttempts := e.nAttempts + 1 }, ?_, ?_, ?_⟩
      · rw [require_bind_ok_iff]
        exact ⟨hroom, rfl⟩
      · apply hs'.modifyInfo hmem rfl rfl
        · show (m.info nId).nAttempts + 1 ≤ N + 1
          rw [info_eq he]
          omega
        · exact And.right
      · exact hp.modifyInfo hmem ⟨rfl, rfl, .inl rfl⟩
    · right
      rw [require_bind_of_not hroom]
      exact ⟨rfl, by omega⟩

/-- **`Connected_`** -/
theorem connected_spec (addr : CService) (nTime : Int) (hs : Shell N timely m) (hp : Placed 0 m) :
    Shell N timely (m.connected_ addr nTime) ∧ Placed 0 (m.connected_ addr nTime) := by
  unfold CAddrMan.connected_
  cases hfind : m.find addr.toCNetAddr with
  | none => exact ⟨hs, hp⟩
  | some found =>
    obtain ⟨nId, e⟩ := found
    obtain ⟨he, -⟩ := (find_eq_some_iff hs).1 hfind
    have hmem := Finmap.mem_of_lookup_eq_some he
    simp only []
    split
    · exact ⟨hs, hp⟩
    · split
      · constructor
        · apply hs.modifyInfo hmem rfl rfl
          · exact hs.attempts_le nId (m.info nId) (lookup_info hmem)
          · exact fun ht => hs.lastTry ht nId (m.info nId) (lookup_info hmem)
        · exact hp.modifyInfo hmem ⟨rfl, rfl, .inl rfl⟩
      · exact ⟨hs, hp⟩

/-- The rounds of **`GetAddr_`** -/
theorem pickAddr_run (rand : Nat → Nat) (hs : Shell N timely m) (hp : Placed 0 m) {l : List Nat}
    (hl : ∀ n ∈ l, n < m.vRandom.length) (vAddr : List CAddress) :
    ∃ m' vAddr', l.foldlM (pickAddr rand) (m, vAddr) = .ok (m', vAddr') ∧ Shell N timely m' ∧ Placed 0 m' := by
  induction l generalizing m vAddr with
  | nil => exact ⟨m, vAddr, rfl, hs, hp⟩
  | cons n l ih =>
    have hn := hl n List.mem_cons_self
    have hrand := getRandInt_lt (rand n) (show 0 < m.vRandom.length - n by omega)
    obtain ⟨m', hswap, hs', hre, -⟩ :=
      swapRandom_spec hs hn (show getRandInt (rand n) (m.vRandom.length - n) + n < m.vRandom.length by omega)
    have hlen := hre.length_eq
    obtain ⟨m'', vAddr'', hok, hdone⟩ :=
      ih hs' (hp.reordered hre) (fun j hj => by rw [hlen]; exact hl j (List.mem_cons_of_mem _ hj))
        (vAddr ++ [(m'.info (m'.vRandom.getD n 0)).toCAddress])
    refine ⟨m'', vAddr'', ?_, hdone⟩
    rw [List.foldlM_cons, Except.bind_ok_iff]
    refine ⟨(m', vAddr ++ [(m'.info (m'.vRandom.getD n 0)).toCAddress]), ?_, hok⟩
    unfold pickAddr
    rw [Except.bind_ok_iff]
    refine ⟨m', hswap, ?_⟩
    rw [require_bind_ok_iff]
    exact ⟨hs'.getD_mem (by omega), rfl⟩

/-- **`GetAddr_`** -/
theorem getAddr_spec (t : Moment) (hs : Shell N timely m) (hp : Placed 0 m) :
    ∃ m' vAddr, m.getAddr_ t = .ok (m', vAddr) ∧ Shell N timely m' ∧ Placed 0 m' := by
  apply pickAddr_run t.rand hs hp
  intro n hn
  have hlt := List.mem_range.1 hn
  have hpct : ADDRMAN_GETADDR_MAX_PCT * m.vRandom.length / 100 ≤ m.vRandom.length := by
    show 23 * m.vRandom.length / 100 ≤ _
    omega
  omega

/-- The rounds of **`Select_`** -/
theorem selectLoop_spec (t : Moment) {k : Nat} [NeZero k] {vv : Fin k → List Int}
    (hknown : ∀ b, ∀ id ∈ vv b, id ∈ m.mapInfo) (rounds : Nat) : ∃ o, selectLoop t m vv rounds = .ok o := by
  induction rounds with
  | zero => exact ⟨none, rfl⟩
  | succ rounds ih =>
    unfold selectLoop
    simp only []
    generalize Fin.ofNat k (getRandInt (t.rand (2 * rounds)) k) = b
    by_cases hempty : (vv b).length = 0
    · rw [if_pos hempty]
      exact ih
    · rw [if_neg hempty]
      have hlt := getRandInt_lt (t.rand (2 * rounds + 1)) (show 0 < (vv b).length by omega)
      have hmem : (vv b).getD (getRandInt (t.rand (2 * rounds + 1)) (vv b).length) 0 ∈ m.mapInfo := by
        rw [List.getD_eq_getElem _ _ hlt]
        exact hknown b _ (List.getElem_mem hlt)
      simp only [require_bind_ok_iff, hmem, true_and]
      split
      · exact ⟨_, rfl⟩
      · exact ih

/-- **`Select_`** -/
theorem select_spec (t : Moment) (rounds : Nat) (hp : Placed 0 m) : ∃ o, m.select_ t rounds = .ok o := by
  unfold CAddrMan.select_
  split
  · exact ⟨_, rfl⟩
  · split
    · exact selectLoop_spec t (fun b id hid => (hp.of_mem_tried hid).1) rounds
    · exact selectLoop_spec t (fun b id hid => (hp.of_mem_new (mem_sorted.1 hid)).1) rounds

/-! ## Runs -/

end CAddrMan

/-- A connection succeeds at a positive time. -/
def AddrmanOp.Forward : AddrmanOp → Prop
  | .good_ _ nTime => 0 < nTime
  | _ => True

/-- A connection is tried at a time that is not negative. -/
def AddrmanOp.Timely : AddrmanOp → Prop
  | .attempt_ _ nTime => 0 ≤ nTime
  | _ => True

namespace CAddrMan

variable {m : CAddrMan} {N : Int} {timely : Prop} (hash : BucketHash)

/-- Every call keeps the invariant, unless an `int` overflows. -/
theorem step_spec (call : Moment × AddrmanOp) (hcall : call.2.Forward) (hs : Shell N timely m) (hp : Placed 0 m) :
    (∃ m', m.step hash call = .ok m' ∧ Shell (N + 1) (timely ∧ call.2.Timely) m' ∧ Placed 0 m') ∨
      m.step hash call = .error .overflow ∧ 2 ^ 31 - 1 ≤ N := by
  obtain ⟨t, op⟩ := call
  have hmono : ∀ {m' : CAddrMan} {p : Prop}, Shell N timely m' → Shell (N + 1) (timely ∧ p) m' :=
    fun h => h.mono (by omega) And.left
  cases op with
  | add_ addr source nTimePenalty =>
    rcases add_spec hash t addr source nTimePenalty hs hp with ⟨fNew, m', hok, hs', hp'⟩ | ⟨herr, hN⟩
    · left
      refine ⟨m', ?_, hs'.mono le_rfl And.left, hp'⟩
      show (·.2) <$> m.add_ hash t addr source nTimePenalty = _
      rw [hok]
      rfl
    · right
      refine ⟨?_, hN⟩
      show (·.2) <$> m.add_ hash t addr source nTimePenalty = _
      rw [herr]
      rfl
  | good_ addr nTime =>
    obtain ⟨m', hok, hs', hp'⟩ := good_spec hash t addr hcall hs hp
    exact .inl ⟨m', hok, hmono hs', hp'⟩
  | attempt_ addr nTime => exact attempt_spec addr nTime hs hp
  | connected_ addr nTime =>
    obtain ⟨hs', hp'⟩ := connected_spec addr nTime hs hp
    exact .inl ⟨_, rfl, hmono hs', hp'⟩
  | getAddr_ =>
    obtain ⟨m', vAddr, hok, hs', hp'⟩ := getAddr_spec t hs hp
    left
    refine ⟨m', ?_, hmono hs', hp'⟩
    show (·.1) <$> m.getAddr_ t = _
    rw [hok]
    rfl
  | select_ rounds =>
    obtain ⟨o, hok⟩ := select_spec t rounds hp
    left
    refine ⟨m, ?_, hmono hs, hp⟩
    show (fun _ => m) <$> m.select_ t rounds = _
    rw [hok]
    rfl

/-- Every run keeps the invariant, unless an `int` overflows. -/
theorem run_spec (calls : List (Moment × AddrmanOp)) (hcalls : ∀ call ∈ calls, call.2.Forward) (hs : Shell N timely m)
    (hp : Placed 0 m) :
    (∃ m', m.run hash calls = .ok m' ∧ Shell (N + calls.length) (timely ∧ ∀ call ∈ calls, call.2.Timely) m' ∧
        Placed 0 m') ∨
      m.run hash calls = .error .overflow ∧ 2 ^ 31 ≤ N + calls.length := by
  induction calls generalizing m N timely with
  | nil =>
    refine .inl ⟨m, rfl, ?_, hp⟩
    exact hs.mono (by simp) And.left
  | cons call calls ih =>
    unfold CAddrMan.run
    rw [List.foldlM_cons]
    rcases step_spec hash call (hcalls call List.mem_cons_self) hs hp with ⟨m', hok, hs', hp'⟩ | ⟨herr, hN⟩
    · rw [hok]
      rcases ih (fun c hc => hcalls c (List.mem_cons_of_mem _ hc)) hs' hp' with ⟨m'', hok', hs'', hp''⟩ | ⟨herr, hN⟩
      · left
        refine ⟨m'', hok', hs''.mono ?_ ?_, hp''⟩
        · rw [List.length_cons]
          push_cast
          omega
        · rintro ⟨ht, hall⟩
          exact ⟨⟨ht, hall call List.mem_cons_self⟩, fun c hc => hall c (List.mem_cons_of_mem _ hc)⟩
      · right
        refine ⟨herr, ?_⟩
        rw [List.length_cons]
        push_cast
        omega
    · right
      rw [herr]
      refine ⟨rfl, ?_⟩
      rw [List.length_cons]
      push_cast
      omega

theorem shell_empty : Shell 0 True empty where
  positions := Positions.nil
  addr_iff := by
    intro a id
    show (∅ : Finmap fun _ : CNetAddr => Int).lookup a = some id ↔
      ∃ e, (∅ : Finmap fun _ : Int => CAddrInfo).lookup id = some e ∧ _
    rw [Finmap.lookup_empty, Finmap.lookup_empty]
    simp
  id_lt := by
    intro id hid
    exact absurd hid Finmap.notMem_empty
  idCount_nonneg := le_rfl
  idCount_le := le_rfl
  attempts_le := by
    intro id e he
    exact absurd (Finmap.mem_of_lookup_eq_some he) Finmap.notMem_empty
  lastTry := by
    intro _ id e he
    exact absurd (Finmap.mem_of_lookup_eq_some he) Finmap.notMem_empty

theorem placed_empty : Placed 0 empty where
  slot := by
    intro id
    have htried : holding empty.vvTried id = ∅ := holding_eq_empty_iff.2 fun _ => List.not_mem_nil
    have hnew : holding empty.vvNew id = ∅ := holding_eq_empty_iff.2 fun _ => Finset.notMem_empty id
    show Slot 0 ((∅ : Finmap fun _ : Int => CAddrInfo).lookup id) _ _
    rw [Finmap.lookup_empty, htried, hnew]
    exact .unknown
  tried_nodup := fun _ => List.nodup_nil
  tried_size := fun _ => Nat.zero_le _
  new_size := fun _ => Nat.zero_le _
  nTried_eq := rfl
  nNew_eq := rfl

/-! ## What the invariant says -/

/-- The tables agree: what a reader of the header expects of them. -/
structure Consistent (m : CAddrMan) : Prop where
  random_perm : m.vRandom.Perm (sorted m.mapInfo.keys)
  random_pos : ∀ id e, m.mapInfo.lookup id = some e → ∃ p : Nat, e.nRandomPos = p ∧ m.vRandom[p]? = some id
  addr_iff : ∀ a id, m.mapAddr.lookup a = some id ↔ ∃ e, m.mapInfo.lookup id = some e ∧ e.toCNetAddr = a
  nTried_eq : m.nTried = (m.mapInfo.keys.filter fun id => (m.info id).fInTried = true).card
  nNew_eq : m.nNew = (m.mapInfo.keys.filter fun id => (m.info id).fInTried = false).card
  tried : ∀ id e, m.mapInfo.lookup id = some e → e.fInTried = true →
    e.nRefCount = 0 ∧ (∃! b, id ∈ m.vvTried b) ∧ ∀ b, id ∉ m.vvNew b
  new : ∀ id e, m.mapInfo.lookup id = some e → e.fInTried = false →
    1 ≤ e.nRefCount ∧ e.nRefCount ≤ ADDRMAN_NEW_BUCKETS_PER_ADDRESS ∧
      e.nRefCount = (Finset.univ.filter fun b => id ∈ m.vvNew b).card ∧ ∀ b, id ∉ m.vvTried b
  tried_known : ∀ b, ∀ id ∈ m.vvTried b, id ∈ m.mapInfo
  new_known : ∀ b, ∀ id ∈ m.vvNew b, id ∈ m.mapInfo
  tried_bucket : ∀ b, (m.vvTried b).Nodup ∧ (m.vvTried b).length ≤ ADDRMAN_TRIED_BUCKET_SIZE
  new_bucket : ∀ b, (m.vvNew b).card ≤ ADDRMAN_NEW_BUCKET_SIZE

theorem Shell.random_perm (hs : Shell N timely m) : m.vRandom.Perm (sorted m.mapInfo.keys) := by
  rw [List.perm_ext_iff_of_nodup hs.positions.nodup (nodup_sorted _)]
  intro id
  rw [hs.mem_random_iff, mem_sorted, Finmap.mem_keys]

theorem consistent_of_invariant (hs : Shell N timely m) (hp : Placed 0 m) : m.Consistent where
  random_perm := hs.random_perm
  random_pos := by
    intro id e he
    exact hs.positions.get (by rw [he]; rfl)
  addr_iff := hs.addr_iff
  nTried_eq := hp.nTried_eq
  nNew_eq := hp.nNew_eq
  tried := by
    intro id e he hflag
    obtain ⟨hone, hnowhere, href, -⟩ := (hp.entry he).of_tried hflag
    refine ⟨href, ?_, holding_eq_empty_iff.1 (Finset.card_eq_zero.1 hnowhere)⟩
    obtain ⟨b, hb⟩ := Finset.card_eq_one.1 hone
    refine ⟨b, ?_, ?_⟩
    · show id ∈ m.vvTried b
      rw [← mem_holding, hb]
      exact Finset.mem_singleton_self b
    · intro c hc
      rw [← mem_holding, hb] at hc
      exact Finset.mem_singleton.1 hc
  new := by
    intro id e he hflag
    have hmem := Finmap.mem_of_lookup_eq_some he
    rw [← info_eq he] at hflag ⊢
    obtain ⟨hnowhere, hcount, hlow, hhigh, -⟩ := hp.of_new hmem hflag
    refine ⟨hlow, hhigh, ?_, holding_eq_empty_iff.1 (Finset.card_eq_zero.1 hnowhere)⟩
    rw [hcount]
    exact add_zero _
  tried_known := fun b id hid => (hp.of_mem_tried hid).1
  new_known := fun b id hid => (hp.of_mem_new hid).1
  tried_bucket := fun b => ⟨hp.tried_nodup b, hp.tried_size b⟩
  new_bucket := hp.new_size

/-! ## `Check_` -/

theorem strikeOff_spec {code : Int} {l : List Int} {due : Multiset Int} (h : due = l) : strikeOff code l due = .ok 0 := by
  induction l generalizing due with
  | nil =>
    rw [h]
    rfl
  | cons n l ih =>
    unfold strikeOff
    rw [require_bind_ok_iff]
    subst h
    refine ⟨by simp, ih ?_⟩
    simp

theorem checkEntry_spec (hs : Shell N timely m) (hp : Placed 0 m) (ht : timely) {n : Int} (hn : n ∈ m.mapInfo) :
    m.checkEntry n = .ok ⟨⟩ := by
  have he := lookup_info hn
  obtain ⟨p, hpos, hget⟩ := hs.positions.get (a := n) (by rw [he]; rfl)
  replace hpos : (m.info n).nRandomPos = p := hpos
  obtain ⟨hlt, hp'⟩ := List.getElem?_eq_some_iff.1 hget
  have haddr := (hs.addr_iff (m.info n).toCNetAddr n).2 ⟨_, he, rfl⟩
  have htry := hs.lastTry ht n _ he
  have hrandom : m.vRandom.getD (m.info n).nRandomPos.toNat 0 = n := by
    rw [hpos, Int.toNat_natCast, List.getD_eq_getElem _ _ hlt, hp']
  unfold checkEntry
  cases hflag : (m.info n).fInTried with
  | true =>
    obtain ⟨-, -, href, hsuccess⟩ := (hp.entry he).of_tried hflag
    simp only [hflag, if_true, require_bind_ok_iff, require_ok_iff, haddr, Option.getD_some, true_and]
    exact ⟨by omega, href, ⟨by omega, by omega, hrandom⟩, htry, hsuccess.le⟩
  | false =>
    obtain ⟨-, -, hlow, hhigh, hsuccess⟩ := (hp.entry he).of_new hflag
    simp only [hflag, Bool.false_eq_true, if_false, require_bind_ok_iff, require_ok_iff, haddr, Option.getD_some,
      true_and]
    exact ⟨⟨by omega, hhigh⟩, by omega, ⟨by omega, by omega, hrandom⟩, htry, hsuccess⟩

theorem setTried_eq (hp : Placed 0 m) :
    m.setTried = ((List.finRange ADDRMAN_TRIED_BUCKET_COUNT).flatMap m.vvTried : List Int) := by
  ext id
  rw [Multiset.coe_count, count_flatMap m.vvTried hp.tried_nodup]
  show Multiset.count id (m.flagIds true).val = _
  rw [Multiset.count_eq_of_nodup (m.flagIds true).nodup]
  show (if id ∈ m.flagIds true then 1 else 0) = _
  simp only [mem_flagIds]
  cases hlook : m.mapInfo.lookup id with
  | none => simp [(hp.unlisted hlook).1]
  | some e =>
    cases hflag : e.fInTried with
    | true => simp [hflag, ((hp.entry hlook).of_tried hflag).1]
    | false => simp [hflag, ((hp.entry hlook).of_new hflag).1]

theorem count_mapNew (m : CAddrMan) (id : Int) :
    m.mapNew.count id = if id ∈ m.flagIds false then (m.info id).nRefCount.toNat else 0 := by
  show Multiset.count id ((m.flagIds false).val.bind fun n => Multiset.replicate (m.info n).nRefCount.toNat n) = _
  rw [Multiset.count_bind]
  show ∑ n ∈ m.flagIds false, Multiset.count id (Multiset.replicate (m.info n).nRefCount.toNat n) = _
  simp only [Multiset.count_replicate]
  rw [Finset.sum_ite_eq']

theorem mapNew_eq (hp : Placed 0 m) :
    m.mapNew = ((List.finRange ADDRMAN_NEW_BUCKET_COUNT).flatMap fun b => sorted (m.vvNew b) : List Int) := by
  ext id
  have hholding : holding (fun b => sorted (m.vvNew b)) id = holding m.vvNew id := by
    ext b
    rw [mem_holding, mem_holding, mem_sorted]
  rw [Multiset.coe_count, count_flatMap _ (fun b => nodup_sorted _), hholding, count_mapNew]
  simp only [mem_flagIds]
  cases hlook : m.mapInfo.lookup id with
  | none => simp [(hp.unlisted hlook).2]
  | some e =>
    rw [info_eq hlook]
    cases hflag : e.fInTried with
    | true => simp [hflag, ((hp.entry hlook).of_tried hflag).2.1]
    | false => simp [hflag, ((hp.entry hlook).of_new hflag).2.1]

theorem toFinset_mapNew (hp : Placed 0 m) : m.mapNew.toFinset = m.flagIds false := by
  ext id
  rw [Multiset.mem_toFinset, ← Multiset.count_pos, count_mapNew]
  constructor
  · intro hpos
    split at hpos
    · assumption
    · omega
  · intro hid
    rw [if_pos hid]
    obtain ⟨e, he, hflag⟩ := mem_flagIds.1 hid
    rw [← info_eq he] at hflag
    have hlow := (hp.of_new (Finmap.mem_of_lookup_eq_some he) hflag).2.2.1
    omega

/-- All ids are tried or new. -/
theorem length_vRandom (hs : Shell N timely m) (hp : Placed 0 m) : (m.vRandom.length : Int) = m.nTried + m.nNew := by
  have hlen : m.vRandom.length = m.mapInfo.keys.card := by
    rw [hs.random_perm.length_eq, length_sorted]
  have hsplit := Finset.card_filter_add_card_filter_not (s := m.mapInfo.keys) (fun id => (m.info id).fInTried = true)
  have hnot : m.mapInfo.keys.filter (fun id => ¬ (m.info id).fInTried = true) = m.flagIds false := by
    unfold flagIds
    simp only [Bool.not_eq_true]
  rw [hnot] at hsplit
  rw [hlen, hp.nTried_eq, hp.nNew_eq, ← hsplit]
  rfl

/-- **`Check_`** finds nothing. -/
theorem check_eq_zero (hs : Shell N timely m) (hp : Placed 0 m) (ht : timely) : m.check_ = 0 := by
  have hentries : (sorted m.mapInfo.keys).forM m.checkEntry = .ok ⟨⟩ := by
    rw [Except.forM_ok_iff]
    intro n hn
    exact checkEntry_spec hs hp ht (Finmap.mem_keys.1 (mem_sorted.1 hn))
  have htried : (m.setTried.toFinset.card : Int) = m.nTried := by
    show ((m.flagIds true).val.toFinset.card : Int) = _
    rw [Finset.val_toFinset, hp.nTried_eq]
  have hnew : (m.mapNew.toFinset.card : Int) = m.nNew := by
    rw [toFinset_mapNew hp, hp.nNew_eq]
  have hall : m.checkAll = .ok ⟨⟩ := by
    unfold checkAll
    rw [require_bind_ok_iff, hentries]
    refine ⟨length_vRandom hs hp, ?_⟩
    show (require _ _ >>= _) = _
    rw [require_bind_ok_iff, require_bind_ok_iff, strikeOff_spec (setTried_eq hp)]
    refine ⟨htried, hnew, ?_⟩
    show (strikeOff _ _ _ >>= _) = _
    rw [strikeOff_spec (mapNew_eq hp)]
    rfl
  unfold check_
  rw [hall]

/-! ## From the empty manager -/

/-- After any calls, with connections at positive times, the tables agree and `Check_` finds nothing wrong, unless it is
    that a connection was tried at a negative time. No assertion fails; only after 2^31 calls can a counter overflow. -/
theorem addrman_consistent (calls : List (Moment × AddrmanOp))
    (hgood : ∀ call ∈ calls, ∀ addr nTime, call.2 = .good_ addr nTime → 0 < nTime) :
    (∃ m, empty.run hash calls = .ok m ∧ m.Consistent ∧
        ((∀ call ∈ calls, ∀ addr nTime, call.2 = .attempt_ addr nTime → 0 ≤ nTime) → m.check_ = 0)) ∨
      empty.run hash calls = .error .overflow ∧ 2 ^ 31 ≤ calls.length := by
  have hforward : ∀ call ∈ calls, call.2.Forward := by
    rintro ⟨t, op⟩ hcall
    cases op with
    | good_ addr nTime => exact hgood _ hcall addr nTime rfl
    | add_ _ _ _ => trivial
    | attempt_ _ _ => trivial
    | connected_ _ _ => trivial
    | getAddr_ => trivial
    | select_ _ => trivial
  rcases run_spec hash calls hforward shell_empty placed_empty with ⟨m, hok, hs, hp⟩ | ⟨herr, hlen⟩
  · left
    refine ⟨m, hok, consistent_of_invariant hs hp, ?_⟩
    intro hattempt
    apply check_eq_zero hs hp
    refine ⟨trivial, ?_⟩
    rintro ⟨t, op⟩ hcall
    cases op with
    | attempt_ addr nTime => exact hattempt _ hcall addr nTime rfl
    | good_ _ _ => trivial
    | add_ _ _ _ => trivial
    | connected_ _ _ => trivial
    | getAddr_ => trivial
    | select_ _ => trivial
  · right
    refine ⟨herr, ?_⟩
    omega

/-! ## Two peers -/

def peer (last : UInt8) : CService := ⟨⟨CNetAddr.pchIPv4 ++ [8, 8, 8, last], rfl⟩, 8369⟩

/-- Two addresses come in, the first is connected to and the second is tried. -/
def twoPeers : List (Moment × AddrmanOp) :=
  let t : Moment := ⟨1400000000, fun _ => 0, fun _ => true⟩
  [(t, .add_ ⟨peer 8, 1, 1400000000, 0⟩ CNetAddr.zero 0), (t, .add_ ⟨peer 9, 1, 1400000000, 0⟩ CNetAddr.zero 0),
    (t, .good_ (peer 8) 1400000000), (t, .attempt_ (peer 9) 1400000000), (t, .getAddr_), (t, .select_ 3)]

theorem addrman_two_peers :
    (∃ m, empty.run ⟨fun _ => 0, fun _ _ => 0⟩ twoPeers = .ok m ∧ m.Consistent ∧
        ((∀ call ∈ twoPeers, ∀ addr nTime, call.2 = .attempt_ addr nTime → 0 ≤ nTime) → m.check_ = 0)) ∨
      empty.run ⟨fun _ => 0, fun _ _ => 0⟩ twoPeers = .error .overflow ∧ 2 ^ 31 ≤ twoPeers.length :=
  addrman_consistent ⟨fun _ => 0, fun _ _ => 0⟩ twoPeers (by
    simp only [twoPeers, List.mem_cons, List.not_mem_nil, or_false]
    rintro call (rfl | rfl | rfl | rfl | rfl | rfl) addr nTime hcall
    · exact absurd hcall (by simp)
    · exact absurd hcall (by simp)
    · obtain ⟨-, rfl⟩ := AddrmanOp.good_.inj hcall
      decide
    · exact absurd hcall (by simp)
    · exact absurd hcall (by simp)
    · exact absurd hcall (by simp))

end CAddrMan

end Syscoin

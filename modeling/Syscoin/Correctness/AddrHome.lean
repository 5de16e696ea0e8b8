import Syscoin.Correctness.Addrman

/-!
# `Correctness.AddrHome` — tried entries lie where their address leads

`Check_` does not ask which tried bucket an entry lies in. It is always the one that its address and the secret key hash
to: an entry is put there by `MakeTried` only, and nobody changes its address. The numbers of an entry fit their types.

Most operations are `Steady`: they add neither an entry nor a member of a tried bucket. Only `Create` and `MakeTried` are
looked at closely.
-/

namespace Syscoin

open Lib

/-- The numbers of an entry that are written to disk fit an `int64` and an `int`. -/
structure CAddrInfo.Fits (e : CAddrInfo) : Prop where
  lastSuccess : -2 ^ 63 ≤ e.nLastSuccess ∧ e.nLastSuccess < 2 ^ 63
  attempts : -2 ^ 31 ≤ e.nAttempts ∧ e.nAttempts < 2 ^ 31

theorem CAddrInfo.Fits.congr {e e' : CAddrInfo} (h : e.Fits) (hsuccess : e'.nLastSuccess = e.nLastSuccess)
    (hattempts : e'.nAttempts = e.nAttempts) : e'.Fits := by
  constructor
  · rw [hsuccess]
    exact h.lastSuccess
  · rw [hattempts]
    exact h.attempts

namespace CAddrMan

variable {m m' m'' : CAddrMan} {nId : Int} {f : CAddrInfo → CAddrInfo} {hash : BucketHash} {t : Moment}

/-- Every tried entry lies in the bucket of its address, and the numbers fit. -/
structure Homed (hash : BucketHash) (m : CAddrMan) : Prop where
  home : ∀ b, ∀ id ∈ m.vvTried b, ∀ e, m.mapInfo.lookup id = some e → e.getTriedBucket hash = b
  fits : ∀ id e, m.mapInfo.lookup id = some e → e.Fits
  idCount : m.nIdCount < 2 ^ 31

/-- Nothing was added: every entry was there before, with the same address, and so was every member of a tried bucket. -/
structure Steady (m m' : CAddrMan) : Prop where
  entry : ∀ id e', m'.mapInfo.lookup id = some e' →
    ∃ e, m.mapInfo.lookup id = some e ∧ e'.toCService = e.toCService ∧ (e.Fits → e'.Fits)
  tried : ∀ b, ∀ id ∈ m'.vvTried b, id ∈ m.vvTried b
  idCount : m'.nIdCount = m.nIdCount

theorem Homed.steady (h : Homed hash m) (hsteady : Steady m m') : Homed hash m' := by
  constructor
  · intro b id hid e' he'
    obtain ⟨e, he, hservice, -⟩ := hsteady.entry id e' he'
    have hhome := h.home b id (hsteady.tried b id hid) e he
    unfold CAddrInfo.getTriedBucket at hhome ⊢
    rw [hservice]
    exact hhome
  · intro id e' he'
    obtain ⟨e, he, -, hfits⟩ := hsteady.entry id e' he'
    exact hfits (h.fits id e he)
  · rw [hsteady.idCount]
    exact h.idCount

/-! ## Steady operations -/

theorem Steady.refl (m : CAddrMan) : Steady m m :=
  ⟨fun _ e' he' => ⟨e', he', rfl, id⟩, fun _ _ => id, rfl⟩

theorem Steady.trans (h : Steady m m') (h' : Steady m' m'') : Steady m m'' := by
  constructor
  · intro id e'' he''
    obtain ⟨e', he', hservice', hfits'⟩ := h'.entry id e'' he''
    obtain ⟨e, he, hservice, hfits⟩ := h.entry id e' he'
    exact ⟨e, he, hservice'.trans hservice, fun hold => hfits' (hfits hold)⟩
  · intro b id hid
    exact h.tried b id (h'.tried b id hid)
  · rw [h'.idCount, h.idCount]

/-- `Steady` reads three fields. -/
theorem Steady.of_eq (hinfo : m'.mapInfo = m.mapInfo) (htried : m'.vvTried = m.vvTried)
    (hcount : m'.nIdCount = m.nIdCount) : Steady m m' := by
  constructor
  · rw [hinfo]
    exact (Steady.refl m).entry
  · rw [htried]
    exact (Steady.refl m).tried
  · exact hcount

/-- An entry is written to, but not its address. -/
theorem steady_modifyInfo (hmem : nId ∈ m.mapInfo) (hservice : (f (m.info nId)).toCService = (m.info nId).toCService)
    (hfits : (m.info nId).Fits → (f (m.info nId)).Fits) : Steady m (m.modifyInfo nId f) := by
  refine ⟨?_, fun _ _ => id, rfl⟩
  intro id e' he'
  rw [lookup_modifyInfo] at he'
  split at he'
  · rename_i heq
    cases he'
    rw [heq]
    exact ⟨m.info nId, lookup_info hmem, hservice, hfits⟩
  · exact (Steady.refl m).entry id e' he'

/-- The counts of an entry are neither its address nor a number that is stored. -/
theorem steady_modifyCounts (hmem : nId ∈ m.mapInfo) (haddr : ∀ e, (f e).toCAddress = e.toCAddress)
    (hsuccess : ∀ e, (f e).nLastSuccess = e.nLastSuccess) (hattempts : ∀ e, (f e).nAttempts = e.nAttempts) :
    Steady m (m.modifyInfo nId f) := by
  apply steady_modifyInfo hmem
  · rw [haddr]
  · intro hfits
    exact hfits.congr (hsuccess _) (hattempts _)

theorem steady_swapRandom {i j : Int} (h : m.swapRandom i j = .ok m') : Steady m m' := by
  unfold swapRandom at h
  split at h
  · cases h
    exact Steady.refl m
  · simp only [require_bind_ok_iff] at h
    obtain ⟨-, hmem1, hmem2, h⟩ := h
    cases h
    have hfirst : Steady m (m.modifyInfo (m.vRandom.getD i.toNat 0) fun e => { e with nRandomPos := j }) :=
      steady_modifyCounts hmem1 (fun _ => rfl) (fun _ => rfl) (fun _ => rfl)
    refine (hfirst.trans (steady_modifyCounts (f := fun e => { e with nRandomPos := i }) ((mem_modifyInfo hmem1).2 hmem2)
      (fun _ => rfl) (fun _ => rfl) (fun _ => rfl))).trans ?_
    exact Steady.of_eq rfl rfl rfl

/-- An entry goes altogether. -/
theorem steady_erase (hinfo : m'.mapInfo = m.mapInfo.erase nId) (htried : m'.vvTried = m.vvTried)
    (hcount : m'.nIdCount = m.nIdCount) : Steady m m' := by
  refine ⟨?_, ?_, hcount⟩
  · intro id e' he'
    rw [hinfo, lookup_erase_eq] at he'
    split at he'
    · cases he'
    · exact (Steady.refl m).entry id e' he'
  · rw [htried]
    exact fun _ _ => id

theorem steady_release {b : Fin ADDRMAN_NEW_BUCKET_COUNT} (hmem : nId ∈ m.mapInfo) (h : m.release b nId = .ok m') :
    Steady m m' := by
  have hcounts : Steady m (m.modifyInfo nId fun e => { e with nRefCount := e.nRefCount - 1 }) :=
    steady_modifyCounts hmem (fun _ => rfl) (fun _ => rfl) (fun _ => rfl)
  unfold release at h
  dsimp only at h
  split at h
  · obtain ⟨m1, hswap, h⟩ := Except.bind_ok_iff.mp h
    cases h
    exact (hcounts.trans (steady_swapRandom hswap)).trans (steady_erase rfl rfl rfl)
  · cases h
    exact hcounts.trans (Steady.of_eq rfl rfl rfl)

theorem mem_of_findTerrible {nNow : Int} {ids : List Int} (h : findTerrible nNow m ids = .ok (some nId)) :
    nId ∈ m.mapInfo := by
  induction ids with
  | nil => cases h
  | cons first rest ih =>
    unfold findTerrible at h
    obtain ⟨hmem, h⟩ := require_bind_ok_iff.mp h
    split at h
    · cases h
      exact hmem
    · exact ih h

theorem steady_shrinkNew {b : Fin ADDRMAN_NEW_BUCKET_COUNT} {n : Int} (h : m.shrinkNew t b = .ok (n, m')) :
    Steady m m' := by
  unfold shrinkNew at h
  obtain ⟨o, hfind, h⟩ := Except.bind_ok_iff.mp h
  cases o with
  | some nId =>
    obtain ⟨m1, hrelease, h⟩ := Except.bind_ok_iff.mp h
    cases h
    exact steady_release (mem_of_findTerrible hfind) hrelease
  | none =>
    obtain ⟨nOldest, -, h⟩ := Except.bind_ok_iff.mp h
    obtain ⟨hmem, h⟩ := require_bind_ok_iff.mp h
    obtain ⟨m1, hrelease, h⟩ := Except.bind_ok_iff.mp h
    cases h
    exact steady_release hmem hrelease

theorem steady_insertNew {source : CNetAddr} (hmem : nId ∈ m.mapInfo) (h : m.insertNew hash t source nId = .ok m') :
    Steady m m' := by
  have hcounts : Steady m (m.modifyInfo nId fun e => { e with nRefCount := e.nRefCount + 1 }) :=
    steady_modifyCounts hmem (fun _ => rfl) (fun _ => rfl) (fun _ => rfl)
  unfold CAddrMan.insertNew at h
  dsimp only at h
  split at h
  · cases h
    exact Steady.refl m
  · split at h
    · obtain ⟨⟨n, m1⟩, hshrink, h⟩ := Except.bind_ok_iff.mp h
      cases h
      exact (hcounts.trans (steady_shrinkNew hshrink)).trans (Steady.of_eq rfl rfl rfl)
    · cases h
      exact hcounts.trans (Steady.of_eq rfl rfl rfl)

theorem lookup_of_find {addr : CNetAddr} {e : CAddrInfo} (h : m.find addr = some (nId, e)) :
    m.mapInfo.lookup nId = some e := by
  unfold CAddrMan.find at h
  obtain ⟨id, -, hmap⟩ := Option.bind_eq_some_iff.mp h
  obtain ⟨e', he', heq⟩ := Option.map_eq_some_iff.mp hmap
  cases heq
  exact he'

theorem steady_attempt {addr : CService} {nTime : Int} (h : m.attempt_ addr nTime = .ok m') : Steady m m' := by
  unfold CAddrMan.attempt_ at h
  cases hfind : m.find addr.toCNetAddr with
  | none =>
    rw [hfind] at h
    cases h
    exact Steady.refl m
  | some found =>
    obtain ⟨nId, e⟩ := found
    have he := lookup_of_find hfind
    rw [hfind] at h
    dsimp only at h
    split at h
    · cases h
      exact Steady.refl m
    · obtain ⟨hroom, h⟩ := require_bind_ok_iff.mp h
      cases h
      apply steady_modifyInfo (Finmap.mem_of_lookup_eq_some he) rfl
      rw [info_eq he]
      rintro ⟨hsuccess, hlow, -⟩
      refine ⟨hsuccess, ?_, ?_⟩
      · show -2 ^ 31 ≤ e.nAttempts + 1
        omega
      · show e.nAttempts + 1 < 2 ^ 31
        omega

theorem steady_connected (addr : CService) (nTime : Int) : Steady m (m.connected_ addr nTime) := by
  unfold CAddrMan.connected_
  cases hfind : m.find addr.toCNetAddr with
  | none => exact Steady.refl m
  | some found =>
    obtain ⟨nId, e⟩ := found
    have hmem := Finmap.mem_of_lookup_eq_some (lookup_of_find hfind)
    dsimp only
    split
    · exact Steady.refl m
    · split
      · exact steady_modifyInfo hmem rfl fun hfits => hfits.congr rfl rfl
      · exact Steady.refl m

theorem steady_pickAddr {rand : Nat → Nat} {l : List Nat} {s s' : CAddrMan × List CAddress}
    (h : l.foldlM (pickAddr rand) s = .ok s') : Steady s.1 s'.1 := by
  induction l generalizing s with
  | nil =>
    cases h
    exact Steady.refl _
  | cons n l ih =>
    rw [List.foldlM_cons] at h
    obtain ⟨s1, hround, h⟩ := Except.bind_ok_iff.mp h
    unfold pickAddr at hround
    obtain ⟨m1, hswap, hround⟩ := Except.bind_ok_iff.mp hround
    obtain ⟨-, hround⟩ := require_bind_ok_iff.mp hround
    cases hround
    exact (steady_swapRandom hswap).trans (ih h)

/-! ## New entries -/

/-- **`Create`**, for an id that lies nowhere yet. -/
theorem Homed.create {addr : CAddress} {source : CNetAddr} (h : Homed hash m)
    (hfresh : ∀ b, m.nIdCount ∉ m.vvTried b) (hok : m.create addr source = .ok (nId, m')) :
    Homed hash m' ∧ nId ∈ m'.mapInfo := by
  unfold CAddrMan.create at hok
  obtain ⟨hroom, hok⟩ := require_bind_ok_iff.mp hok
  cases hok
  refine ⟨?_, Finmap.mem_insert.2 (.inl rfl)⟩
  constructor
  · intro b id hid e he
    have hne : id ≠ m.nIdCount := by
      rintro rfl
      exact hfresh b hid
    replace he : (m.mapInfo.insert m.nIdCount _).lookup id = some e := he
    rw [lookup_insert_eq, if_neg hne] at he
    exact h.home b id hid e he
  · intro id e he
    replace he : (m.mapInfo.insert m.nIdCount _).lookup id = some e := he
    rw [lookup_insert_eq] at he
    split at he
    · cases he
      constructor
      · show -2 ^ 63 ≤ (0 : Int) ∧ (0 : Int) < 2 ^ 63
        omega
      · show -2 ^ 31 ≤ (0 : Int) ∧ (0 : Int) < 2 ^ 31
        omega
    · exact h.fits id e he
  · show m.nIdCount + 1 < 2 ^ 31
    omega

section Placed

variable {N : Int} {timely : Prop}

/-- The next id lies in no tried bucket. -/
theorem notMem_tried_of_fresh (hs : Shell N timely m) (hp : Placed 0 m) (b : Fin ADDRMAN_TRIED_BUCKET_COUNT) :
    m.nIdCount ∉ m.vvTried b := by
  intro hid
  have hlt := hs.id_lt _ (hp.of_mem_tried hid).1
  omega

/-- **`Add_`** -/
theorem Homed.add {addr : CAddress} {source : CNetAddr} {nTimePenalty : Int} {fNew : Bool} (h : Homed hash m)
    (hs : Shell N timely m) (hp : Placed 0 m) (hok : m.add_ hash t addr source nTimePenalty = .ok (fNew, m')) :
    Homed hash m' := by
  unfold CAddrMan.add_ at hok
  split at hok
  · cases hok
    exact h
  · cases hfind : m.find addr.toCNetAddr with
    | some found =>
      obtain ⟨nId, e⟩ := found
      have hmem := Finmap.mem_of_lookup_eq_some (lookup_of_find hfind)
      have hrefresh : Homed hash (m.modifyInfo nId (refresh t addr nTimePenalty)) :=
        h.steady (steady_modifyInfo hmem rfl fun hfits => hfits.congr rfl rfl)
      rw [hfind] at hok
      dsimp only at hok
      split at hok
      · obtain ⟨m1, hinsert, hok⟩ := Except.bind_ok_iff.mp hok
        cases hok
        exact hrefresh.steady (steady_insertNew ((mem_modifyInfo hmem).2 hmem) hinsert)
      · cases hok
        exact hrefresh
    | none =>
      rw [hfind] at hok
      dsimp only at hok
      obtain ⟨⟨nId, m1⟩, hcreate, hok⟩ := Except.bind_ok_iff.mp hok
      obtain ⟨m2, hinsert, hok⟩ := Except.bind_ok_iff.mp hok
      cases hok
      obtain ⟨h1, hmem⟩ := h.create (notMem_tried_of_fresh hs hp) hcreate
      have hpenalise : Steady m1 (m1.modifyInfo nId (penalise nTimePenalty)) :=
        steady_modifyInfo hmem rfl fun hfits => hfits.congr rfl rfl
      have hcount : Steady m1 { m1.modifyInfo nId (penalise nTimePenalty) with nNew := m1.nNew + 1 } :=
        hpenalise.trans (Steady.of_eq rfl rfl rfl)
      exact h1.steady (hcount.trans (steady_insertNew ((mem_modifyInfo hmem).2 hmem) hinsert))

/-! ## Tried entries -/

/-- An entry is put into the bucket of its address. -/
theorem Homed.place {k : Fin ADDRMAN_TRIED_BUCKET_COUNT} {vTried : List Int} (h : Homed hash m) (hmem : nId ∈ m.mapInfo)
    (hhome : (m.info nId).getTriedBucket hash = k) (hmembers : ∀ id ∈ vTried, id = nId ∨ id ∈ m.vvTried k)
    (hinfo : m'.mapInfo = m.mapInfo) (htried : m'.vvTried = Function.update m.vvTried k vTried)
    (hcount : m'.nIdCount = m.nIdCount) : Homed hash m' := by
  constructor
  · intro b id hid e he
    rw [hinfo] at he
    rw [htried, Function.update_apply] at hid
    split at hid
    · rename_i hb
      rcases hmembers id hid with rfl | hold
      · rw [lookup_info hmem] at he
        cases he
        exact hhome.trans hb.symm
      · exact hb ▸ h.home k id hold e he
    · exact h.home b id hid e he
  · rw [hinfo]
    exact h.fits
  · rw [hcount]
    exact h.idCount

theorem Homed.replaceTried {k : Fin ADDRMAN_TRIED_BUCKET_COUNT} {nIdOld : Int} {vTried : List Int} (h : Homed hash m)
    (hmem : nId ∈ m.mapInfo) (hmemOld : nIdOld ∈ m.mapInfo) (hhome : (m.info nId).getTriedBucket hash = k)
    (hmembers : ∀ id ∈ vTried, id = nId ∨ id ∈ m.vvTried k) (nHome : Fin ADDRMAN_NEW_BUCKET_COUNT) :
    Homed hash (m.replaceTried nId nIdOld nHome k vTried) := by
  -- the bucket first, then the two entries
  have hplace : Homed hash { m with vvTried := Function.update m.vvTried k vTried } :=
    h.place hmem hhome hmembers rfl rfl rfl
  have hold : Homed hash ({ m with vvTried := Function.update m.vvTried k vTried }.modifyInfo nIdOld fun e =>
      { e with fInTried := false, nRefCount := 1 }) :=
    hplace.steady (steady_modifyCounts hmemOld (fun _ => rfl) (fun _ => rfl) (fun _ => rfl))
  have hmoved : Homed hash { m.modifyInfo nIdOld (fun e => { e with fInTried := false, nRefCount := 1 }) with
      vvNew := Function.update m.vvNew nHome (insert nIdOld (m.vvNew nHome))
      nNew := m.nNew + 1
      vvTried := Function.update m.vvTried k vTried } := hold.steady (Steady.of_eq rfl rfl rfl)
  exact hmoved.steady (steady_modifyCounts (f := fun e => { e with fInTried := true })
    ((mem_modifyInfo (f := fun e => { e with fInTried := false, nRefCount := 1 }) hmemOld).2 hmem)
    (fun _ => rfl) (fun _ => rfl) (fun _ => rfl))

/-- The end of **`MakeTried`**, in a full bucket. -/
theorem Homed.evictTried {k : Fin ADDRMAN_TRIED_BUCKET_COUNT} {b : Fin ADDRMAN_NEW_BUCKET_COUNT} {nPos : Int}
    {vTried : List Int} (h : Homed hash m) (hmem : nId ∈ m.mapInfo) (hhome : (m.info nId).getTriedBucket hash = k)
    (hmembers : ∀ id ∈ vTried, id ∈ m.vvTried k) (hok : m.evictTried hash nId b k nPos vTried = .ok m') :
    Homed hash m' := by
  unfold CAddrMan.evictTried at hok
  obtain ⟨hmemOld, hok⟩ := require_bind_ok_iff.mp hok
  cases hok
  apply h.replaceTried hmem hmemOld hhome
  intro id hid
  rcases List.mem_or_eq_of_mem_set hid with hold | rfl
  · exact .inr (hmembers id hold)
  · exact .inl rfl

/-- **`MakeTried`** -/
theorem Homed.makeTried {b : Fin ADDRMAN_NEW_BUCKET_COUNT} (h : Homed hash m) (hp : Placed 0 m)
    (hok : m.makeTried hash t nId b = .ok m') : Homed hash m' := by
  unfold CAddrMan.makeTried at hok
  obtain ⟨hin, hok⟩ := require_bind_ok_iff.mp hok
  obtain ⟨-, hok⟩ := require_bind_ok_iff.mp hok
  have hmem := (hp.of_mem_new hin).1
  have hremove : Steady m (m.removeNew nId) :=
    (steady_modifyCounts (f := fun e => { e with nRefCount := e.nRefCount - (holding m.vvNew nId).card }) hmem
      (fun _ => rfl) (fun _ => rfl) (fun _ => rfl)).trans (Steady.of_eq rfl rfl rfl)
  have hmem1 : nId ∈ (m.removeNew nId).mapInfo := (mem_removeNew hmem nId).2 hmem
  have h1 := h.steady hremove
  dsimp only at hok
  generalize hhome : ((m.removeNew nId).info nId).getTriedBucket hash = k at hok
  split at hok
  · cases hok
    have hplace : Homed hash { m.removeNew nId with
        vvTried := Function.update (m.removeNew nId).vvTried k ((m.removeNew nId).vvTried k ++ [nId])
        nTried := (m.removeNew nId).nTried + 1 } := by
      refine h1.place hmem1 hhome ?_ rfl rfl rfl
      intro id hid
      rcases List.mem_append.1 hid with hold | hnew
      · exact .inr hold
      · exact .inl (List.mem_singleton.1 hnew)
    exact hplace.steady (steady_modifyCounts hmem1 (fun _ => rfl) (fun _ => rfl) (fun _ => rfl))
  · rename_i hfull
    obtain ⟨⟨nPos, vTried⟩, hselect, hok⟩ := Except.bind_ok_iff.mp hok
    have hknown : ∀ id ∈ (m.removeNew nId).vvTried k, id ∈ (m.removeNew nId).mapInfo :=
      fun id hid => (mem_removeNew hmem id).2 (hp.of_mem_tried hid).1
    have hne : 0 < ((m.removeNew nId).vvTried k).length := Nat.lt_of_lt_of_le (by decide) (not_lt.1 hfull)
    obtain ⟨_, _, hselect', hperm, -, -⟩ := selectTried_spec (fun i => t.rand (i + 1)) hknown hne
    rw [hselect'] at hselect
    cases hselect
    exact h1.evictTried hmem1 hhome (fun id hid => hperm.mem_iff.1 hid) hok

/-- **`Good_`**, at a time that fits an `int64`. -/
theorem Homed.good {addr : CService} {nTime : Int} (h : Homed hash m) (hlow : 0 < nTime) (hhigh : nTime < 2 ^ 63)
    (hp : Placed 0 m) (hok : m.good_ hash t addr nTime = .ok m') : Homed hash m' := by
  unfold CAddrMan.good_ at hok
  cases hfind : m.find addr.toCNetAddr with
  | none =>
    rw [hfind] at hok
    cases hok
    exact h
  | some found =>
    obtain ⟨nId, e⟩ := found
    have hmem := Finmap.mem_of_lookup_eq_some (lookup_of_find hfind)
    rw [hfind] at hok
    dsimp only at hok
    split at hok
    · cases hok
      exact h
    · have hsteady : Steady m (m.modifyInfo nId fun e =>
          { e with nLastSuccess := nTime, nLastTry := nTime, nTime := UInt32.ofInt nTime, nAttempts := 0 }) := by
        apply steady_modifyInfo hmem rfl
        intro _
        refine ⟨⟨?_, hhigh⟩, ?_⟩
        · show -2 ^ 63 ≤ nTime
          omega
        · show -2 ^ 31 ≤ (0 : Int) ∧ (0 : Int) < 2 ^ 31
          omega
      have hp1 : Placed 0 (m.modifyInfo nId fun e =>
          { e with nLastSuccess := nTime, nLastTry := nTime, nTime := UInt32.ofInt nTime, nAttempts := 0 }) :=
        hp.modifyInfo hmem ⟨rfl, rfl, .inr hlow⟩
      split at hok
      · cases hok
        exact h.steady hsteady
      · split at hok
        · cases hok
          exact h.steady hsteady
        · exact (h.steady hsteady).makeTried hp1 hok

end Placed

end CAddrMan

/-! ## Runs -/

/-- The time at which a connection succeeded fits an `int64`. -/
def AddrmanOp.InRange : AddrmanOp → Prop
  | .good_ _ nTime => nTime < 2 ^ 63
  | _ => True

namespace CAddrMan

variable {m m' : CAddrMan} {hash : BucketHash} {N : Int} {timely : Prop}

/-- Every call leaves the tried entries where their addresses lead. -/
theorem Homed.step {call : Moment × AddrmanOp} (h : Homed hash m) (hcall : call.2.Forward) (hrange : call.2.InRange)
    (hs : Shell N timely m) (hp : Placed 0 m) (hok : m.step hash call = .ok m') : Homed hash m' := by
  obtain ⟨t, op⟩ := call
  cases op with
  | add_ addr source nTimePenalty =>
    obtain ⟨⟨fNew, m1⟩, hadd, hok⟩ := Except.bind_ok_iff.mp hok
    cases hok
    exact h.add hs hp hadd
  | good_ addr nTime => exact h.good hcall hrange hp hok
  | attempt_ addr nTime => exact h.steady (steady_attempt hok)
  | connected_ addr nTime =>
    cases hok
    exact h.steady (steady_connected addr nTime)
  | getAddr_ =>
    obtain ⟨s, hget, hok⟩ := Except.bind_ok_iff.mp hok
    cases hok
    exact h.steady (steady_pickAddr hget)
  | select_ rounds =>
    obtain ⟨o, -, hok⟩ := Except.bind_ok_iff.mp hok
    cases hok
    exact h

theorem Homed.run {calls : List (Moment × AddrmanOp)} (h : Homed hash m)
    (hcalls : ∀ call ∈ calls, call.2.Forward ∧ call.2.InRange) (hs : Shell N timely m) (hp : Placed 0 m)
    (hok : m.run hash calls = .ok m') : Homed hash m' := by
  induction calls generalizing m N timely with
  | nil =>
    cases hok
    exact h
  | cons call calls ih =>
    obtain ⟨hcall, hrange⟩ := hcalls call List.mem_cons_self
    unfold CAddrMan.run at hok
    rw [List.foldlM_cons] at hok
    obtain ⟨m1, hstep, hok⟩ := Except.bind_ok_iff.mp hok
    rcases step_spec hash call hcall hs hp with ⟨_, hok1, hs1, hp1⟩ | ⟨herr, -⟩
    · rw [hok1] at hstep
      cases hstep
      exact ih (h.step hcall hrange hs hp hok1) (fun c hc => hcalls c (List.mem_cons_of_mem _ hc)) hs1 hp1 hok
    · rw [herr] at hstep
      cases hstep

theorem homed_empty (hash : BucketHash) : Homed hash empty where
  home := fun _ _ hid => absurd hid List.not_mem_nil
  fits := fun _ _ he => absurd (Finmap.mem_of_lookup_eq_some he) Finmap.notMem_empty
  idCount := by decide

/-! ## The invariant -/

/-- The invariant of the manager, with all that `Check_` looks for except the time of the last try. -/
structure Sound (hash : BucketHash) (m : CAddrMan) : Prop where
  consistent : m.Consistent
  homed : Homed hash m
  id_lt : ∀ id ∈ m.mapInfo, 0 ≤ id ∧ id < m.nIdCount
  success : ∀ id e, m.mapInfo.lookup id = some e → 0 ≤ e.nLastSuccess ∧ (e.fInTried = true → 0 < e.nLastSuccess)

theorem Placed.success (hp : Placed 0 m) {id : Int} {e : CAddrInfo} (he : m.mapInfo.lookup id = some e) :
    0 ≤ e.nLastSuccess ∧ (e.fInTried = true → 0 < e.nLastSuccess) := by
  cases hflag : e.fInTried with
  | true =>
    have hsuccess := ((hp.entry he).of_tried hflag).2.2.2
    exact ⟨hsuccess.le, fun _ => hsuccess⟩
  | false =>
    obtain ⟨-, -, -, -, hsuccess⟩ := (hp.entry he).of_new hflag
    exact ⟨hsuccess, fun hfalse => nomatch hfalse⟩

/-- Every run of the manager reaches only sound states. -/
theorem run_sound {calls : List (Moment × AddrmanOp)} (hcalls : ∀ call ∈ calls, call.2.Forward ∧ call.2.InRange)
    (hok : empty.run hash calls = .ok m) : m.Sound hash := by
  rcases run_spec hash calls (fun call hcall => (hcalls call hcall).1) shell_empty placed_empty with
    ⟨_, hok', hs, hp⟩ | ⟨herr, -⟩
  · rw [hok'] at hok
    cases hok
    exact ⟨consistent_of_invariant hs hp, (homed_empty hash).run hcalls shell_empty placed_empty hok', hs.id_lt,
      fun id e he => hp.success he⟩
  · rw [herr] at hok
    cases hok

end CAddrMan

end Syscoin

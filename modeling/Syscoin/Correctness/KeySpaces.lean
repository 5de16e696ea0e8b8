import Syscoin.Chain.Run
import Syscoin.Services.Database

/-!
# `Correctness.KeySpaces` — who else writes under a key

A length-prefixed string is read off the front of a stream, so that two keys of a space are one key only where their
names are one name. A string constant and a vector of bytes have no mark that tells them apart. The guid of an accept
is the buyer's own choice: where it spells the name of a list, the accept is filed in the place of the list.
-/

namespace Syscoin

open Lib CLevelDB

/-! ## Keys -/

theorem getSizeOfCompactSize_mono {m n : Nat} (h : m ≤ n) : getSizeOfCompactSize m ≤ getSizeOfCompactSize n := by
  unfold getSizeOfCompactSize
  split_ifs <;> omega

/-- The length of the whole string tells the length of what it prefixes, and with it the prefix. -/
theorem writeVch_append_inj {v w s t : Bytes} (hlen : s.length = t.length) (h : writeVch v ++ s = writeVch w ++ t) :
    v = w := by
  have hsize : v.length = w.length := by
    have hlength := congrArg List.length h
    simp only [writeVch, List.length_append, length_writeCompactSize] at hlength
    rcases Nat.lt_trichotomy v.length w.length with hlt | heq | hgt
    · have := getSizeOfCompactSize_mono hlt.le
      omega
    · exact heq
    · have := getSizeOfCompactSize_mono hgt.le
      omega
  rw [writeVch, writeVch, hsize, List.append_assoc, List.append_assoc] at h
  exact (List.append_inj (List.append_cancel_left h) hsize).1

theorem pairKey_eq_iff {space name name' : Bytes} : pairKey space name = pairKey space name' ↔ name = name' := by
  constructor
  · intro h
    have hname : writeVch name ++ [] = writeVch name' ++ [] := by
      rw [List.append_nil, List.append_nil]
      exact List.append_cancel_left h
    exact writeVch_append_inj rfl hname
  · intro h
    rw [h]

theorem pairKey_ne (space : Bytes) {name name' : Bytes} (h : name ≠ name') : pairKey space name ≠ pairKey space name' :=
  mt pairKey_eq_iff.mp h

/-! ## One accessor beside another -/

namespace CLevelDB

variable {α : Type} {f : Field α} {key key' value : Bytes} {a : α} {db : CLevelDB}

theorem read_write_of_ne (h : key' ≠ key) : CLevelDB.read f key a (write key' value db) = CLevelDB.read f key a db := by
  unfold CLevelDB.read write
  rw [Function.update_of_ne h.symm]

theorem read_erase_of_ne (h : key' ≠ key) : CLevelDB.read f key a (erase key' db) = CLevelDB.read f key a db := by
  unfold CLevelDB.read erase
  rw [Function.update_of_ne h.symm]

theorem read_write_self : CLevelDB.read f key a (write key value db) = ((f a value).1, (f a value).2.isSome) := by
  unfold CLevelDB.read write
  rw [Function.update_self]

/-- What can be read where it is written cannot be read where it is not. -/
theorem read_write_ne_of_none (hok : (f a value).2.isSome = true) (hnone : db key = none) :
    CLevelDB.read f key a (write key value db) ≠ CLevelDB.read f key a db := by
  rw [read_write_self, hok]
  unfold CLevelDB.read
  rw [hnone]
  intro h
  cases congrArg Prod.snd h

end CLevelDB

/-! ## The map that the bytes stand for -/

section Files

variable {ν : Type} {space : Bytes} {serialize : ν → Bytes} {m : Bytes → Option ν} {db : CLevelDB}

end Files

/-! ## Frames -/

/-- The calls on the accept `name` leave the lists of the database alone. -/
structure AcceptFrame (name : Bytes) : Prop where
  write_fees : ∀ vchValue vtxPos db, COfferDB.readOfferTxFees vtxPos (COfferDB.writeOfferAccept name vchValue db) =
    COfferDB.readOfferTxFees vtxPos db
  write_index : ∀ vchValue vtxPos db, COfferDB.readOfferIndex vtxPos (COfferDB.writeOfferAccept name vchValue db) =
    COfferDB.readOfferIndex vtxPos db
  erase_fees : ∀ vtxPos db, COfferDB.readOfferTxFees vtxPos (COfferDB.eraseOfferAccept name db) =
    COfferDB.readOfferTxFees vtxPos db
  erase_index : ∀ vtxPos db, COfferDB.readOfferIndex vtxPos (COfferDB.eraseOfferAccept name db) =
    COfferDB.readOfferIndex vtxPos db

/-- Writing the fee list leaves the accept `name` alone. -/
def FeesFrame (name : Bytes) : Prop :=
  ∀ vtxPos vchValue db, COfferDB.readOfferAccept name vchValue (COfferDB.writeOfferTxFees vtxPos db) =
    COfferDB.readOfferAccept name vchValue db

/-- The calls on the certificate `name` leave the fee list alone. -/
structure ItemFrame (name : Bytes) : Prop where
  write_fees : ∀ vchValue vtxPos db, CCertDB.readCertFees vtxPos (CCertDB.writeCertItem name vchValue db) =
    CCertDB.readCertFees vtxPos db
  erase_fees : ∀ vtxPos db, CCertDB.readCertFees vtxPos (CCertDB.eraseCertItem name db) =
    CCertDB.readCertFees vtxPos db

theorem acceptFrame_iff (name : Bytes) : AcceptFrame name ↔ name ≠ offertxf ∧ name ≠ COfferDB.offerndx := by
  constructor
  · intro h
    -- an accept of the empty guid is one zero byte, which is also a list without elements
    refine ⟨?_, ?_⟩
    · rintro rfl
      exact read_write_ne_of_none (by decide) rfl (h.write_fees [] [] fun _ => none)
    · rintro rfl
      exact read_write_ne_of_none (by decide) rfl (h.write_index [] [] fun _ => none)
  · rintro ⟨hfees, hindex⟩
    have hfees' := pairKey_ne COfferDB.offera hfees
    have hindex' := pairKey_ne COfferDB.offera hindex
    exact ⟨fun _ _ _ => read_write_of_ne hfees', fun _ _ _ => read_write_of_ne hindex',
      fun _ _ => read_erase_of_ne hfees', fun _ _ => read_erase_of_ne hindex'⟩

theorem feesFrame_iff (name : Bytes) : FeesFrame name ↔ name ≠ offertxf := by
  constructor
  · intro h
    rintro rfl
    exact read_write_ne_of_none (by decide) rfl (h [] [] fun _ => none)
  · intro hne vtxPos vchValue db
    exact read_write_of_ne (pairKey_ne COfferDB.offera hne.symm)

theorem itemFrame_iff (name : Bytes) : ItemFrame name ↔ name ≠ certissuertxf := by
  constructor
  · intro h
    rintro rfl
    exact read_write_ne_of_none (by decide) rfl (h.write_fees [] [] fun _ => none)
  · intro hne
    have hne' := pairKey_ne CCertDB.certissuera hne
    exact ⟨fun _ _ _ => read_write_of_ne hne', fun _ _ => read_erase_of_ne hne'⟩

/-- **The key spaces meet exactly where a guid spells the name of a list**, whatever the database holds. -/
theorem keySpaces_meet_iff (name : Bytes) :
    (AcceptFrame name ↔ name ≠ offertxf ∧ name ≠ COfferDB.offerndx) ∧
      (FeesFrame name ↔ name ≠ offertxf) ∧ (ItemFrame name ↔ name ≠ certissuertxf) :=
  ⟨acceptFrame_iff name, feesFrame_iff name, itemFrame_iff name⟩

namespace Cakenet

/-- An accept that the buyer calls `offertxf`. -/
def listNameTx : CTransaction :=
  syscoin 208 [⟨1, 6⟩] [service 7 [vchName, offertxf, vchRand ++ vchName]] (acceptPayload offertxf 2 1000000000)

def acceptBlock10 : CBlockIndex := mine (mine block8 9 [offerNewTx]) 10 [offerActivateTx]

/-- The accept is let through, and filing it takes the place of the fees of the offer. -/
theorem accept_takes_fees :
    let node := nodeAt acceptBlock10
    let filed := COfferDB.writeOfferTxFees node.store.offerdb.lstOfferFees fun _ => none
    (checkOfferInputs env Mode.connect acceptBlock10 (mine acceptBlock10 11 [listNameTx]) listNameTx node.coinsTip
        node.store.offerdb node.store.dummyTestPool).isOk = true ∧
      decodeOfferTx listNameTx = some (.offerAccept, 0, [vchName, offertxf, vchRand ++ vchName]) ∧
      (COfferDB.readOfferTxFees [] filed).2 = true ∧
      (COfferDB.readOfferTxFees [] (COfferDB.writeOfferAccept offertxf vchName filed)).2 = false ∧
      ¬ AcceptFrame offertxf := by
  refine ⟨by decide +kernel, by decide +kernel, by decide +kernel, by decide +kernel, ?_⟩
  intro h
  exact absurd rfl ((acceptFrame_iff offertxf).mp h).1

end Cakenet

end Syscoin

import Syscoin.Chain.BlockTreeDB
import Syscoin.Correctness.BlockFormat

/-!
# `Correctness.BlockIndex` — the block index survives a restart

The database is `Stored` if it holds the two records of every entry, and under `'b'` nothing else. A new entry and every
later change of its status keep it so (`Reached.stored`). The keys of a pair differ in the last byte only, and no key lies
between them, so that the cursor of `LoadBlockIndexGuts` is always at the first half of a pair (`Loading`). Each round then
restores one entry (`load_round`); the parent that it points to may be made before it is read, and is filled in later.
-/

namespace Syscoin

open Lib Lib.Reader

namespace BlockTreeDB

/-! ## The two records -/

theorem reads_varIntIf (c : Prop) [Decidable c] (n : Nat) {m : Nat} :
    Reads (readVarIntIf c m) (writeVarIntIf c n) (if c then n else m) := by
  unfold readVarIntIf writeVarIntIf
  split
  · exact reads_readVarInt n
  · exact reads_pure m

namespace CBlockIndex

/-- The entry between the reads of its two records. -/
def half (pindex : CBlockIndex) : CBlockIndex := { pindex with nFile := 0, nDataPos := 0, nUndoPos := 0, nStatus := 0 }

/-- What the first record keeps of an entry, besides its parent's hash. -/
def immutable (pindex : CBlockIndex) : CBlockIndex := { pindex.half with pprev := none }

/-- The entry after a restart: positions that the status does not announce are lost. -/
def restored (pindex : CBlockIndex) : CBlockIndex :=
  { pindex with
    nFile := if pindex.nStatus &&& (BLOCK_HAVE_DATA ||| BLOCK_HAVE_UNDO) ≠ 0 then pindex.nFile else 0
    nDataPos := if pindex.nStatus &&& BLOCK_HAVE_DATA ≠ 0 then pindex.nDataPos else 0
    nUndoPos := if pindex.nStatus &&& BLOCK_HAVE_UNDO ≠ 0 then pindex.nUndoPos else 0 }

variable {pindex : CBlockIndex}

theorem reads_half (pindex : CBlockIndex) : Reads (pindex.half.unserialize SER_DISK CLIENT_VERSION) (pindex.serialize SER_DISK CLIENT_VERSION)
    pindex.restored :=
  (reads_varIntIf _ CLIENT_VERSION.toNat).bind ((reads_readVarInt _).bind ((reads_varIntIf _ _).bind
    ((reads_varIntIf _ _).bind (reads_varIntIf _ _).bind_pure)))

end CBlockIndex

/-- What is written of a header is what is written of one that is marked as it should be. -/
theorem exists_marked {header : Wire.CBlockHeader} (hfits : header.Fits) {nVersion : Int} {s : Bytes}
    (h : header.serialize SER_DISK nVersion = some s) :
    ∃ header' : Wire.CBlockHeader, header'.Fits ∧ header'.Marked ∧ header'.bytes = s := by
  induction header generalizing nVersion s with
  | plain fields =>
    unfold Wire.CBlockHeader.serialize at h
    dsimp only at h
    split at h
    · cases h
    · rename_i hno
      exact ⟨.plain fields, hfits, eq_false_of_ne_true hno, Option.some.inj h⟩
  | merged fields auxpow parentBlockHeader ih =>
    obtain ⟨hfields, haux, hparent⟩ := hfits
    unfold Wire.CBlockHeader.serialize at h
    dsimp only at h
    split at h
    · rename_i hyes
      obtain ⟨t, ht, rfl⟩ := Option.map_eq_some_iff.mp h
      obtain ⟨parent', hparent', hmarked, rfl⟩ := ih hparent ht
      exact ⟨.merged fields auxpow parent', ⟨hfields, haux, hparent'⟩, ⟨hyes, hmarked⟩, rfl⟩
    · rename_i hno
      exact ⟨.plain fields, hfields, eq_false_of_ne_true hno, Option.some.inj h⟩

/-- What the vectors and numbers of some work can hold on a stream. -/
def CAuxPow.Fits (auxpow : CAuxPow) : Prop := auxpow.toAuxPowFields.Fits ∧ auxpow.parentBlockHeader.Fits

theorem CAuxPow.reads {auxpow : Option CAuxPow} (hfits : ∀ a, auxpow = some a → a.Fits) {nVersion : Int} {s : Bytes}
    (h : CAuxPow.write SER_DISK nVersion auxpow = some s) : ∃ auxpow', Reads (CAuxPow.read SER_DISK nVersion) s auxpow' := by
  unfold CAuxPow.write at h
  unfold CAuxPow.read
  split at h
  · rename_i hyes
    obtain ⟨a, rfl, ha⟩ := Option.bind_eq_some_iff.mp h
    obtain ⟨haux, hparent⟩ := hfits a rfl
    obtain ⟨t, ht, rfl⟩ := Option.map_eq_some_iff.mp ha
    obtain ⟨parent', hparent', hmarked, rfl⟩ := exists_marked hparent ht
    refine ⟨some ⟨a.toAuxPowFields, parent'⟩, ?_⟩
    rw [if_pos hyes]
    exact Reads.bind_pure ((Wire.AuxPowFields.reads serDisk_whole haux).bind
      (Wire.CBlockHeader.reads serDisk_whole hparent' hmarked).bind_pure)
  · rename_i hno
    obtain rfl := Option.some.inj h
    refine ⟨none, ?_⟩
    rw [if_neg hno]
    exact reads_pure none

/-- What the numbers of an entry and the work of its block can hold. -/
structure Fits (pindex : CBlockIndex) (auxpow : Option CAuxPow) : Prop where
  nVersion : -2 ^ 31 ≤ pindex.nVersion ∧ pindex.nVersion < 2 ^ 31
  hashMerkleRoot : pindex.hashMerkleRoot < 2 ^ 256
  nTime : pindex.nTime < 2 ^ 32
  nBits : pindex.nBits < 2 ^ 32
  nNonce : pindex.nNonce < 2 ^ 32
  auxpow : ∀ a, auxpow = some a → a.Fits

/-- The first record of an entry, as it is read back. -/
def ReadsBack (Hash : Bytes → Uint256) (hash : Uint256) (pindex : CBlockIndex) (value : Bytes) : Prop :=
  ∃ diskindex rest, CDiskBlockIndex.unserialize SER_DISK CLIENT_VERSION value = some (diskindex, rest) ∧
    diskindex.calcBlockHash Hash = hash ∧ diskindex.hashPrev = pindex.pprev.getD 0 ∧
    diskindex.toCBlockIndex = pindex.immutable

theorem readsBack_of_serialize (Hash : Bytes → Uint256) {pindex : CBlockIndex} {auxpow : Option CAuxPow} {value : Bytes}
    (hfits : Fits pindex auxpow) (hprev : pindex.pprev.getD 0 < 2 ^ 256)
    (h : (CDiskBlockIndex.ofIndex pindex auxpow).serialize SER_DISK CLIENT_VERSION = some value) :
    ReadsBack Hash ((CDiskBlockIndex.ofIndex pindex auxpow).calcBlockHash Hash) pindex value := by
  obtain ⟨s, hs, rfl⟩ := Option.map_eq_some_iff.mp h
  obtain ⟨auxpow', haux⟩ := CAuxPow.reads hfits.auxpow hs
  have hheader : (CDiskBlockIndex.ofIndex pindex auxpow).header.Fits :=
    ⟨hfits.nVersion, hprev, hfits.hashMerkleRoot, hfits.nTime, hfits.nBits, hfits.nNonce⟩
  have hreads : Reads (CDiskBlockIndex.unserialize SER_DISK CLIENT_VERSION) _
      { pindex.immutable with hashPrev := pindex.pprev.getD 0, auxpow := auxpow' } :=
    (reads_varIntIf _ CLIENT_VERSION.toNat).bind ((reads_readVarInt pindex.nHeight).bind
      ((reads_readVarInt pindex.nTx).bind ((Wire.HeaderFields.reads hheader).bind haux.bind_pure)))
  have hread := hreads []
  rw [List.append_nil] at hread
  exact ⟨_, [], hread, rfl, rfl, rfl⟩

/-! ## Keys -/

section Keys

variable {hash hash' : Uint256} {part part' : UInt8} {key key' : Bytes}

theorem bytes_lt_trans (a b c : Bytes) (hab : a < b) (hbc : b < c) : a < c := List.lt_trans hab hbc

theorem bytes_lt_total (a b : Bytes) (hne : a ≠ b) (hlt : ¬ a < b) : b < a := by
  by_contra hnot
  exact hne (List.le_antisymm (List.not_lt.mp hnot) (List.not_lt.mp hlt))

theorem length_blockKey (hash : Uint256) (part : UInt8) : (blockKey hash part).length = 34 := by
  simp [blockKey]

theorem blockKey_inj (hhash : hash < 2 ^ 256) (hhash' : hash' < 2 ^ 256) (h : blockKey hash part = blockKey hash' part') :
    hash = hash' ∧ part = part' := by
  unfold blockKey at h
  rw [List.cons.injEq] at h
  obtain ⟨hbytes, hpart⟩ := List.append_inj h.2 (by simp)
  exact ⟨toLE_inj hhash hhash' hbytes, List.head_eq_of_cons_eq hpart⟩

theorem blockKey_lt_iff : blockKey hash part < blockKey hash' part' ↔
    writeUint256 hash < writeUint256 hash' ∨ writeUint256 hash = writeUint256 hash' ∧ part < part' := by
  unfold blockKey
  rw [List.cons_lt_cons_iff, append_lt_append_iff (by simp), List.cons_lt_cons_iff]
  simp

/-- The mutable record comes after the immutable one. -/
theorem immutable_lt_mutable (hash : Uint256) : blockKey hash immutablePart < blockKey hash mutablePart :=
  blockKey_lt_iff.mpr (.inr ⟨rfl, by decide⟩)

theorem immutable_ne_mutable (hash hash' : Uint256) : blockKey hash immutablePart ≠ blockKey hash' mutablePart := by
  intro h
  have hpart := congrArg List.getLast? h
  simp [blockKey, immutablePart, mutablePart, List.getLast?_cons, List.getLast?_append] at hpart

/-- No block's key lies between the two of one block. -/
theorem not_between (hpart : part = immutablePart ∨ part = mutablePart)
    (hlow : blockKey hash immutablePart < blockKey hash' part) : ¬ blockKey hash' part < blockKey hash mutablePart := by
  intro hhigh
  rw [blockKey_lt_iff] at hlow hhigh
  rcases hlow with hlt | ⟨heq, hlt⟩
  · rcases hhigh with hgt | ⟨heq, -⟩
    · exact List.lt_irrefl _ (List.lt_trans hlt hgt)
    · rw [heq] at hlt
      exact List.lt_irrefl _ hlt
  · rcases hhigh with hgt | ⟨-, hgt⟩
    · rw [heq] at hgt
      exact List.lt_irrefl _ hgt
    · rcases hpart with rfl | rfl
      · exact absurd hlt (by decide)
      · exact absurd hgt (by decide)

/-- Every block's key comes from the first key that is looked for on. -/
theorem not_lt_keySet (hpart : part = immutablePart ∨ part = mutablePart) : ¬ blockKey hash part < keySet := by
  intro hlt
  have hzero : writeUint256 0 = List.replicate 32 0 := by decide
  have hleast : ∀ b : UInt8, ¬ b < 0 := fun b hb => Nat.not_lt_zero _ (UInt8.lt_iff_toNat_lt.mp hb)
  rcases blockKey_lt_iff.mp hlt with hlt | ⟨-, hlt⟩
  · rw [hzero] at hlt
    exact not_lt_replicate hleast (length_writeUint256 hash) hlt
  · rcases hpart with rfl | rfl
    · exact absurd hlt (by decide)
    · exact absurd hlt (by decide)

end Keys

/-! ## The run of the program -/

/-- What the index in memory and the database can come to: entries are added with both their records; their status and
    positions change, and the mutable record with them; records under other letters come and go. -/
inductive Reached (Hash : Bytes → Uint256) : BlockMap → CLevelDB → Prop
  | start {db : CLevelDB} (ascending : Ascending db) (other : ∀ entry ∈ db, entry.1.head? ≠ some 0x62) : Reached Hash [] db
  | add {mapBlockIndex : BlockMap} {db db' : CLevelDB} (run : Reached Hash mapBlockIndex db) (pindex : CBlockIndex)
      (auxpow : Option CAuxPow) {hash : Uint256} (new : mapBlockIndex.lookup hash = none)
      (hashed : (CDiskBlockIndex.ofIndex pindex auxpow).calcBlockHash Hash = hash)
      (prev : ∀ prev, pindex.pprev = some prev → (mapBlockIndex.lookup prev).isSome) (fits : Fits pindex auxpow)
      (written : writeDiskBlockIndex hash (CDiskBlockIndex.ofIndex pindex auxpow) db = some db') :
      Reached Hash (assign hash pindex mapBlockIndex) (writeBlockIndex hash pindex db')
  | update {mapBlockIndex : BlockMap} {db : CLevelDB} (run : Reached Hash mapBlockIndex db) {hash : Uint256}
      {pindex : CBlockIndex} (found : mapBlockIndex.lookup hash = some pindex) (nStatus nFile nDataPos nUndoPos : Nat) :
      Reached Hash
        (assign hash { pindex with nStatus := nStatus, nFile := nFile, nDataPos := nDataPos, nUndoPos := nUndoPos }
          mapBlockIndex)
        (writeBlockIndex hash
          { pindex with nStatus := nStatus, nFile := nFile, nDataPos := nDataPos, nUndoPos := nUndoPos } db)
  | write {mapBlockIndex : BlockMap} {db : CLevelDB} (run : Reached Hash mapBlockIndex db) {key : Bytes}
      (other : key.head? ≠ some 0x62) (value : Bytes) : Reached Hash mapBlockIndex (assign key value db)
  | erase {mapBlockIndex : BlockMap} {db : CLevelDB} (run : Reached Hash mapBlockIndex db) {key : Bytes}
      (other : key.head? ≠ some 0x62) : Reached Hash mapBlockIndex (unassign key db)

/-- The database holds the two records of every entry, and under `'b'` nothing else. -/
structure Stored (Hash : Bytes → Uint256) (mapBlockIndex : BlockMap) (db : CLevelDB) : Prop where
  ascending : Ascending db
  hash : ∀ {hash pindex}, mapBlockIndex.lookup hash = some pindex → 0 < hash ∧ hash < 2 ^ 256
  prev : ∀ {hash pindex prev}, mapBlockIndex.lookup hash = some pindex → pindex.pprev = some prev →
    (mapBlockIndex.lookup prev).isSome
  immutable : ∀ {hash pindex}, mapBlockIndex.lookup hash = some pindex →
    ∃ value, db.lookup (blockKey hash immutablePart) = some value ∧ ReadsBack Hash hash pindex value
  mutable : ∀ {hash pindex}, mapBlockIndex.lookup hash = some pindex →
    db.lookup (blockKey hash mutablePart) = some (pindex.serialize SER_DISK CLIENT_VERSION)
  only : ∀ {key}, key.head? = some 0x62 → (db.lookup key).isSome →
    ∃ hash part, (mapBlockIndex.lookup hash).isSome ∧ (part = immutablePart ∨ part = mutablePart) ∧ key = blockKey hash part

section Run

variable {Hash : Bytes → Uint256} {mapBlockIndex : BlockMap} {db db' : CLevelDB} {hash : Uint256} {pindex : CBlockIndex}
  {auxpow : Option CAuxPow} {key value : Bytes}

theorem Stored.start (hasc : Ascending db) (hother : ∀ entry ∈ db, entry.1.head? ≠ some 0x62) : Stored Hash [] db where
  ascending := hasc
  hash h := by cases h
  prev h := by cases h
  immutable h := by cases h
  mutable h := by cases h
  only := by
    intro key hhead hfound
    obtain ⟨value, hvalue⟩ := Option.isSome_iff_exists.mp hfound
    exact absurd hhead (hother _ (mem_of_lookup hvalue))

theorem ascending_assign (h : Ascending db) : Ascending (assign key value db) :=
  pairwise_assign bytes_lt_trans bytes_lt_total h

/-- The hash of the parent that an entry points to, or the null hash. -/
theorem Stored.prev_lt (h : Stored Hash mapBlockIndex db)
    (hprev : ∀ prev, pindex.pprev = some prev → (mapBlockIndex.lookup prev).isSome) : pindex.pprev.getD 0 < 2 ^ 256 := by
  cases hpprev : pindex.pprev with
  | none => decide
  | some prev =>
    obtain ⟨parent, hparent⟩ := Option.isSome_iff_exists.mp (hprev prev hpprev)
    exact (h.hash hparent).2

/-- Records under other letters are not looked at. -/
theorem Stored.congr (h : Stored Hash mapBlockIndex db) (hasc : Ascending db')
    (hsame : ∀ key : Bytes, key.head? = some 0x62 → db'.lookup key = db.lookup key) : Stored Hash mapBlockIndex db' where
  ascending := hasc
  hash := h.hash
  prev := h.prev
  immutable hlook := by
    rw [hsame _ rfl]
    exact h.immutable hlook
  mutable hlook := by
    rw [hsame _ rfl]
    exact h.mutable hlook
  only hhead hfound := by
    rw [hsame _ hhead] at hfound
    exact h.only hhead hfound

/-- An entry is put into the index, and its mutable record behind an immutable one that it agrees with. -/
theorem Stored.put (h : Stored Hash mapBlockIndex db) (hrange : 0 < hash ∧ hash < 2 ^ 256) (hasc : Ascending db')
    (hprev : ∀ prev, pindex.pprev = some prev → (mapBlockIndex.lookup prev).isSome)
    (hvalue : db'.lookup (blockKey hash immutablePart) = some value) (hback : ReadsBack Hash hash pindex value)
    (hsame : ∀ key, key ≠ blockKey hash immutablePart → db'.lookup key = db.lookup key) :
    Stored Hash (assign hash pindex mapBlockIndex) (writeBlockIndex hash pindex db') := by
  have hkept : ∀ {hash'}, (mapBlockIndex.lookup hash').isSome → ((assign hash pindex mapBlockIndex).lookup hash').isSome := by
    intro hash' hfound
    rw [lookup_assign]
    split
    · rfl
    · exact hfound
  unfold writeBlockIndex
  refine ⟨ascending_assign hasc, ?_, ?_, ?_, ?_, ?_⟩
  · intro hash' pindex' hlook
    rw [lookup_assign] at hlook
    split at hlook
    · rename_i heq
      rw [heq]
      exact hrange
    · exact h.hash hlook
  · intro hash' pindex' prev hlook hpprev
    rw [lookup_assign] at hlook
    split at hlook
    · obtain rfl := Option.some.inj hlook
      exact hkept (hprev prev hpprev)
    · exact hkept (h.prev hlook hpprev)
  · -- the immutable record of another entry has another key, and is as it was
    intro hash' pindex' hlook
    rw [lookup_assign] at hlook ⊢
    rw [if_neg (immutable_ne_mutable hash' hash)]
    split at hlook
    · rename_i heq
      obtain rfl := Option.some.inj hlook
      rw [heq]
      exact ⟨value, hvalue, hback⟩
    · rename_i hne
      rw [hsame _ fun heq => hne (blockKey_inj (h.hash hlook).2 hrange.2 heq).1]
      exact h.immutable hlook
  · intro hash' pindex' hlook
    rw [lookup_assign] at hlook ⊢
    split at hlook
    · rename_i heq
      obtain rfl := Option.some.inj hlook
      rw [heq, if_pos rfl]
    · rename_i hne
      rw [if_neg fun heq => hne (blockKey_inj (h.hash hlook).2 hrange.2 heq).1,
        hsame _ (immutable_ne_mutable hash hash').symm]
      exact h.mutable hlook
  · -- every key of the index is one of the two that were written, or was there before
    intro key hhead hfound
    have hself : ((assign hash pindex mapBlockIndex).lookup hash).isSome := by
      rw [lookup_assign, if_pos rfl]
      rfl
    rw [lookup_assign] at hfound
    split at hfound
    · rename_i heq
      exact ⟨hash, mutablePart, hself, .inr rfl, heq⟩
    · by_cases heq : key = blockKey hash immutablePart
      · exact ⟨hash, immutablePart, hself, .inl rfl, heq⟩
      · rw [hsame key heq] at hfound
        obtain ⟨hash', part, hknown, hpart, hkey⟩ := h.only hhead hfound
        exact ⟨hash', part, hkept hknown, hpart, hkey⟩

/-- **Every run keeps the records.** -/
theorem Reached.stored (hHash : ∀ b, 0 < Hash b ∧ Hash b < 2 ^ 256) (run : Reached Hash mapBlockIndex db) :
    Stored Hash mapBlockIndex db := by
  induction run with
  | start ascending other => exact .start ascending other
  | add run pindex auxpow new hashed prev fits written ih =>
    obtain ⟨value, hvalue, rfl⟩ := Option.map_eq_some_iff.mp written
    have hback := readsBack_of_serialize Hash fits (ih.prev_lt prev) hvalue
    have hrange := hHash (CDiskBlockIndex.ofIndex pindex auxpow).header.serialize
    subst hashed
    refine ih.put hrange (ascending_assign ih.ascending) prev ?_ hback ?_
    · rw [lookup_assign, if_pos rfl]
    · intro key hne
      rw [lookup_assign, if_neg hne]
  | update run found nStatus nFile nDataPos nUndoPos ih =>
    obtain ⟨value, hvalue, hback⟩ := ih.immutable found
    exact ih.put (ih.hash found) ih.ascending (fun prev hprev => ih.prev found hprev) hvalue hback fun _ _ => rfl
  | write run other value ih =>
    refine ih.congr (ascending_assign ih.ascending) ?_
    intro key hhead
    rw [lookup_assign, if_neg (by rintro rfl; exact other hhead)]
  | erase run other ih =>
    refine ih.congr ih.ascending.unassign ?_
    intro key hhead
    rw [lookup_unassign, if_neg (by rintro rfl; exact other hhead)]

/-- `AddToBlockIndex` is one of the steps where the parent is known, as `AcceptBlock` sees to, or the block names none. -/
theorem Reached.addToBlockIndex (run : Reached Hash mapBlockIndex db) {block : Wire.HeaderFields} {nTx nFile nPos : Nat}
    {mapBlockIndex' : BlockMap} (hprev : block.hashPrevBlock = 0 ∨ (mapBlockIndex.lookup block.hashPrevBlock).isSome)
    (hfits : block.Fits) (haux : ∀ a, auxpow = some a → a.Fits)
    (h : addToBlockIndex Hash block auxpow nTx nFile nPos mapBlockIndex db = some (mapBlockIndex', db')) :
    Reached Hash mapBlockIndex' db' := by
  unfold BlockTreeDB.addToBlockIndex at h
  dsimp only at h
  split at h
  · cases h
    exact run
  · rename_i hnew
    obtain ⟨db₁, hwritten, heq⟩ := Option.map_eq_some_iff.mp h
    cases heq
    have hhashPrev : ((mapBlockIndex.lookup block.hashPrevBlock).map fun _ => block.hashPrevBlock).getD 0 =
        block.hashPrevBlock := by
      cases hlook : mapBlockIndex.lookup block.hashPrevBlock with
      | none =>
        rw [hlook] at hprev
        rcases hprev with hzero | hknown
        · exact hzero.symm
        · cases hknown
      | some pprev => rfl
    refine run.add _ auxpow (Option.not_isSome_iff_eq_none.mp hnew) ?_ ?_ ?_ hwritten
    · unfold CDiskBlockIndex.calcBlockHash CDiskBlockIndex.header CDiskBlockIndex.ofIndex
      dsimp only
      rw [hhashPrev]
    · intro prev hpprev
      obtain ⟨pprev, hlook, rfl⟩ := Option.map_eq_some_iff.mp hpprev
      rw [hlook]
      rfl
    · exact ⟨hfits.nVersion, hfits.hashMerkleRoot, hfits.nTime, hfits.nBits, hfits.nNonce, haux⟩

end Run

/-! ## One round of the loader -/

section Round

variable {Hash : Bytes → Uint256} {hash k : Uint256} {prev : Option Uint256} {mapBlockIndex : BlockMap}
  {index : BlockIndexState} {pindex : CBlockIndex} {value : Bytes}

/-- The object that a pointer points to is there afterwards. -/
theorem insertBlockIndex_some (hhash : 0 < hash) (mapBlockIndex : BlockMap) (k : Uint256) : (insertBlockIndex hash mapBlockIndex).1 = some hash ∧
    (insertBlockIndex hash mapBlockIndex).2.lookup k =
      if k = hash then some ((mapBlockIndex.lookup hash).getD CBlockIndex.null) else mapBlockIndex.lookup k := by
  unfold insertBlockIndex
  rw [if_neg (Nat.ne_of_gt hhash)]
  cases hlook : mapBlockIndex.lookup hash with
  | none => exact ⟨rfl, lookup_assign⟩
  | some pindex =>
    dsimp only
    refine ⟨rfl, ?_⟩
    by_cases hk : k = hash
    · rw [if_pos hk, hk, hlook]
      rfl
    · rw [if_neg hk]

/-- The parent's hash is that of no block, or that of one that is in the map afterwards. -/
theorem insertBlockIndex_prev (hprev : ∀ h, prev = some h → 0 < h) :
    (insertBlockIndex (prev.getD 0) mapBlockIndex).1 = prev ∧
      (insertBlockIndex (prev.getD 0) mapBlockIndex).2.lookup k =
        if some k = prev then some ((mapBlockIndex.lookup k).getD CBlockIndex.null) else mapBlockIndex.lookup k := by
  cases prev with
  | none => exact ⟨rfl, rfl⟩
  | some h =>
    obtain ⟨hptr, hlook⟩ := insertBlockIndex_some (hprev h rfl) mapBlockIndex k
    refine ⟨hptr, ?_⟩
    rw [Option.getD_some, hlook]
    by_cases hk : k = h
    · rw [if_pos hk, if_pos (by rw [hk]), hk]
    · rw [if_neg hk, if_neg (fun heq => hk (Option.some.inj heq))]

/-- The first record of a pair: the entry is there up to its status, and its parent is there in some form. -/
theorem loadImmutable_eq (hashGenesisBlock : Uint256) (hrange : 0 < hash ∧ hash < 2 ^ 256) (hprev : ∀ h, pindex.pprev = some h → 0 < h)
    (hback : ReadsBack Hash hash pindex value)
    (hfresh : index.mapBlockIndex.lookup hash = none ∨ index.mapBlockIndex.lookup hash = some CBlockIndex.null) :
    ∃ (mapBlockIndex : BlockMap) (pindexGenesisBlock : Option Uint256),
      loadImmutable Hash hashGenesisBlock (blockKey hash immutablePart) (writeUint256 hash ++ [immutablePart]) value index =
        .ok (hash, ⟨assign hash pindex.half mapBlockIndex, pindexGenesisBlock⟩) ∧
      ∀ k, k ≠ hash → mapBlockIndex.lookup k =
        if some k = pindex.pprev then some ((index.mapBlockIndex.lookup k).getD CBlockIndex.null)
        else index.mapBlockIndex.lookup k := by
  obtain ⟨⟨immutable, hashPrev, auxpow⟩, rest, hread, hcalc, hhashPrev, himmutable⟩ := hback
  dsimp only at hhashPrev himmutable
  subst hhashPrev himmutable
  obtain ⟨map₁, hmap₁⟩ : ∃ map₁, map₁ = (insertBlockIndex hash index.mapBlockIndex).2 := ⟨_, rfl⟩
  obtain ⟨map₂, hmap₂⟩ : ∃ map₂, map₂ = (insertBlockIndex (pindex.pprev.getD 0) map₁).2 := ⟨_, rfl⟩
  have hlook₁ : ∀ k, map₁.lookup k = if k = hash then some CBlockIndex.null else index.mapBlockIndex.lookup k := by
    intro k
    rw [hmap₁, (insertBlockIndex_some hrange.1 _ k).2]
    rcases hfresh with hnone | hnull
    · rw [hnone]
      rfl
    · rw [hnull]
      rfl
  have hlook₂ : ∀ k, map₂.lookup k =
      if some k = pindex.pprev then some ((map₁.lookup k).getD CBlockIndex.null) else map₁.lookup k := by
    intro k
    rw [hmap₂]
    exact (insertBlockIndex_prev hprev).2
  -- the object that is filled in is empty before, also where the parent's hash is the entry's own
  have hself : map₂.lookup hash = some CBlockIndex.null := by
    rw [hlook₂, hlook₁, if_pos rfl]
    split <;> rfl
  have hkey : readUint256 (writeUint256 hash ++ [immutablePart]) = some (hash, [immutablePart]) := reads_uint256 hrange.2 _
  have hpair₁ : insertBlockIndex hash index.mapBlockIndex = (some hash, map₁) :=
    Prod.ext (insertBlockIndex_some hrange.1 _ hash).1 hmap₁.symm
  have hpair₂ : insertBlockIndex (pindex.pprev.getD 0) map₁ = (pindex.pprev, map₂) :=
    Prod.ext (insertBlockIndex_prev (k := hash) hprev).1 hmap₂.symm
  refine ⟨map₂, if index.pindexGenesisBlock = none ∧ hash = hashGenesisBlock then some hash else index.pindexGenesisBlock,
    ?_, ?_⟩
  · unfold loadImmutable
    rw [if_neg (by rw [length_blockKey, keySet, length_blockKey]; decide), hkey]
    dsimp only
    rw [hread]
    dsimp only
    rw [hpair₁]
    dsimp only
    rw [if_neg (not_not.mpr hcalc), hpair₂]
    dsimp only
    rw [if_neg (by intro hcheck; cases hcheck), BlockMap.modify, hself]
    rfl
  · intro k hk
    rw [hlook₂, hlook₁, if_neg hk]

/-- The record behind it. -/
theorem loadMutable_eq (hash : Uint256) (pindex : CBlockIndex) (mapBlockIndex : BlockMap)
    (pindexGenesisBlock : Option Uint256) :
    ∃ mapBlockIndex', loadMutable hash (pindex.serialize SER_DISK CLIENT_VERSION)
        ⟨assign hash pindex.half mapBlockIndex, pindexGenesisBlock⟩ = .ok ⟨mapBlockIndex', pindexGenesisBlock⟩ ∧
      ∀ k, mapBlockIndex'.lookup k = if k = hash then some pindex.restored else mapBlockIndex.lookup k := by
  have hread := CBlockIndex.reads_half pindex []
  rw [List.append_nil] at hread
  refine ⟨assign hash pindex.restored (assign hash pindex.half mapBlockIndex), ?_, ?_⟩
  · unfold loadMutable
    dsimp only
    rw [lookup_assign, if_pos rfl]
    dsimp only
    rw [hread]
  · intro k
    rw [lookup_assign]
    split
    · rfl
    · rename_i hk
      rw [lookup_assign, if_neg hk]

end Round

/-! ## The walk over the records -/

section Walk

variable {Hash : Bytes → Uint256} {hash : Uint256} {mapBlockIndex : BlockMap} {db pcursor : CLevelDB}
  {index : BlockIndexState} {pindex : CBlockIndex} {value : Bytes} {entry head : Bytes × Bytes}

/-- What is ahead of the cursor reaches to the end of the database. -/
theorem mem_cursor (hasc : Ascending db) (hsuffix : pcursor <:+ db) (hhead : head ∈ pcursor) (hentry : entry ∈ db)
    (hlt : head.1 < entry.1) : entry ∈ pcursor := by
  obtain ⟨before, rfl⟩ := hsuffix
  rcases List.mem_append.mp hentry with hbefore | hafter
  · have hgt := (List.pairwise_append.mp hasc).2.2 entry hbefore head hhead
    exact absurd (List.lt_trans hlt hgt) (List.lt_irrefl _)
  · exact hafter

/-- The cursor is before a pair or past the last one. The entries whose records are behind it are restored; the others are
    not there, or empty. -/
structure Loading (mapBlockIndex : BlockMap) (db pcursor : CLevelDB) (index : BlockIndexState) : Prop where
  ahead : pcursor <:+ db
  paired : ∀ {hash pindex value}, mapBlockIndex.lookup hash = some pindex →
    (blockKey hash mutablePart, value) ∈ pcursor → ∃ value, (blockKey hash immutablePart, value) ∈ pcursor
  behind : ∀ {hash pindex}, mapBlockIndex.lookup hash = some pindex →
    (∀ value, (blockKey hash immutablePart, value) ∉ pcursor) → index.mapBlockIndex.lookup hash = some pindex.restored
  todo : ∀ {hash pindex value}, mapBlockIndex.lookup hash = some pindex → (blockKey hash immutablePart, value) ∈ pcursor →
    index.mapBlockIndex.lookup hash = none ∨ index.mapBlockIndex.lookup hash = some CBlockIndex.null
  nothing : ∀ {hash}, mapBlockIndex.lookup hash = none → index.mapBlockIndex.lookup hash = none

/-- **Pairs stand together.** Where the cursor is at an immutable record, the mutable one of the same block is next. -/
theorem Stored.next (h : Stored Hash mapBlockIndex db) (hlook : mapBlockIndex.lookup hash = some pindex)
    (hsuffix : (blockKey hash immutablePart, value) :: pcursor <:+ db) :
    ∃ rest, pcursor = (blockKey hash mutablePart, pindex.serialize SER_DISK CLIENT_VERSION) :: rest := by
  have hasc : Ascending ((blockKey hash immutablePart, value) :: pcursor) := h.ascending.sublist hsuffix.sublist
  obtain ⟨hhead, hrest⟩ := List.pairwise_cons.mp hasc
  have hlt := immutable_lt_mutable hash
  have hmem := mem_cursor h.ascending hsuffix List.mem_cons_self (mem_of_lookup (h.mutable hlook)) hlt
  rcases List.mem_cons.mp hmem with heq | hmem
  · exact absurd (congrArg Prod.fst heq).symm (immutable_ne_mutable hash hash)
  · refine next_of_mem hrest hmem ?_
    intro other hother hbelow
    -- a key between the two starts with `'b'`, and so is a block's
    have habove := hhead other hother
    obtain ⟨rest, hkey⟩ := head_of_between (fun _ _ => UInt8.lt_asymm) UInt8.lt_irrefl habove hbelow
    have hindb : other ∈ db := hsuffix.subset (List.mem_cons_of_mem _ hother)
    have hfound : (db.lookup other.1).isSome := by
      rw [lookup_of_mem (fun a => List.lt_irrefl a) h.ascending hindb]
      rfl
    obtain ⟨hash', part, -, hpart, hblock⟩ := h.only (by rw [hkey]; rfl) hfound
    dsimp only at habove hbelow
    rw [hblock] at habove hbelow
    exact not_between hpart habove hbelow

/-- What the cursor is at where it is at a block's key: the first half of a pair. -/
theorem Loading.head_eq (hstored : Stored Hash mapBlockIndex db) (h : Loading mapBlockIndex db (head :: pcursor) index)
    (hhead : head.1.head? = some 0x62) :
    ∃ hash pindex, mapBlockIndex.lookup hash = some pindex ∧ head.1 = blockKey hash immutablePart ∧
      ReadsBack Hash hash pindex head.2 := by
  have hasc : Ascending (head :: pcursor) := hstored.ascending.sublist h.ahead.sublist
  have hvalue : db.lookup head.1 = some head.2 :=
    lookup_of_mem (fun a => List.lt_irrefl a) hstored.ascending (h.ahead.subset List.mem_cons_self)
  obtain ⟨hash, part, hknown, hpart, hkey⟩ := hstored.only hhead (by rw [hvalue]; rfl)
  obtain ⟨pindex, hlook⟩ := Option.isSome_iff_exists.mp hknown
  refine ⟨hash, pindex, hlook, ?_⟩
  rcases hpart with rfl | rfl
  · obtain ⟨value, hstoredValue, hback⟩ := hstored.immutable hlook
    rw [← hkey, hvalue, Option.some.injEq] at hstoredValue
    rw [hstoredValue]
    exact ⟨hkey, hback⟩
  · -- the first half would come before it, and is not behind the cursor
    have hmem : (blockKey hash mutablePart, head.2) ∈ head :: pcursor := by
      rw [← hkey]
      exact List.mem_cons_self
    obtain ⟨value, hfirst⟩ := h.paired hlook hmem
    have hlt : blockKey hash immutablePart < head.1 := hkey ▸ immutable_lt_mutable hash
    rcases List.mem_cons.mp hfirst with heq | hfirst
    · rw [← heq] at hlt
      exact absurd hlt (List.lt_irrefl _)
    · exact absurd (List.lt_trans hlt ((List.pairwise_cons.mp hasc).1 _ hfirst)) (List.lt_irrefl _)

/-- **One round of the loop** takes a pair off the cursor. -/
theorem Loading.round (hashGenesisBlock : Uint256) (hstored : Stored Hash mapBlockIndex db) (h : Loading mapBlockIndex db (head :: pcursor) index)
    {ssKey : Bytes} (hkey : head.1 = 0x62 :: ssKey) :
    ∃ hash index₁ slValue rest index₂,
      loadImmutable Hash hashGenesisBlock head.1 ssKey head.2 index = .ok (hash, index₁) ∧
      pcursor = (blockKey hash mutablePart, slValue) :: rest ∧ loadMutable hash slValue index₁ = .ok index₂ ∧
      Loading mapBlockIndex db rest index₂ := by
  obtain ⟨hash, pindex, hlook, hblock, hback⟩ := h.head_eq hstored (by rw [hkey]; rfl)
  obtain ⟨slKey, slValue⟩ := head
  dsimp only at hkey hblock hback
  subst hblock
  obtain rfl : writeUint256 hash ++ [immutablePart] = ssKey := (List.cons.inj hkey).2
  have hprev : ∀ prev, pindex.pprev = some prev → 0 < prev := by
    intro prev hpprev
    obtain ⟨parent, hparent⟩ := Option.isSome_iff_exists.mp (hstored.prev hlook hpprev)
    exact (hstored.hash hparent).1
  obtain ⟨map₁, genesis, hload₁, hmap₁⟩ := loadImmutable_eq hashGenesisBlock (hstored.hash hlook) hprev hback
    (h.todo hlook List.mem_cons_self)
  obtain ⟨rest, rfl⟩ := hstored.next hlook h.ahead
  obtain ⟨map₂, hload₂, hmap₂⟩ := loadMutable_eq hash pindex map₁ genesis
  refine ⟨hash, _, _, rest, _, hload₁, rfl, hload₂, ?_⟩
  obtain ⟨hbehind, hrest⟩ := List.pairwise_cons.mp (hstored.ascending.sublist h.ahead.sublist)
  obtain ⟨hbehind', -⟩ := List.pairwise_cons.mp hrest
  -- neither half of the pair is ahead any more; the first halves of other blocks are as before
  have hgone : ∀ entry ∈ rest, entry.1 ≠ blockKey hash immutablePart ∧ entry.1 ≠ blockKey hash mutablePart := by
    intro entry hentry
    refine ⟨fun heq => ?_, fun heq => ?_⟩
    · have hlt := hbehind entry (List.mem_cons_of_mem _ hentry)
      rw [heq] at hlt
      exact List.lt_irrefl _ hlt
    · have hlt := hbehind' entry hentry
      rw [heq] at hlt
      exact List.lt_irrefl _ hlt
  have hkept : ∀ {hash' pindex' value}, hash' ≠ hash → mapBlockIndex.lookup hash' = some pindex' →
      (blockKey hash' immutablePart, value) ∈ (blockKey hash immutablePart, slValue) ::
        (blockKey hash mutablePart, pindex.serialize SER_DISK CLIENT_VERSION) :: rest →
      (blockKey hash' immutablePart, value) ∈ rest := by
    intro hash' pindex' value hne hlook' hmem
    rcases List.mem_cons.mp hmem with heq | hmem
    · have hkeys := congrArg Prod.fst heq
      exact absurd (blockKey_inj (hstored.hash hlook').2 (hstored.hash hlook).2 hkeys).1 hne
    · rcases List.mem_cons.mp hmem with heq | hmem
      · exact absurd (congrArg Prod.fst heq) (immutable_ne_mutable hash' hash)
      · exact hmem
  have hother : ∀ {k}, k ≠ hash → map₂.lookup k =
      if some k = pindex.pprev then some ((index.mapBlockIndex.lookup k).getD CBlockIndex.null)
      else index.mapBlockIndex.lookup k := by
    intro k hk
    rw [hmap₂, if_neg hk, hmap₁ k hk]
  constructor
  case ahead => exact List.IsSuffix.trans ⟨[_, _], rfl⟩ h.ahead
  case paired =>
    intro hash' pindex' value hlook' hmem
    have hne : hash' ≠ hash := fun heq => (hgone _ hmem).2 (by rw [heq])
    obtain ⟨value', hfirst⟩ := h.paired hlook' (List.mem_cons_of_mem _ (List.mem_cons_of_mem _ hmem))
    exact ⟨value', hkept hne hlook' hfirst⟩
  case behind =>
    intro hash' pindex' hlook' hnot
    by_cases hhash : hash' = hash
    · subst hhash
      obtain rfl := Option.some.inj (hlook.symm.trans hlook')
      rw [hmap₂, if_pos rfl]
    · have hdone := h.behind hlook' fun value hmem => hnot value (hkept hhash hlook' hmem)
      rw [hother hhash, hdone]
      split <;> rfl
  case todo =>
    intro hash' pindex' value hlook' hmem
    have hne : hash' ≠ hash := fun heq => (hgone _ hmem).1 (by rw [heq])
    dsimp only
    rw [hother hne]
    rcases h.todo hlook' (List.mem_cons_of_mem _ (List.mem_cons_of_mem _ hmem)) with hnone | hnull
    · rw [hnone]
      split
      · exact .inr rfl
      · exact .inl rfl
    · rw [hnull]
      split <;> exact .inr rfl
  case nothing =>
    intro hash' hnone
    have hne : hash' ≠ hash := by
      rintro rfl
      rw [hlook] at hnone
      cases hnone
    have hnot : ¬ some hash' = pindex.pprev := by
      intro hpprev
      have hknown := hstored.prev hlook hpprev.symm
      rw [hnone] at hknown
      cases hknown
    rw [hother hne, if_neg hnot]
    exact h.nothing hnone

/-- Where no pair is ahead, everything is restored. -/
theorem Loading.restored (h : Loading mapBlockIndex db pcursor index)
    (hdone : ∀ hash value, (blockKey hash immutablePart, value) ∉ pcursor) (hash : Uint256) :
    index.mapBlockIndex.lookup hash = (mapBlockIndex.lookup hash).map CBlockIndex.restored := by
  cases hlook : mapBlockIndex.lookup hash with
  | none => exact h.nothing hlook
  | some pindex => exact h.behind hlook (hdone hash)

/-- The keys under `'b'` come one after the other: behind one under a later letter there is none. -/
theorem none_ahead {cType : UInt8} {ssKey : Bytes} (hasc : Ascending (head :: pcursor)) (hkey : head.1 = cType :: ssKey)
    (hfirst : ¬ head.1 < keySet) (htype : cType ≠ 0x62) (hash : Uint256) (value : Bytes) :
    (blockKey hash immutablePart, value) ∉ head :: pcursor := by
  intro hmem
  rcases List.mem_cons.mp hmem with heq | hmem
  · rw [← heq] at hkey
    exact htype (List.cons.inj hkey).1.symm
  · have hlt := (List.pairwise_cons.mp hasc).1 _ hmem
    rw [hkey] at hlt hfirst
    unfold blockKey at hlt
    unfold keySet blockKey at hfirst
    rw [List.cons_lt_cons_iff] at hlt hfirst
    rcases hlt with hlt | ⟨heq, -⟩
    · exact hfirst (.inl hlt)
    · exact htype heq

/-- **The loop restores every entry** and makes no others. -/
theorem Loading.loop (hashGenesisBlock : Uint256) (hstored : Stored Hash mapBlockIndex db) (h : Loading mapBlockIndex db pcursor index)
    (hfirst : ∀ entry ∈ pcursor, ¬ entry.1 < keySet) :
    ∃ index', loadLoop Hash hashGenesisBlock index pcursor = .ok index' ∧
      ∀ hash, index'.mapBlockIndex.lookup hash = (mapBlockIndex.lookup hash).map CBlockIndex.restored := by
  -- a round takes two records off the cursor
  induction hlen : pcursor.length using Nat.strong_induction_on generalizing pcursor index with
  | h n ih =>
    cases pcursor with
    | nil => exact ⟨index, rfl, h.restored fun hash value hmem => by cases hmem⟩
    | cons head pcursor =>
      obtain ⟨slKey, slValue⟩ := head
      cases slKey with
      | nil => exact absurd (List.nil_lt_cons _ _) (hfirst _ List.mem_cons_self)
      | cons cType ssKey =>
        by_cases htype : cType = 0x62
        · subst htype
          obtain ⟨hash, index₁, slValue', rest, index₂, hload₁, rfl, hload₂, hnext⟩ :=
            h.round hashGenesisBlock hstored rfl
          have hsub : ∀ entry ∈ rest, ¬ entry.1 < keySet := fun entry hentry =>
            hfirst entry (List.mem_cons_of_mem _ (List.mem_cons_of_mem _ hentry))
          obtain ⟨index', hloop, hrestored⟩ := ih rest.length (by rw [← hlen, List.length_cons, List.length_cons]; omega) hnext hsub rfl
          refine ⟨index', ?_, hrestored⟩
          rw [loadLoop, if_neg (not_not.mpr rfl), hload₁]
          dsimp only
          rw [hload₂]
          exact hloop
        · refine ⟨index, ?_, h.restored ?_⟩
          · rw [loadLoop, if_pos htype]
          · exact none_ahead (hstored.ascending.sublist h.ahead.sublist) rfl (hfirst _ List.mem_cons_self) htype

/-- At the start every pair is ahead and the map is empty. -/
theorem Loading.start (hstored : Stored Hash mapBlockIndex db) :
    Loading mapBlockIndex db (seek keySet db) ⟨[], none⟩ where
  ahead := List.dropWhile_suffix _
  paired hlook _ := by
    obtain ⟨value, hvalue, -⟩ := hstored.immutable hlook
    exact ⟨value, mem_seek (mem_of_lookup hvalue) (not_lt_keySet (.inl rfl))⟩
  behind hlook hnot := by
    obtain ⟨value, hvalue, -⟩ := hstored.immutable hlook
    exact absurd (mem_seek (mem_of_lookup hvalue) (not_lt_keySet (.inl rfl))) (hnot value)
  todo _ _ := .inl rfl
  nothing _ := rfl

end Walk

/-! ## The restart -/

/-- What is the same of an entry after a restart: everything that is written, and the positions that exist. -/
structure Survives (pindex pindex' : CBlockIndex) : Prop where
  pprev : pindex'.pprev = pindex.pprev
  nHeight : pindex'.nHeight = pindex.nHeight
  nVersion : pindex'.nVersion = pindex.nVersion
  hashMerkleRoot : pindex'.hashMerkleRoot = pindex.hashMerkleRoot
  nTime : pindex'.nTime = pindex.nTime
  nBits : pindex'.nBits = pindex.nBits
  nNonce : pindex'.nNonce = pindex.nNonce
  nTx : pindex'.nTx = pindex.nTx
  nStatus : pindex'.nStatus = pindex.nStatus
  nFile : pindex.nStatus &&& (BLOCK_HAVE_DATA ||| BLOCK_HAVE_UNDO) ≠ 0 → pindex'.nFile = pindex.nFile
  nDataPos : pindex.nStatus &&& BLOCK_HAVE_DATA ≠ 0 → pindex'.nDataPos = pindex.nDataPos
  nUndoPos : pindex.nStatus &&& BLOCK_HAVE_UNDO ≠ 0 → pindex'.nUndoPos = pindex.nUndoPos

theorem survives_restored (pindex : CBlockIndex) : Survives pindex pindex.restored where
  pprev := rfl
  nHeight := rfl
  nVersion := rfl
  hashMerkleRoot := rfl
  nTime := rfl
  nBits := rfl
  nNonce := rfl
  nTx := rfl
  nStatus := rfl
  nFile h := if_pos h
  nDataPos h := if_pos h
  nUndoPos h := if_pos h

/-- **The block index survives a restart.** Whatever was added and updated, loading succeeds, makes an entry for the hashes
    that had one and for no others, and every entry is as it was; the cursor that is put at the immutable record of a block
    has the mutable one of the same block next. -/
theorem block_index_survives {Hash : Bytes → Uint256} {mapBlockIndex : BlockMap} {db : CLevelDB}
    (hHash : ∀ b, 0 < Hash b ∧ Hash b < 2 ^ 256) (run : Reached Hash mapBlockIndex db) (hashGenesisBlock : Uint256) :
    (∃ index, loadBlockIndexGuts Hash hashGenesisBlock db ⟨[], none⟩ = .ok index ∧
      (∀ hash pindex, mapBlockIndex.lookup hash = some pindex →
        ∃ pindex', index.mapBlockIndex.lookup hash = some pindex' ∧ Survives pindex pindex') ∧
      ∀ hash, mapBlockIndex.lookup hash = none → index.mapBlockIndex.lookup hash = none) ∧
    ∀ hash pindex, mapBlockIndex.lookup hash = some pindex → ∃ value value' pcursor,
      seek (blockKey hash immutablePart) db =
        (blockKey hash immutablePart, value) :: (blockKey hash mutablePart, value') :: pcursor := by
  have hstored := run.stored hHash
  constructor
  · obtain ⟨index, hload, hrestored⟩ := (Loading.start hstored).loop hashGenesisBlock hstored
      fun entry hentry => not_lt_of_mem_seek bytes_lt_trans hstored.ascending hentry
    refine ⟨index, hload, fun hash pindex hlook => ?_, fun hash hnone => ?_⟩
    · refine ⟨pindex.restored, ?_, survives_restored pindex⟩
      rw [hrestored, hlook]
      rfl
    · rw [hrestored, hnone]
      rfl
  · intro hash pindex hlook
    obtain ⟨value, hvalue, -⟩ := hstored.immutable hlook
    have hsuffix : seek (blockKey hash immutablePart) db <:+ db := List.dropWhile_suffix _
    -- the cursor is at the key it was put at, since that is there
    obtain ⟨rest, hrest⟩ := next_of_mem hstored.ascending.seek (mem_seek (mem_of_lookup hvalue) (List.lt_irrefl _))
      fun other hother => not_lt_of_mem_seek bytes_lt_trans hstored.ascending hother
    rw [hrest] at hsuffix
    obtain ⟨pcursor, rfl⟩ := hstored.next hlook hsuffix
    exact ⟨value, _, pcursor, hrest⟩

namespace Example

/-- A hash that is never null: the first bytes of the header. -/
def Hash (b : Bytes) : Uint256 := fromLE (b.take 31) + 1

theorem Hash_range (b : Bytes) : 0 < Hash b ∧ Hash b < 2 ^ 256 := by
  have hlt := fromLE_lt (b.take 31)
  have hpow : 256 ^ (b.take 31).length ≤ 256 ^ 31 := Nat.pow_le_pow_right (by decide) (by simp)
  exact ⟨Nat.succ_pos _, Nat.lt_of_le_of_lt (Nat.succ_le_of_lt (Nat.lt_of_lt_of_le hlt hpow)) (by decide)⟩

def genesis : Wire.HeaderFields := ⟨1, 0, 3, 4, 5, 6⟩

/-- The block on top of it, which was mined with another chain. -/
def merged : Wire.HeaderFields := ⟨0x10102, Hash genesis.serialize, 6, 7, 8, 9⟩

def work : CAuxPow where
  toAuxPowFields := ⟨⟨Wire.Example.coinbase, 11, [12, 13], 0⟩, [14], 3⟩
  parentBlockHeader := .plain ⟨2, 25, 26, 27, 28, 29⟩

theorem work_fits : work.Fits :=
  ⟨⟨⟨Wire.Example.coinbase_fits, by decide, by decide, by decide, by decide⟩, by decide, by decide, by decide⟩,
    ⟨by decide, by decide, by decide, by decide, by decide, by decide⟩⟩

def afterGenesis : BlockMap × CLevelDB := (addToBlockIndex Hash genesis none 1 0 8 [] []).getD ([], [])

def afterMerged : BlockMap × CLevelDB :=
  (addToBlockIndex Hash merged (some work) 2 0 300 afterGenesis.1 afterGenesis.2).getD ([], [])

def mergedIndex : CBlockIndex := ⟨some (Hash genesis.serialize), 1, 0, 300, 0, 2, 11, 0x10102, 6, 7, 8, 9⟩

theorem reached_afterMerged : Reached Hash afterMerged.1 afterMerged.2 := by
  have hgenesis : addToBlockIndex Hash genesis none 1 0 8 [] [] = some afterGenesis := by decide +kernel
  have hmerged : addToBlockIndex Hash merged (some work) 2 0 300 afterGenesis.1 afterGenesis.2 = some afterMerged := by
    decide +kernel
  have hstart : Reached Hash [] [] := .start List.Pairwise.nil (by simp)
  have hrun := hstart.addToBlockIndex (.inl rfl) ⟨by decide, by decide, by decide, by decide, by decide, by decide⟩ (by simp)
    hgenesis
  refine hrun.addToBlockIndex (.inr (by decide +kernel))
    ⟨by decide, by decide +kernel, by decide, by decide, by decide, by decide⟩ ?_ hmerged
  intro a ha
  obtain rfl := Option.some.inj ha
  exact work_fits

/-- Undo data is written for the second block, and its entry comes back with them. -/
theorem merged_survives : ∃ (mapBlockIndex : BlockMap) (db : CLevelDB) (index : BlockIndexState) (pindex : CBlockIndex),
    mapBlockIndex.lookup (Hash merged.serialize) =
      some { mergedIndex with nStatus := 29, nUndoPos := 40 } ∧
    loadBlockIndexGuts Hash (Hash genesis.serialize) db ⟨[], none⟩ = .ok index ∧
    index.mapBlockIndex.lookup (Hash merged.serialize) = some pindex ∧ pindex.nUndoPos = 40 := by
  have hfound : afterMerged.1.lookup (Hash merged.serialize) = some mergedIndex := by decide +kernel
  have hlook : (assign (Hash merged.serialize) { mergedIndex with nStatus := 29, nFile := 0, nDataPos := 300, nUndoPos := 40 }
      afterMerged.1).lookup (Hash merged.serialize) = some { mergedIndex with nStatus := 29, nUndoPos := 40 } := by
    rw [lookup_assign, if_pos rfl]
    rfl
  obtain ⟨⟨index, hload, hsurvives, -⟩, -⟩ := block_index_survives Hash_range
    (reached_afterMerged.update hfound 29 0 300 40) (Hash genesis.serialize)
  obtain ⟨pindex, hpindex, hsame⟩ := hsurvives _ _ hlook
  exact ⟨_, _, index, pindex, hlook, hload, hpindex, hsame.nUndoPos (by decide)⟩

end Example

end BlockTreeDB

end Syscoin

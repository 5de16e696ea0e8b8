import Syscoin.Chain.BlockFiles

/-!
# `Correctness.BlockFiles` — what is stored does not overlap

The running sizes in the database are marks: what was handed out of a file ends below its mark, and what memory knows of
the last file is never behind the database (`FilesInv`). A call changes what is known of one file (`FileUpdate`), and
only to larger sizes as long as none passes 32 bits. A new block starts at the mark. A block that is imported may end
beyond the new size of its file, unless it began no later than the old one.
-/

namespace Syscoin

open Lib

namespace BlockFiles

variable {files files' : BlockFiles} {pos : CDiskBlockPos} {nFile nAddSize nHeight nTime : Nat} {fKnown : Bool}
  {info : CBlockFileInfo} {disk : Disk}

/-- What is known of a file. -/
def known (files : BlockFiles) (nFile : Nat) : CBlockFileInfo :=
  if nFile = files.nLastBlockFile then files.infoLastBlockFile else files.loadBlockFileInfo nFile

/-! ## The block database -/

theorem readBlockFileInfo_write (files : BlockFiles) (nFile : Nat) (info : CBlockFileInfo) (n : Nat) :
    (files.writeBlockFileInfo nFile info).readBlockFileInfo n =
      if nFile = n then some info else files.readBlockFileInfo n := by
  have hfind := find?_upsert (a := (nFile, info)) (l := files.fileInfo) Prod.fst n
  show Option.map Prod.snd ((upsert (fun entry => nFile = entry.1) (nFile, info) files.fileInfo).find? _) = _
  rw [hfind]
  split
  · rfl
  · rfl

theorem loadBlockFileInfo_write (files : BlockFiles) (nFile : Nat) (info : CBlockFileInfo) (n : Nat) :
    (files.writeBlockFileInfo nFile info).loadBlockFileInfo n =
      if nFile = n then info else files.loadBlockFileInfo n := by
  unfold loadBlockFileInfo
  rw [readBlockFileInfo_write]
  split
  · rfl
  · rfl

/-! ## Which file is written to -/

theorem leaveFullFiles_spec {fuel n : Nat} (hinfo : info = files.known n) (hlast : files.nLastBlockFile ≤ n)
    {n' : Nat} {info' : CBlockFileInfo} (h : files.leaveFullFiles nAddSize fuel n info = some (n', info')) :
    info' = files.known n' := by
  induction fuel generalizing n info with
  | zero => cases h
  | succ fuel ih =>
    unfold leaveFullFiles at h
    split at h
    · refine ih ?_ (Nat.le_succ_of_le hlast) h
      rw [known, if_neg (by omega)]
    · obtain ⟨rfl, rfl⟩ := Prod.mk.inj (Option.some.inj h)
      exact hinfo

theorem chooseFile_spec (h : files.chooseFile pos nAddSize fKnown = some (nFile, info)) :
    info = files.known nFile ∧ (fKnown = true → nFile = pos.nFile) := by
  unfold chooseFile at h
  cases fKnown with
  | true =>
    rw [if_pos rfl] at h
    split at h
    · rename_i hne
      obtain ⟨rfl, rfl⟩ := Prod.mk.inj (Option.some.inj h)
      refine ⟨?_, fun _ => rfl⟩
      rw [known, if_neg (Ne.symm hne)]
    · rename_i heq
      obtain ⟨rfl, rfl⟩ := Prod.mk.inj (Option.some.inj h)
      refine ⟨?_, fun _ => not_not.mp heq⟩
      rw [known, if_pos rfl]
  | false =>
    rw [if_neg (by decide)] at h
    refine ⟨leaveFullFiles_spec ?_ (Nat.le_refl _) h, fun hk => by cases hk⟩
    rw [known, if_pos rfl]

/-! ## What a call changes -/

/-- In memory or in the database the file has new sizes; nothing else is known differently. -/
structure FileUpdate (files files' : BlockFiles) (nFile : Nat) (info : CBlockFileInfo) : Prop where
  other : ∀ n, n ≠ nFile → files'.loadBlockFileInfo n = files.loadBlockFileInfo n
  stored : files'.loadBlockFileInfo nFile = files.loadBlockFileInfo nFile ∨ files'.loadBlockFileInfo nFile = info
  last : files'.nLastBlockFile = nFile ∧ files'.infoLastBlockFile = info ∨
    nFile ≠ files.nLastBlockFile ∧ files'.nLastBlockFile = files.nLastBlockFile ∧
      files'.infoLastBlockFile = files.infoLastBlockFile

theorem loadBlockFileInfo_write_other {n : Nat} (h : n ≠ nFile) :
    (files.writeBlockFileInfo nFile info).loadBlockFileInfo n = files.loadBlockFileInfo n := by
  rw [loadBlockFileInfo_write, if_neg (Ne.symm h)]

theorem loadBlockFileInfo_write_self : (files.writeBlockFileInfo nFile info).loadBlockFileInfo nFile = info := by
  rw [loadBlockFileInfo_write, if_pos rfl]

theorem storeBlockPos_spec {result : Option CDiskBlockPos}
    (h : files.storeBlockPos nFile info pos fKnown disk = (files', result)) :
    FileUpdate files files' nFile info ∧
      ∀ pos', result = some pos' → pos' = pos ∧ files'.loadBlockFileInfo nFile = info := by
  have hfiles : (files.storeBlockPos nFile info pos fKnown disk).1 = files' := congrArg Prod.fst h
  have hresult : (files.storeBlockPos nFile info pos fKnown disk).2 = result := congrArg Prod.snd h
  rw [← hfiles, ← hresult]
  unfold storeBlockPos
  dsimp only
  split
  · exact ⟨⟨fun _ _ => rfl, .inl rfl, .inl ⟨rfl, rfl⟩⟩, fun _ h => by cases h⟩
  · split
    · exact ⟨⟨fun _ _ => rfl, .inl rfl, .inl ⟨rfl, rfl⟩⟩, fun _ h => by cases h⟩
    · refine ⟨⟨?_, .inr ?_, .inl ⟨rfl, rfl⟩⟩, ?_⟩
      · exact fun n hn => loadBlockFileInfo_write_other hn
      · exact loadBlockFileInfo_write_self
      · intro pos' h
        exact ⟨(Option.some.inj h).symm, loadBlockFileInfo_write_self⟩

theorem storeUndoPos_spec {result : Option CDiskBlockPos}
    (h : files.storeUndoPos nFile info pos disk = (files', result)) :
    FileUpdate files files' nFile info ∧
      ∀ pos', result = some pos' → pos' = pos ∧ files'.loadBlockFileInfo nFile = info := by
  have hfiles : (files.storeUndoPos nFile info pos disk).1 = files' := congrArg Prod.fst h
  have hresult : (files.storeUndoPos nFile info pos disk).2 = result := congrArg Prod.snd h
  rw [← hfiles, ← hresult]
  unfold storeUndoPos
  dsimp only
  -- the file in memory, if it is the last one
  have hmem : FileUpdate files (if nFile = files.nLastBlockFile then { files with infoLastBlockFile := info } else files)
      nFile info := by
    split
    · rename_i hlast
      exact ⟨fun _ _ => rfl, .inl rfl, .inl ⟨hlast.symm, rfl⟩⟩
    · rename_i hlast
      exact ⟨fun _ _ => rfl, .inl rfl, .inr ⟨hlast, rfl, rfl⟩⟩
  generalize (if nFile = files.nLastBlockFile then { files with infoLastBlockFile := info } else files) = files₁ at hmem ⊢
  have hwritten : FileUpdate files (files₁.writeBlockFileInfo nFile info) nFile info := by
    refine ⟨?_, .inr loadBlockFileInfo_write_self, hmem.last⟩
    intro n hn
    rw [loadBlockFileInfo_write_other hn, hmem.other n hn]
  split
  · exact ⟨hmem, fun _ h => by cases h⟩
  · split
    · exact ⟨hwritten, fun _ h => by cases h⟩
    · refine ⟨hwritten, ?_⟩
      intro pos' h
      exact ⟨(Option.some.inj h).symm, loadBlockFileInfo_write_self⟩

/-- A block is added to the file it was found in, or to the end of one that is chosen. -/
theorem findBlockPos_spec {result : Option CDiskBlockPos}
    (h : files.findBlockPos pos nAddSize nHeight nTime fKnown disk = some (files', result)) :
    ∃ nFile info, (fKnown = true → nFile = pos.nFile) ∧
      info.nSize = ((files.known nFile).nSize + nAddSize) % 2 ^ 32 ∧ info.nUndoSize = (files.known nFile).nUndoSize ∧
      FileUpdate files files' nFile info ∧ ∀ pos', result = some pos' →
        pos' = (if fKnown then pos else ⟨nFile, (files.known nFile).nSize⟩) ∧ files'.loadBlockFileInfo nFile = info := by
  obtain ⟨⟨nFile, old⟩, hchoose, hstore⟩ := Option.map_eq_some_iff.mp h
  obtain ⟨hold, hfile⟩ := chooseFile_spec hchoose
  subst hold
  obtain ⟨hupdate, hresult⟩ := storeBlockPos_spec hstore
  refine ⟨nFile, _, hfile, ?_, ?_, hupdate, hresult⟩
  · rfl
  · rfl

theorem findUndoPos_spec {result : Option CDiskBlockPos} (h : files.findUndoPos nFile nAddSize disk = (files', result)) :
    result = none ∧ files' = files ∨ ∃ info, info.nSize = (files.known nFile).nSize ∧
      info.nUndoSize = ((files.known nFile).nUndoSize + nAddSize) % 2 ^ 32 ∧ FileUpdate files files' nFile info ∧
      ∀ pos', result = some pos' →
        pos' = ⟨nFile, (files.known nFile).nUndoSize⟩ ∧ files'.loadBlockFileInfo nFile = info := by
  unfold findUndoPos at h
  dsimp only at h
  split at h
  · obtain ⟨rfl, rfl⟩ := Prod.mk.inj h
    exact .inl ⟨rfl, rfl⟩
  · rename_i info hread
    have hinfo : info = files.known nFile := by
      unfold known
      split at hread
      · rw [if_pos ‹_›]
        exact (Option.some.inj hread).symm
      · rw [if_neg ‹_›, loadBlockFileInfo, hread]
        rfl
    subst hinfo
    obtain ⟨hupdate, hresult⟩ := storeUndoPos_spec h
    right
    refine ⟨_, ?_, ?_, hupdate, hresult⟩
    · rfl
    · rfl

/-! ## The marks -/

/-- What was handed out ends below the sizes in the database, and memory is not behind the database. -/
structure FilesInv (files : BlockFiles) (blocks undos : List (Extent Nat)) : Prop where
  blocks : Covered (fun n => (files.loadBlockFileInfo n).nSize) blocks
  undos : Covered (fun n => (files.loadBlockFileInfo n).nUndoSize) undos
  size : (files.loadBlockFileInfo files.nLastBlockFile).nSize ≤ files.infoLastBlockFile.nSize
  undoSize : (files.loadBlockFileInfo files.nLastBlockFile).nUndoSize ≤ files.infoLastBlockFile.nUndoSize

variable {blocks undos : List (Extent Nat)}

theorem FilesInv.le_known (h : FilesInv files blocks undos) (n : Nat) :
    (files.loadBlockFileInfo n).nSize ≤ (files.known n).nSize ∧
      (files.loadBlockFileInfo n).nUndoSize ≤ (files.known n).nUndoSize := by
  unfold known
  split
  · rename_i hlast
    rw [hlast]
    exact ⟨h.size, h.undoSize⟩
  · exact ⟨Nat.le_refl _, Nat.le_refl _⟩

/-- Larger sizes of one file keep everything below the marks. -/
theorem FilesInv.update (h : FilesInv files blocks undos) (hupdate : FileUpdate files files' nFile info)
    (hsize : (files.known nFile).nSize ≤ info.nSize) (hundo : (files.known nFile).nUndoSize ≤ info.nUndoSize) :
    FilesInv files' blocks undos := by
  obtain ⟨hother, hstored, hlast⟩ := hupdate
  have hle := h.le_known nFile
  have hsizes : ∀ n, (files.loadBlockFileInfo n).nSize ≤ (files'.loadBlockFileInfo n).nSize ∧
      (files.loadBlockFileInfo n).nUndoSize ≤ (files'.loadBlockFileInfo n).nUndoSize := by
    intro n
    by_cases hn : n = nFile
    · rw [hn]
      rcases hstored with heq | heq
      · rw [heq]
        exact ⟨Nat.le_refl _, Nat.le_refl _⟩
      · rw [heq]
        exact ⟨Nat.le_trans hle.1 hsize, Nat.le_trans hle.2 hundo⟩
    · rw [hother n hn]
      exact ⟨Nat.le_refl _, Nat.le_refl _⟩
  have hmem : (files'.loadBlockFileInfo files'.nLastBlockFile).nSize ≤ files'.infoLastBlockFile.nSize ∧
      (files'.loadBlockFileInfo files'.nLastBlockFile).nUndoSize ≤ files'.infoLastBlockFile.nUndoSize := by
    rcases hlast with ⟨hfile, hinfo⟩ | ⟨hne, hfile, hinfo⟩
    · rw [hfile, hinfo]
      rcases hstored with heq | heq
      · rw [heq]
        exact ⟨Nat.le_trans hle.1 hsize, Nat.le_trans hle.2 hundo⟩
      · rw [heq]
        exact ⟨Nat.le_refl _, Nat.le_refl _⟩
    · rw [hfile, hinfo, hother _ (Ne.symm hne)]
      exact ⟨h.size, h.undoSize⟩
  exact ⟨h.blocks.mono fun n => (hsizes n).1, h.undos.mono fun n => (hsizes n).2, hmem.1, hmem.2⟩

theorem filesInv_init : FilesInv init [] [] := by
  refine ⟨?_, ?_, Nat.le_refl _, Nat.le_refl _⟩
  · intro e he
    cases he
  · intro e he
    cases he

theorem FilesInv.load (h : FilesInv files blocks undos) : FilesInv files.loadBlockIndexDB blocks undos :=
  ⟨h.blocks, h.undos, Nat.le_refl _, Nat.le_refl _⟩

/-! ## Runs -/

/-- The record of an imported block begins with eight bytes in front of the block. -/
def knownExtent (pos : CDiskBlockPos) (nAddSize : Nat) : Extent Nat :=
  ⟨pos.nFile, pos.nPos - 8, pos.nPos - 8 + nAddSize⟩

/-- The region that is handed out. -/
def newExtent (pos : CDiskBlockPos) (nAddSize : Nat) : Extent Nat := ⟨pos.nFile, pos.nPos, pos.nPos + nAddSize⟩

/-- The size known of a file counts everything in front of an imported record, and still fits after it. -/
def Counted (files : BlockFiles) (pos : CDiskBlockPos) (nAddSize : Nat) : Prop :=
  pos.nPos - 8 ≤ (files.known pos.nFile).nSize ∧ (files.known pos.nFile).nSize + nAddSize < 2 ^ 32

instance (files : BlockFiles) (pos : CDiskBlockPos) (nAddSize : Nat) : Decidable (files.Counted pos nAddSize) :=
  inferInstanceAs (Decidable (_ ∧ _))

/-- A run, with the regions of blocks and undo records that were handed out or recorded, latest first. `fNew` tells
    the regions of new blocks from those of imported ones. -/
inductive Run : BlockFiles → List (Bool × Extent Nat) → List (Extent Nat) → Prop where
  | init : Run init [] []
  | load {files : BlockFiles} {blocks : List (Bool × Extent Nat)} {undos : List (Extent Nat)}
      (run : Run files blocks undos) : Run files.loadBlockIndexDB blocks undos
  | newBlock {files files' : BlockFiles} {blocks : List (Bool × Extent Nat)} {undos : List (Extent Nat)}
      (pos : CDiskBlockPos) (nAddSize nHeight nTime : Nat) (disk : Disk)
      {result : Option CDiskBlockPos} (run : Run files blocks undos)
      (fits : ∀ n, (files.known n).nSize + nAddSize < 2 ^ 32)
      (step : files.findBlockPos pos nAddSize nHeight nTime false disk = some (files', result)) :
      Run files' (result.toList.map (fun pos => (true, newExtent pos nAddSize)) ++ blocks) undos
  | knownBlock {files files' : BlockFiles} {blocks : List (Bool × Extent Nat)} {undos : List (Extent Nat)}
      (pos : CDiskBlockPos) (nAddSize nHeight nTime : Nat) (disk : Disk)
      {result : Option CDiskBlockPos} (run : Run files blocks undos) (counted : files.Counted pos nAddSize)
      (step : files.findBlockPos pos nAddSize nHeight nTime true disk = some (files', result)) :
      Run files' (result.toList.map (fun pos => (false, knownExtent pos nAddSize)) ++ blocks) undos
  | undo {files files' : BlockFiles} {blocks : List (Bool × Extent Nat)} {undos : List (Extent Nat)}
      (nFile nAddSize : Nat) (disk : Disk) {result : Option CDiskBlockPos}
      (run : Run files blocks undos) (fits : (files.known nFile).nUndoSize + nAddSize < 2 ^ 32)
      (step : files.findUndoPos nFile nAddSize disk = (files', result)) :
      Run files' blocks (result.toList.map (fun pos => newExtent pos nAddSize) ++ undos)

/-- A new block is apart from everything recorded before it. -/
def NewApart (blocks : List (Bool × Extent Nat)) : Prop :=
  blocks.Pairwise fun later earlier => later.1 = true → later.2.Apart earlier.2

theorem Run.inv {blocks : List (Bool × Extent Nat)} (h : Run files blocks undos) :
    FilesInv files (blocks.map Prod.snd) undos ∧ NewApart blocks ∧ undos.Pairwise Extent.Apart := by
  induction h with
  | init => exact ⟨filesInv_init, .nil, .nil⟩
  | load _ ih => exact ⟨ih.1.load, ih.2⟩
  | @newBlock files files' blocks undos pos nAddSize nHeight nTime disk result _ hfits hstep ih =>
    -- a new block goes behind everything that is known of its file
    obtain ⟨hinv, hblocks, hundos⟩ := ih
    obtain ⟨nFile, info, -, hsize, hundo, hupdate, hresult⟩ := findBlockPos_spec hstep
    rw [Nat.mod_eq_of_lt (hfits nFile)] at hsize
    have hinv' := hinv.update hupdate (by omega) (by omega)
    cases result with
    | none => exact ⟨hinv', hblocks, hundos⟩
    | some pos' =>
      obtain ⟨hpos, hload⟩ := hresult pos' rfl
      rw [if_neg (by decide)] at hpos
      subst hpos
      refine ⟨⟨hinv'.blocks.cons ?_, hinv'.undos, hinv'.size, hinv'.undoSize⟩, ?_, hundos⟩
      · show (files.known nFile).nSize + nAddSize ≤ (files'.loadBlockFileInfo nFile).nSize
        rw [hload]
        omega
      · refine List.pairwise_cons.mpr ⟨?_, hblocks⟩
        intro earlier hearlier _
        exact hinv.blocks.apart (hinv.le_known nFile).1 (List.mem_map_of_mem hearlier)
  | @knownBlock files files' blocks undos pos nAddSize nHeight nTime disk result _ hcounted hstep ih =>
    -- a block that is found stays where it is, and nothing is promised of it
    obtain ⟨hinv, hblocks, hundos⟩ := ih
    obtain ⟨nFile, info, hfile, hsize, hundo, hupdate, hresult⟩ := findBlockPos_spec hstep
    obtain rfl := hfile rfl
    obtain ⟨hbefore, hfits⟩ := hcounted
    rw [Nat.mod_eq_of_lt hfits] at hsize
    have hinv' := hinv.update hupdate (by omega) (by omega)
    cases result with
    | none => exact ⟨hinv', hblocks, hundos⟩
    | some pos' =>
      obtain ⟨hpos, hload⟩ := hresult pos' rfl
      rw [if_pos rfl] at hpos
      subst hpos
      refine ⟨⟨hinv'.blocks.cons ?_, hinv'.undos, hinv'.size, hinv'.undoSize⟩, ?_, hundos⟩
      · show pos'.nPos - 8 + nAddSize ≤ (files'.loadBlockFileInfo pos'.nFile).nSize
        rw [hload]
        omega
      · refine List.pairwise_cons.mpr ⟨?_, hblocks⟩
        intro earlier _ hnew
        cases hnew
  | @undo files files' blocks undos nFile nAddSize disk result _ hfits hstep ih =>
    -- an undo record goes behind the undo records of its file
    obtain ⟨hinv, hblocks, hundos⟩ := ih
    rcases findUndoPos_spec hstep with ⟨rfl, rfl⟩ | ⟨info, hsize, hundo, hupdate, hresult⟩
    · exact ⟨hinv, hblocks, hundos⟩
    · rw [Nat.mod_eq_of_lt hfits] at hundo
      have hinv' := hinv.update hupdate (by omega) (by omega)
      cases result with
      | none => exact ⟨hinv', hblocks, hundos⟩
      | some pos' =>
        obtain ⟨rfl, hload⟩ := hresult pos' rfl
        refine ⟨⟨hinv'.blocks, hinv'.undos.cons ?_, hinv'.size, hinv'.undoSize⟩, hblocks, ?_⟩
        · show (files.known nFile).nUndoSize + nAddSize ≤ (files'.loadBlockFileInfo nFile).nUndoSize
          rw [hload]
          omega
        · refine List.pairwise_cons.mpr ⟨?_, hundos⟩
          intro earlier hearlier
          exact hinv.undos.apart (hinv.le_known nFile).2 hearlier

/-- **Block storage does not overlap**, in every run where imported records are counted and no size passes 32 bits. -/
theorem storage_apart {blocks : List (Bool × Extent Nat)} (h : Run files blocks undos) :
    NewApart blocks ∧ undos.Pairwise Extent.Apart :=
  h.inv.2

end BlockFiles

namespace Cakenet

def goodDisk : Disk := ⟨true, true, true⟩

/-- One file, of which a size is known. -/
def oneFile (info : CBlockFileInfo) : BlockFiles := ⟨0, info, [(0, info)], none⟩

/-- The first record of a file is skipped and the second one, at 1000, imported. Its size is counted from the start
    of the file, and the next new block is put over it. -/
theorem skipped_record_overwritten :
    BlockFiles.init.findBlockPos ⟨0, 1008⟩ 308 0 0 true goodDisk =
        some (oneFile ⟨1, 308, 0, 0, 0, 0, 0⟩, some ⟨0, 1008⟩) ∧
      (oneFile ⟨1, 308, 0, 0, 0, 0, 0⟩).findBlockPos ⟨0, 0⟩ 800 1 1 false goodDisk =
        some (oneFile ⟨2, 1108, 0, 0, 1, 0, 1⟩, some ⟨0, 308⟩) ∧
      ¬ (BlockFiles.newExtent ⟨0, 308⟩ 800).Apart (BlockFiles.knownExtent ⟨0, 1008⟩ 308) := by
  decide +kernel

theorem known_oneFile_le (info : CBlockFileInfo) (n : Nat) : ((oneFile info).known n).nSize ≤ info.nSize := by
  unfold BlockFiles.known
  split
  · exact Nat.le_refl _
  · rename_i hn
    have hzero : ¬ 0 = n := fun h => hn h.symm
    have hnone : (oneFile info).loadBlockFileInfo n = CBlockFileInfo.null := by
      simp [oneFile, BlockFiles.loadBlockFileInfo, BlockFiles.readBlockFileInfo, hzero]
    rw [hnone]
    exact Nat.zero_le _

/-- The same records, both imported, then a new block and an undo record. -/
theorem counted_records_apart :
    BlockFiles.NewApart [(true, ⟨0, 1308, 2108⟩), (false, ⟨0, 1000, 1308⟩), (false, ⟨0, 0, 1000⟩)] ∧
      [(⟨0, 0, 50⟩ : Extent Nat)].Pairwise Extent.Apart := by
  have step₁ : BlockFiles.init.findBlockPos ⟨0, 8⟩ 1000 0 0 true goodDisk =
      some (oneFile ⟨1, 1000, 0, 0, 0, 0, 0⟩, some ⟨0, 8⟩) := by decide +kernel
  have step₂ : (oneFile ⟨1, 1000, 0, 0, 0, 0, 0⟩).findBlockPos ⟨0, 1008⟩ 308 0 0 true goodDisk =
      some (oneFile ⟨2, 1308, 0, 0, 0, 0, 0⟩, some ⟨0, 1008⟩) := by decide +kernel
  have step₃ : (oneFile ⟨2, 1308, 0, 0, 0, 0, 0⟩).findBlockPos ⟨0, 0⟩ 800 1 1 false goodDisk =
      some (oneFile ⟨3, 2108, 0, 0, 1, 0, 1⟩, some ⟨0, 1308⟩) := by decide +kernel
  have step₄ : (oneFile ⟨3, 2108, 0, 0, 1, 0, 1⟩).findUndoPos 0 50 goodDisk =
      (oneFile ⟨3, 2108, 50, 0, 1, 0, 1⟩, some ⟨0, 0⟩) := by decide +kernel
  have hfits : ∀ n, ((oneFile ⟨2, 1308, 0, 0, 0, 0, 0⟩).known n).nSize + 800 < 2 ^ 32 := by
    intro n
    have hle := known_oneFile_le ⟨2, 1308, 0, 0, 0, 0, 0⟩ n
    dsimp only at hle
    omega
  have run₂ := (BlockFiles.Run.init.knownBlock _ _ _ _ _ (by decide) step₁).knownBlock _ _ _ _ _ (by decide) step₂
  exact BlockFiles.storage_apart ((run₂.newBlock _ _ _ _ _ hfits step₃).undo _ _ _ (by decide) step₄)

end Cakenet

end Syscoin

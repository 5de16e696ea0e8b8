import Syscoin.Lib.Extent
import Syscoin.Lib.Upsert

/-!
# `Chain.BlockFiles` — where blocks and undo records are put on disk

A block goes into the last block file, behind what was put there before, or into a later file that has room. A block
found in a file while it is imported stays where it is, and its size is added to the size of that file. What is known
of the files is in memory for the last one and in the block database for all. Sizes and positions are 32 bits wide.
-/

namespace Syscoin

open Lib

def MAX_BLOCKFILE_SIZE : Nat := 0x8000000
def BLOCKFILE_CHUNK_SIZE : Nat := 0x1000000
def UNDOFILE_CHUNK_SIZE : Nat := 0x100000

structure CDiskBlockPos where
  nFile : Nat
  nPos : Nat
deriving DecidableEq, Repr

structure CBlockFileInfo where
  nBlocks : Nat
  nSize : Nat
  nUndoSize : Nat
  nHeightFirst : Nat
  nHeightLast : Nat
  nTimeFirst : Nat
  nTimeLast : Nat
deriving DecidableEq, Repr

namespace CBlockFileInfo

/-- `SetNull` -/
def null : CBlockFileInfo := ⟨0, 0, 0, 0, 0, 0, 0⟩

/-- `AddBlock`: statistics only. -/
def addBlock (info : CBlockFileInfo) (nHeightIn nTimeIn : Nat) : CBlockFileInfo :=
  let nHeightFirst := if info.nBlocks = 0 ∨ info.nHeightFirst > nHeightIn then nHeightIn else info.nHeightFirst
  { info with
    nHeightFirst := nHeightFirst
    nTimeFirst := if info.nBlocks = 0 ∨ info.nTimeFirst > nTimeIn then nTimeIn else info.nTimeFirst
    nBlocks := (info.nBlocks + 1) % 2 ^ 32
    nHeightLast := if nHeightIn > nHeightFirst then nHeightIn else info.nHeightLast
    nTimeLast := if nTimeIn > info.nTimeLast then nTimeIn else info.nTimeLast }

end CBlockFileInfo

/-- The last block file and what is known of it, and the records `'f'` and `'l'` of the block database. -/
structure BlockFiles where
  nLastBlockFile : Nat
  infoLastBlockFile : CBlockFileInfo
  fileInfo : List (Nat × CBlockFileInfo)
  lastBlockFile : Option Nat
deriving DecidableEq, Repr

/-- How the disk answers during a call: whether there is space, and which records the database writes. -/
structure Disk where
  fSpace : Bool
  fInfo : Bool
  fLast : Bool

namespace BlockFiles

def init : BlockFiles := ⟨0, CBlockFileInfo.null, [], none⟩

variable (files : BlockFiles)

def readBlockFileInfo (nFile : Nat) : Option CBlockFileInfo :=
  (files.fileInfo.find? fun entry => entry.1 = nFile).map Prod.snd

def writeBlockFileInfo (nFile : Nat) (info : CBlockFileInfo) : BlockFiles :=
  { files with fileInfo := upsert (fun entry => nFile = entry.1) (nFile, info) files.fileInfo }

/-- `SetNull` and a `ReadBlockFileInfo` that may fail. -/
def loadBlockFileInfo (nFile : Nat) : CBlockFileInfo := (files.readBlockFileInfo nFile).getD CBlockFileInfo.null

/-- What `LoadBlockIndexDB` makes of the database. -/
def loadBlockIndexDB : BlockFiles :=
  let nLastBlockFile := files.lastBlockFile.getD 0
  { files with
    nLastBlockFile := nLastBlockFile
    infoLastBlockFile := files.loadBlockFileInfo nLastBlockFile }

/-- `while (infoLastBlockFile.nSize + nAddSize >= MAX_BLOCKFILE_SIZE)`. The first file without a record has room;
    `none` is a loop that does not end, of a block that fits no file. -/
def leaveFullFiles (nAddSize : Nat) : Nat → Nat → CBlockFileInfo → Option (Nat × CBlockFileInfo)
  | 0, _, _ => none
  | fuel + 1, nLastBlockFile, infoLastBlockFile =>
    if (infoLastBlockFile.nSize + nAddSize) % 2 ^ 32 ≥ MAX_BLOCKFILE_SIZE then
      leaveFullFiles nAddSize fuel (nLastBlockFile + 1) (files.loadBlockFileInfo (nLastBlockFile + 1))
    else some (nLastBlockFile, infoLastBlockFile)

/-- More than the number of any file with a record. -/
def fileBound : Nat := (files.fileInfo.map Prod.fst).foldr max 0 + 1

/-- Which file becomes the last one, and what is known of it. -/
def chooseFile (pos : CDiskBlockPos) (nAddSize : Nat) (fKnown : Bool) : Option (Nat × CBlockFileInfo) :=
  if fKnown then
    if files.nLastBlockFile ≠ pos.nFile then some (pos.nFile, files.loadBlockFileInfo pos.nFile)
    else some (files.nLastBlockFile, files.infoLastBlockFile)
  else files.leaveFullFiles nAddSize (files.fileBound + 2) files.nLastBlockFile files.infoLastBlockFile

/-- Whether a file grows into another chunk, for which there has to be space on the disk. -/
def needsChunk (nChunkSize nOldSize nNewSize : Nat) : Bool :=
  let nOldChunks := (nOldSize + nChunkSize - 1) % 2 ^ 32 / nChunkSize
  let nNewChunks := (nNewSize + nChunkSize - 1) % 2 ^ 32 / nChunkSize
  decide (nNewChunks > nOldChunks)

/-- `FindBlockPos` from where the new size is known. -/
def storeBlockPos (nFile : Nat) (info : CBlockFileInfo) (pos : CDiskBlockPos) (fKnown : Bool) (disk : Disk) :
    BlockFiles × Option CDiskBlockPos :=
  let fUpdatedLast := decide (nFile ≠ files.nLastBlockFile)
  let files := { files with nLastBlockFile := nFile, infoLastBlockFile := info }
  if !fKnown && needsChunk BLOCKFILE_CHUNK_SIZE pos.nPos info.nSize && !disk.fSpace then (files, none)
  else if !disk.fInfo then (files, none)
  else
    let files := files.writeBlockFileInfo nFile info
    ({ files with lastBlockFile := if fUpdatedLast && disk.fLast then some nFile else files.lastBlockFile }, some pos)

/-- **`FindBlockPos`.** Without a position in the result the call has failed. -/
def findBlockPos (pos : CDiskBlockPos) (nAddSize nHeight nTime : Nat) (fKnown : Bool) (disk : Disk) :
    Option (BlockFiles × Option CDiskBlockPos) :=
  (files.chooseFile pos nAddSize fKnown).map fun (nFile, info) =>
    let pos := if fKnown then pos else ⟨nFile, info.nSize⟩
    let info := { info with nSize := (info.nSize + nAddSize) % 2 ^ 32 }.addBlock nHeight nTime
    files.storeBlockPos nFile info pos fKnown disk

/-- `FindUndoPos` from where the new size is known. -/
def storeUndoPos (nFile : Nat) (info : CBlockFileInfo) (pos : CDiskBlockPos) (disk : Disk) :
    BlockFiles × Option CDiskBlockPos :=
  let files := if nFile = files.nLastBlockFile then { files with infoLastBlockFile := info } else files
  if !disk.fInfo then (files, none)
  else
    let files := files.writeBlockFileInfo nFile info
    if needsChunk UNDOFILE_CHUNK_SIZE pos.nPos info.nUndoSize && !disk.fSpace then (files, none)
    else (files, some pos)

/-- **`FindUndoPos`** -/
def findUndoPos (nFile nAddSize : Nat) (disk : Disk) : BlockFiles × Option CDiskBlockPos :=
  let read := if nFile = files.nLastBlockFile then some files.infoLastBlockFile else files.readBlockFileInfo nFile
  match read with
  | none => (files, none)
  | some info =>
    files.storeUndoPos nFile { info with nUndoSize := (info.nUndoSize + nAddSize) % 2 ^ 32 } ⟨nFile, info.nUndoSize⟩ disk

end BlockFiles

end Syscoin

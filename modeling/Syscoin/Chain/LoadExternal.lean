import Syscoin.Network.Messages
import Syscoin.Primitives.BufferedFile

/-!
# `Chain.LoadExternal` — `LoadExternalBlockFile`

The records of a block file are looked for from one position on: a record starts with the message start of the network
and a size, and the block follows. Where there is no record, or what is there is no block, the search goes on one byte
further; behind a block it goes on where the block ends.

A turn of the loop says what came of it, and where in the file. How a block is read off the file, and what becomes of it,
are arguments.
-/

namespace Syscoin

open Lib

/-- What is around the loop. -/
structure LoadEnv (σ β : Type) where
  net : Network
  /-- The size of what is indexed of the file already, if `dbp` names a file that the block database knows of. -/
  indexed : Option Nat
  unserialize : ObjectReader β
  /-- `ProcessBlock` for the block at a position: what it returns with `state.IsError()`, unless it throws. -/
  processBlock : σ → Nat → β → Option (Bool × Bool) × σ

/-- `nStartByte` -/
def LoadEnv.nStartByte {σ β : Type} (env : LoadEnv σ β) : Nat := env.indexed.getD 0

structure Loader (σ : Type) where
  blkdat : CBufferedFile
  nRewind : Nat
  nLoaded : Nat
  node : σ

/-- What comes of a turn. The positions are those of the message start, and of the end of the block. -/
inductive LoadTurn where
  /-- "no valid block header found; don't complain" -/
  | noHeader
  /-- There is no record. -/
  | skipped (nPos : Nat)
  /-- "Deserialize or I/O error caught during load" -/
  | failed (nPos : Nat)
  | loaded (nPos nEnd : Nat)
  /-- `state.IsError()` -/
  | aborted (nPos : Nat)
  /-- The turn does not end. -/
  | stuck
deriving DecidableEq, Repr

/-- Whether the loop is left. -/
def LoadTurn.breaks : LoadTurn → Bool
  | noHeader | aborted _ => true
  | _ => false

/-- Read what is in a header: a size, unless it is no header. -/
def readHeaderSize (net : Network) : Proc CBufferedFile StreamError (Option Nat) := do
  let buf ← CBufferedFile.read 4
  if buf ≠ pchMessageStart net then return none
  else do
    let size ← CBufferedFile.read 4
    if fromLE size < 80 ∨ MAX_BLOCK_SIZE < fromLE size then return none else return some (fromLE size)

/-- Locate a header: where it is, and the size in it. -/
def locateHeader (net : Network) : Proc CBufferedFile StreamError (Nat × Option Nat) := do
  CBufferedFile.findByte ((pchMessageStart net).headD 0)
  let nPos ← CBufferedFile.getPos
  let nSize ← readHeaderSize net
  return (nPos, nSize)

section

variable {σ β : Type} (env : LoadEnv σ β)

/-- Process a block that was read. -/
def processRead (nPos nBlockPos : Nat) (block : β) (l : Loader σ) : LoadTurn × Loader σ :=
  if env.nStartByte ≤ nBlockPos then
    match env.processBlock l.node nBlockPos block with
    | (none, node) => (.loaded nPos l.nRewind, { l with node := node })
    | (some (accepted, isError), node) =>
      let l := { l with node := node, nLoaded := if accepted then l.nLoaded + 1 else l.nLoaded }
      if isError then (.aborted nPos, l) else (.loaded nPos l.nRewind, l)
  else (.loaded nPos l.nRewind, l)

/-- Read a block behind its header, and process it. -/
def readBlock (nPos nSize : Nat) (l : Loader σ) : LoadTurn × Loader σ :=
  let nBlockPos := l.blkdat.nReadPos
  match env.unserialize.run (l.blkdat.setLimit (u64 (nBlockPos + nSize : Nat))).2 with
  | (.error .stuck, blkdat) => (.stuck, { l with blkdat := blkdat })
  | (.error _, blkdat) => (.failed nPos, { l with blkdat := blkdat })
  | (.ok block, blkdat) =>
    processRead env nPos nBlockPos block { l with blkdat := blkdat, nRewind := blkdat.nReadPos }

/-- The file as a turn searches it. What `SetPos` returns is not looked at. -/
def Loader.rewound (l : Loader σ) : CBufferedFile := ((l.blkdat.setPos l.nRewind).2.setLimit (u64 (-1))).2

/-- **A turn of the loop.** -/
def loadTurn (l : Loader σ) : LoadTurn × Loader σ :=
  let nRewind := u64 (l.nRewind + 1 : Nat)
  match locateHeader env.net l.rewound with
  | (.error .stuck, blkdat) => (.stuck, { l with blkdat := blkdat, nRewind := nRewind })
  | (.error _, blkdat) => (.noHeader, { l with blkdat := blkdat, nRewind := nRewind })
  | (.ok (nPos, none), blkdat) => (.skipped nPos, { l with blkdat := blkdat, nRewind := u64 (nPos + 1 : Nat) })
  | (.ok (nPos, some nSize), blkdat) =>
    readBlock env nPos nSize { l with blkdat := blkdat, nRewind := u64 (nPos + 1 : Nat) }

/-- The condition of the loop. -/
def Loader.goesOn (l : Loader σ) : Bool := l.blkdat.good && !l.blkdat.isEof

/-- **The loop**, with what came of its turns and what each of them left. -/
def loadLoop : Nat → Loader σ → Option (List (LoadTurn × Loader σ))
  | 0, _ => none
  | fuel + 1, l =>
    if l.goesOn then
      match loadTurn env l with
      | (.stuck, _) => none
      | (turn, l') => if turn.breaks then some [(turn, l')] else (loadLoop fuel l').map ((turn, l') :: ·)
    else some []

/-- What the loop starts with: it skips the part of the file that is indexed. -/
def loadStart (fileIn : Bytes) (node : σ) : Loader σ :=
  let blkdat := CBufferedFile.new fileIn (2 * MAX_BLOCK_SIZE) (MAX_BLOCK_SIZE + 8)
  let blkdat := match env.indexed with
    | none => blkdat
    | some nSize => blkdat.seek nSize
  ⟨blkdat, blkdat.nReadPos, 0, node⟩

/-- **`LoadExternalBlockFile`**: whether a block was loaded, and the turns that were made. Every turn but the last starts
    at least one byte further on, which bounds their number. -/
def loadExternalBlockFile (fileIn : Bytes) (node : σ) : Option (Bool × List (LoadTurn × Loader σ)) :=
  (loadLoop env (fileIn.length + env.nStartByte + 1) (loadStart env fileIn node)).map fun turns =>
    (decide (0 < (turns.getLast?.map (·.2.nLoaded)).getD 0), turns)

end

end Syscoin

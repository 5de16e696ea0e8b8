import Syscoin.Lib.Ring
import Syscoin.Primitives.Tx

/-!
# `Primitives.BufferedFile` — `CBufferedFile`

A file is read through a ring buffer. `nSrcPos` says how far the file has been read into the buffer, `nReadPos` how far the
buffer has been read. `Fill` reads ahead as far as the end of the ring and the bytes that are kept for a rewind let it;
`SetPos` goes back to a position, or to where it can.

The file is a list of bytes, and is read from `nSrcPos` on. `uint64` and `unsigned int` wrap around. A loop that would not
end is an error of its own.
-/

namespace Syscoin

open Lib

/-- `uint64` -/
def u64 (n : Int) : Nat := (n % 2 ^ 64).toNat

/-- `unsigned int` -/
def u32 (n : Int) : Nat := (n % 2 ^ 32).toNat

theorem u64_of_lt {n : Nat} (h : n < 2 ^ 64) : u64 n = n := by
  unfold u64
  rw [Int.emod_eq_of_lt (Int.natCast_nonneg n) (by omega), Int.toNat_natCast]

theorem u32_of_lt {n : Nat} (h : n < 2 ^ 32) : u32 n = n := by
  unfold u32
  rw [Int.emod_eq_of_lt (Int.natCast_nonneg n) (by omega), Int.toNat_natCast]

inductive StreamError where
  /-- "Read attempted past buffer limit" -/
  | limit
  /-- "Read larger than buffer size" -/
  | size
  /-- "CBufferedFile::Fill : end of file" -/
  | endOfFile
  /-- The loop does not end. -/
  | stuck
  /-- What is thrown by the object that is read. -/
  | malformed
deriving DecidableEq, Repr

structure CBufferedFile where
  src : Bytes
  /-- The end-of-file indicator of `src`. -/
  feof : Bool
  nSrcPos : Nat
  nReadPos : Nat
  nReadLimit : Nat
  nRewind : Nat
  vchBuf : Bytes
  /-- Whether `failbit` is set in `state`. Nothing sets another bit. -/
  failbit : Bool
deriving DecidableEq, Repr

namespace CBufferedFile

/-- `CBufferedFile(fileIn, nBufSize, nRewindIn, …)` -/
def new (fileIn : Bytes) (nBufSize nRewindIn : Nat) : CBufferedFile where
  src := fileIn
  feof := false
  nSrcPos := 0
  nReadPos := 0
  nReadLimit := u64 (-1)
  nRewind := nRewindIn
  vchBuf := List.replicate nBufSize 0
  failbit := false

def good (f : CBufferedFile) : Bool := !f.failbit

/-- `eof` -/
def isEof (f : CBufferedFile) : Bool := f.nReadPos = f.nSrcPos ∧ f.feof = true

/-- **`Fill`** -/
def fill : Proc CBufferedFile StreamError Bool := fun f =>
  let pos := u32 (f.nSrcPos % f.vchBuf.length : Nat)
  let readNow := u32 (f.vchBuf.length - pos)
  let nAvail := u32 (f.vchBuf.length - (f.nSrcPos - f.nReadPos) - f.nRewind)
  let readNow := if nAvail < readNow then nAvail else readNow
  if readNow = 0 then (.ok false, f)
  else
    -- `fread` sets the indicator where it reads less than it was asked for
    let read := (f.src.drop f.nSrcPos).take readNow
    let f := { f with feof := f.feof || decide (read.length < readNow) }
    if read = [] then (.error .endOfFile, { f with failbit := true })
    else (.ok true, { f with nSrcPos := u64 (f.nSrcPos + read.length : Nat), vchBuf := splice pos read f.vchBuf })

/-- `if (nReadPos == nSrcPos) Fill();` -/
def fillEmpty : Proc CBufferedFile StreamError Bool := fun f =>
  if f.nReadPos = f.nSrcPos then fill f else (.ok true, f)

/-- `nNow` bytes of the buffer. -/
def copyOut (nSize : Nat) : Proc CBufferedFile StreamError Bytes := fun f =>
  let pos := u32 (f.nReadPos % f.vchBuf.length : Nat)
  let nNow := nSize
  let nNow := if f.vchBuf.length < u64 (nNow + pos : Nat) then u64 (f.vchBuf.length - pos) else nNow
  let nNow := if f.nSrcPos < u64 (nNow + f.nReadPos : Nat) then u64 (f.nSrcPos - f.nReadPos) else nNow
  (.ok ((f.vchBuf.drop pos).take nNow), { f with nReadPos := u64 (f.nReadPos + nNow : Nat) })

/-- The loop of `read`. Every turn but the last one delivers something, so that `nSize` is fuel enough. -/
def readLoop : Nat → Nat → Proc CBufferedFile StreamError Bytes
  | _, 0 => Proc.pure []
  | 0, _ + 1 => Proc.lift (.error .stuck)
  | fuel + 1, nSize + 1 => do
    let _ ← fillEmpty
    let pch ← copyOut (nSize + 1)
    let rest ← readLoop fuel (nSize + 1 - pch.length)
    return pch ++ rest

/-- **`read`** -/
def read (nSize : Nat) : Proc CBufferedFile StreamError Bytes := fun f =>
  if f.nReadLimit < u64 (nSize + f.nReadPos : Nat) then (.error .limit, f)
  else if f.vchBuf.length < u64 (nSize + f.nRewind : Nat) then (.error .size, f)
  else readLoop nSize nSize f

/-- `GetPos` -/
def getPos : Proc CBufferedFile StreamError Nat := fun f => (.ok f.nReadPos, f)

/-- **`SetPos`** -/
def setPos (nPos : Nat) (f : CBufferedFile) : Bool × CBufferedFile :=
  if u64 (nPos + f.nRewind : Nat) < f.nSrcPos then (false, { f with nReadPos := u64 (f.nSrcPos - f.nRewind) })
  else if f.nSrcPos < nPos then (false, { f with nReadPos := f.nSrcPos })
  else (true, { f with nReadPos := nPos })

/-- `Seek`, where `nPos` fits a `long`: a file may be sought beyond its end. -/
def seek (nPos : Nat) (f : CBufferedFile) : CBufferedFile :=
  { f with nSrcPos := nPos, nReadPos := nPos, failbit := false, feof := false }

/-- **`SetLimit`** -/
def setLimit (nPos : Nat) (f : CBufferedFile) : Bool × CBufferedFile :=
  if nPos < f.nReadPos then (false, f) else (true, { f with nReadLimit := nPos })

/-- Whether `ch` is at the reading position. A reader that is told no goes one byte further. -/
def atByte (ch : UInt8) : Proc CBufferedFile StreamError Bool := fun f =>
  if f.vchBuf[f.nReadPos % f.vchBuf.length]? = some ch then (.ok true, f)
  else (.ok false, { f with nReadPos := u64 (f.nReadPos + 1 : Nat) })

/-- The loop of `FindByte`. -/
def findLoop (ch : UInt8) : Nat → Proc CBufferedFile StreamError Unit
  | 0 => Proc.lift (.error .stuck)
  | fuel + 1 => do
    let _ ← fillEmpty
    let found ← atByte ch
    if found then return () else findLoop ch fuel

/-- **`FindByte`.** Every turn goes one byte further, and behind the end of the file there is none. -/
def findByte (ch : UInt8) : Proc CBufferedFile StreamError Unit := fun f =>
  findLoop ch (f.src.length - f.nReadPos + 1) f

end CBufferedFile

/-! ## Reading an object -/

/-- How an object is read from a stream: what comes next depends on the bytes so far. No request is longer than an object
    in memory can be. -/
inductive ObjectReader (β : Type) where
  | done (value : β)
  | fail
  | read (nSize : Nat) (hsize : nSize < 2 ^ 63) (next : Bytes → ObjectReader β)

/-- `operator>>` -/
def ObjectReader.run {β : Type} : ObjectReader β → Proc CBufferedFile StreamError β
  | .done value => Proc.pure value
  | .fail => Proc.lift (.error .malformed)
  | .read nSize _ next => do
    let pch ← CBufferedFile.read nSize
    (next pch).run

/-! ## Runs -/

/-- The calls on a buffered file. -/
inductive StreamCall where
  | read (nSize : Nat) (hsize : nSize < 2 ^ 63)
  | findByte (ch : UInt8)
  | setPos (nPos : Nat)
  | setLimit (nPos : Nat)

namespace StreamCall

/-- The file that a call leaves, whether it returns or throws. -/
def run (f : CBufferedFile) : StreamCall → CBufferedFile
  | read nSize _ => (f.read nSize).2
  | findByte ch => (f.findByte ch).2
  | setPos nPos => (f.setPos nPos).2
  | setLimit nPos => (f.setLimit nPos).2

/-- The highest position read so far, after a call. Only `read` and `FindByte` read. -/
def highest (f : CBufferedFile) (m : Nat) : StreamCall → Nat
  | read nSize hsize => max m ((read nSize hsize).run f).nReadPos
  | findByte ch => max m ((findByte ch).run f).nReadPos
  | setPos _ => m
  | setLimit _ => m

/-- A call that is not for a position behind the end of the file. -/
def Inside (src : Bytes) : StreamCall → Prop
  | setPos nPos => nPos ≤ src.length
  | _ => True

end StreamCall

/-- The buffered files that calls lead to, with the highest position that was read. -/
inductive StreamRun (src : Bytes) (nBufSize nRewind : Nat) : Nat → CBufferedFile → Prop where
  | init : StreamRun src nBufSize nRewind 0 (CBufferedFile.new src nBufSize nRewind)
  | call {m : Nat} {f : CBufferedFile} (call : StreamCall) (run : StreamRun src nBufSize nRewind m f)
      (hinside : call.Inside src) : StreamRun src nBufSize nRewind (call.highest f m) (call.run f)

end Syscoin

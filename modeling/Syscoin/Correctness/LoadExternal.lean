import Syscoin.Chain.LoadExternal
import Syscoin.Correctness.BufferedFile

/-!
# `Correctness.LoadExternal` — which records of a block file are found

A turn that finds no record goes on one byte further, and one that loads a block goes on behind it: that far `SetPos`
reaches, because a header is short (`loadTurn_spec`). A turn whose block is no block may have read ahead further than
`SetPos` goes back, or to the end of the file. Where this does not happen, every record of the file is tried
(`LoadRun.covers`).

Every turn but the last starts further on than the one before it, so that the loop ends (`loadLoop_ends`).
-/

namespace Syscoin

open Lib CBufferedFile

/-- The size in the header at a position of the file, if there is a header. -/
def headerAt (net : Network) (src : Bytes) (nPos : Nat) : Option Nat :=
  if (src.drop nPos).take 4 = pchMessageStart net then
    if fromLE ((src.drop (nPos + 4)).take 4) < 80 ∨ MAX_BLOCK_SIZE < fromLE ((src.drop (nPos + 4)).take 4) then none
    else some (fromLE ((src.drop (nPos + 4)).take 4))
  else none

/-- A position that a turn took up: it was tried, or there is no header, or it is inside of a block that was loaded. A
    turn that is aborted takes up the rest. -/
def LoadTurn.Covers (net : Network) (src : Bytes) (nPos : Nat) : LoadTurn → Prop
  | skipped nFound => nFound = nPos ∧ headerAt net src nPos = none
  | failed nFound => nFound = nPos
  | loaded nFound nEnd => nFound ≤ nPos ∧ nPos < nEnd
  | aborted nFound => nFound ≤ nPos
  | noHeader => False
  | stuck => False

section

variable {base : Nat} {f f' : CBufferedFile} {net : Network}

/-- A header is found at the first byte that could start one. -/
structure HeaderFound (net : Network) (f f' : CBufferedFile) (nPos : Nat) (nSize : Option Nat) : Prop where
  size : nSize = headerAt net f.src nPos
  readPos_le : f.nReadPos ≤ nPos
  byte : f.src[nPos]? = some ((pchMessageStart net).headD 0)
  first : ∀ i, f.nReadPos ≤ i → i < nPos → f.src[i]? ≠ some ((pchMessageStart net).headD 0)
  lt_readPos : nPos < f'.nReadPos
  readPos'_le : f'.nReadPos ≤ nPos + 8
  failbit : f'.failbit = f.failbit

/-- Four bytes are read before the end of the file if the ring has room for them and there is no limit. -/
theorem read_four (h : Buffered base f) (hlimit : f.nReadLimit = 2 ^ 64 - 1) (hroom : f.nRewind + 4 ≤ f.vchBuf.length)
    {r : Except StreamError Bytes} (hrun : CBufferedFile.read 4 f = (r, f')) :
    Buffered base f' ∧ Onward f f' ∧
      ((∃ pch, r = .ok pch ∧ ReadOut f f' 4 pch) ∨ r = .error .endOfFile ∧ Short f f' 4) := by
  have hpos := h.srcPos_lt
  have hread := h.read_le
  obtain ⟨hbuffered, honward, hcases⟩ := read_spec h (by omega) hrun
  refine ⟨hbuffered, honward, ?_⟩
  rcases hcases with hok | hend | ⟨⟨-, hover⟩ | ⟨-, hover⟩, -⟩
  · exact .inl hok
  · exact .inr hend
  · omega
  · omega

/-- **What is read of a header** is what the file has there, unless the file ends in it. -/
theorem readHeaderSize_spec (h : Buffered base f) (hlimit : f.nReadLimit = 2 ^ 64 - 1)
    (hroom : f.nRewind + 4 ≤ f.vchBuf.length) {r : Except StreamError (Option Nat)} (hrun : readHeaderSize net f = (r, f')) :
    Buffered base f' ∧ Onward f f' ∧
      (r = .ok (headerAt net f.src f.nReadPos) ∧ f.nReadPos < f'.nReadPos ∧ f'.nReadPos ≤ f.nReadPos + 8 ∧
          f'.failbit = f.failbit ∨
        r = .error .endOfFile ∧ f.src.length < f.nReadPos + 8) := by
  obtain ⟨rf, f₁, hread⟩ : ∃ rf f₁, CBufferedFile.read 4 f = (rf, f₁) := ⟨_, _, rfl⟩
  obtain ⟨hbuffered₁, honward₁, ⟨buf, rfl, hbuf⟩ | ⟨rfl, hshort⟩⟩ := read_four h hlimit hroom hread
  · have hpos₁ := hbuf.readPos
    unfold readHeaderSize at hrun
    rw [Proc.bind_of_ok hread] at hrun
    by_cases hstart : buf = pchMessageStart net
    · -- the size is behind the message start
      rw [if_neg (not_not.mpr hstart)] at hrun
      have hroom₁ : f₁.nRewind + 4 ≤ f₁.vchBuf.length := by
        rw [honward₁.nRewind, honward₁.size]
        exact hroom
      obtain ⟨rf, f₂, hread₂⟩ : ∃ rf f₂, CBufferedFile.read 4 f₁ = (rf, f₂) := ⟨_, _, rfl⟩
      obtain ⟨hbuffered₂, honward₂, ⟨size, rfl, hsize⟩ | ⟨rfl, hshort⟩⟩ :=
        read_four hbuffered₁ (honward₁.limit.trans hlimit) hroom₁ hread₂
      · rw [Proc.bind_of_ok hread₂] at hrun
        have hbytes : size = (f.src.drop (f.nReadPos + 4)).take 4 := by
          rw [hsize.bytes, honward₁.src, hpos₁]
        have hat : headerAt net f.src f.nReadPos =
            if fromLE size < 80 ∨ MAX_BLOCK_SIZE < fromLE size then none else some (fromLE size) := by
          unfold headerAt
          rw [← hbuf.bytes, ← hbytes, if_pos hstart]
        have hresult : (r, f') = (.ok (headerAt net f.src f.nReadPos), f₂) := by
          rw [← hrun, hat]
          split
          · rfl
          · rfl
        cases hresult
        have hpos₂ := hsize.readPos
        exact ⟨hbuffered₂, honward₁.trans honward₂,
          .inl ⟨rfl, by omega, by omega, hsize.failbit.trans hbuf.failbit⟩⟩
      · rw [Proc.bind_of_error hread₂] at hrun
        cases hrun
        have hlt := hshort.src_lt
        rw [honward₁.src, hpos₁] at hlt
        exact ⟨hbuffered₂, honward₁.trans honward₂, .inr ⟨rfl, by omega⟩⟩
    · rw [if_pos hstart] at hrun
      cases hrun
      have hat : headerAt net f.src f.nReadPos = none := by
        unfold headerAt
        rw [← hbuf.bytes, if_neg hstart]
      exact ⟨hbuffered₁, honward₁, .inl ⟨by rw [hat], by omega, by omega, hbuf.failbit⟩⟩
  · unfold readHeaderSize at hrun
    rw [Proc.bind_of_error hread] at hrun
    cases hrun
    have hlt := hshort.src_lt
    exact ⟨hbuffered₁, honward₁, .inr ⟨rfl, by omega⟩⟩

/-- **The search for a header** takes up the first byte that could start one, and says what the file has there. If it
    meets the end of the file, no header is left in the file. -/
theorem locateHeader_spec (h : Buffered base f) (hlimit : f.nReadLimit = 2 ^ 64 - 1)
    (hroom : f.nRewind + 4 ≤ f.vchBuf.length) {r : Except StreamError (Nat × Option Nat)}
    (hrun : locateHeader net f = (r, f')) :
    Buffered base f' ∧ Onward f f' ∧
      ((∃ nPos nSize, r = .ok (nPos, nSize) ∧ HeaderFound net f f' nPos nSize) ∨
        r = .error .endOfFile ∧ ∀ i, f.nReadPos ≤ i → i + 8 ≤ f.src.length →
          f.src[i]? ≠ some ((pchMessageStart net).headD 0)) := by
  obtain ⟨rf, f₁, hfind⟩ : ∃ rf f₁, CBufferedFile.findByte ((pchMessageStart net).headD 0) f = (rf, f₁) := ⟨_, _, rfl⟩
  obtain ⟨hbuffered₁, honward₁, ⟨rfl, hfound⟩ | ⟨rfl, -, hnone⟩⟩ := findByte_spec h hfind
  · have hroom₁ : f₁.nRewind + 4 ≤ f₁.vchBuf.length := by
      rw [honward₁.nRewind, honward₁.size]
      exact hroom
    obtain ⟨rf, f₂, hheader⟩ : ∃ rf f₂, readHeaderSize net f₁ = (rf, f₂) := ⟨_, _, rfl⟩
    obtain ⟨hbuffered₂, honward₂, hcases⟩ :=
      readHeaderSize_spec hbuffered₁ (honward₁.limit.trans hlimit) hroom₁ hheader
    unfold locateHeader at hrun
    rw [Proc.bind_of_ok hfind, Proc.bind_of_ok (rfl : CBufferedFile.getPos f₁ = (.ok f₁.nReadPos, f₁))] at hrun
    rw [honward₁.src] at hcases
    rcases hcases with ⟨rfl, hlt, hle, hbit⟩ | ⟨rfl, hend⟩
    · rw [Proc.bind_of_ok hheader] at hrun
      cases hrun
      exact ⟨hbuffered₂, honward₁.trans honward₂, .inl ⟨_, _, rfl, rfl, honward₁.readPos, hfound.byte, hfound.first, hlt,
        hle, hbit.trans hfound.failbit⟩⟩
    · rw [Proc.bind_of_error hheader] at hrun
      cases hrun
      refine ⟨hbuffered₂, honward₁.trans honward₂, .inr ⟨rfl, ?_⟩⟩
      intro i hge hlast
      exact hfound.first i hge (by omega)
  · unfold locateHeader at hrun
    rw [Proc.bind_of_error hfind] at hrun
    cases hrun
    exact ⟨hbuffered₁, honward₁, .inr ⟨rfl, fun i hge _ => hnone i hge⟩⟩

end

/-! ## Turns -/

section

variable {σ β : Type} {env : LoadEnv σ β} {fileIn : Bytes} {l l' : Loader σ}

/-- **What holds before a turn.** -/
structure Loading (env : LoadEnv σ β) (fileIn : Bytes) (l : Loader σ) : Prop where
  buffered : Buffered env.nStartByte l.blkdat
  src : l.blkdat.src = fileIn
  rewind : l.blkdat.nRewind = MAX_BLOCK_SIZE + 8
  size : l.blkdat.vchBuf.length = 2 * MAX_BLOCK_SIZE
  start_le : env.nStartByte ≤ l.nRewind
  le_srcPos : l.nRewind ≤ l.blkdat.nSrcPos

theorem Loading.le_end (h : Loading env fileIn l) : l.nRewind ≤ max env.nStartByte fileIn.length := by
  have hle := h.buffered.src_le
  rw [h.src] at hle
  exact h.le_srcPos.trans hle

/-- Where a turn searches from. It is no further back than where the loop would have it. -/
theorem Loading.rewound_eq (h : Loading env fileIn l) :
    l.rewound = { l.blkdat with
      nReadPos := max l.nRewind (l.blkdat.nSrcPos - l.blkdat.nRewind)
      nReadLimit := 2 ^ 64 - 1 } := by
  have hlt := h.buffered.srcPos_lt
  have hle := h.le_srcPos
  have hmax : max l.nRewind (l.blkdat.nSrcPos - l.blkdat.nRewind) ≤ l.blkdat.nSrcPos := by omega
  have hfull : u64 (-1) = 2 ^ 64 - 1 := rfl
  unfold Loader.rewound
  rw [setPos_eq h.buffered (by omega), Nat.min_eq_right hmax, hfull]
  unfold CBufferedFile.setLimit
  rw [if_neg (by dsimp only; omega)]

theorem Loading.rewound_buffered (h : Loading env fileIn l) : Buffered env.nStartByte l.rewound := by
  have hlt := h.buffered.srcPos_lt
  have hle := h.le_srcPos
  exact (h.buffered.setPos (by omega) h.start_le).setLimit _

/-- **What a turn searches** starts where the loop would have it exactly if that is at most `nRewind` bytes behind what
    was read of the file. -/
theorem Loading.rewound_iff (h : Loading env fileIn l) :
    l.rewound.nReadPos = l.nRewind ↔ l.blkdat.nSrcPos ≤ l.nRewind + (MAX_BLOCK_SIZE + 8) := by
  rw [h.rewound_eq, h.rewind]
  show max l.nRewind (l.blkdat.nSrcPos - (MAX_BLOCK_SIZE + 8)) = l.nRewind ↔ _
  omega

/-- A turn took up `nPos`, and the next one starts further on. -/
structure Advanced (env : LoadEnv σ β) (fileIn : Bytes) (l l' : Loader σ) (nPos : Nat) : Prop where
  loading : Loading env fileIn l'
  from_le : l.rewound.nReadPos ≤ nPos
  first : ∀ i, l.rewound.nReadPos ≤ i → i < nPos → fileIn[i]? ≠ some ((pchMessageStart env.net).headD 0)
  lt_rewind : nPos < l'.nRewind

/-- The next turn starts where the loop has it, and if there is none, no header is left in the file. -/
structure Resuming (fileIn : Bytes) (l' : Loader σ) : Prop where
  near : l'.blkdat.nSrcPos ≤ l'.nRewind + (MAX_BLOCK_SIZE + 8)
  ready : l'.goesOn = false → fileIn.length < l'.nRewind + 8

/-- **What a turn comes to.** -/
inductive TurnResult (env : LoadEnv σ β) (fileIn : Bytes) (l : Loader σ) : LoadTurn → Loader σ → Prop where
  | noHeader {l' : Loader σ}
      (hnone : ∀ i, l.rewound.nReadPos ≤ i → i + 8 ≤ fileIn.length →
        fileIn[i]? ≠ some ((pchMessageStart env.net).headD 0)) :
      TurnResult env fileIn l .noHeader l'
  | skipped {l' : Loader σ} {nPos : Nat} (hadvanced : Advanced env fileIn l l' nPos) (hrewind : l'.nRewind = nPos + 1)
      (hresuming : Resuming fileIn l') (hnone : headerAt env.net fileIn nPos = none) :
      TurnResult env fileIn l (.skipped nPos) l'
  | failed {l' : Loader σ} {nPos : Nat} (hadvanced : Advanced env fileIn l l' nPos) (hrewind : l'.nRewind = nPos + 1) :
      TurnResult env fileIn l (.failed nPos) l'
  | loaded {l' : Loader σ} {nPos : Nat} (hadvanced : Advanced env fileIn l l' nPos) (hresuming : Resuming fileIn l') :
      TurnResult env fileIn l (.loaded nPos l'.nRewind) l'
  | aborted {l' : Loader σ} {nPos : Nat} (hadvanced : Advanced env fileIn l l' nPos) :
      TurnResult env fileIn l (.aborted nPos) l'

/-- Reading on from one place to another keeps what holds. -/
theorem Loading.onward (h : Loading env fileIn l) {f f' : CBufferedFile} (hsrc : f.src = l.blkdat.src)
    (hrewind : f.nRewind = l.blkdat.nRewind) (hsize : f.vchBuf = l.blkdat.vchBuf)
    (hbuffered : Buffered env.nStartByte f') (honward : Onward f f') {nRewind : Nat} (hstart : env.nStartByte ≤ nRewind)
    (hle : nRewind ≤ f'.nSrcPos) : Loading env fileIn { l with blkdat := f', nRewind := nRewind } where
  buffered := hbuffered
  src := by
    show f'.src = fileIn
    rw [honward.src, hsrc, h.src]
  rewind := by
    show f'.nRewind = _
    rw [honward.nRewind, hrewind, h.rewind]
  size := by
    show f'.vchBuf.length = _
    rw [honward.size, hsize, h.size]
  start_le := hstart
  le_srcPos := hle

/-- It is about the file and the place in it only. -/
theorem Loading.congr (h : Loading env fileIn l) (hblkdat : l'.blkdat = l.blkdat) (hrewind : l'.nRewind = l.nRewind) :
    Loading env fileIn l' := by
  obtain ⟨hbuffered, hsrc, hback, hsize, hstart, hle⟩ := h
  rw [← hblkdat] at hbuffered hsrc hback hsize
  rw [← hrewind] at hstart
  rw [← hrewind, ← hblkdat] at hle
  exact ⟨hbuffered, hsrc, hback, hsize, hstart, hle⟩

/-- What becomes of a block leaves the file alone. -/
theorem processRead_spec (env : LoadEnv σ β) (l : Loader σ) (nPos nBlockPos : Nat) (block : β) :
    (processRead env nPos nBlockPos block l).2.blkdat = l.blkdat ∧
      (processRead env nPos nBlockPos block l).2.nRewind = l.nRewind ∧
      ((processRead env nPos nBlockPos block l).1 = .loaded nPos l.nRewind ∨
        (processRead env nPos nBlockPos block l).1 = .aborted nPos) := by
  unfold processRead
  split
  · split
    · exact ⟨rfl, rfl, .inl rfl⟩
    · dsimp only
      split
      · exact ⟨rfl, rfl, .inr rfl⟩
      · exact ⟨rfl, rfl, .inl rfl⟩
  · exact ⟨rfl, rfl, .inl rfl⟩

/-- Where nothing is left to read, the file has been read to its end. -/
theorem Loading.ready (h : Loading env fileIn l) (hbit : l.blkdat.failbit = false)
    (hle : l.blkdat.nReadPos < l.nRewind + 8) : l.goesOn = false → fileIn.length < l.nRewind + 8 := by
  intro hstop
  have heof : l.blkdat.isEof = true := by
    simpa [Loader.goesOn, good, hbit] using hstop
  obtain ⟨hpos, hset⟩ : l.blkdat.nReadPos = l.blkdat.nSrcPos ∧ l.blkdat.feof = true := by
    simpa [isEof] using heof
  have hend := h.buffered.eof hset
  rw [h.src] at hend
  omega

/-- **Reading a block behind its header.** -/
theorem readBlock_spec {l₁ : Loader σ} {nPos : Nat} (nSize : Nat) (h : Advanced env fileIn l l₁ nPos)
    (hrewind : l₁.nRewind = nPos + 1) (hnear : l₁.blkdat.nSrcPos ≤ l₁.blkdat.nReadPos + (MAX_BLOCK_SIZE + 8))
    (hlt : nPos < l₁.blkdat.nReadPos) (hbit : l₁.blkdat.failbit = false) :
    TurnResult env fileIn l (readBlock env nPos nSize l₁).1 (readBlock env nPos nSize l₁).2 := by
  have hmax : MAX_BLOCK_SIZE = 2097152 := rfl
  let f := (l₁.blkdat.setLimit (u64 (l₁.blkdat.nReadPos + nSize : Nat))).2
  obtain ⟨limit, hf⟩ : ∃ limit, f = { l₁.blkdat with nReadLimit := limit } := ⟨_, setLimit_eq _⟩
  have hbuffered : Buffered env.nStartByte f := h.loading.buffered.setLimit _
  obtain ⟨r, f', hrun⟩ : ∃ r f', env.unserialize.run f = (r, f') := ⟨_, _, rfl⟩
  obtain ⟨hbuffered', honward, hstuck, hok⟩ := reader_spec env.unserialize hbuffered hrun
  have hpos : f.nReadPos = l₁.blkdat.nReadPos := by rw [hf]
  have hsrcPos : f.nSrcPos = l₁.blkdat.nSrcPos := by rw [hf]
  have hread := honward.readPos
  have hmore := honward.srcPos
  have hle := h.loading.le_srcPos
  have hstart := h.loading.start_le
  have hnext : ∀ {nRewind : Nat}, l₁.nRewind ≤ nRewind → nRewind ≤ f'.nSrcPos →
      Advanced env fileIn l { l₁ with blkdat := f', nRewind := nRewind } nPos := by
    intro nRewind hge hsrc
    refine ⟨h.loading.onward (by rw [hf]) (by rw [hf]) (by rw [hf]) hbuffered' honward (hstart.trans hge) hsrc,
      h.from_le, h.first, ?_⟩
    show nPos < nRewind
    omega
  unfold readBlock
  dsimp only
  rw [hrun]
  cases r with
  | error e =>
    cases e with
    | stuck => exact absurd rfl hstuck
    | _ => exact .failed (hnext (Nat.le_refl _) (by omega)) hrewind
  | ok block =>
    -- the block is behind its header, and the turn has read no further ahead of its end than a `Fill` does
    let l₂ : Loader σ := { l₁ with blkdat := f', nRewind := f'.nReadPos }
    have hadvanced : Advanced env fileIn l l₂ nPos := hnext (by omega) hbuffered'.read_le
    have hahead := honward.ahead
    have hback : f.nRewind = MAX_BLOCK_SIZE + 8 := by rw [hf]; exact h.loading.rewind
    have hring : f.vchBuf.length = 2 * MAX_BLOCK_SIZE := by rw [hf]; exact h.loading.size
    rw [hback, hring] at hahead
    have hbit' : f'.failbit = false := by rw [hok block rfl, hf]; exact hbit
    have hready := hadvanced.loading.ready hbit' (Nat.lt_add_of_pos_right (by omega))
    obtain ⟨hblkdat, hnRewind, hturn⟩ := processRead_spec env l₂ nPos l₁.blkdat.nReadPos block
    show TurnResult env fileIn l (processRead env nPos l₁.blkdat.nReadPos block l₂).1
      (processRead env nPos l₁.blkdat.nReadPos block l₂).2
    revert hblkdat hnRewind hturn
    generalize processRead env nPos l₁.blkdat.nReadPos block l₂ = result
    obtain ⟨turn, l₃⟩ := result
    intro hblkdat hnRewind hturn
    have hadvanced₃ : Advanced env fileIn l l₃ nPos :=
      ⟨hadvanced.loading.congr hblkdat hnRewind, hadvanced.from_le, hadvanced.first, hnRewind ▸ hadvanced.lt_rewind⟩
    rcases hturn with hturn | hturn
    · obtain rfl : turn = .loaded nPos l₃.nRewind := by
        rw [hnRewind]
        exact hturn
      refine .loaded hadvanced₃ ⟨?_, ?_⟩
      · rw [hnRewind, hblkdat]
        show f'.nSrcPos ≤ f'.nReadPos + (MAX_BLOCK_SIZE + 8)
        omega
      · unfold Loader.goesOn
        rw [hnRewind, hblkdat]
        exact hready
    · obtain rfl : turn = .aborted nPos := hturn
      exact .aborted hadvanced₃

/-- **A turn of the loop.** -/
theorem loadTurn_spec (h : Loading env fileIn l) (hon : l.goesOn = true) :
    TurnResult env fileIn l (loadTurn env l).1 (loadTurn env l).2 := by
  have hmax : MAX_BLOCK_SIZE = 2097152 := rfl
  have heq := h.rewound_eq
  have hbuffered := h.rewound_buffered
  have hsrcLt := h.buffered.srcPos_lt
  have hbit : l.blkdat.failbit = false := by
    simpa [Loader.goesOn, good] using And.left (Bool.and_eq_true_iff.mp hon)
  have hsrc : l.rewound.src = fileIn := by rw [heq]; exact h.src
  have hback : l.rewound.nRewind = MAX_BLOCK_SIZE + 8 := by rw [heq]; exact h.rewind
  have hring : l.rewound.vchBuf.length = 2 * MAX_BLOCK_SIZE := by rw [heq]; exact h.size
  have hnear : l.rewound.nSrcPos ≤ l.rewound.nReadPos + (MAX_BLOCK_SIZE + 8) := by
    rw [heq, h.rewind]
    show l.blkdat.nSrcPos ≤ max l.nRewind (l.blkdat.nSrcPos - (MAX_BLOCK_SIZE + 8)) + (MAX_BLOCK_SIZE + 8)
    omega
  obtain ⟨r, f', hrun⟩ : ∃ r f', locateHeader env.net l.rewound = (r, f') := ⟨_, _, rfl⟩
  obtain ⟨hbuffered', honward, hcases⟩ :=
    locateHeader_spec hbuffered (by rw [heq]) (by rw [hback, hring]; omega) hrun
  have hahead := honward.ahead
  rw [hback, hring] at hahead
  unfold loadTurn
  dsimp only
  rw [hrun]
  rcases hcases with ⟨nPos, nSize, rfl, hfound⟩ | ⟨rfl, hnone⟩
  · have hfrom := hfound.readPos_le
    have hlt := hfound.lt_readPos
    have hle := hfound.readPos'_le
    have hread := hbuffered'.read_le
    have hsrcLt' := hbuffered'.srcPos_lt
    have hstart := hbuffered.base_le
    have hnext : u64 (nPos + 1 : Nat) = nPos + 1 := u64_of_lt (by omega)
    have hbit' : f'.failbit = false := by
      rw [hfound.failbit, heq]
      exact hbit
    let l' : Loader σ := { l with blkdat := f', nRewind := nPos + 1 }
    have hadvanced : Advanced env fileIn l l' nPos := by
      refine ⟨h.onward (by rw [heq]) (by rw [heq]) (by rw [heq]) hbuffered' honward (by omega) (by omega), hfrom, ?_,
        Nat.lt_succ_self nPos⟩
      rw [← hsrc]
      exact hfound.first
    have hnear' : f'.nSrcPos ≤ f'.nReadPos + (MAX_BLOCK_SIZE + 8) := by omega
    cases nSize with
    | none =>
      dsimp only
      rw [hnext]
      refine .skipped hadvanced rfl ⟨?_, ?_⟩ ?_
      · -- a header is shorter than what is kept for a rewind in front of what a `Fill` reads
        show f'.nSrcPos ≤ nPos + 1 + (MAX_BLOCK_SIZE + 8)
        omega
      · apply hadvanced.loading.ready hbit'
        show f'.nReadPos < nPos + 1 + 8
        omega
      · rw [← hsrc]
        exact hfound.size.symm
    | some nSize =>
      dsimp only
      rw [hnext]
      exact readBlock_spec nSize hadvanced rfl hnear' hlt hbit'
  · refine .noHeader ?_
    rw [← hsrc]
    exact hnone

/-! ## The loop -/

/-- **A run of the loop**, turn by turn. -/
inductive LoadRun (env : LoadEnv σ β) (fileIn : Bytes) : Loader σ → List (LoadTurn × Loader σ) → Prop where
  | stop {l : Loader σ} (hoff : l.goesOn = false) : LoadRun env fileIn l []
  | last {l l' : Loader σ} {turn : LoadTurn} (hturn : TurnResult env fileIn l turn l') (hbreaks : turn.breaks = true) :
      LoadRun env fileIn l [(turn, l')]
  | next {l l' : Loader σ} {turn : LoadTurn} {turns : List (LoadTurn × Loader σ)}
      (hturn : TurnResult env fileIn l turn l') (hbreaks : turn.breaks = false) (hrest : LoadRun env fileIn l' turns) :
      LoadRun env fileIn l ((turn, l') :: turns)

/-- A turn that does not leave the loop starts further on than the one before it. -/
theorem TurnResult.advanced {turn : LoadTurn} (h : TurnResult env fileIn l turn l') (hbreaks : turn.breaks = false) :
    ∃ nPos, Advanced env fileIn l l' nPos := by
  cases h with
  | noHeader _ => cases hbreaks
  | skipped hadvanced _ _ _ => exact ⟨_, hadvanced⟩
  | failed hadvanced _ => exact ⟨_, hadvanced⟩
  | loaded hadvanced _ => exact ⟨_, hadvanced⟩
  | aborted _ => cases hbreaks

theorem TurnResult.not_stuck (h : TurnResult env fileIn l .stuck l') : False := by
  cases h

/-- **The loop ends.** The fuel counts the bytes behind the place where the next turn starts. -/
theorem loadLoop_ends {fuel : Nat} (h : Loading env fileIn l)
    (hfuel : max env.nStartByte fileIn.length < l.nRewind + fuel) :
    ∃ turns, loadLoop env fuel l = some turns ∧ LoadRun env fileIn l turns := by
  induction fuel generalizing l with
  | zero =>
    have hend := h.le_end
    omega
  | succ fuel ih =>
    rw [loadLoop]
    by_cases hon : l.goesOn = true
    · rw [if_pos hon]
      have hturn := loadTurn_spec h hon
      have hfrom : l.nRewind ≤ l.rewound.nReadPos := by
        rw [h.rewound_eq]
        exact Nat.le_max_left _ _
      revert hturn
      generalize loadTurn env l = result
      obtain ⟨turn, l'⟩ := result
      intro hturn
      by_cases hbreaks : turn.breaks = true
      · cases turn with
        | stuck => exact hturn.not_stuck.elim
        | _ => exact ⟨_, if_pos hbreaks, .last hturn hbreaks⟩
      · obtain ⟨nPos, hadvanced⟩ := hturn.advanced (Bool.not_eq_true _ ▸ hbreaks)
        have hge := hadvanced.from_le
        have hgt := hadvanced.lt_rewind
        obtain ⟨turns, hturns, hrun⟩ := ih hadvanced.loading (by omega)
        cases turn with
        | stuck => exact hturn.not_stuck.elim
        | _ =>
          refine ⟨(_, l') :: turns, ?_, .next hturn (Bool.not_eq_true _ ▸ hbreaks) hrun⟩
          show (if _ then _ else _) = _
          rw [if_neg hbreaks, hturns]
          rfl
    · rw [if_neg hon]
      exact ⟨[], rfl, .stop (Bool.not_eq_true _ ▸ hon)⟩

/-- After a turn whose block is no block, the loop is one byte behind its message start. -/
theorem LoadRun.failed {turns : List (LoadTurn × Loader σ)} (run : LoadRun env fileIn l turns) {nPos : Nat}
    (hmem : (.failed nPos, l') ∈ turns) : Loading env fileIn l' ∧ l'.nRewind = nPos + 1 := by
  have hfailed : ∀ {l l' : Loader σ}, TurnResult env fileIn l (.failed nPos) l' →
      Loading env fileIn l' ∧ l'.nRewind = nPos + 1 := by
    intro l l' hturn
    cases hturn with
    | failed hadvanced hrewind => exact ⟨hadvanced.loading, hrewind⟩
  induction run with
  | stop _ => cases hmem
  | last hturn _ =>
    cases List.mem_singleton.mp hmem
    exact hfailed hturn
  | next hturn _ _ ih =>
    rcases List.mem_cons.mp hmem with hhead | htail
    · cases hhead
      exact hfailed hturn
    · exact ih htail

/-- A turn whose block is no block leaves the file where the search can go on one byte behind the message start. -/
def ResumesAfter (l' : Loader σ) (nPos : Nat) : Prop :=
  l'.goesOn = true ∧ l'.blkdat.nSrcPos ≤ nPos + 1 + (MAX_BLOCK_SIZE + 8)

/-- **No header is skipped** by a run in which every turn whose block is no block leaves the file so. -/
theorem LoadRun.covers {turns : List (LoadTurn × Loader σ)} (run : LoadRun env fileIn l turns)
    (h : Loading env fileIn l) (hresuming : Resuming fileIn l)
    (hfailed : ∀ nPos l', (.failed nPos, l') ∈ turns → ResumesAfter l' nPos) {nPos : Nat} (hge : l.nRewind ≤ nPos)
    (hend : nPos + 8 ≤ fileIn.length) (hbyte : fileIn[nPos]? = some ((pchMessageStart env.net).headD 0)) :
    ∃ turn ∈ turns, turn.1.Covers env.net fileIn nPos := by
  induction run with
  | stop hoff =>
    have hleft := hresuming.ready hoff
    omega
  | @last l l' turn hturn hbreaks =>
    have hfrom : l.rewound.nReadPos = l.nRewind := h.rewound_iff.mpr hresuming.near
    refine ⟨(turn, l'), List.mem_singleton_self _, ?_⟩
    cases hturn with
    | noHeader hnone => exact absurd hbyte (hnone nPos (by omega) hend)
    | aborted hadvanced =>
      apply Nat.le_of_not_lt
      intro hlt
      exact hadvanced.first nPos (by omega) hlt hbyte
    | _ => cases hbreaks
  | @next l l' turn turns hturn hbreaks hrest ih =>
    have hfrom : l.rewound.nReadPos = l.nRewind := h.rewound_iff.mpr hresuming.near
    -- what the next turns take up, this one need not
    have hlater : Loading env fileIn l' → Resuming fileIn l' → l'.nRewind ≤ nPos →
        ∃ turn' ∈ (turn, l') :: turns, turn'.1.Covers env.net fileIn nPos := by
      intro hloading hresuming' hle
      obtain ⟨turn', hmem, hcovers⟩ := ih hloading hresuming'
        (fun nPos' l'' hmem => hfailed nPos' l'' (List.mem_cons_of_mem _ hmem)) hle
      exact ⟨turn', List.mem_cons_of_mem _ hmem, hcovers⟩
    have hfound : ∀ {nFound : Nat}, Advanced env fileIn l l' nFound → nFound ≤ nPos := by
      intro nFound hadvanced
      apply Nat.le_of_not_lt
      intro hlt
      exact hadvanced.first nPos (by omega) hlt hbyte
    cases hturn with
    | skipped hadvanced hrewind hresuming' hnone =>
      rcases Nat.eq_or_lt_of_le (hfound hadvanced) with rfl | hlt
      · exact ⟨_, List.mem_cons_self, rfl, hnone⟩
      · exact hlater hadvanced.loading hresuming' (by omega)
    | failed hadvanced hrewind =>
      rcases Nat.eq_or_lt_of_le (hfound hadvanced) with rfl | hlt
      · exact ⟨_, List.mem_cons_self, rfl⟩
      · obtain ⟨hon, hnear⟩ := hfailed _ _ List.mem_cons_self
        refine hlater hadvanced.loading ⟨hrewind ▸ hnear, ?_⟩ (by omega)
        intro hoff
        rw [hon] at hoff
        cases hoff
    | loaded hadvanced hresuming' =>
      by_cases hlt : nPos < l'.nRewind
      · exact ⟨_, List.mem_cons_self, hfound hadvanced, hlt⟩
      · exact hlater hadvanced.loading hresuming' (Nat.le_of_not_lt hlt)
    | _ => cases hbreaks

theorem loadStart_loading (node : σ) (hstart : env.nStartByte < 2 ^ 32) (hfile : fileIn.length < 2 ^ 63) :
    Loading env fileIn (loadStart env fileIn node) ∧ Resuming fileIn (loadStart env fileIn node) ∧
      (loadStart env fileIn node).nRewind = env.nStartByte := by
  have hmax : MAX_BLOCK_SIZE = 2097152 := rfl
  have hring : (List.replicate (2 * MAX_BLOCK_SIZE) (0 : UInt8)).length = 2 * MAX_BLOCK_SIZE := List.length_replicate
  -- without what is indexed, the loop starts at the start of the file
  have hplace : (loadStart env fileIn node).blkdat =
      { CBufferedFile.new fileIn (2 * MAX_BLOCK_SIZE) (MAX_BLOCK_SIZE + 8) with
        nSrcPos := env.nStartByte
        nReadPos := env.nStartByte } := by
    unfold loadStart LoadEnv.nStartByte
    cases env.indexed with
    | none => rfl
    | some nSize => rfl
  have hrewind : (loadStart env fileIn node).nRewind = env.nStartByte := by
    show (loadStart env fileIn node).blkdat.nReadPos = env.nStartByte
    rw [hplace]
  refine ⟨⟨?_, by rw [hplace]; rfl, by rw [hplace]; rfl, by rw [hplace]; exact hring, ?_, ?_⟩, ⟨?_, ?_⟩, hrewind⟩
  · rw [hplace]
    refine ⟨?_, ?_, hfile, by omega, Nat.le_refl _, Nat.le_refl _, Nat.le_max_left _ _, Nat.le_add_right _ _, ?_, ?_⟩
    · show MAX_BLOCK_SIZE + 8 < (List.replicate _ _).length
      rw [hring]
      omega
    · show (List.replicate _ _).length < 2 ^ 32
      rw [hring]
      omega
    · exact (holds_empty _ _ env.nStartByte).mono (Nat.le_max_left _ _) (Nat.le_refl _)
    · intro hset
      cases hset
  · rw [hrewind]
  · rw [hrewind, hplace]
  · rw [hrewind, hplace]
    show env.nStartByte ≤ _
    omega
  · intro hoff
    unfold Loader.goesOn at hoff
    rw [hplace] at hoff
    simp [good, isEof, CBufferedFile.new] at hoff

/-! ## The whole search -/

/-- What the turns of a search come to. The search goes on one byte behind a message start whose block is no block
    exactly if the file was not read ahead too far, and to its end. If it always goes on so, it takes up every position
    of the file that could start a header. -/
structure Searches (env : LoadEnv σ β) (fileIn : Bytes) (turns : List (LoadTurn × Loader σ)) : Prop where
  resumes : ∀ nPos l', (.failed nPos, l') ∈ turns →
    (l'.goesOn = true ∧ l'.rewound.nReadPos = nPos + 1 ↔ ResumesAfter l' nPos)
  covers : (∀ nPos l', (.failed nPos, l') ∈ turns → ResumesAfter l' nPos) →
    ∀ nPos, env.nStartByte ≤ nPos → nPos + 8 ≤ fileIn.length →
      fileIn[nPos]? = some ((pchMessageStart env.net).headD 0) → ∃ turn ∈ turns, turn.1.Covers env.net fileIn nPos

theorem LoadRun.resumes_iff {turns : List (LoadTurn × Loader σ)} (run : LoadRun env fileIn l turns) {nPos : Nat}
    (hmem : (.failed nPos, l') ∈ turns) :
    l'.goesOn = true ∧ l'.rewound.nReadPos = nPos + 1 ↔ ResumesAfter l' nPos := by
  obtain ⟨hloading, hrewind⟩ := run.failed hmem
  have hiff := hloading.rewound_iff
  rw [hrewind] at hiff
  exact and_congr_right fun _ => hiff

theorem loadExternalBlockFile_searches (node : σ) (hstart : env.nStartByte < 2 ^ 32) (hfile : fileIn.length < 2 ^ 63) :
    ∃ any turns, loadExternalBlockFile env fileIn node = some (any, turns) ∧ Searches env fileIn turns := by
  obtain ⟨hloading, hresuming, hrewind⟩ := loadStart_loading node hstart hfile
  have hfuel : max env.nStartByte fileIn.length <
      (loadStart env fileIn node).nRewind + (fileIn.length + env.nStartByte + 1) := by omega
  obtain ⟨turns, hturns, hrun⟩ := loadLoop_ends hloading hfuel
  have hload : loadExternalBlockFile env fileIn node =
      some (decide (0 < (turns.getLast?.map (·.2.nLoaded)).getD 0), turns) := by
    unfold loadExternalBlockFile
    rw [hturns]
    rfl
  refine ⟨_, turns, hload, ⟨?_, ?_⟩⟩
  · intro nPos l' hmem
    exact hrun.resumes_iff hmem
  · intro hfailed nPos hge hend hbyte
    exact hrun.covers hloading hresuming hfailed (by omega) hend hbyte

end

/-- **A buffered file is the file, and goes back as far as is promised only where it was not read ahead.** So an import
    goes on one byte behind a message start whose block is no block exactly if reading the block has not read ahead too
    far, or to the end of the file; if that holds throughout, it takes up all of the file. It always ends. -/
theorem buffered_search_iff {src : Bytes} {nBufSize nRewind m : Nat} {f : CBufferedFile} (hrewind : nRewind < nBufSize)
    (hsize : nBufSize < 2 ^ 32) (hsrc : src.length < 2 ^ 63) (run : StreamRun src nBufSize nRewind m f) {σ β : Type}
    (env : LoadEnv σ β) {fileIn : Bytes} (node : σ) (hstart : env.nStartByte < 2 ^ 32) (hfile : fileIn.length < 2 ^ 63) :
    (f.src = src ∧ Serves f ∧ (Rewinds nRewind m f ↔ f.nSrcPos ≤ max m nRewind)) ∧
      ∃ any turns, loadExternalBlockFile env fileIn node = some (any, turns) ∧ Searches env fileIn turns := by
  have hstreamed := Streamed.of_run hrewind hsize hsrc run
  exact ⟨⟨hstreamed.src, hstreamed.serves, hstreamed.rewinds_iff⟩, loadExternalBlockFile_searches node hstart hfile⟩

namespace ReadAhead

/-- A file of four bytes, of which one has been read through a ring of four that keeps one. -/
def file : CBufferedFile := (StreamCall.read 1 (by decide)).run (CBufferedFile.new [1, 2, 3, 4] 4 1)

theorem file_run : StreamRun [1, 2, 3, 4] 4 1 1 file :=
  .call (.read 1 (by decide)) .init trivial

/-- A message start with the size of a block header, and nothing behind it. -/
def cut : Bytes := pchMessageStart .main ++ [80, 0, 0, 0]

def env : LoadEnv Unit Unit where
  net := .main
  indexed := none
  unserialize := .read 80 (by decide) fun _ => .done ()
  processBlock node _ _ := (some (true, false), node)

theorem searched :
    (file.src = [1, 2, 3, 4] ∧ Serves file ∧ (Rewinds 1 1 file ↔ file.nSrcPos ≤ max 1 1)) ∧
      ∃ any turns, loadExternalBlockFile env cut () = some (any, turns) ∧ Searches env cut turns :=
  buffered_search_iff (by decide) (by decide) (by decide) file_run env () (by decide) (by decide)

/-- The byte that was read cannot be gone back to: two more are in the ring behind it. -/
theorem not_rewound : StreamRun [1, 2, 3, 4] 4 1 1 file ∧ ¬ Rewinds 1 1 file := by
  refine ⟨file_run, ?_⟩
  intro hall
  have hback : (file.setPos 0).1 = false := by decide
  have hpromised := hall 0 (by decide) (by decide)
  rw [hback] at hpromised
  cases hpromised

end ReadAhead

end Syscoin

import Syscoin.Primitives.BufferedFile

/-!
# `Correctness.BufferedFile` — what a buffered file delivers, and how far it goes back

The ring holds the last bytes that were read from the file (`Buffered`), as long as it is smaller than `unsigned int` can
count. So a call delivers the bytes of the file from the reading position on, wherever that is
(`read_spec`, `findByte_spec`).

`SetPos` goes back `nRewind` bytes from where the file has been read ahead to, not from where a reader has come to
(`setPos_true_iff`). The difference is up to the size of the ring less `nRewind` (`Onward.ahead`).
-/

namespace Syscoin

open Lib

namespace CBufferedFile

/-- **What holds between two calls**, of a file that is read from position `base` on. -/
structure Buffered (base : Nat) (f : CBufferedFile) : Prop where
  rewind_lt : f.nRewind < f.vchBuf.length
  size_lt : f.vchBuf.length < 2 ^ 32
  src_lt : f.src.length < 2 ^ 63
  base_lt : base < 2 ^ 63
  base_le : base ≤ f.nReadPos
  read_le : f.nReadPos ≤ f.nSrcPos
  src_le : f.nSrcPos ≤ max base f.src.length
  near : f.nSrcPos ≤ f.nReadPos + f.vchBuf.length
  holds : Holds f.vchBuf f.src (max base (f.nSrcPos - f.vchBuf.length)) f.nSrcPos
  eof : f.feof = true → f.src.length ≤ f.nSrcPos

/-- What a call that reads does to the positions. It reads ahead of the reader by as much as a `Fill` may. -/
structure Onward (f f' : CBufferedFile) : Prop where
  src : f'.src = f.src
  nRewind : f'.nRewind = f.nRewind
  size : f'.vchBuf.length = f.vchBuf.length
  limit : f'.nReadLimit = f.nReadLimit
  srcPos : f.nSrcPos ≤ f'.nSrcPos
  readPos : f.nReadPos ≤ f'.nReadPos
  ahead : f'.nSrcPos ≤ max f.nSrcPos (f'.nReadPos + (f.vchBuf.length - f.nRewind))

theorem Onward.refl (f : CBufferedFile) : Onward f f :=
  ⟨rfl, rfl, rfl, rfl, Nat.le_refl _, Nat.le_refl _, Nat.le_max_left _ _⟩

theorem Onward.trans {f f' f'' : CBufferedFile} (h : Onward f f') (h' : Onward f' f'') : Onward f f'' where
  src := h'.src.trans h.src
  nRewind := h'.nRewind.trans h.nRewind
  size := h'.size.trans h.size
  limit := h'.limit.trans h.limit
  srcPos := h.srcPos.trans h'.srcPos
  readPos := h.readPos.trans h'.readPos
  ahead := by
    have hfirst := h.ahead
    have hsecond := h'.ahead
    have hread := h'.readPos
    rw [h.size, h.nRewind] at hsecond
    omega

section

variable {base : Nat} {f : CBufferedFile} {nSize : Nat} {ch : UInt8}

/-- No position is out of range. -/
theorem Buffered.srcPos_lt (h : Buffered base f) : f.nSrcPos < 2 ^ 63 := by
  have hsrc := h.src_lt
  have hbase := h.base_lt
  have hle := h.src_le
  omega

/-- A reader inside of the buffer goes to another place in it. -/
theorem Buffered.atReadPos (h : Buffered base f) {nReadPos : Nat} (hbase : base ≤ nReadPos) (hle : nReadPos ≤ f.nSrcPos)
    (hnear : f.nSrcPos ≤ nReadPos + f.vchBuf.length) : Buffered base { f with nReadPos := nReadPos } :=
  ⟨h.rewind_lt, h.size_lt, h.src_lt, h.base_lt, hbase, hle, h.src_le, hnear, h.holds, h.eof⟩

/-- What is read of the file goes into the ring. -/
theorem Buffered.append (h : Buffered base f) (hempty : f.nReadPos = f.nSrcPos) {bytes : Bytes}
    (hbytes : bytes = (f.src.drop f.nSrcPos).take bytes.length) (hmore : f.nSrcPos + bytes.length ≤ f.src.length)
    (hroom : f.nSrcPos % f.vchBuf.length + bytes.length ≤ f.vchBuf.length) {feof : Bool}
    (heof : feof = true → f.src.length ≤ f.nSrcPos + bytes.length) :
    Buffered base { f with
      feof := feof
      nSrcPos := f.nSrcPos + bytes.length
      vchBuf := splice (f.nSrcPos % f.vchBuf.length) bytes f.vchBuf } where
  rewind_lt := h.rewind_lt.trans_eq (length_splice hroom).symm
  size_lt := (length_splice hroom).trans_lt h.size_lt
  src_lt := h.src_lt
  base_lt := h.base_lt
  base_le := h.base_le
  read_le := by
    show f.nReadPos ≤ f.nSrcPos + bytes.length
    omega
  src_le := by
    show f.nSrcPos + bytes.length ≤ max base f.src.length
    omega
  near := by
    show f.nSrcPos + bytes.length ≤ f.nReadPos + (splice _ bytes f.vchBuf).length
    rw [length_splice hroom]
    omega
  holds := by
    show Holds (splice _ bytes f.vchBuf) f.src (max base (f.nSrcPos + bytes.length - (splice _ bytes f.vchBuf).length)) _
    rw [length_splice hroom]
    refine (h.holds.splice hbytes hroom).mono ?_ (Nat.le_refl _)
    omega
  eof := heof

/-- **`Fill`** asks the file for at least one byte, for no more than leaves `nRewind` bytes in the ring, and for none that
    goes past the end of the ring. -/
theorem fill_eq (h : Buffered base f) (hempty : f.nReadPos = f.nSrcPos) :
    ∃ readNow, 0 < readNow ∧ readNow ≤ f.vchBuf.length - f.nRewind ∧
      f.nSrcPos % f.vchBuf.length + readNow ≤ f.vchBuf.length ∧
      fill f =
        let bytes := (f.src.drop f.nSrcPos).take readNow
        let feof := f.feof || decide (bytes.length < readNow)
        if bytes = [] then (.error .endOfFile, { f with feof := feof, failbit := true })
        else (.ok true, { f with
          feof := feof
          nSrcPos := u64 (f.nSrcPos + bytes.length : Nat)
          vchBuf := splice (f.nSrcPos % f.vchBuf.length) bytes f.vchBuf }) := by
  have hrewind := h.rewind_lt
  have hsize := h.size_lt
  have hpos : f.nSrcPos % f.vchBuf.length < f.vchBuf.length := Nat.mod_lt _ (by omega)
  have hpos32 : u32 (f.nSrcPos % f.vchBuf.length : Nat) = f.nSrcPos % f.vchBuf.length := u32_of_lt (by omega)
  have hroom : u32 ((f.vchBuf.length : Int) - (f.nSrcPos % f.vchBuf.length : Nat)) =
      f.vchBuf.length - f.nSrcPos % f.vchBuf.length := by
    rw [← Nat.cast_sub hpos.le]
    exact u32_of_lt (by omega)
  have havail : u32 ((f.vchBuf.length : Int) - ((f.nSrcPos : Int) - f.nReadPos) - f.nRewind) =
      f.vchBuf.length - f.nRewind := by
    rw [hempty, sub_self, sub_zero, ← Nat.cast_sub hrewind.le]
    exact u32_of_lt (by omega)
  obtain ⟨readNow, hreadNow⟩ : ∃ readNow, readNow =
      (if f.vchBuf.length - f.nRewind < f.vchBuf.length - f.nSrcPos % f.vchBuf.length then f.vchBuf.length - f.nRewind
        else f.vchBuf.length - f.nSrcPos % f.vchBuf.length) := ⟨_, rfl⟩
  have hnow : 0 < readNow ∧ readNow ≤ f.vchBuf.length - f.nRewind ∧
      f.nSrcPos % f.vchBuf.length + readNow ≤ f.vchBuf.length := by
    rw [hreadNow]
    split
    · omega
    · omega
  refine ⟨readNow, hnow.1, hnow.2.1, hnow.2.2, ?_⟩
  unfold fill
  dsimp only
  rw [hpos32, hroom, havail, ← hreadNow, if_neg (by omega)]

/-- Before the end of the file it reads something. -/
theorem fill_spec (h : Buffered base f) (hempty : f.nReadPos = f.nSrcPos) (hmore : f.nSrcPos < f.src.length) :
    ∃ f', fill f = (.ok true, f') ∧ Buffered base f' ∧ Onward f f' ∧ f'.nReadPos = f.nReadPos ∧
      f.nSrcPos < f'.nSrcPos ∧ f'.failbit = f.failbit := by
  have hsrc := h.src_lt
  obtain ⟨readNow, hnow, havail, hroom, hfill⟩ := fill_eq h hempty
  let bytes := (f.src.drop f.nSrcPos).take readNow
  have hlength : bytes.length = min readNow (f.src.length - f.nSrcPos) := by
    rw [List.length_take, List.length_drop]
  have hne : bytes ≠ [] := by
    intro hnil
    rw [hnil, List.length_nil] at hlength
    omega
  have hbytes : bytes = (f.src.drop f.nSrcPos).take bytes.length := by
    rw [hlength, ← List.length_drop, ← List.take_eq_take_min]
  have hsum : u64 (f.nSrcPos + bytes.length : Nat) = f.nSrcPos + bytes.length := u64_of_lt (by omega)
  let f' : CBufferedFile := { f with
    feof := f.feof || decide (bytes.length < readNow)
    nSrcPos := f.nSrcPos + bytes.length
    vchBuf := splice (f.nSrcPos % f.vchBuf.length) bytes f.vchBuf }
  have hsplice : f.nSrcPos % f.vchBuf.length + bytes.length ≤ f.vchBuf.length := by omega
  have heof : (f.feof || decide (bytes.length < readNow)) = true → f.src.length ≤ f.nSrcPos + bytes.length := by
    intro hset
    rcases Bool.or_eq_true_iff.mp hset with hbefore | hshort
    · have := h.eof hbefore
      omega
    · have := of_decide_eq_true hshort
      omega
  refine ⟨f', ?_, h.append hempty hbytes (by omega) hsplice heof, ?_, rfl, ?_, rfl⟩
  · rw [hfill]
    show (if bytes = [] then _ else (Except.ok true, { f with
      feof := _
      nSrcPos := u64 (f.nSrcPos + bytes.length : Nat)
      vchBuf := splice (f.nSrcPos % f.vchBuf.length) bytes f.vchBuf })) = _
    rw [if_neg hne, hsum]
  · refine ⟨rfl, rfl, length_splice hsplice, rfl, Nat.le_add_right _ _, Nat.le_refl _, ?_⟩
    show f.nSrcPos + bytes.length ≤ max f.nSrcPos (f.nReadPos + (f.vchBuf.length - f.nRewind))
    omega
  · show f.nSrcPos < f.nSrcPos + bytes.length
    omega

/-- At the end of the file it throws. -/
theorem fill_end (h : Buffered base f) (hempty : f.nReadPos = f.nSrcPos) (hend : f.src.length ≤ f.nSrcPos) :
    fill f = (.error .endOfFile, { f with feof := true, failbit := true }) := by
  obtain ⟨readNow, hnow, -, -, hfill⟩ := fill_eq h hempty
  have hnil : f.src.drop f.nSrcPos = [] := List.drop_eq_nil_of_le hend
  rw [hfill, hnil, List.take_nil]
  simp [hnow]

/-- The buffer has the byte at the reading position, or the end of the file has been met. -/
theorem fillEmpty_spec (h : Buffered base f) {r : Except StreamError Bool} {f' : CBufferedFile}
    (hrun : fillEmpty f = (r, f')) :
    Buffered base f' ∧ Onward f f' ∧ f'.nReadPos = f.nReadPos ∧
      ((∃ filled, r = .ok filled) ∧ f.nReadPos < f'.nSrcPos ∧ f'.failbit = f.failbit ∨
        r = .error .endOfFile ∧ f.src.length ≤ f.nReadPos ∧ f'.failbit = true) := by
  unfold fillEmpty at hrun
  split at hrun
  · next hempty =>
    by_cases hmore : f.nSrcPos < f.src.length
    · obtain ⟨f'', hfill, hbuffered, honward, hpos, hsrc, hbit⟩ := fill_spec h hempty hmore
      rw [hfill] at hrun
      cases hrun
      exact ⟨hbuffered, honward, hpos, .inl ⟨⟨true, rfl⟩, by omega, hbit⟩⟩
    · rw [fill_end h hempty (Nat.le_of_not_lt hmore)] at hrun
      cases hrun
      refine ⟨⟨h.rewind_lt, h.size_lt, h.src_lt, h.base_lt, h.base_le, h.read_le, h.src_le, h.near, h.holds, ?_⟩,
        ⟨rfl, rfl, rfl, rfl, Nat.le_refl _, Nat.le_refl _, Nat.le_max_left _ _⟩, rfl, .inr ⟨rfl, by omega, rfl⟩⟩
      intro _
      exact Nat.le_of_not_lt hmore
  · next hsome =>
    cases hrun
    have hle := h.read_le
    exact ⟨h, Onward.refl f, rfl, .inl ⟨⟨true, rfl⟩, by omega, rfl⟩⟩

/-- A buffer with something left is read from as far as the end of the ring, and of what was read of the file. -/
theorem copyOut_spec (h : Buffered base f) (hsome : f.nReadPos < f.nSrcPos) (hwant : 0 < nSize) (hsize : nSize < 2 ^ 63) :
    ∃ k, 0 < k ∧ k ≤ nSize ∧ f.nReadPos + k ≤ f.nSrcPos ∧
      copyOut nSize f = (.ok ((f.src.drop f.nReadPos).take k), { f with nReadPos := f.nReadPos + k }) := by
  have hbig := h.size_lt
  have hsrc := h.srcPos_lt
  have hbase := h.base_le
  have hnear := h.near
  have hring : 0 < f.vchBuf.length := by
    have := h.rewind_lt
    omega
  have hpos : f.nReadPos % f.vchBuf.length < f.vchBuf.length := Nat.mod_lt _ hring
  have hpos32 : u32 (f.nReadPos % f.vchBuf.length : Nat) = f.nReadPos % f.vchBuf.length := u32_of_lt (by omega)
  obtain ⟨k₁, hk₁⟩ : ∃ k₁, k₁ = (if f.vchBuf.length < nSize + f.nReadPos % f.vchBuf.length
      then f.vchBuf.length - f.nReadPos % f.vchBuf.length else nSize) := ⟨_, rfl⟩
  have hring₁ : 0 < k₁ ∧ k₁ ≤ nSize ∧ f.nReadPos % f.vchBuf.length + k₁ ≤ f.vchBuf.length := by
    rw [hk₁]
    split
    · omega
    · omega
  obtain ⟨k, hk⟩ : ∃ k, k = (if f.nSrcPos < k₁ + f.nReadPos then f.nSrcPos - f.nReadPos else k₁) := ⟨_, rfl⟩
  have hring₂ : 0 < k ∧ k ≤ k₁ ∧ f.nReadPos + k ≤ f.nSrcPos := by
    rw [hk]
    split
    · omega
    · omega
  have hcut : u64 ((f.vchBuf.length : Int) - (f.nReadPos % f.vchBuf.length : Nat)) =
      f.vchBuf.length - f.nReadPos % f.vchBuf.length := by
    rw [← Nat.cast_sub hpos.le]
    exact u64_of_lt (by omega)
  have hleft : u64 ((f.nSrcPos : Int) - f.nReadPos) = f.nSrcPos - f.nReadPos := by
    rw [← Nat.cast_sub hsome.le]
    exact u64_of_lt (by omega)
  have hslice : (f.vchBuf.drop (f.nReadPos % f.vchBuf.length)).take k = (f.src.drop f.nReadPos).take k := by
    apply h.holds.slice
    · omega
    · exact hring₂.2.2
    · omega
  refine ⟨k, hring₂.1, by omega, hring₂.2.2, ?_⟩
  unfold copyOut
  dsimp only
  rw [hpos32, hcut, hleft, u64_of_lt (by omega : nSize + f.nReadPos % f.vchBuf.length < 2 ^ 64), ← hk₁,
    u64_of_lt (by omega : k₁ + f.nReadPos < 2 ^ 64), ← hk, u64_of_lt (by omega : f.nReadPos + k < 2 ^ 64), hslice]

/-- `nSize` bytes of the file are delivered, from the reading position on. -/
structure ReadOut (f f' : CBufferedFile) (nSize : Nat) (pch : Bytes) : Prop where
  bytes : pch = (f.src.drop f.nReadPos).take nSize
  length : pch.length = nSize
  readPos : f'.nReadPos = f.nReadPos + nSize
  failbit : f'.failbit = f.failbit

/-- Two deliveries that follow each other. -/
theorem ReadOut.append {f f' f'' : CBufferedFile} {n k : Nat} {pch rest : Bytes} (hsrc : f'.src = f.src)
    (h : ReadOut f f' k pch) (h' : ReadOut f' f'' n rest) : ReadOut f f'' (k + n) (pch ++ rest) where
  bytes := by
    have hrest : rest = (f.src.drop (f.nReadPos + k)).take n := by
      rw [h'.bytes, hsrc, h.readPos]
    rw [h.bytes, hrest, ← List.drop_drop, List.take_add]
  length := by
    rw [List.length_append, h.length, h'.length]
  readPos := by
    rw [h'.readPos, h.readPos, Nat.add_assoc]
  failbit := h'.failbit.trans h.failbit

/-- The file has no `nSize` bytes from the reading position on, and `failbit` says so. -/
structure Short (f f' : CBufferedFile) (nSize : Nat) : Prop where
  src_lt : f.src.length < f.nReadPos + nSize
  readPos_le : f'.nReadPos ≤ f.nReadPos + nSize
  failbit : f'.failbit = true

/-- **The loop of `read`** delivers what is asked for, or meets the end of the file. The fuel counts the bytes that are
    still to come, of which every turn delivers one at least. -/
theorem readLoop_spec {fuel : Nat} (h : Buffered base f) (hfuel : nSize ≤ fuel) (hsize : nSize < 2 ^ 63)
    {r : Except StreamError Bytes} {f' : CBufferedFile} (hrun : readLoop fuel nSize f = (r, f')) :
    Buffered base f' ∧ Onward f f' ∧
      ((∃ pch, r = .ok pch ∧ ReadOut f f' nSize pch) ∨ r = .error .endOfFile ∧ Short f f' nSize) := by
  induction fuel generalizing f nSize r f' with
  | zero =>
    obtain rfl : nSize = 0 := by omega
    cases hrun
    exact ⟨h, Onward.refl f, .inl ⟨[], rfl, ⟨List.take_zero.symm, rfl, rfl, rfl⟩⟩⟩
  | succ fuel ih =>
    cases nSize with
    | zero =>
      cases hrun
      exact ⟨h, Onward.refl f, .inl ⟨[], rfl, ⟨List.take_zero.symm, rfl, rfl, rfl⟩⟩⟩
    | succ n =>
      obtain ⟨rf, f₁, hfill⟩ : ∃ rf f₁, fillEmpty f = (rf, f₁) := ⟨_, _, rfl⟩
      obtain ⟨hbuffered, honward, hpos, ⟨⟨filled, rfl⟩, hsome, hbit⟩ | ⟨rfl, hend, hbit⟩⟩ := fillEmpty_spec h hfill
      · -- there is something in the buffer, and the rest of the loop has less to do
        rw [← hpos] at hsome
        obtain ⟨k, hk, hkn, hkpos, hcopy⟩ := copyOut_spec hbuffered hsome (Nat.succ_pos n) hsize
        let f₂ : CBufferedFile := { f₁ with nReadPos := f₁.nReadPos + k }
        have hsrc := hbuffered.src_le
        have hbase := hbuffered.base_le
        have hnear := hbuffered.near
        have hbuffered₂ : Buffered base f₂ := hbuffered.atReadPos (by omega) hkpos (by omega)
        have honward₂ : Onward f₁ f₂ :=
          ⟨rfl, rfl, rfl, rfl, Nat.le_refl _, Nat.le_add_right _ _, Nat.le_max_left _ _⟩
        have hlength : ((f₁.src.drop f₁.nReadPos).take k).length = k := by
          rw [List.length_take, List.length_drop]
          omega
        have hdelivered : ReadOut f f₂ k ((f₁.src.drop f₁.nReadPos).take k) :=
          ⟨by rw [honward.src, hpos], hlength, by rw [← hpos], hbit⟩
        rw [readLoop, Proc.bind_of_ok hfill, Proc.bind_of_ok hcopy, hlength] at hrun
        obtain ⟨rr, f₃, hrest⟩ : ∃ rr f₃, readLoop fuel (n + 1 - k) f₂ = (rr, f₃) := ⟨_, _, rfl⟩
        obtain ⟨hbuffered₃, honward₃, hcases⟩ := ih hbuffered₂ (by omega) (by omega) hrest
        have hsum : k + (n + 1 - k) = n + 1 := by omega
        rcases hcases with ⟨rest, rfl, hrestdel⟩ | ⟨rfl, hshort⟩
        · rw [Proc.bind_of_ok hrest] at hrun
          cases hrun
          have hall := hdelivered.append (honward₂.src.trans honward.src) hrestdel
          rw [hsum] at hall
          exact ⟨hbuffered₃, (honward.trans honward₂).trans honward₃, .inl ⟨_, rfl, hall⟩⟩
        · rw [Proc.bind_of_error hrest] at hrun
          cases hrun
          have hlt : f₁.src.length < f₁.nReadPos + k + (n + 1 - k) := hshort.src_lt
          have hle : f'.nReadPos ≤ f₁.nReadPos + k + (n + 1 - k) := hshort.readPos_le
          rw [honward.src, hpos] at hlt
          rw [hpos] at hle
          exact ⟨hbuffered₃, (honward.trans honward₂).trans honward₃, .inr ⟨rfl, by omega, by omega, hshort.failbit⟩⟩
      · rw [readLoop, Proc.bind_of_error hfill] at hrun
        cases hrun
        exact ⟨hbuffered, honward, .inr ⟨rfl, by omega, by omega, hbit⟩⟩

/-- **`read`** delivers the bytes of the file, unless it asks for more than the limit, the ring or the file have. -/
theorem read_spec (h : Buffered base f) (hsize : nSize < 2 ^ 63) {r : Except StreamError Bytes} {f' : CBufferedFile}
    (hrun : read nSize f = (r, f')) :
    Buffered base f' ∧ Onward f f' ∧
      ((∃ pch, r = .ok pch ∧ ReadOut f f' nSize pch) ∨ (r = .error .endOfFile ∧ Short f f' nSize) ∨
        (r = .error .limit ∧ f.nReadLimit < nSize + f.nReadPos ∨
          r = .error .size ∧ f.vchBuf.length < nSize + f.nRewind) ∧ f' = f) := by
  have hsrc := h.srcPos_lt
  have hread := h.read_le
  have hrewind := h.rewind_lt
  have hring := h.size_lt
  unfold read at hrun
  rw [u64_of_lt (by omega : nSize + f.nReadPos < 2 ^ 64), u64_of_lt (by omega : nSize + f.nRewind < 2 ^ 64)] at hrun
  split at hrun
  · next hlimit =>
    cases hrun
    exact ⟨h, Onward.refl f, .inr (.inr ⟨.inl ⟨rfl, hlimit⟩, rfl⟩)⟩
  · split at hrun
    · next hroom =>
      cases hrun
      exact ⟨h, Onward.refl f, .inr (.inr ⟨.inr ⟨rfl, hroom⟩, rfl⟩)⟩
    · obtain ⟨hbuffered, honward, hcases⟩ := readLoop_spec h (Nat.le_refl nSize) hsize hrun
      rcases hcases with hok | hend
      · exact ⟨hbuffered, honward, .inl hok⟩
      · exact ⟨hbuffered, honward, .inr (.inl hend)⟩

/-- The byte at the reading position is the byte of the file there. -/
theorem Buffered.byte (h : Buffered base f) (hsome : f.nReadPos < f.nSrcPos) :
    f.vchBuf[f.nReadPos % f.vchBuf.length]? = f.src[f.nReadPos]? := by
  have hbase := h.base_le
  have hnear := h.near
  exact h.holds f.nReadPos (by omega) hsome

/-- `FindByte` stands on the first such byte from where it began. -/
structure Found (f f' : CBufferedFile) (ch : UInt8) : Prop where
  readPos_lt : f'.nReadPos < f'.nSrcPos
  byte : f.src[f'.nReadPos]? = some ch
  first : ∀ i, f.nReadPos ≤ i → i < f'.nReadPos → f.src[i]? ≠ some ch
  failbit : f'.failbit = f.failbit

/-- **The loop of `FindByte`** stands on the first such byte, or there is none. The fuel counts the bytes up to the end
    of the file, and one turn more to meet it. -/
theorem findLoop_spec {fuel : Nat} (h : Buffered base f) (hfuel : f.src.length < f.nReadPos + fuel) (hturn : 0 < fuel)
    {r : Except StreamError Unit} {f' : CBufferedFile} (hrun : findLoop ch fuel f = (r, f')) :
    Buffered base f' ∧ Onward f f' ∧
      (r = .ok () ∧ Found f f' ch ∨
        r = .error .endOfFile ∧ f'.failbit = true ∧ ∀ i, f.nReadPos ≤ i → f.src[i]? ≠ some ch) := by
  induction fuel generalizing f r f' with
  | zero => omega
  | succ fuel ih =>
    obtain ⟨rf, f₁, hfill⟩ : ∃ rf f₁, fillEmpty f = (rf, f₁) := ⟨_, _, rfl⟩
    obtain ⟨hbuffered, honward, hpos, ⟨⟨filled, rfl⟩, hsome, hbit⟩ | ⟨rfl, hend, hbit⟩⟩ := fillEmpty_spec h hfill
    · have hbyte : f₁.vchBuf[f₁.nReadPos % f₁.vchBuf.length]? = f.src[f.nReadPos]? := by
        rw [hbuffered.byte (by omega), honward.src, hpos]
      by_cases hfound : f.src[f.nReadPos]? = some ch
      · have hat : atByte ch f₁ = (.ok true, f₁) := by
          unfold atByte
          rw [hbyte, if_pos hfound]
        rw [findLoop, Proc.bind_of_ok hfill, Proc.bind_of_ok hat] at hrun
        cases hrun
        refine ⟨hbuffered, honward, .inl ⟨rfl, by omega, ?_, ?_, hbit⟩⟩
        · rw [hpos]
          exact hfound
        · intro i hge hlt
          omega
      · -- one byte further on, still in front of what was read of the file
        have hsrc := hbuffered.src_le
        have hbase := hbuffered.base_le
        have hnear := hbuffered.near
        have hlt := hbuffered.srcPos_lt
        have hinside : f₁.nSrcPos ≤ f.src.length := by
          rw [honward.src] at hsrc
          omega
        let f₂ : CBufferedFile := { f₁ with nReadPos := f₁.nReadPos + 1 }
        have hat : atByte ch f₁ = (.ok false, f₂) := by
          unfold atByte
          rw [hbyte, if_neg hfound, u64_of_lt (by omega)]
        have hbuffered₂ : Buffered base f₂ := hbuffered.atReadPos (by omega) (by omega) (by omega)
        have honward₂ : Onward f f₂ :=
          honward.trans ⟨rfl, rfl, rfl, rfl, Nat.le_refl _, Nat.le_add_right _ _, Nat.le_max_left _ _⟩
        have hpos₂ : f₂.nReadPos = f.nReadPos + 1 := congrArg (· + 1) hpos
        have hsrc₂ : f₂.src = f.src := honward.src
        rw [findLoop, Proc.bind_of_ok hfill, Proc.bind_of_ok hat] at hrun
        obtain ⟨hbuffered₃, honward₃, hcases⟩ :=
          ih hbuffered₂ (by rw [hpos₂, hsrc₂]; omega) (by omega) hrun
        rw [hpos₂, hsrc₂] at hcases
        rcases hcases with ⟨rfl, hfound₃⟩ | ⟨rfl, hbit₃, hnone⟩
        · refine ⟨hbuffered₃, honward₂.trans honward₃, .inl ⟨rfl, hfound₃.readPos_lt, ?_, ?_, hfound₃.failbit.trans hbit⟩⟩
          · rw [← hsrc₂]
            exact hfound₃.byte
          · intro i hge hlt
            rcases Nat.eq_or_lt_of_le hge with rfl | hgt
            · exact hfound
            · rw [← hsrc₂]
              exact hfound₃.first i (by omega) hlt
        · refine ⟨hbuffered₃, honward₂.trans honward₃, .inr ⟨rfl, hbit₃, ?_⟩⟩
          intro i hge
          rcases Nat.eq_or_lt_of_le hge with rfl | hgt
          · exact hfound
          · exact hnone i hgt
    · rw [findLoop, Proc.bind_of_error hfill] at hrun
      cases hrun
      refine ⟨hbuffered, honward, .inr ⟨rfl, hbit, ?_⟩⟩
      intro i hge
      rw [List.getElem?_eq_none (by omega)]
      simp

/-- **`FindByte`** stands on the first such byte from the reading position on, or there is none in the file. -/
theorem findByte_spec (h : Buffered base f) {r : Except StreamError Unit} {f' : CBufferedFile}
    (hrun : findByte ch f = (r, f')) :
    Buffered base f' ∧ Onward f f' ∧
      (r = .ok () ∧ Found f f' ch ∨
        r = .error .endOfFile ∧ f'.failbit = true ∧ ∀ i, f.nReadPos ≤ i → f.src[i]? ≠ some ch) :=
  findLoop_spec h (by omega) (Nat.succ_pos _) hrun

/-- **`SetPos`** keeps to what is in the ring: it goes no further back than `nRewind` bytes behind what was read of the
    file, and no further on than that. -/
theorem setPos_eq (h : Buffered base f) {nPos : Nat} (hpos : nPos < 2 ^ 63) :
    (f.setPos nPos).2 = { f with nReadPos := min f.nSrcPos (max nPos (f.nSrcPos - f.nRewind)) } := by
  have hsrc := h.srcPos_lt
  have hrewind := h.rewind_lt
  have hring := h.size_lt
  unfold setPos
  rw [u64_of_lt (by omega)]
  split
  · next hfar =>
    have hback : u64 ((f.nSrcPos : Int) - f.nRewind) = f.nSrcPos - f.nRewind := by
      rw [← Nat.cast_sub (by omega)]
      exact u64_of_lt (by omega)
    rw [hback, Nat.max_eq_right (by omega), Nat.min_eq_right (by omega)]
  · split
    · rw [Nat.min_eq_left (by omega)]
    · rw [Nat.max_eq_left (by omega), Nat.min_eq_right (by omega)]

/-- It says so if it goes where it is told. -/
theorem setPos_true_iff (h : Buffered base f) {nPos : Nat} (hpos : nPos ≤ f.nSrcPos) :
    (f.setPos nPos).1 = true ↔ f.nSrcPos ≤ nPos + f.nRewind := by
  have hsrc := h.srcPos_lt
  have hrewind := h.rewind_lt
  have hring := h.size_lt
  unfold setPos
  rw [u64_of_lt (by omega)]
  split
  · next hfar =>
    simp [hfar]
  · rw [if_neg (by omega)]
    simp only [true_iff]
    omega

theorem Buffered.setPos (h : Buffered base f) {nPos : Nat} (hpos : nPos < 2 ^ 63) (hbase : base ≤ nPos) :
    Buffered base (f.setPos nPos).2 := by
  have hstart := h.base_le
  have hread := h.read_le
  have hrewind := h.rewind_lt
  rw [setPos_eq h hpos]
  exact h.atReadPos (by omega) (Nat.min_le_left _ _) (by omega)

theorem setLimit_eq (nPos : Nat) :
    (f.setLimit nPos).2 = { f with nReadLimit := if nPos < f.nReadPos then f.nReadLimit else nPos } := by
  unfold setLimit
  split
  · rfl
  · rfl

theorem Buffered.setLimit (h : Buffered base f) (nPos : Nat) : Buffered base (f.setLimit nPos).2 := by
  rw [setLimit_eq]
  exact ⟨h.rewind_lt, h.size_lt, h.src_lt, h.base_lt, h.base_le, h.read_le, h.src_le, h.near, h.holds, h.eof⟩

/-- An object is read off the file onward, and no loop is stuck in it. -/
theorem reader_spec {β : Type} (reader : ObjectReader β) (h : Buffered base f) {r : Except StreamError β} {f' : CBufferedFile}
    (hrun : reader.run f = (r, f')) :
    Buffered base f' ∧ Onward f f' ∧ r ≠ .error .stuck ∧ ∀ value, r = .ok value → f'.failbit = f.failbit := by
  induction reader generalizing f with
  | done value =>
    cases hrun
    exact ⟨h, Onward.refl _, by simp, fun _ _ => rfl⟩
  | fail =>
    cases hrun
    exact ⟨h, Onward.refl _, by simp, fun _ _ => rfl⟩
  | read nSize hsize next ih =>
    obtain ⟨rr, f₁, hread⟩ : ∃ rr f₁, CBufferedFile.read nSize f = (rr, f₁) := ⟨_, _, rfl⟩
    obtain ⟨hbuffered, honward, hcases⟩ := read_spec h hsize hread
    rcases hcases with ⟨pch, rfl, hdelivered⟩ | ⟨rfl, -⟩ | ⟨⟨rfl, -⟩ | ⟨rfl, -⟩, -⟩
    · rw [ObjectReader.run, Proc.bind_of_ok hread] at hrun
      obtain ⟨hbuffered', honward', hne, hbit⟩ := ih pch hbuffered hrun
      exact ⟨hbuffered', honward.trans honward', hne, fun value hr => (hbit value hr).trans hdelivered.failbit⟩
    all_goals
      rw [ObjectReader.run, Proc.bind_of_error hread] at hrun
      cases hrun
      exact ⟨hbuffered, honward, by simp, by simp⟩

end

/-! ## Runs -/

/-- **What holds after every run of calls**: `m` is the highest position read so far. -/
structure Streamed (src : Bytes) (nBufSize nRewind m : Nat) (f : CBufferedFile) : Prop where
  buffered : Buffered 0 f
  src : f.src = src
  rewind : f.nRewind = nRewind
  size : f.vchBuf.length = nBufSize
  high_le : m ≤ f.nSrcPos
  ahead : f.nSrcPos ≤ m + (nBufSize - nRewind)

variable {src : Bytes} {nBufSize nRewind m : Nat} {f : CBufferedFile}

/-- What a reading call keeps. -/
theorem Streamed.onward (h : Streamed src nBufSize nRewind m f) {f' : CBufferedFile} (hbuffered : Buffered 0 f')
    (honward : Onward f f') : Streamed src nBufSize nRewind (max m f'.nReadPos) f' where
  buffered := hbuffered
  src := honward.src.trans h.src
  rewind := honward.nRewind.trans h.rewind
  size := honward.size.trans h.size
  high_le := Nat.max_le.mpr ⟨h.high_le.trans honward.srcPos, hbuffered.read_le⟩
  ahead := by
    have hbefore := h.ahead
    have hahead := honward.ahead
    rw [h.size, h.rewind] at hahead
    omega

theorem Streamed.call (h : Streamed src nBufSize nRewind m f) (call : StreamCall) (hinside : call.Inside src) :
    Streamed src nBufSize nRewind (call.highest f m) (call.run f) := by
  cases call with
  | read nSize hsize =>
    obtain ⟨hbuffered, honward, -⟩ := read_spec h.buffered hsize rfl
    exact h.onward hbuffered honward
  | findByte ch =>
    obtain ⟨hbuffered, honward, -⟩ := findByte_spec h.buffered rfl
    exact h.onward hbuffered honward
  | setPos nPos =>
    have hsrc := h.buffered.src_lt
    have hle : nPos ≤ src.length := hinside
    rw [h.src] at hsrc
    have hbuffered := h.buffered.setPos (by omega : nPos < 2 ^ 63) (Nat.zero_le nPos)
    have heq := setPos_eq h.buffered (by omega : nPos < 2 ^ 63)
    show Streamed src nBufSize nRewind m (f.setPos nPos).2
    rw [heq] at hbuffered ⊢
    exact ⟨hbuffered, h.src, h.rewind, h.size, h.high_le, h.ahead⟩
  | setLimit nPos =>
    have hbuffered := h.buffered.setLimit nPos
    show Streamed src nBufSize nRewind m (f.setLimit nPos).2
    rw [setLimit_eq] at hbuffered ⊢
    exact ⟨hbuffered, h.src, h.rewind, h.size, h.high_le, h.ahead⟩

theorem Streamed.new (hrewind : nRewind < nBufSize) (hsize : nBufSize < 2 ^ 32) (hsrc : src.length < 2 ^ 63) :
    Streamed src nBufSize nRewind 0 (CBufferedFile.new src nBufSize nRewind) := by
  have hring : (CBufferedFile.new src nBufSize nRewind).vchBuf.length = nBufSize := List.length_replicate
  refine ⟨⟨?_, ?_, hsrc, by omega, Nat.le_refl 0, Nat.le_refl 0, Nat.zero_le _, Nat.zero_le _, ?_, ?_⟩, rfl, rfl, hring,
    Nat.le_refl 0, Nat.zero_le _⟩
  · rw [hring]
    exact hrewind
  · rw [hring]
    exact hsize
  · exact (holds_empty _ _ 0).mono (Nat.zero_le _) (Nat.le_refl 0)
  · intro hset
    cases hset

theorem Streamed.of_run (hrewind : nRewind < nBufSize) (hsize : nBufSize < 2 ^ 32) (hsrc : src.length < 2 ^ 63)
    (run : StreamRun src nBufSize nRewind m f) : Streamed src nBufSize nRewind m f := by
  induction run with
  | init => exact Streamed.new hrewind hsize hsrc
  | call call _ hinside ih => exact ih.call call hinside

/-- All of the last `nRewind` bytes that were read can be gone back to. -/
def Rewinds (nRewind m : Nat) (f : CBufferedFile) : Prop := ∀ p, m ≤ p + nRewind → p ≤ m → (f.setPos p).1 = true

/-- **How far a run may go back**: as far as is promised exactly if the file has not been read ahead of the highest position
    read, or not as far as `nRewind`. -/
theorem Streamed.rewinds_iff (h : Streamed src nBufSize nRewind m f) : Rewinds nRewind m f ↔ f.nSrcPos ≤ max m nRewind := by
  have hhigh := h.high_le
  constructor
  · intro hall
    have hback := hall (m - nRewind) (by omega) (by omega)
    rw [setPos_true_iff h.buffered (by omega), h.rewind] at hback
    omega
  · intro hahead p hge hle
    rw [setPos_true_iff h.buffered (by omega), h.rewind]
    omega

/-- What is delivered is the file, byte for byte, and every call comes to an end. -/
structure Serves (f : CBufferedFile) : Prop where
  read : ∀ nSize < 2 ^ 63, ∀ pch f', f.read nSize = (.ok pch, f') →
    pch.length = nSize ∧ f'.nReadPos = f.nReadPos + nSize ∧ ∀ i < nSize, pch[i]? = f.src[f.nReadPos + i]?
  findByte : ∀ ch f', f.findByte ch = (.ok (), f') →
    f.src[f'.nReadPos]? = some ch ∧ ∀ i, f.nReadPos ≤ i → i < f'.nReadPos → f.src[i]? ≠ some ch
  read_ends : ∀ nSize < 2 ^ 63, ∀ f', f.read nSize ≠ (.error .stuck, f')
  findByte_ends : ∀ ch f', f.findByte ch ≠ (.error .stuck, f')

theorem Streamed.serves (h : Streamed src nBufSize nRewind m f) : Serves f where
  read := by
    intro nSize hsize pch f' hrun
    obtain ⟨-, -, ⟨pch, hr, hdelivered⟩ | ⟨hr, -⟩ | ⟨⟨hr, -⟩ | ⟨hr, -⟩, -⟩⟩ := read_spec h.buffered hsize hrun
    · cases hr
      refine ⟨hdelivered.length, hdelivered.readPos, ?_⟩
      intro i hlt
      rw [hdelivered.bytes, List.getElem?_take_of_lt hlt, List.getElem?_drop]
    all_goals cases hr
  findByte := by
    intro ch f' hrun
    obtain ⟨-, -, ⟨-, hfound⟩ | ⟨hr, -⟩⟩ := findByte_spec h.buffered hrun
    · exact ⟨hfound.byte, hfound.first⟩
    · cases hr
  read_ends := by
    intro nSize hsize f' hrun
    obtain ⟨-, -, ⟨pch, hr, -⟩ | ⟨hr, -⟩ | ⟨⟨hr, -⟩ | ⟨hr, -⟩, -⟩⟩ := read_spec h.buffered hsize hrun
    all_goals cases hr
  findByte_ends := by
    intro ch f' hrun
    obtain ⟨-, -, ⟨hr, -⟩ | ⟨hr, -⟩⟩ := findByte_spec h.buffered hrun
    all_goals cases hr

end CBufferedFile

end Syscoin

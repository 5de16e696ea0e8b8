import Syscoin.Correctness.Addrman
import Syscoin.Lib.Access
import Syscoin.Lib.Shuffle

/-!
# `Correctness.TriedEviction` — whom a full tried bucket loses

`SelectTried` shuffles the first few entries of a bucket and looks for the one that was connected to longest ago. It
remembers the position that an entry was drawn from, and at that moment the entry has been put elsewhere. What is at the
position in the end is another entry, unless the draw left its entry where it was.
-/

namespace Syscoin

open Lib

namespace CAddrMan

variable {m : CAddrMan} {rand : Nat → Nat} {vTried : List Int}

/-- A tried bucket that is not empty: known ids, none of them twice. No id is the -1 that stands for none. -/
structure TriedBucket (m : CAddrMan) (vTried : List Int) : Prop where
  ne_nil : vTried ≠ []
  nodup : vTried.Nodup
  known : ∀ id ∈ vTried, id ∈ m.mapInfo ∧ 0 ≤ id

/-- The position that a round draws from. -/
def drawPos (rand : Nat → Nat) (vTried : List Int) (i : Nat) : Nat := getRandInt (rand i) (vTried.length - i) + i

/-- How many entries are inspected. -/
def rounds (vTried : List Int) : Nat := min ADDRMAN_TRIED_ENTRIES_INSPECT_ON_EVICT vTried.length

/-- The entry that a round draws. -/
def drawnEntry (rand : Nat → Nat) (vTried : List Int) (i : Nat) : Int := drawn 0 (drawPos rand vTried) vTried i

/-- The entries that are inspected. -/
def inspected (rand : Nat → Nat) (vTried : List Int) : List Int :=
  (List.range (rounds vTried)).map (drawnEntry rand vTried)

/-- When a round's entry was connected to. -/
def drawnSuccess (m : CAddrMan) (rand : Nat → Nat) (vTried : List Int) (i : Nat) : Int :=
  (m.info (drawnEntry rand vTried i)).nLastSuccess

/-- The first round that draws one of those that were connected to longest ago. -/
def oldestRound (m : CAddrMan) (rand : Nat → Nat) (vTried : List Int) : Nat → Nat :=
  firstLeast (drawnSuccess m rand vTried)

theorem drawPos_lt (rand : Nat → Nat) {i : Nat} (hi : i < vTried.length) : drawPos rand vTried i < vTried.length := by
  have h := getRandInt_lt (rand i) (show 0 < vTried.length - i by omega)
  unfold drawPos
  omega

theorem ahead_drawPos {k : Nat} (hk : k ≤ vTried.length) : Ahead (drawPos rand vTried) vTried.length k :=
  fun _ hi => ⟨Nat.le_add_left _ _, drawPos_lt rand (by omega)⟩

theorem TriedBucket.rounds_pos (h : TriedBucket m vTried) : 0 < rounds vTried := by
  have hlen := List.length_pos_iff_ne_nil.mpr h.ne_nil
  have hfour : 0 < ADDRMAN_TRIED_ENTRIES_INSPECT_ON_EVICT := by decide
  unfold rounds
  omega

theorem rounds_le : rounds vTried ≤ vTried.length := Nat.min_le_right _ _

theorem TriedBucket.drawn_known (h : TriedBucket m vTried) (rand : Nat → Nat) {i : Nat} (hi : i < vTried.length) :
    drawnEntry rand vTried i ∈ m.mapInfo ∧ 0 ≤ drawnEntry rand vTried i := by
  have hpos := drawPos_lt rand hi
  apply h.known
  rw [drawnEntry, drawn, List.getD_eq_getElem _ _ (by rw [length_shuffle]; exact hpos)]
  exact (shuffle_perm (ahead_drawPos hi.le)).mem_iff.mp (List.getElem_mem _)

/-- What the loop has after so many rounds, at least one: the bucket shuffled so far, the entry that was connected to
    longest ago, and the position that it was drawn from. -/
def afterRounds (m : CAddrMan) (rand : Nat → Nat) (vTried : List Int) (k : Nat) : List Int × Int × Int :=
  (shuffle 0 (drawPos rand vTried) vTried k, drawnEntry rand vTried (oldestRound m rand vTried k),
    drawPos rand vTried (oldestRound m rand vTried k))

/-- **One round**, whatever was found before. -/
theorem TriedBucket.inspect (h : TriedBucket m vTried) (rand : Nat → Nat) {i : Nat} (hi : i < vTried.length)
    (nOldest nOldestPos : Int) :
    inspectTried rand m (shuffle 0 (drawPos rand vTried) vTried i, nOldest, nOldestPos) i =
      if nOldest = -1 ∨ drawnSuccess m rand vTried i < (m.info nOldest).nLastSuccess then
        .ok (shuffle 0 (drawPos rand vTried) vTried (i + 1), drawnEntry rand vTried i, drawPos rand vTried i)
      else .ok (shuffle 0 (drawPos rand vTried) vTried (i + 1), nOldest, nOldestPos) := by
  obtain ⟨hknown, -⟩ := h.drawn_known rand hi
  unfold inspectTried
  dsimp only
  rw [length_shuffle]
  exact require_bind_of (.inr hknown)

theorem TriedBucket.first_round (h : TriedBucket m vTried) :
    inspectTried rand m (vTried, -1, -1) 0 = .ok (afterRounds m rand vTried 1) := by
  have hround := h.inspect rand (List.length_pos_iff_ne_nil.mpr h.ne_nil) (-1) (-1)
  rw [if_pos (.inl rfl)] at hround
  have hfirst : oldestRound m rand vTried 1 = 0 := by
    rw [oldestRound, firstLeast, firstLeast, if_neg (lt_irrefl _)]
  rw [afterRounds, hfirst]
  exact hround

theorem TriedBucket.next_round (h : TriedBucket m vTried) {k : Nat} (hk : k + 1 < vTried.length) :
    inspectTried rand m (afterRounds m rand vTried (k + 1)) (k + 1) = .ok (afterRounds m rand vTried (k + 2)) := by
  have holdest : oldestRound m rand vTried (k + 1) < k + 1 := firstLeast_lt (Nat.succ_pos k)
  obtain ⟨-, hnonneg⟩ := h.drawn_known rand (show oldestRound m rand vTried (k + 1) < vTried.length by omega)
  have hround := h.inspect rand hk (drawnEntry rand vTried (oldestRound m rand vTried (k + 1)))
    (drawPos rand vTried (oldestRound m rand vTried (k + 1)))
  have hnext : oldestRound m rand vTried (k + 2) =
      if drawnSuccess m rand vTried (k + 1) < drawnSuccess m rand vTried (oldestRound m rand vTried (k + 1)) then k + 1
      else oldestRound m rand vTried (k + 1) := rfl
  rw [afterRounds, hround, afterRounds, hnext]
  by_cases hless :
      drawnSuccess m rand vTried (k + 1) < drawnSuccess m rand vTried (oldestRound m rand vTried (k + 1))
  · rw [if_pos hless, if_pos (.inr hless)]
  · rw [if_neg hless, if_neg]
    rintro (hnone | hless')
    · omega
    · exact hless hless'

theorem TriedBucket.run_rounds (h : TriedBucket m vTried) (rand : Nat → Nat) {k : Nat} (hk : k + 1 ≤ vTried.length) :
    (List.range (k + 1)).foldlM (inspectTried rand m) (vTried, -1, -1) = .ok (afterRounds m rand vTried (k + 1)) := by
  induction k with
  | zero =>
    show (inspectTried rand m (vTried, -1, -1) 0 >>= fun s => .ok s) = _
    rw [h.first_round, ok_bind]
  | succ k ih =>
    rw [List.range_succ, List.foldlM_append, ih (by omega), ok_bind]
    show (inspectTried rand m (afterRounds m rand vTried (k + 1)) (k + 1) >>= fun s => .ok s) = _
    rw [h.next_round (by omega), ok_bind]

/-- The position holds one of the entries that was connected to longest ago among some. -/
def HoldsOldest (m : CAddrMan) (vTried : List Int) (nPos : Int) (among : List Int) : Prop :=
  vTried.getD nPos.toNat 0 ∈ among ∧
    ∀ id ∈ among, (m.info (vTried.getD nPos.toNat 0)).nLastSuccess ≤ (m.info id).nLastSuccess

/-- What stands in the end where round `j` has drawn from: what the round of that number has drawn, or nothing that was
    inspected. -/
theorem TriedBucket.holdsOldest_iff (h : TriedBucket m vTried) {j : Nat} (hj : j < rounds vTried)
    (holdest : ∀ i < rounds vTried, drawnSuccess m rand vTried j ≤ drawnSuccess m rand vTried i) :
    HoldsOldest m (shuffle 0 (drawPos rand vTried) vTried (rounds vTried)) (drawPos rand vTried j)
        (inspected rand vTried) ↔
      drawPos rand vTried j < rounds vTried ∧
        drawnSuccess m rand vTried (drawPos rand vTried j) = drawnSuccess m rand vTried j := by
  have hahead : Ahead (drawPos rand vTried) vTried.length (rounds vTried) := ahead_drawPos rounds_le
  have hmem : ∀ {i}, i < rounds vTried → drawnEntry rand vTried i ∈ inspected rand vTried :=
    fun hi => List.mem_map_of_mem (List.mem_range.mpr hi)
  unfold HoldsOldest
  rw [Int.toNat_natCast]
  generalize hq : drawPos rand vTried j = q
  by_cases hin : q < rounds vTried
  · have hget : (shuffle 0 (drawPos rand vTried) vTried (rounds vTried)).getD q 0 = drawnEntry rand vTried q :=
      shuffle_getD hahead hin
    rw [hget]
    constructor
    · rintro ⟨-, hleast⟩
      exact ⟨hin, le_antisymm (hleast _ (hmem hj)) (holdest q hin)⟩
    · rintro ⟨-, heq⟩
      refine ⟨hmem hin, ?_⟩
      intro id hid
      obtain ⟨i, hi, rfl⟩ := List.mem_map.mp hid
      exact heq.le.trans (holdest i (List.mem_range.mp hi))
  · refine ⟨fun hholds => ?_, fun hcond => absurd hcond.1 hin⟩
    obtain ⟨i, hi, heq⟩ := List.mem_map.mp hholds.1
    have hlt : q < vTried.length := hq ▸ drawPos_lt rand (Nat.lt_of_lt_of_le hj rounds_le)
    exact absurd heq.symm (shuffle_getD_not_drawn hahead h.nodup (Nat.le_of_not_lt hin) hlt (List.mem_range.mp hi))

/-- **When `SelectTried` picks the entry that was connected to longest ago.** Round `j`, the first that draws such an
    entry, has drawn from a position that a round fills, and the round that fills it draws an entry as old. -/
theorem selectTried_oldest_iff (h : TriedBucket m vTried) (rand : Nat → Nat) :
    ∃ nPos v, selectTried rand m vTried = .ok (nPos, v) ∧ v.Perm vTried ∧
      v.take (rounds vTried) = inspected rand vTried ∧
      (HoldsOldest m v nPos (inspected rand vTried) ↔
        let j := oldestRound m rand vTried (rounds vTried)
        drawPos rand vTried j < rounds vTried ∧
          drawnSuccess m rand vTried (drawPos rand vTried j) = drawnSuccess m rand vTried j) := by
  have hpos := h.rounds_pos
  refine ⟨_, _, ?_, shuffle_perm (ahead_drawPos rounds_le), take_shuffle (ahead_drawPos rounds_le) rounds_le,
    h.holdsOldest_iff (firstLeast_lt hpos) fun i hi => firstLeast_le hi⟩
  obtain ⟨k, hk⟩ := Nat.exists_eq_add_of_le' hpos
  have hrun := h.run_rounds rand (show k + 1 ≤ vTried.length from hk ▸ rounds_le)
  rw [← hk] at hrun
  unfold selectTried
  show ((List.range (rounds vTried)).foldlM (inspectTried rand m) (vTried, -1, -1) >>= _) = _
  rw [hrun]
  rfl

/-- The tried buckets of a manager are such buckets, whatever it was asked for. -/
theorem triedBucket_of_run (hash : BucketHash) {calls : List (Moment × AddrmanOp)}
    (hcalls : ∀ call ∈ calls, call.2.Forward) (hrun : empty.run hash calls = .ok m)
    {b : Fin ADDRMAN_TRIED_BUCKET_COUNT} (hne : m.vvTried b ≠ []) : TriedBucket m (m.vvTried b) := by
  rcases run_spec hash calls hcalls shell_empty placed_empty with ⟨m', hok, hs, hp⟩ | ⟨herr, -⟩
  · obtain rfl := Except.ok.inj (hok.symm.trans hrun)
    refine ⟨hne, hp.tried_nodup b, ?_⟩
    intro id hid
    obtain ⟨hmem, -⟩ := hp.of_mem_tried hid
    exact ⟨hmem, (hs.id_lt id hmem).1⟩
  · rw [herr] at hrun
    cases hrun

/-! ## Two tried entries -/

/-- Two addresses come in and are connected to, the second one earlier than the first. -/
def bothTried : List (Moment × AddrmanOp) :=
  let t : Moment := ⟨1400000000, fun _ => 0, fun _ => true⟩
  [(t, .add_ ⟨peer 8, 1, 1400000000, 0⟩ CNetAddr.zero 0), (t, .add_ ⟨peer 9, 1, 1400000000, 0⟩ CNetAddr.zero 0),
    (t, .good_ (peer 8) 1400000020), (t, .good_ (peer 9) 1400000010)]

/-- The manager after that. -/
def twoTried : CAddrMan := (empty.run ⟨fun _ => 0, fun _ _ => 0⟩ bothTried).toOption.getD empty

theorem twoTried_run : empty.run ⟨fun _ => 0, fun _ _ => 0⟩ bothTried = .ok twoTried := by
  have hok : (empty.run ⟨fun _ => 0, fun _ _ => 0⟩ bothTried).isOk = true := by decide +kernel
  unfold twoTried
  cases hrun : empty.run ⟨fun _ => 0, fun _ _ => 0⟩ bothTried with
  | ok m => rfl
  | error e =>
    rw [hrun] at hok
    cases hok

theorem twoTried_bucket : twoTried.vvTried 0 = [0, 1] := by decide +kernel

theorem twoTried_tried : TriedBucket twoTried [0, 1] := by
  have hforward : ∀ call ∈ bothTried, call.2.Forward := by
    simp [bothTried, AddrmanOp.Forward]
  rw [← twoTried_bucket]
  exact triedBucket_of_run _ hforward twoTried_run (by rw [twoTried_bucket]; simp)

/-- The first round draws the second entry, the older one, from position 1, and that is where the other one is put. -/
theorem recent_entry_picked :
    empty.run ⟨fun _ => 0, fun _ _ => 0⟩ bothTried = .ok twoTried ∧ twoTried.vvTried 0 = [0, 1] ∧
      selectTried (fun _ => 1) twoTried [0, 1] = .ok (1, [1, 0]) ∧
      ¬ HoldsOldest twoTried [1, 0] 1 (inspected (fun _ => 1) [0, 1]) := by
  refine ⟨twoTried_run, twoTried_bucket, by decide +kernel, ?_⟩
  rintro ⟨-, hleast⟩
  have hless : (twoTried.info 1).nLastSuccess < (twoTried.info 0).nLastSuccess := by decide +kernel
  exact absurd (hleast 1 (by decide +kernel)) (not_le.mpr hless)

/-- Where every round draws the entry that is next anyway, the older one is picked. -/
theorem oldest_entry_picked :
    ∃ nPos v, selectTried (fun _ => 0) twoTried [0, 1] = .ok (nPos, v) ∧
      HoldsOldest twoTried v nPos (inspected (fun _ => 0) [0, 1]) := by
  obtain ⟨nPos, v, hok, -, -, hiff⟩ := selectTried_oldest_iff twoTried_tried fun _ => 0
  exact ⟨nPos, v, hok, hiff.mpr (by decide +kernel)⟩

end CAddrMan

end Syscoin

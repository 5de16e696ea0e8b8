import Syscoin.Lib.Access
import Syscoin.Correctness.Regeneration

/-!
# `Correctness.Divisors` — what the fee subsidies divide by

The loop over a fee list starts at the first record at or below the height asked for and does not look at heights after
that. What it divides by is one more than the distance, in 32 bits, from that height to the last record in a window of
time. That is zero where the record is one block above the height (`feeAverages_isOk_iff`).

A list in which the heights fall has no such record behind the first one below. Connecting and disconnecting along a
chain keeps it so; a branch that records below what another branch has left there does not.
-/

namespace Syscoin

open Lib

/-! ## The records in a window -/

/-- The records from the first one at or below a height on. -/
def scanned (nHeight : Nat) (fees : List CFee) : List CFee := fees.dropWhile fun fee => nHeight < fee.nHeight

/-- Where the window of length `w` starts after some records. The first record sets it, unless it puts the start of the
    long window to zero, which is taken for a start that has not been set. -/
def windowStart (h12 w : Nat) (l : List CFee) : Nat :=
  match (l.find? fun fee => (fee.nTime + 2 ^ 32 - h12) % 2 ^ 32 ≠ 0).or l.getLast? with
  | some fee => (fee.nTime + 2 ^ 32 - w) % 2 ^ 32
  | none => 0

/-- The last of the records is in the window of length `w`, and in the long one. -/
def InWindow (h12 w : Nat) (l : List CFee) : Prop :=
  ∃ fee ∈ l.getLast?, windowStart h12 h12 l < fee.nTime ∧ windowStart h12 w l < fee.nTime

instance (h12 w : Nat) (l : List CFee) : Decidable (InWindow h12 w l) := inferInstanceAs (Decidable (∃ _ ∈ _, _))

/-- The last record that is in the window when its turn comes. -/
def lastInWindow (h12 w : Nat) (l : List CFee) : Option CFee :=
  (l.inits.filter fun l => InWindow h12 w l).getLast?.bind List.getLast?

/-- Of the records scanned for a height, the last one in neither window is at the next height. -/
def Divides (h12 nHeight : Nat) (fees : List CFee) : Prop :=
  ∀ w ∈ [h12, h12 / 12], ∀ fee ∈ lastInWindow h12 w (scanned nHeight fees), fee.nHeight % 2 ^ 32 ≠ (nHeight + 1) % 2 ^ 32

section Windows

variable {h12 w nHeight : Nat} {l fees : List CFee} {fee : CFee}

theorem windowStart_concat :
    windowStart h12 w (l ++ [fee]) =
      if windowStart h12 h12 l = 0 then (fee.nTime + 2 ^ 32 - w) % 2 ^ 32 else windowStart h12 w l := by
  unfold windowStart
  rw [List.find?_append]
  cases hfind : l.find? (fun fee => (fee.nTime + 2 ^ 32 - h12) % 2 ^ 32 ≠ 0) with
  | some f =>
    have hne := List.find?_some hfind
    rw [decide_eq_true_eq] at hne
    rw [Option.some_or, Option.some_or, Option.some_or]
    exact (if_neg hne).symm
  | none =>
    -- no record so far has set the start
    have hzero : (match (none : Option CFee).or l.getLast? with
        | some fee => (fee.nTime + 2 ^ 32 - h12) % 2 ^ 32
        | none => 0) = 0 := by
      rw [Option.none_or]
      cases hlast : l.getLast? with
      | none => rfl
      | some g =>
        have hg := List.find?_eq_none.mp hfind g (List.mem_of_getLast? hlast)
        simpa using hg
    rw [hzero, if_pos rfl, Option.none_or, List.getLast?_concat]
    by_cases hne : (fee.nTime + 2 ^ 32 - h12) % 2 ^ 32 ≠ 0
    · rw [List.find?_cons_of_pos (by simpa using hne), Option.some_or]
    · rw [List.find?_cons_of_neg (by simpa using hne), List.find?_nil, Option.none_or]

theorem inWindow_concat :
    InWindow h12 w (l ++ [fee]) ↔
      windowStart h12 h12 (l ++ [fee]) < fee.nTime ∧ windowStart h12 w (l ++ [fee]) < fee.nTime := by
  unfold InWindow
  rw [List.getLast?_concat]
  simp

theorem lastInWindow_concat :
    lastInWindow h12 w (l ++ [fee]) = if InWindow h12 w (l ++ [fee]) then some fee else lastInWindow h12 w l := by
  have hinits : (l ++ [fee]).inits = l.inits ++ [l ++ [fee]] := by
    simp [List.inits_append]
  unfold lastInWindow
  rw [hinits, List.filter_append]
  by_cases hin : InWindow h12 w (l ++ [fee])
  · rw [if_pos hin, List.filter_cons_of_pos (by simpa using hin), List.filter_nil, List.getLast?_concat,
      Option.bind_some, List.getLast?_concat]
  · rw [if_neg hin, List.filter_cons_of_neg (by simpa using hin), List.filter_nil, List.append_nil]

theorem mem_of_mem_lastInWindow (h : fee ∈ lastInWindow h12 w l) : fee ∈ l := by
  induction l using List.reverseRecOn with
  | nil => simp [lastInWindow, InWindow] at h
  | append_singleton l g ih =>
    rw [lastInWindow_concat] at h
    split at h
    · rw [Option.mem_some] at h
      exact List.mem_append.mpr (.inr (List.mem_singleton.mpr h.symm))
    · exact List.mem_append.mpr (.inl (ih h))

end Windows

/-! ## The scan -/

section Scan

variable {h12 nHeight : Nat} {l fees : List CFee} {fee : CFee} {acc : SubsidyScan}

/-- A record above the height, before any other, leaves no trace. -/
theorem SubsidyScan.step_above (hfound : acc.bFound = false) (habove : nHeight < fee.nHeight) :
    SubsidyScan.step nHeight h12 acc fee = acc := by
  obtain ⟨bFound, nTargetTime, nTarget1hrTime, hr1, hr12, blk1hrht, blk12hrht⟩ := acc
  subst hfound
  simp [SubsidyScan.step, Nat.not_le.mpr habove]

/-- What the variables hold after some of the records that are scanned. -/
structure SubsidyScan.Scanned (h12 blk : Nat) (l : List CFee) (acc : SubsidyScan) : Prop where
  bFound : acc.bFound = decide (l ≠ [])
  nTargetTime : acc.nTargetTime = windowStart h12 h12 l
  nTarget1hrTime : acc.nTarget1hrTime = windowStart h12 (h12 / 12) l
  blk12hrht : acc.blk12hrht = ((lastInWindow h12 h12 l).map fun fee => fee.nHeight % 2 ^ 32).getD blk
  blk1hrht : acc.blk1hrht = ((lastInWindow h12 (h12 / 12) l).map fun fee => fee.nHeight % 2 ^ 32).getD blk

theorem SubsidyScan.Scanned.step {blk : Nat} (h : acc.Scanned h12 blk l)
    (hfound : l ≠ [] ∨ fee.nHeight ≤ nHeight) :
    (SubsidyScan.step nHeight h12 acc fee).Scanned h12 blk (l ++ [fee]) := by
  obtain ⟨bFound, nTargetTime, nTarget1hrTime, hr1, hr12, blk1hrht, blk12hrht⟩ := acc
  obtain ⟨hb, ht, ht1, h12ht, h1ht⟩ := h
  dsimp only at hb ht ht1 h12ht h1ht
  have hbFound : (bFound || decide (fee.nHeight ≤ nHeight)) = true := by
    rw [hb]
    simpa using hfound
  -- being in the longer window is asked for twice, being in the shorter one asks for both
  have hlast12 : lastInWindow h12 h12 (l ++ [fee]) =
      if windowStart h12 h12 (l ++ [fee]) < fee.nTime then some fee else lastInWindow h12 h12 l := by
    rw [lastInWindow_concat]
    exact if_congr (inWindow_concat.trans (and_self_iff)) rfl rfl
  have hlast1 : lastInWindow h12 (h12 / 12) (l ++ [fee]) =
      if windowStart h12 h12 (l ++ [fee]) < fee.nTime ∧ windowStart h12 (h12 / 12) (l ++ [fee]) < fee.nTime then some fee
      else lastInWindow h12 (h12 / 12) l := by
    rw [lastInWindow_concat]
    exact if_congr inWindow_concat rfl rfl
  unfold SubsidyScan.step
  dsimp only
  rw [if_pos hbFound]
  -- the windows start where this record puts them, unless one before it has
  obtain ⟨hr1', hr12', hreset⟩ : ∃ hr1' hr12',
      (if nTargetTime = 0 then
          (⟨bFound || decide (fee.nHeight ≤ nHeight), (fee.nTime + 2 ^ 32 - h12) % 2 ^ 32,
            (fee.nTime + 2 ^ 32 - h12 / 12) % 2 ^ 32, 0, 0, blk1hrht, blk12hrht⟩ : SubsidyScan)
        else ⟨bFound || decide (fee.nHeight ≤ nHeight), nTargetTime, nTarget1hrTime, hr1, hr12, blk1hrht, blk12hrht⟩) =
      ⟨true, windowStart h12 h12 (l ++ [fee]), windowStart h12 (h12 / 12) (l ++ [fee]), hr1', hr12', blk1hrht,
        blk12hrht⟩ := by
    rw [windowStart_concat, windowStart_concat, ← ht, ← ht1, hbFound]
    by_cases hzero : nTargetTime = 0
    · exact ⟨0, 0, by rw [if_pos hzero, if_pos hzero, if_pos hzero]⟩
    · exact ⟨hr1, hr12, by rw [if_neg hzero, if_neg hzero, if_neg hzero]⟩
  rw [hreset]
  dsimp only
  by_cases hin12 : windowStart h12 h12 (l ++ [fee]) < fee.nTime
  · rw [if_pos hin12] at hlast12 ⊢
    by_cases hin1 : windowStart h12 (h12 / 12) (l ++ [fee]) < fee.nTime
    · rw [if_pos ⟨hin12, hin1⟩] at hlast1
      rw [if_pos hin1]
      exact ⟨by simp, rfl, rfl, by rw [hlast12]; rfl, by rw [hlast1]; rfl⟩
    · rw [if_neg fun h => hin1 h.2] at hlast1
      rw [if_neg hin1]
      exact ⟨by simp, rfl, rfl, by rw [hlast12]; rfl, by rw [hlast1]; exact h1ht⟩
  · rw [if_neg hin12] at hlast12 ⊢
    rw [if_neg fun h => hin12 h.1] at hlast1
    exact ⟨by simp, rfl, rfl, by rw [hlast12]; exact h12ht, by rw [hlast1]; exact h1ht⟩

/-- **The scan**, from the first record at or below the height on. -/
theorem SubsidyScan.scanned_foldl {blk : Nat} (hhead : ∀ fee ∈ l.head?, fee.nHeight ≤ nHeight) :
    (l.foldl (SubsidyScan.step nHeight h12) ⟨false, 0, 0, 1, 1, blk, blk⟩).Scanned h12 blk l := by
  induction l using List.reverseRecOn with
  | nil => exact ⟨rfl, rfl, rfl, rfl, rfl⟩
  | append_singleton l fee ih =>
    rw [List.foldl_append, List.foldl_cons, List.foldl_nil]
    cases l with
    | nil => exact (ih (by simp)).step (.inr (hhead fee rfl))
    | cons g l => exact (ih fun f hf => hhead f hf).step (.inl (List.cons_ne_nil g l))

theorem foldl_scanned {acc : SubsidyScan} (hfound : acc.bFound = false) :
    fees.foldl (SubsidyScan.step nHeight h12) acc = (scanned nHeight fees).foldl (SubsidyScan.step nHeight h12) acc := by
  induction fees with
  | nil => rfl
  | cons fee fees ih =>
    by_cases habove : nHeight < fee.nHeight
    · rw [scanned, List.dropWhile_cons_of_pos (by simpa using habove), List.foldl_cons,
        SubsidyScan.step_above hfound habove]
      exact ih
    · rw [scanned, List.dropWhile_cons_of_neg (by simpa using habove)]

theorem scanned_head (fee : CFee) (h : fee ∈ (scanned nHeight fees).head?) : fee.nHeight ≤ nHeight := by
  have hnot := List.head?_dropWhile_not (fun fee : CFee => decide (nHeight < fee.nHeight)) fees
  rw [scanned] at h
  rw [Option.mem_def.mp h] at hnot
  simpa using hnot

/-! ## The divisors -/

theorem blockSpan_ne_zero_iff {blk : Nat} (hheight : nHeight < 2 ^ 32) (hblk : blk < 2 ^ 32) :
    blockSpan nHeight blk ≠ 0 ↔ blk ≠ (nHeight + 1) % 2 ^ 32 := by
  unfold blockSpan
  omega

/-- Without a record in the window the height before is taken, and the divisor is two. -/
theorem blockSpan_pred_ne_zero (nHeight : Nat) : blockSpan nHeight ((nHeight + 2 ^ 32 - 1) % 2 ^ 32) ≠ 0 := by
  unfold blockSpan
  omega

theorem span_ne_zero_iff (last : Option CFee) (hheight : nHeight < 2 ^ 32) :
    blockSpan nHeight ((last.map fun fee => fee.nHeight % 2 ^ 32).getD ((nHeight + 2 ^ 32 - 1) % 2 ^ 32)) ≠ 0 ↔
      ∀ fee ∈ last, fee.nHeight % 2 ^ 32 ≠ (nHeight + 1) % 2 ^ 32 := by
  cases last with
  | none =>
    rw [Option.map_none, Option.getD_none]
    constructor
    · intro _ fee hfee
      cases hfee
    · intro _
      exact blockSpan_pred_ne_zero nHeight
  | some fee =>
    have hlt : fee.nHeight % 2 ^ 32 < 2 ^ 32 := Nat.mod_lt _ (Nat.two_pow_pos 32)
    rw [Option.map_some, Option.getD_some, blockSpan_ne_zero_iff hheight hlt]
    constructor
    · intro h g hg
      rw [← Option.mem_some.mp hg]
      exact h
    · intro h
      exact h fee (Option.mem_some_self fee)

/-- **Where the averages can be taken.** -/
theorem feeAverages_isOk_iff (hheight : nHeight < 2 ^ 32) :
    (feeAverages h12 nHeight fees).isOk = true ↔ Divides h12 nHeight fees := by
  have hscan : (fees.foldl (SubsidyScan.step nHeight h12) ⟨false, 0, 0, 1, 1, (nHeight + 2 ^ 32 - 1) % 2 ^ 32,
      (nHeight + 2 ^ 32 - 1) % 2 ^ 32⟩).Scanned h12 ((nHeight + 2 ^ 32 - 1) % 2 ^ 32) (scanned nHeight fees) := by
    rw [foldl_scanned rfl]
    exact SubsidyScan.scanned_foldl scanned_head
  unfold feeAverages
  dsimp only
  rw [isOk_require_bind, isOk_require_bind, hscan.blk12hrht, hscan.blk1hrht, span_ne_zero_iff _ hheight,
    span_ne_zero_iff _ hheight]
  unfold Divides
  constructor
  · rintro ⟨hlong, hshort, -⟩ w hw
    rcases List.mem_pair.mp hw with rfl | rfl
    · exact hlong
    · exact hshort
  · intro h
    exact ⟨h h12 (by simp), h (h12 / 12) (by simp), rfl⟩

end Scan

/-- The long window of a subsidy. -/
def FeeList.h12 : FeeList → Nat
  | .aliasFees => 60 * 60 * 12
  | .offerFees => 360 * 12
  | .certFees => 360 * 12

theorem FeeList.subsidy_isOk_iff (list : FeeList) {nHeight : Nat} {fees : List CFee} (hheight : nHeight < 2 ^ 32) :
    (list.subsidy nHeight fees).isOk = true ↔ Divides list.h12 nHeight fees := by
  rw [← feeAverages_isOk_iff hheight]
  have hbind : ∀ {x : Except Reject (Nat × Nat)} {f : Nat × Nat → Nat},
      (x >>= fun p => (.ok (f p) : Except Reject Nat)).isOk = x.isOk := by
    intro x f
    cases x <;> rfl
  cases list with
  | aliasFees => exact Bool.coe_iff_coe.mpr hbind
  | offerFees => exact Bool.coe_iff_coe.mpr hbind
  | certFees => exact Bool.coe_iff_coe.mpr hbind

/-! ## Lists in order -/

/-- The heights fall along the list, and none is zero. -/
def InOrder (fees : List CFee) : Prop :=
  (fees.map (·.nHeight)).Pairwise (· ≥ ·) ∧ ∀ fee ∈ fees, 0 < fee.nHeight

section Order

variable {fees : List CFee} {c : FeeCall}

theorem InOrder.divides (h : InOrder fees) {h12 nHeight : Nat} (hheight : nHeight < 2 ^ 32) :
    Divides h12 nHeight fees := by
  intro w _ fee hfee
  have hmem := mem_of_mem_lastInWindow hfee
  have hsub : (scanned nHeight fees).Sublist fees := List.dropWhile_sublist _
  have hpos := h.2 fee (hsub.subset hmem)
  -- what is scanned starts at or below the height and falls from there
  have hle : fee.nHeight ≤ nHeight := by
    cases hscanned : scanned nHeight fees with
    | nil =>
      rw [hscanned] at hmem
      cases hmem
    | cons g rest =>
      have hhead : ∀ f ∈ (scanned nHeight fees).head?, f.nHeight ≤ nHeight := scanned_head
      have hg : g.nHeight ≤ nHeight := hhead g (by rw [hscanned]; rfl)
      have hfalls := h.1.sublist (hsub.map _)
      rw [hscanned, List.map_cons, List.pairwise_cons] at hfalls
      rw [hscanned] at hmem
      rcases List.mem_cons.mp hmem with rfl | hmem
      · exact hg
      · exact (hfalls.1 _ (List.mem_map_of_mem hmem)).trans hg
  omega

/-- The hash under which a call files its record. -/
def FeeCall.key (c : FeeCall) : Uint256 :=
  match c.list with
  | .aliasFees => c.hash
  | .offerFees => 0
  | .certFees => 0

/-- The call finds its record in the list, or goes to a block that is not below one recorded. -/
def FeeCall.Above (c : FeeCall) (fees : List CFee) : Prop :=
  0 < c.pindex.nHeight ∧ ((∃ fee ∈ fees, fee.hash = c.key ∧ fee.nHeight = c.pindex.nHeight) ∨
    ∀ fee ∈ fees, fee.nHeight ≤ c.pindex.nHeight)

theorem InOrder.cons (h : InOrder fees) {fee : CFee} (hpos : 0 < fee.nHeight) (habove : ∀ f ∈ fees, f.nHeight ≤ fee.nHeight) :
    InOrder (fee :: fees) := by
  refine ⟨?_, List.forall_mem_cons.mpr ⟨hpos, h.2⟩⟩
  rw [List.map_cons, List.pairwise_cons]
  refine ⟨?_, h.1⟩
  intro n hn
  obtain ⟨f, hf, rfl⟩ := List.mem_map.mp hn
  exact habove f hf

/-- A list with the same heights. -/
theorem InOrder.of_heights (h : InOrder fees) {fees' : List CFee} (heq : fees'.map (·.nHeight) = fees.map (·.nHeight)) :
    InOrder fees' := by
  refine ⟨heq ▸ h.1, fun fee hfee => ?_⟩
  have hmem : fee.nHeight ∈ fees'.map (·.nHeight) := List.mem_map_of_mem hfee
  rw [heq] at hmem
  obtain ⟨f, hf, hn⟩ := List.mem_map.mp hmem
  rw [← hn]
  exact h.2 f hf

/-- **A call keeps the order** where it adds no record below another. -/
theorem InOrder.apply (h : InOrder fees) (hc : c.Above fees) : InOrder (c.apply fees) := by
  obtain ⟨hpos, hc⟩ := hc
  have hunhashed : c.key = 0 → InOrder (insertFeeUnhashed c.pindex c.nValue fees) := by
    intro hkey
    unfold insertFeeUnhashed
    split
    · exact h
    · rename_i hnone
      refine h.cons hpos (hc.resolve_left ?_)
      rintro ⟨fee, hfee, hmatch⟩
      rw [hkey] at hmatch
      exact hnone (List.any_eq_true.mpr ⟨fee, hfee, by simpa using hmatch⟩)
  cases hlist : c.list with
  | aliasFees =>
    have hkey : c.key = c.hash := by rw [FeeCall.key, hlist]
    rw [hkey] at hc
    rw [FeeCall.apply, hlist]
    show InOrder (upsertFront _ _ fees)
    unfold upsertFront
    cases hreplace : replaceFirst (fun fee : CFee => decide (fee.hash = c.hash ∧ fee.nHeight = c.pindex.nHeight))
        ⟨c.hash, c.pindex.nTime, c.pindex.nHeight, toUint64 c.nValue⟩ fees with
    | none =>
      refine h.cons hpos (hc.resolve_left ?_)
      rintro ⟨fee, hfee, hmatch⟩
      have hnot := replaceFirst_eq_none_iff.mp hreplace fee hfee
      simp [hmatch] at hnot
    | some fees' =>
      -- the record that is overwritten has the height of the new one
      obtain ⟨l₁, fee, l₂, hsplit, rfl, hmatch, -⟩ := replaceFirst_eq_some hreplace
      rw [decide_eq_true_eq] at hmatch
      refine h.of_heights ?_
      rw [hsplit, Option.getD_some, List.map_append, List.map_append, List.map_cons, List.map_cons, hmatch.2]
  | offerFees =>
    rw [FeeCall.apply, hlist]
    exact hunhashed (by rw [FeeCall.key, hlist])
  | certFees =>
    rw [FeeCall.apply, hlist]
    exact hunhashed (by rw [FeeCall.key, hlist])

/-- Each call, at its turn, finds its record or adds one that is not below another. -/
def CallsAbove : List FeeCall → (FeeList → List CFee) → Prop
  | [], _ => True
  | c :: calls, fees => c.Above (fees c.list) ∧ CallsAbove calls (applyCalls [c] fees)

theorem inOrder_applyCalls {calls : List FeeCall} {fees : FeeList → List CFee} (h : ∀ list, InOrder (fees list))
    (hcalls : CallsAbove calls fees) (list : FeeList) : InOrder (applyCalls calls fees list) := by
  induction calls generalizing fees with
  | nil => exact h list
  | cons c calls ih =>
    have hsplit : applyCalls (c :: calls) fees = applyCalls calls (applyCalls [c] fees) := rfl
    rw [hsplit]
    refine ih (fun list' => ?_) hcalls.2
    rw [applyCalls_singleton]
    by_cases hl : list' = c.list
    · rw [hl, Function.update_self]
      exact (h c.list).apply hcalls.1
    · rw [Function.update_of_ne hl]
      exact h list'

end Order

/-! ## Runs -/

/-- **A run of the fee lists**: transactions are connected and disconnected, in states that meet `C`, and in between the
    rest of the store may change. -/
inductive FeeRun (env : Env) (C : TxEvent → Store → Prop) (start : Store) : Store → Prop where
  | refl : FeeRun env C start start
  | event {s : Store} (h : FeeRun env C start s) (ev : TxEvent) (meets : C ev s) : FeeRun env C start (ev.run env s)
  | other {s s' : Store} (h : FeeRun env C start s) (same : s'.fees = s.fees) : FeeRun env C start s'

section Runs

variable {env : Env} {C : TxEvent → Store → Prop} {s s' start : Store}

theorem FeeRun.trans (h : FeeRun env C start s) (h' : FeeRun env C s s') : FeeRun env C start s' := by
  induction h' with
  | refl => exact h
  | event _ ev meets ih => exact ih.event ev meets
  | other _ same ih => exact ih.other same

/-- The event adds no record below another. -/
structure TxEvent.Ascends (env : Env) (ev : TxEvent) (s : Store) : Prop where
  calls : CallsAbove (ev.calls env s) s.fees

theorem FeeRun.inOrder (h : FeeRun env (TxEvent.Ascends env) Store.init s) (list : FeeList) : InOrder (s.fees list) := by
  induction h generalizing list with
  | refl => cases list <;> exact ⟨List.Pairwise.nil, fun fee hfee => by cases hfee⟩
  | event _ ev meets ih =>
    rw [ev.run_fees]
    exact inOrder_applyCalls ih meets.calls list
  | other _ same ih =>
    rw [same]
    exact ih list

/-! The fee lists of a node go through such a run, whatever the node has been through. -/

/-- Any events. -/
def FeeReach (env : Env) (s s' : Store) : Prop := FeeRun env (fun _ _ => True) s s'

theorem FeeReach.refl (s : Store) : FeeReach env s s := FeeRun.refl

theorem FeeReach.trans ⦃s₁ s₂ s₃ : Store⦄ (h : FeeReach env s₁ s₂) (h' : FeeReach env s₂ s₃) : FeeReach env s₁ s₃ :=
  FeeRun.trans h h'

theorem FeeReach.of_fees (h : s'.fees = s.fees) : FeeReach env s s' := FeeRun.refl.other h

variable {pindexBest pindex : CBlockIndex} {tx : CTransaction}

theorem connectTx_feeReach {acc : ConnectAcc} :
    Proc.Keeps (FeeReach env) (connectTx env false pindexBest pindex acc tx) := by
  refine Proc.Keeps.bind FeeReach.trans (Proc.Keeps.lift FeeReach.refl _) fun _ => ?_
  split
  · exact Proc.Keeps.lift FeeReach.refl _
  refine Proc.Keeps.bind FeeReach.trans (Proc.Keeps.lift FeeReach.refl _) fun _ => ?_
  refine Proc.Keeps.bind FeeReach.trans (Proc.Keeps.lift FeeReach.refl _) fun _ => ?_
  refine Proc.Keeps.bind FeeReach.trans ?_ fun _ => Proc.Keeps.lift FeeReach.refl _
  intro s
  exact FeeRun.refl.event (.connect pindexBest pindex tx acc.view (fScriptChecks env pindex)
    (fStrictPayToScriptHash pindex)) trivial

theorem connectEpilogue_feeReach {view : CoinsCache} {acc : ConnectAcc} :
    Proc.Keeps (FeeReach env) (connectEpilogue env false pindex view acc) := by
  refine Proc.Keeps.bind FeeReach.trans (Proc.Keeps.update FeeReach.refl fun s s' h => ?_) fun _ => ?_
  · obtain ⟨_, -, h⟩ := Except.bind_ok_iff.mp h
    cases h
    exact FeeReach.refl s
  split
  · exact Proc.Keeps.pure FeeReach.refl _
  refine Proc.Keeps.bind FeeReach.trans (Proc.Keeps.lift FeeReach.refl _) fun _ => ?_
  refine Proc.Keeps.bind FeeReach.trans (Proc.Keeps.update FeeReach.refl fun s s' h => ?_) fun _ =>
    Proc.Keeps.pure FeeReach.refl _
  cases h
  exact FeeReach.of_fees (by funext list; cases list <;> rfl)

theorem connectBlock_feeReach {nNow : Nat} {view : CoinsCache} :
    Proc.Keeps (FeeReach env) (connectBlock env false pindexBest pindex nNow view) := by
  refine Proc.Keeps.bind FeeReach.trans (Proc.Keeps.lift FeeReach.refl _) fun _ => ?_
  split
  · exact Proc.Keeps.pure FeeReach.refl _
  · exact Proc.Keeps.bind FeeReach.trans
      (Proc.Keeps.foldM FeeReach.refl FeeReach.trans (fun _ _ _ => connectTx_feeReach) _) fun _ =>
      connectEpilogue_feeReach

theorem reorganize_feeReach {amb : Ambient} {pfork pindexNew : CBlockIndex} {view : CoinsCache} :
    Proc.Keeps (FeeReach env) (reorganize env amb pindexBest pfork pindexNew view) := by
  refine Proc.Keeps.bind FeeReach.trans ?_ fun _ => ?_
  · refine Proc.Keeps.foldM FeeReach.refl FeeReach.trans (fun pindex _ _ => ?_) _
    exact disconnectBlock_keeps FeeReach.refl FeeReach.trans
      (fun tx _ s => FeeRun.refl.event (.disconnect pindex tx) trivial) _
  · exact Proc.Keeps.foldM FeeReach.refl FeeReach.trans (fun _ _ _ => connectBlock_feeReach) _

/-- **The fee lists of a node** come about by connecting and disconnecting transactions. -/
theorem History.feeRun {genesis : CBlock} {node : Node} (h : History env genesis node) :
    FeeReach env Store.init node.store := by
  induction h with
  | init => exact FeeReach.refl _
  | @call node amb pindexNew _ ih =>
    refine ih.trans ?_
    unfold setBestChain
    split
    · exact FeeReach.refl _
    · split
      · rename_i hrun
        exact reorganize_feeReach.run hrun
      · rename_i hrun
        refine (reorganize_feeReach.run hrun).trans (FeeReach.of_fees ?_)
        funext list
        cases list <;> rfl

end Runs

/-- **The divisors of the subsidies.** For any list and height they are not zero exactly where the last record in neither
    window is one block above the height; and they are not zero, for all heights, in every state that a run reaches
    whose transactions record nothing below what is recorded. -/
theorem subsidy_divisors (list : FeeList) (nHeight : Nat) (hheight : nHeight < 2 ^ 32) :
    (∀ fees : List CFee, (list.subsidy nHeight fees).isOk = true ↔ Divides list.h12 nHeight fees) ∧
    ∀ (env : Env) (s : Store), FeeRun env (TxEvent.Ascends env) Store.init s →
      (list.subsidy nHeight (s.fees list)).isOk = true := by
  refine ⟨fun fees => list.subsidy_isOk_iff hheight, ?_⟩
  intro env s hrun
  rw [list.subsidy_isOk_iff hheight]
  exact (hrun.inOrder list).divides hheight

namespace Cakenet

/-- The activation of the name, as its block connects it. -/
def activation : TxEvent := .connect aliasBlock9 aliasBlock10 aliasActivateTx (nodeAt aliasBlock9).coinsTip true true

theorem activation_calls :
    activation.calls env Store.init =
      [⟨.aliasFees, aliasBlock10, env.getHash aliasActivateTx, getAliasNetFee aliasActivateTx⟩] := by
  decide +kernel

theorem activation_ascends : activation.Ascends env Store.init where
  calls := by
    have hnone : ∀ fee ∈ Store.init.fees .aliasFees, fee.nHeight ≤ aliasBlock10.nHeight := by
      intro fee hfee
      cases hfee
    have hpos : 0 < aliasBlock10.nHeight := by decide +kernel
    rw [activation_calls]
    exact ⟨⟨hpos, .inr hnone⟩, True.intro⟩

theorem activation_divides :
    (FeeList.subsidy .aliasFees aliasBlock10.nHeight ((activation.run env Store.init).fees .aliasFees)).isOk = true := by
  have hheight : aliasBlock10.nHeight < 2 ^ 32 := by decide +kernel
  exact (subsidy_divisors .aliasFees aliasBlock10.nHeight hheight).2 env (activation.run env Store.init)
    (FeeRun.refl.event activation activation_ascends)

/-- The name is activated in block 11, and on another branch in block 10. -/
def lateBlock11 : CBlockIndex := mine (mine aliasBlock9 10 []) 11 [aliasActivateTx]

def earlyBlock12 : CBlockIndex := mine (mine (mine aliasBlock9 110 [aliasActivateTx]) 111 []) 112 []

/-- **A branch that activates earlier divides by zero.** The node that has seen the later activation stops when it
    connects the earlier one. -/
theorem earlier_activation_divides_by_zero :
    (setBestChain env amb lateBlock11 (Node.init genesis)).1.isOk = true ∧
      (setBestChain env amb earlyBlock12 (nodeAt lateBlock11)).1 =
        .error (crash "hr12 /= (nHeight - blk12hrht) + 1") ∧
      getAliasFeeSubsidy 10 ((nodeThen (nodeAt lateBlock11) earlyBlock12).store.fees .aliasFees) =
        .error (crash "hr12 /= (nHeight - blk12hrht) + 1") ∧
      FeeReach env Store.init (nodeThen (nodeAt lateBlock11) earlyBlock12).store := by
  refine ⟨by decide +kernel, by decide +kernel, by decide +kernel, ?_⟩
  have hhistory : History env genesis (nodeThen (nodeAt lateBlock11) earlyBlock12) :=
    (History.init.call amb lateBlock11).call amb earlyBlock12
  exact hhistory.feeRun

end Cakenet

end Syscoin

import Mathlib.Algebra.Order.Group.Multiset
import Mathlib.Data.Fintype.Option
import Mathlib.Tactic.Abel
import Syscoin.Chain.CheckQueue
import Syscoin.Lib.Ledger

/-!
# `Correctness.CheckQueue` — no failed check is lost

The counters are tallies over the threads (`CheckInv`): what is still to be done is in the queue or in a batch that was
not folded in yet, every thread in `Loop` is counted once, and every waiting one again. A check that fails is in the
queue, in a batch, or its failure is known to a thread or to the queue.

A section under the mutex is proved in two halves. Between them the thread counts as one with an empty batch
(`LoopState.entered`).
-/

namespace Syscoin

open Lib

namespace LoopState

variable {T : Type}

/-- The size of the batch that is not folded in yet. -/
def size : LoopState T → Nat
  | .working _ nNow _ => nNow
  | _ => 0

/-- The checks that are left of it. -/
def checks : LoopState T → List T
  | .working vChecks _ _ => vChecks
  | _ => []

def inLoop : LoopState T → Int
  | .outside => 0
  | _ => 1

def idle : LoopState T → Int
  | .waiting => 1
  | _ => 0

/-- The thread knows of a failure. -/
def failed : LoopState T → Prop
  | .working _ _ fOk => fOk = false
  | _ => False

/-- A thread that holds the mutex. -/
def entered : LoopState T := .working [] 0 true

theorem not_failed_entered : ¬ (entered : LoopState T).failed := by
  intro h
  cases h

end LoopState

section

variable {ι T : Type} {check : T → Bool} {q q' : CCheckQueue T} {threads : Option ι → LoopState T}
  {h : CheckHistory T} {t : Option ι}

/-- A check that has not been folded in: in the queue, in a batch, or failed and remembered. -/
def Outstanding (q : CCheckQueue T) (threads : Option ι → LoopState T) (c : T) : Prop :=
  c ∈ q.queue ∨ (∃ t, c ∈ (threads t).checks) ∨ q.fAllOk = false ∨ ∃ t, (threads t).failed

structure CountInv [Fintype ι] (q : CCheckQueue T) (threads : Option ι → LoopState T) : Prop where
  nTodo : q.nTodo = q.queue.length + tally LoopState.size threads
  nTotal : q.nTotal = tally LoopState.inLoop threads
  nIdle : q.nIdle = tally LoopState.idle threads

structure CheckInv [Fintype ι] (check : T → Bool) (q : CCheckQueue T) (threads : Option ι → LoopState T)
    (h : CheckHistory T) : Prop where
  count : CountInv q threads
  fQuit : q.fQuit = false
  queued : ∀ c ∈ q.queue, c ∈ h.round
  batched : ∀ t, ∀ c ∈ (threads t).checks, c ∈ h.round
  round : ∀ t, 0 < (threads t).size → h.round ≠ []
  failed : (q.fAllOk = false ∨ ∃ t, (threads t).failed) → ∃ c ∈ h.round, check c = false
  pending : ∀ c ∈ h.round, check c = false → Outstanding q threads c
  once : (h.evaluated : Multiset T) + h.skipped + q.queue + tally (fun s => (s.checks : Multiset T)) threads = h.added

/-- Outside of the mutex every batch has a check in it. -/
def Filled (threads : Option ι → LoopState T) : Prop :=
  ∀ t vChecks nNow fOk, threads t = .working vChecks nNow fOk → 0 < nNow

theorem Filled.update [DecidableEq ι] (hf : Filled threads) (t : Option ι) {s : LoopState T}
    (hs : ∀ vChecks nNow fOk, s = .working vChecks nNow fOk → 0 < nNow) : Filled (Function.update threads t s) := by
  intro t' vChecks nNow fOk h
  by_cases ht : t' = t
  · rw [ht, Function.update_self] at h
    exact hs vChecks nNow fOk h
  · rw [Function.update_of_ne ht] at h
    exact hf t' vChecks nNow fOk h

variable [Fintype ι]

/-- The counters follow a thread that changes its state. -/
theorem CountInv.update [DecidableEq ι] (hc : CountInv q threads) {s : LoopState T}
    (hTodo : q'.nTodo + q.queue.length + (threads t).size = q.nTodo + q'.queue.length + s.size)
    (hTotal : q'.nTotal + (threads t).inLoop = q.nTotal + s.inLoop)
    (hIdle : q'.nIdle + (threads t).idle = q.nIdle + s.idle) : CountInv q' (Function.update threads t s) := by
  obtain ⟨hTodo₀, hTotal₀, hIdle₀⟩ := hc
  have hsize := tally_update LoopState.size threads t s
  have hin := tally_update LoopState.inLoop threads t s
  have hidle := tally_update LoopState.idle threads t s
  constructor
  · omega
  · omega
  · omega

theorem checkInv_init (nBatchSize : Nat) :
    CheckInv check (.init nBatchSize) (fun _ : Option ι => .outside) ⟨[], [], [], []⟩ where
  count := by
    have hsize : tally LoopState.size (fun _ : Option ι => (.outside : LoopState T)) = 0 := tally_const_zero fun _ => rfl
    have hin : tally LoopState.inLoop (fun _ : Option ι => (.outside : LoopState T)) = 0 := tally_const_zero fun _ => rfl
    have hidle : tally LoopState.idle (fun _ : Option ι => (.outside : LoopState T)) = 0 := tally_const_zero fun _ => rfl
    constructor
    · rw [hsize]
      rfl
    · rw [hin]
      rfl
    · rw [hidle]
      rfl
  fQuit := rfl
  queued _ hc := by cases hc
  batched _ _ hc := by cases hc
  round _ hsize := absurd hsize (Nat.lt_irrefl 0)
  failed hfail := by
    rcases hfail with hall | ⟨_, hthread⟩
    · cases hall
    · cases hthread
  pending _ hc := by cases hc
  once := by
    have hnone : tally (fun s : LoopState T => (s.checks : Multiset T)) (fun _ : Option ι => .outside) = 0 :=
      tally_const_zero fun _ => rfl
    rw [hnone]
    rfl

theorem CheckInv.add (hi : CheckInv check q threads h) (vChecks : List T) :
    CheckInv check (q.add vChecks) threads
      { h with added := h.added ++ vChecks, round := h.round ++ vChecks } := by
  constructor
  · refine ⟨?_, hi.count.nTotal, hi.count.nIdle⟩
    show q.nTodo + vChecks.length = (q.queue ++ vChecks).length + _
    rw [hi.count.nTodo, List.length_append]
    omega
  · exact hi.fQuit
  · intro c hc
    rcases List.mem_append.mp hc with hold | hnew
    · exact List.mem_append_left _ (hi.queued c hold)
    · exact List.mem_append_right _ hnew
  · exact fun t c hc => List.mem_append_left _ (hi.batched t c hc)
  · exact fun t ht => List.append_ne_nil_of_left_ne_nil (hi.round t ht) _
  · intro hfail
    obtain ⟨c, hc, hbad⟩ := hi.failed hfail
    exact ⟨c, List.mem_append_left _ hc, hbad⟩
  · intro c hc hbad
    rcases List.mem_append.mp hc with hold | hnew
    · rcases hi.pending c hold hbad with hqueue | hrest
      · exact .inl (List.mem_append_left _ hqueue)
      · exact .inr hrest
    · exact .inl (List.mem_append_right _ hnew)
  · show _ + ((q.queue ++ vChecks : List T) : Multiset T) + _ = ((h.added ++ vChecks : List T) : Multiset T)
    rw [← Multiset.coe_add, ← Multiset.coe_add, ← hi.once]
    abel

variable [DecidableEq ι]

/-! A thread that changes its state: what the others have stays as it is. -/

section Update

variable {s : LoopState T}

omit [Fintype ι] in
theorem exists_failed_update :
    (∃ t', (Function.update threads t s t').failed) ↔ s.failed ∨ ∃ t' ≠ t, (threads t').failed :=
  Function.exists_update_iff threads fun _ s => s.failed

omit [Fintype ι] in
theorem exists_batch_update {c : T} :
    (∃ t', c ∈ (Function.update threads t s t').checks) ↔ c ∈ s.checks ∨ ∃ t' ≠ t, c ∈ (threads t').checks :=
  Function.exists_update_iff threads fun _ s => c ∈ s.checks

omit [Fintype ι] in
/-- A check stays outstanding if the thread and the queue lose neither it nor what they know of failures. -/
theorem Outstanding.update {c : T} (hc : Outstanding q threads c) (hqueue : c ∈ q.queue → c ∈ q'.queue ∨ c ∈ s.checks)
    (hbatch : c ∈ (threads t).checks → c ∈ s.checks ∨ s.failed)
    (hknown : q.fAllOk = false ∨ (threads t).failed → q'.fAllOk = false ∨ s.failed) :
    Outstanding q' (Function.update threads t s) c := by
  have hbatches : (∃ t', c ∈ (threads t').checks) ↔ c ∈ (threads t).checks ∨ ∃ t' ≠ t, c ∈ (threads t').checks := by
    rw [← exists_batch_update, Function.update_eq_self]
  have hfailures : (∃ t', (threads t').failed) ↔ (threads t).failed ∨ ∃ t' ≠ t, (threads t').failed := by
    rw [← exists_failed_update, Function.update_eq_self]
  unfold Outstanding at hc ⊢
  rw [exists_batch_update, exists_failed_update]
  rw [hbatches, hfailures] at hc
  rcases hc with hin | (hin | hother) | hall | hfail | hother
  · exact (hqueue hin).imp id fun hown => .inl (.inl hown)
  · rcases hbatch hin with hown | hfail
    · exact .inr (.inl (.inl hown))
    · exact .inr (.inr (.inr (.inl hfail)))
  · exact .inr (.inl (.inr hother))
  · exact .inr (.inr ((hknown (.inl hall)).imp id .inl))
  · exact .inr (.inr ((hknown (.inr hfail)).imp id .inl))
  · exact .inr (.inr (.inr (.inr hother)))

/-- What the thread and the queue know of failures has a reason if it was known before or has one of its own. -/
theorem CheckInv.failed_update (hi : CheckInv check q threads h)
    (hknown : q'.fAllOk = false ∨ s.failed →
      (q.fAllOk = false ∨ (threads t).failed) ∨ ∃ c ∈ h.round, check c = false)
    (hor : q'.fAllOk = false ∨ ∃ t', (Function.update threads t s t').failed) : ∃ c ∈ h.round, check c = false := by
  rw [exists_failed_update, ← or_assoc] at hor
  rcases hor with hown | ⟨t', -, hother⟩
  · rcases hknown hown with (hall | hfail) | hreason
    · exact hi.failed (.inl hall)
    · exact hi.failed (.inr ⟨t, hfail⟩)
    · exact hreason
  · exact hi.failed (.inr ⟨t', hother⟩)

/-- The checks of the batches belong to the round if those of the changed one do. -/
theorem CheckInv.batched_update (hi : CheckInv check q threads h) (hbatch : ∀ c ∈ s.checks, c ∈ h.round) :
    ∀ t', ∀ c ∈ (Function.update threads t s t').checks, c ∈ h.round :=
  (Function.forall_update_iff threads fun _ s => ∀ c ∈ s.checks, c ∈ h.round).mpr
    ⟨hbatch, fun t' _ => hi.batched t'⟩

end Update

/-- A thread runs a check, or skips it because it knows of a failure. -/
theorem CheckInv.runCheck (hi : CheckInv check q threads h) {c : T} {vChecks : List T} {nNow : Nat} {fOk : Bool}
    (ht : threads t = .working (c :: vChecks) nNow fOk) {h' : CheckHistory T} (hadded : h'.added = h.added)
    (hround : h'.round = h.round)
    (hlog : (h'.evaluated : Multiset T) + h'.skipped = {c} + ((h.evaluated : Multiset T) + h.skipped)) :
    CheckInv check q (Function.update threads t (.working vChecks nNow (fOk && check c))) h' := by
  have hmem : c ∈ h.round := hi.batched t c (by rw [ht]; exact List.mem_cons_self)
  constructor
  · apply hi.count.update
    · rw [ht]
      rfl
    · rw [ht]
      rfl
    · rw [ht]
      rfl
  · exact hi.fQuit
  · rw [hround]
    exact hi.queued
  · rw [hround]
    apply hi.batched_update
    intro c' hc'
    exact hi.batched t c' (by rw [ht]; exact List.mem_cons_of_mem c hc')
  · rw [hround]
    exact fun _ _ => List.ne_nil_of_mem hmem
  · rw [hround]
    apply hi.failed_update
    rintro (hall | hfail)
    · exact .inl (.inl hall)
    · rw [ht]
      cases fOk with
      | true => exact .inr ⟨c, hmem, hfail⟩
      | false => exact .inl (.inr rfl)
  · rw [hround]
    intro c' hc' hbad
    apply (hi.pending c' hc' hbad).update .inl
    · intro hbatch
      rw [ht] at hbatch
      rcases List.mem_cons.mp hbatch with rfl | hrest
      · -- the check itself: the thread knows now
        right
        show (fOk && check c') = false
        rw [hbad, Bool.and_false]
      · exact .inl hrest
    · intro hor
      refine hor.imp id ?_
      intro hfail
      rw [ht] at hfail
      have hfalse : fOk = false := hfail
      rw [hfalse]
      rfl
  · have hupdate := tally_update (fun s : LoopState T => (s.checks : Multiset T)) threads t
      (.working vChecks nNow (fOk && check c))
    rw [ht] at hupdate
    generalize tally (fun s : LoopState T => (s.checks : Multiset T)) (Function.update threads t _) = after at hupdate ⊢
    have hbatch : after + {c} = tally (fun s : LoopState T => (s.checks : Multiset T)) threads := by
      have hcons : ((c :: vChecks : List T) : Multiset T) = {c} + (vChecks : Multiset T) := rfl
      have hupdate' : after + ({c} + (vChecks : Multiset T)) =
          tally (fun s : LoopState T => (s.checks : Multiset T)) threads + (vChecks : Multiset T) := hupdate
      rw [← add_assoc] at hupdate'
      exact add_right_cancel hupdate'
    rw [hlog, hadded, ← hi.once, ← hbatch]
    abel

/-- A thread goes to another state with the same checks, and what it or the queue knows of failures stays known. -/
theorem CheckInv.change (hi : CheckInv check q threads h) {s : LoopState T}
    (hcount : CountInv q' (Function.update threads t s)) (hquit : q'.fQuit = q.fQuit) (hqueue : q'.queue = q.queue)
    (hchecks : s.checks = (threads t).checks) (hsize : s.size = 0)
    (hfail : q'.fAllOk = false ∨ s.failed ↔ q.fAllOk = false ∨ (threads t).failed) :
    CheckInv check q' (Function.update threads t s) h := by
  constructor
  · exact hcount
  · rw [hquit]
    exact hi.fQuit
  · rw [hqueue]
    exact hi.queued
  · apply hi.batched_update
    rw [hchecks]
    exact hi.batched t
  · intro t' hpos
    by_cases htt : t' = t
    · rw [htt, Function.update_self, hsize] at hpos
      exact absurd hpos (Nat.lt_irrefl 0)
    · rw [Function.update_of_ne htt] at hpos
      exact hi.round t' hpos
  · exact hi.failed_update fun hown => .inl (hfail.mp hown)
  · intro c hc hbad
    apply (hi.pending c hc hbad).update
    · rw [hqueue]
      exact .inl
    · rw [hchecks]
      exact .inl
    · exact hfail.mpr
  · have htally : tally (fun s : LoopState T => (s.checks : Multiset T)) (Function.update threads t s) =
        tally (fun s : LoopState T => (s.checks : Multiset T)) threads := by
      apply tally_update_of_eq
      rw [hchecks]
    rw [htally, hqueue]
    exact hi.once

/-- A thread that takes the mutex folds its batch in, and stands there with an empty one. -/
theorem CheckInv.enter (hi : CheckInv check q threads h) (hf : Filled threads) (hstep : q.enter (threads t) = some q') :
    CheckInv check q' (Function.update threads t .entered) h ∧ q'.queue = q.queue := by
  -- what the step leaves of the thread's batch: nothing but its failure, which the queue takes over
  have hchecks : (threads t).checks = [] ∧ q'.queue = q.queue ∧ q'.fQuit = q.fQuit ∧
      (q'.fAllOk = false ↔ q.fAllOk = false ∨ (threads t).failed) ∧
      q'.nTodo + (threads t).size = q.nTodo ∧
      q'.nTotal + (threads t).inLoop = q.nTotal + 1 ∧ q'.nIdle + (threads t).idle = q.nIdle := by
    have hsize := le_tally LoopState.size threads t
    have htodo := hi.count.nTodo
    cases hthread : threads t with
    | outside =>
      rw [hthread] at hstep
      obtain rfl := Option.some.inj hstep
      refine ⟨rfl, rfl, rfl, ⟨.inl, fun hor => hor.resolve_right id⟩, rfl, add_zero _, add_zero _⟩
    | waiting =>
      rw [hthread] at hstep
      obtain rfl := Option.some.inj hstep
      refine ⟨rfl, rfl, rfl, ⟨.inl, fun hor => hor.resolve_right id⟩, rfl, rfl, ?_⟩
      show q.nIdle - 1 + 1 = q.nIdle
      omega
    | working vChecks nNow fOk =>
      rw [hthread] at hstep hsize
      cases vChecks with
      | cons c vChecks => cases hstep
      | nil =>
        have hpos : nNow ≠ 0 := Nat.pos_iff_ne_zero.mp (hf t [] nNow fOk hthread)
        rw [CCheckQueue.enter, if_pos hpos] at hstep
        obtain rfl := Option.some.inj hstep
        have hle : nNow ≤ q.nTodo := by
          have hsize' : nNow ≤ tally LoopState.size threads := hsize
          omega
        refine ⟨rfl, rfl, rfl, Bool.and_eq_false_iff, Nat.sub_add_cancel hle, rfl, add_zero _⟩
  obtain ⟨hnone, hqueue, hquit, hfail, hTodo, hTotal, hIdle⟩ := hchecks
  refine ⟨hi.change ?_ hquit hqueue hnone.symm rfl ?_, hqueue⟩
  · apply hi.count.update
    · show q'.nTodo + q.queue.length + (threads t).size = q.nTodo + q'.queue.length + 0
      rw [hqueue]
      omega
    · exact hTotal
    · show q'.nIdle + (threads t).idle = q.nIdle + 0
      omega
  · rw [← hfail]
    exact ⟨fun hor => hor.resolve_right LoopState.not_failed_entered, .inl⟩

/-- A thread that waits counts as idle; nothing else changes. -/
theorem CheckInv.wait (hi : CheckInv check q threads h) (ht : threads t = .entered) :
    CheckInv check { q with nIdle := q.nIdle + 1 } (Function.update threads t .waiting) h := by
  refine hi.change ?_ rfl rfl ?_ rfl ?_
  · apply hi.count.update
    · rw [ht]
      rfl
    · rw [ht]
      rfl
    · rw [ht]
      exact add_zero _
  · rw [ht]
    rfl
  · rw [ht]
    exact or_congr_right ⟨fun hf => hf.elim, fun hf => absurd hf LoopState.not_failed_entered⟩

/-- A thread takes the last `n` checks of the queue. -/
theorem CheckInv.takeBatch (hi : CheckInv check q threads h) (ht : threads t = .entered) {n : Nat} (hpos : 0 < n)
    (hn : n ≤ q.queue.length) :
    CheckInv check { q with queue := q.queue.take (q.queue.length - n) }
      (Function.update threads t (.working (q.queue.reverse.take n) n q.fAllOk)) h := by
  have hback : q.queue.reverse.take n = (q.queue.drop (q.queue.length - n)).reverse := List.take_reverse
  have hmem : ∀ c, c ∈ q.queue ↔ c ∈ q.queue.take (q.queue.length - n) ∨ c ∈ q.queue.reverse.take n := by
    intro c
    rw [hback, List.mem_reverse, ← List.mem_append, List.take_append_drop]
  have hround : h.round ≠ [] := by
    obtain ⟨c, hc⟩ := List.exists_mem_of_length_pos (Nat.lt_of_lt_of_le hpos hn)
    exact List.ne_nil_of_mem (hi.queued c hc)
  constructor
  · apply hi.count.update
    · rw [ht]
      show q.nTodo + q.queue.length + 0 = q.nTodo + (q.queue.take (q.queue.length - n)).length + n
      rw [List.length_take]
      omega
    · rw [ht]
      rfl
    · rw [ht]
      rfl
  · exact hi.fQuit
  · exact fun c hc => hi.queued c ((hmem c).mpr (.inl hc))
  · exact hi.batched_update fun c hc => hi.queued c ((hmem c).mpr (.inr hc))
  · exact fun _ _ => hround
  · -- the thread starts with what the queue knows
    apply hi.failed_update
    rintro (hall | hall)
    · exact .inl (.inl hall)
    · exact .inl (.inl hall)
  · intro c hc hbad
    apply (hi.pending c hc hbad).update
    · exact (hmem c).mp
    · rw [ht]
      intro hbatch
      cases hbatch
    · rw [ht]
      exact fun hor => hor.imp id fun hfail => absurd hfail LoopState.not_failed_entered
  · have hupdate := tally_update (fun s : LoopState T => (s.checks : Multiset T)) threads t
      (.working (q.queue.reverse.take n) n q.fAllOk)
    rw [ht] at hupdate
    have htally : tally (fun s : LoopState T => (s.checks : Multiset T))
        (Function.update threads t (.working (q.queue.reverse.take n) n q.fAllOk)) =
          tally (fun s : LoopState T => (s.checks : Multiset T)) threads + (q.queue.reverse.take n : List T) := by
      exact (add_zero _).symm.trans hupdate
    have hqueue : ((q.queue.take (q.queue.length - n) : List T) : Multiset T) + (q.queue.reverse.take n : List T) =
        (q.queue : List T) := by
      rw [hback, Multiset.coe_reverse (q.queue.drop _), Multiset.coe_add, List.take_append_drop]
    rw [htally, ← hi.once, ← hqueue]
    abel

/-- Nothing is left to do: there is no batch and no check, and the queue knows exactly whether one failed. -/
theorem CheckInv.finished (hi : CheckInv check q threads h) (hf : ∀ t' ≠ t, ∀ vChecks nNow fOk,
      threads t' = .working vChecks nNow fOk → 0 < nNow) (ht : threads t = .entered) (hqueue : q.queue = [])
    (htodo : q.nTodo = 0) :
    (∀ t' ≠ t, threads t' = .outside ∨ threads t' = .waiting) ∧ q.fAllOk = h.round.all check := by
  have hidle : ∀ t' ≠ t, threads t' = .outside ∨ threads t' = .waiting := by
    intro t' htt
    have hsize := le_tally LoopState.size threads t'
    have hcount := hi.count.nTodo
    cases hthread : threads t' with
    | outside => exact .inl rfl
    | waiting => exact .inr rfl
    | working vChecks nNow fOk =>
      exfalso
      -- a thread that works has a batch that is still to be counted
      have hpos := hf t' htt vChecks nNow fOk hthread
      rw [hthread] at hsize
      have hsize' : nNow ≤ tally LoopState.size threads := hsize
      omega
  have hnone : ∀ t', (threads t').checks = [] ∧ ¬ (threads t').failed := by
    intro t'
    by_cases htt : t' = t
    · rw [htt, ht]
      exact ⟨rfl, LoopState.not_failed_entered⟩
    · rcases hidle t' htt with hthread | hthread
      · rw [hthread]
        exact ⟨rfl, id⟩
      · rw [hthread]
        exact ⟨rfl, id⟩
  refine ⟨hidle, ?_⟩
  cases hall : q.fAllOk with
  | false =>
    -- a failure that is noted is the failure of a check
    obtain ⟨c, hc, hbad⟩ := hi.failed (.inl hall)
    symm
    rw [List.all_eq_false]
    exact ⟨c, hc, by rw [hbad]; decide⟩
  | true =>
    symm
    rw [List.all_eq_true]
    -- a check that fails would be in the queue, in a thread's hands, or noted
    intro c hc
    by_contra hbad
    rcases hi.pending c hc (Bool.eq_false_of_not_eq_true hbad) with hin | ⟨t', hbatch⟩ | hfalse | ⟨t', hthread⟩
    · rw [hqueue] at hin
      cases hin
    · rw [(hnone t').1] at hbatch
      cases hbatch
    · rw [hall] at hfalse
      cases hfalse
    · exact (hnone t').2 hthread

/-- The master returns and leaves a queue without checks behind. -/
theorem CheckInv.leave (hi : CheckInv check q threads h) (ht : threads t = .entered) (hqueue : q.queue = [])
    (hidle : ∀ t' ≠ t, threads t' = .outside ∨ threads t' = .waiting) :
    CheckInv check { q with nTotal := q.nTotal - 1, fAllOk := true } (Function.update threads t .outside)
      { h with round := [] } := by
  -- nobody has a check in hand any more
  have hempty : ∀ t', (Function.update threads t .outside t').checks = [] ∧
      (Function.update threads t .outside t').size = 0 ∧ ¬ (Function.update threads t .outside t').failed := by
    intro t'
    by_cases htt : t' = t
    · rw [htt, Function.update_self]
      exact ⟨rfl, rfl, id⟩
    · rw [Function.update_of_ne htt]
      rcases hidle t' htt with hthread | hthread
      · rw [hthread]
        exact ⟨rfl, rfl, id⟩
      · rw [hthread]
        exact ⟨rfl, rfl, id⟩
  constructor
  · apply hi.count.update
    · rw [ht]
      rfl
    · rw [ht]
      show q.nTotal - 1 + 1 = q.nTotal + 0
      omega
    · rw [ht]
      rfl
  · exact hi.fQuit
  · intro c hc
    have hc' : c ∈ q.queue := hc
    rw [hqueue] at hc'
    cases hc'
  · intro t' c hc
    rw [(hempty t').1] at hc
    cases hc
  · intro t' hpos
    rw [(hempty t').2.1] at hpos
    exact absurd hpos (Nat.lt_irrefl 0)
  · rintro (hall | ⟨t', hthread⟩)
    · cases hall
    · exact absurd hthread (hempty t').2.2
  · intro c hc
    cases hc
  · have htally : tally (fun s : LoopState T => (s.checks : Multiset T)) (Function.update threads t .outside) =
        tally (fun s : LoopState T => (s.checks : Multiset T)) threads := by
      apply tally_update_of_eq
      rw [ht]
      rfl
    rw [htally]
    exact hi.once

/-- A whole section under the mutex; if it ends the master's `Loop`, the result is that of the checks of the round. -/
theorem CheckInv.critSect (hi : CheckInv check q threads h) (hf : Filled threads) {s : LoopState T}
    {result : Option Bool} (hstep : q.critSect t.isNone (threads t) = some (q', s, result)) :
    CheckInv check q' (Function.update threads t s)
        { h with round := if t.isNone && result.isSome then [] else h.round } ∧
      Filled (Function.update threads t s) ∧
      ∀ b, result = some b → s = .outside ∧ t = none ∧ b = h.round.all check := by
  obtain ⟨q₁, henter, hdispatch⟩ := Option.map_eq_some_iff.mp hstep
  obtain ⟨hi₁, -⟩ := hi.enter hf henter
  have ht₁ : Function.update threads t .entered t = .entered := Function.update_self ..
  have hothers : ∀ t' ≠ t, ∀ vChecks nNow fOk, Function.update threads t .entered t' = .working vChecks nNow fOk →
      0 < nNow := by
    intro t' htt vChecks nNow fOk hthread
    rw [Function.update_of_ne htt] at hthread
    exact hf t' vChecks nNow fOk hthread
  have hupdate : ∀ s : LoopState T, Function.update (Function.update threads t .entered) t s =
      Function.update threads t s := fun s => Function.update_idem ..
  unfold CCheckQueue.dispatch at hdispatch
  split at hdispatch
  · rename_i hempty
    have hqueue : q₁.queue = [] := List.isEmpty_iff.mp hempty
    split at hdispatch
    · -- only the master may return
      rename_i hdone
      rw [hi₁.fQuit, Bool.or_false, Bool.and_eq_true, beq_iff_eq] at hdone
      obtain ⟨hmaster, htodo⟩ := hdone
      simp only [Prod.mk.injEq] at hdispatch
      obtain ⟨rfl, rfl, rfl⟩ := hdispatch
      obtain ⟨hidle, hresult⟩ := hi₁.finished hothers ht₁ hqueue htodo
      have hleave := hi₁.leave ht₁ hqueue hidle
      rw [hupdate] at hleave
      rw [hmaster]
      refine ⟨hleave, hf.update t (fun _ _ _ hthread => by cases hthread), ?_⟩
      intro b hb
      refine ⟨rfl, Option.isNone_iff_eq_none.mp hmaster, ?_⟩
      rw [← hresult]
      exact (Option.some.inj hb).symm
    · simp only [Prod.mk.injEq] at hdispatch
      obtain ⟨rfl, rfl, rfl⟩ := hdispatch
      have hwait := hi₁.wait ht₁
      rw [hupdate] at hwait
      rw [Option.isSome_none, Bool.and_false]
      exact ⟨hwait, hf.update t (fun _ _ _ hthread => by cases hthread), fun b hb => by cases hb⟩
  · rename_i hne
    have hlen : 0 < q₁.queue.length := by
      apply List.length_pos_of_ne_nil
      intro hnil
      exact hne (List.isEmpty_iff.mpr hnil)
    simp only [Prod.mk.injEq] at hdispatch
    obtain ⟨rfl, rfl, rfl⟩ := hdispatch
    have hpos : 0 < max 1 (min q₁.nBatchSize (q₁.queue.length / (q₁.nTotal + q₁.nIdle + 1).toNat)) :=
      Nat.lt_of_lt_of_le Nat.zero_lt_one (Nat.le_max_left _ _)
    have hle : max 1 (min q₁.nBatchSize (q₁.queue.length / (q₁.nTotal + q₁.nIdle + 1).toNat)) ≤ q₁.queue.length :=
      Nat.max_le.mpr ⟨hlen, Nat.le_trans (Nat.min_le_right _ _) (Nat.div_le_self _ _)⟩
    have hbatch := hi₁.takeBatch ht₁ hpos hle
    rw [hupdate] at hbatch
    rw [Option.isSome_none, Bool.and_false]
    refine ⟨hbatch, hf.update t ?_, fun b hb => by cases hb⟩
    intro vChecks nNow fOk hthread
    injection hthread with _ hnow _
    rw [← hnow]
    exact hpos

theorem CheckRun.inv {nBatchSize : Nat} {system : CheckSystem ι T} (hrun : CheckRun check nBatchSize system h) :
    CheckInv check system.q system.threads h ∧ Filled system.threads := by
  induction hrun with
  | init => exact ⟨checkInv_init nBatchSize, fun _ _ _ _ hthread => by cases hthread⟩
  | add vChecks _ _ ih => exact ⟨ih.1.add vChecks, ih.2⟩
  | execute t _ hthread ih =>
    refine ⟨ih.1.runCheck hthread rfl rfl ?_, ih.2.update t ?_⟩
    · rw [← Multiset.cons_coe, ← Multiset.singleton_add, add_assoc]
    · intro vChecks nNow fOk heq
      injection heq with _ hnow _
      rw [← hnow]
      exact ih.2 t _ _ _ hthread
  | skip t _ hthread ih =>
    refine ⟨ih.1.runCheck hthread rfl rfl ?_, ih.2.update t ?_⟩
    · rw [← Multiset.cons_coe, ← Multiset.singleton_add, add_left_comm]
    · intro vChecks nNow fOk heq
      injection heq with _ hnow _
      rw [← hnow]
      exact ih.2 t _ _ _ hthread
  | loop t _ hstep ih =>
    obtain ⟨hi, hf, -⟩ := ih.1.critSect ih.2 hstep
    exact ⟨hi, hf⟩

omit [DecidableEq ι] in
/-- Between a `Wait` and the next checks, the queue is as a control expects it. -/
theorem CheckInv.unused (hi : CheckInv check q threads h) (hf : Filled threads) (hround : h.round = []) :
    q.queue = [] ∧ (∀ t, threads t = .outside ∨ threads t = .waiting) ∧ q.Unused := by
  have hqueue : q.queue = [] := by
    rw [List.eq_nil_iff_forall_not_mem]
    intro c hc
    have hmem := hi.queued c hc
    rw [hround] at hmem
    cases hmem
  have hsize : ∀ t, (threads t).size = 0 := by
    intro t
    by_contra hpos
    exact hi.round t (Nat.pos_of_ne_zero hpos) hround
  have hidle : ∀ t, threads t = .outside ∨ threads t = .waiting := by
    intro t
    cases hthread : threads t with
    | outside => exact .inl rfl
    | waiting => exact .inr rfl
    | working vChecks nNow fOk =>
      have hpos := hf t vChecks nNow fOk hthread
      have hzero := hsize t
      rw [hthread] at hzero
      exact absurd hzero (Nat.pos_iff_ne_zero.mp hpos)
  refine ⟨hqueue, hidle, ?_, ?_, ?_⟩
  · -- every thread in the loop is idle
    rw [hi.count.nTotal, hi.count.nIdle]
    apply tally_congr
    intro t
    rcases hidle t with hthread | hthread
    · rw [hthread]
      rfl
    · rw [hthread]
      rfl
  · rw [hi.count.nTodo, hqueue, tally_const_zero hsize]
    rfl
  · by_contra hall
    obtain ⟨c, hc, -⟩ := hi.failed (.inl (Bool.eq_false_of_not_eq_true hall))
    rw [hround] at hc
    cases hc

/-- **The check queue loses no failure.** In every interleaving: `nTodo` counts the checks in the queue and in batches
    not folded in, no check is evaluated more often than it was added, `Wait` returns whether all checks since the last
    one succeed, and it leaves the queue as the next control expects it, which it stays until checks are added. -/
theorem checkQueue_loses_nothing (check : T → Bool) (nBatchSize : Nat) (q : CCheckQueue T)
    (threads : Option ι → LoopState T) (h : CheckHistory T) (hrun : CheckRun check nBatchSize ⟨q, threads⟩ h) :
    q.nTodo = q.queue.length + tally LoopState.size threads ∧
    (h.evaluated : Multiset T) ≤ h.added ∧
    (∀ q' thread b, q.critSect true (threads none) = some (q', thread, some b) →
      b = h.round.all check ∧ q'.queue = [] ∧
        (∀ t : ι, threads (some t) = .outside ∨ threads (some t) = .waiting) ∧ q'.Unused) ∧
    (h.round = [] → q.queue = [] ∧ (∀ t, threads t = .outside ∨ threads t = .waiting) ∧ q.Unused) := by
  obtain ⟨hi, hf⟩ := hrun.inv
  refine ⟨hi.count.nTodo, ?_, ?_, hi.unused hf⟩
  · rw [← hi.once, add_assoc, add_assoc]
    exact Multiset.le_add_right _ _
  · intro q' thread b hstep
    have hmaster : q.critSect (none : Option ι).isNone (threads none) = some (q', thread, some b) := hstep
    obtain ⟨hi', hf', hresult⟩ := hi.critSect hf hmaster
    obtain ⟨-, -, hb⟩ := hresult b rfl
    obtain ⟨hqueue, hidle, hunused⟩ := hi'.unused hf' rfl
    refine ⟨hb, hqueue, ?_, hunused⟩
    intro t
    have hthread := hidle (some t)
    rwa [Function.update_of_ne (Option.some_ne_none t)] at hthread

end

namespace Cakenet

/-- One worker and the master take a check each; the master waits for the worker and learns that all are well. -/
theorem checks_on_two_threads :
    ∃ (q q' : CCheckQueue Nat) (threads : Option Unit → LoopState Nat) (h : CheckHistory Nat),
      q.critSect true (threads none) = some (q', .outside, some true) ∧ h.added = [1, 2] ∧
      q.nTodo = q.queue.length + tally LoopState.size threads ∧ (h.evaluated : Multiset Nat) ≤ h.added ∧
      true = h.round.all (fun c => decide (c < 3)) ∧ q'.Unused := by
  have run₁ : CheckRun (fun c => decide (c < 3)) 128
      (⟨CCheckQueue.add (.init 128) [1, 2], fun _ => .outside⟩ : CheckSystem Unit Nat) ⟨[1, 2], [1, 2], [], []⟩ :=
    CheckRun.init.add [1, 2] rfl
  have run₂ := run₁.loop (some ()) rfl
  have run₃ := run₂.execute (some ()) rfl
  have run₄ := run₃.loop none rfl
  have run₅ := run₄.execute none rfl
  have run₆ := run₅.loop none rfl
  have run₇ := run₆.loop (some ()) rfl
  have hsound := checkQueue_loses_nothing _ _ _ _ _ run₇
  have hwait := hsound.2.2.1 _ .outside true rfl
  exact ⟨_, _, _, _, rfl, rfl, hsound.1, hsound.2.1, hwait.1, hwait.2.2.2⟩

end Cakenet

end Syscoin

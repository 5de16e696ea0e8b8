import Mathlib.Logic.Function.Basic

/-!
# `Chain.CheckQueue` — signature checks on several threads

The master pushes checks onto the queue, and the workers take them off in batches. `Wait` makes the master one of the
workers until nothing is left to do. A thread folds the result of a batch into the queue's when it next holds the
mutex. Every section under the mutex is one step; a thread that waits may wake at any time.
-/

namespace Syscoin

variable {ι T : Type}

structure CCheckQueue (T : Type) where
  queue : List T
  nIdle : Int
  nTotal : Int
  fAllOk : Bool
  nTodo : Nat
  fQuit : Bool
  nBatchSize : Nat

/-- Where a thread is when it does not hold the mutex: not in `Loop`, in `cond.wait`, or about to run the checks that
    are left of its batch. -/
inductive LoopState (T : Type) where
  | outside
  | waiting
  | working (vChecks : List T) (nNow : Nat) (fOk : Bool)

namespace CCheckQueue

/-- The constructor. -/
def init (nBatchSizeIn : Nat) : CCheckQueue T := ⟨[], 0, 0, true, 0, false, nBatchSizeIn⟩

/-- What a thread does first with the mutex: the clean-up of the previous loop run, or the end of the wait. A thread
    with checks left does not take the mutex. -/
def enter (q : CCheckQueue T) : LoopState T → Option (CCheckQueue T)
  | .outside => some { q with nTotal := q.nTotal + 1 }
  | .waiting => some { q with nIdle := q.nIdle - 1 }
  | .working [] nNow fOk =>
    if nNow ≠ 0 then some { q with fAllOk := q.fAllOk && fOk, nTodo := q.nTodo - nNow }
    else some { q with nTotal := q.nTotal + 1 }
  | .working (_ :: _) _ _ => none

/-- The rest of the section, from `while (queue.empty())` on, with what `Loop` returns if it does. The batch is taken
    off the back of the queue. -/
def dispatch (q : CCheckQueue T) (fMaster : Bool) : CCheckQueue T × LoopState T × Option Bool :=
  if q.queue.isEmpty then
    if (fMaster || q.fQuit) && q.nTodo == 0 then
      ({ q with nTotal := q.nTotal - 1, fAllOk := if fMaster then true else q.fAllOk }, .outside, some q.fAllOk)
    else ({ q with nIdle := q.nIdle + 1 }, .waiting, none)
  else
    let nNow := max 1 (min q.nBatchSize (q.queue.length / (q.nTotal + q.nIdle + 1).toNat))
    ({ q with queue := q.queue.take (q.queue.length - nNow) }, .working (q.queue.reverse.take nNow) nNow q.fAllOk, none)

/-- One critical section of **`Loop`**. -/
def critSect (q : CCheckQueue T) (fMaster : Bool) (thread : LoopState T) :
    Option (CCheckQueue T × LoopState T × Option Bool) :=
  (q.enter thread).map fun q => q.dispatch fMaster

def add (q : CCheckQueue T) (vChecks : List T) : CCheckQueue T :=
  { q with queue := q.queue ++ vChecks, nTodo := q.nTodo + vChecks.length }

/-- What the constructor of `CCheckQueueControl` asserts. -/
def Unused (q : CCheckQueue T) : Prop := q.nTotal = q.nIdle ∧ q.nTodo = 0 ∧ q.fAllOk = true

end CCheckQueue

/-- The queue and its threads; `none` is the master. -/
structure CheckSystem (ι T : Type) where
  q : CCheckQueue T
  threads : Option ι → LoopState T

/-- What happened so far: the checks that were added, those added since `Wait` last returned, and those that were
    evaluated and skipped. -/
structure CheckHistory (T : Type) where
  added : List T
  round : List T
  evaluated : List T
  skipped : List T

/-- **The runs** of a queue, in any interleaving. The master adds checks only outside of `Wait`. -/
inductive CheckRun [DecidableEq ι] (check : T → Bool) (nBatchSize : Nat) : CheckSystem ι T → CheckHistory T → Prop where
  | init : CheckRun check nBatchSize ⟨.init nBatchSize, fun _ => .outside⟩ ⟨[], [], [], []⟩
  | add {q : CCheckQueue T} {threads : Option ι → LoopState T} {h : CheckHistory T} (vChecks : List T)
      (run : CheckRun check nBatchSize ⟨q, threads⟩ h) (master : threads none = .outside) :
      CheckRun check nBatchSize ⟨q.add vChecks, threads⟩
        { h with added := h.added ++ vChecks, round := h.round ++ vChecks }
  | execute {q : CCheckQueue T} {threads : Option ι → LoopState T} {h : CheckHistory T} (t : Option ι) {c : T}
      {vChecks : List T} {nNow : Nat} (run : CheckRun check nBatchSize ⟨q, threads⟩ h)
      (thread : threads t = .working (c :: vChecks) nNow true) :
      CheckRun check nBatchSize ⟨q, Function.update threads t (.working vChecks nNow (check c))⟩
        { h with evaluated := c :: h.evaluated }
  | skip {q : CCheckQueue T} {threads : Option ι → LoopState T} {h : CheckHistory T} (t : Option ι) {c : T}
      {vChecks : List T} {nNow : Nat} (run : CheckRun check nBatchSize ⟨q, threads⟩ h)
      (thread : threads t = .working (c :: vChecks) nNow false) :
      CheckRun check nBatchSize ⟨q, Function.update threads t (.working vChecks nNow false)⟩
        { h with skipped := c :: h.skipped }
  | loop {q q' : CCheckQueue T} {threads : Option ι → LoopState T} {h : CheckHistory T} (t : Option ι)
      {thread : LoopState T} {result : Option Bool} (run : CheckRun check nBatchSize ⟨q, threads⟩ h)
      (step : q.critSect t.isNone (threads t) = some (q', thread, result)) :
      CheckRun check nBatchSize ⟨q', Function.update threads t thread⟩
        { h with round := if t.isNone && result.isSome then [] else h.round }

end Syscoin

import Syscoin.Lib.Proc

/-!
# `Lib.Machine` — a machine that consumes its program

A step leads to the next state, or stops with an error and the state it stopped in. Every step that goes on makes the
state smaller; a state of size zero is at its end. `Machine.exec` runs a machine until it ends or stops.

The recursion behind it is on fuel, and the size of the state is enough fuel, so none of the rules speaks of fuel:
`exec_end`, `exec_step` and `exec_stop` unfold a run by one step, `exec_ok_iff` does so for runs that do not stop, and
`exec_keeps` and `exec_ok_keeps` carry an invariant through a run. `Reaches` speaks of the states on the way.
-/

namespace Lib

universe u

variable {σ ε α : Type u}

/-- The state in which a computation ended, successfully or not. -/
def lastState : Except (ε × σ) σ → σ
  | .ok s => s
  | .error (_, s) => s

/-- A fallible computation in state `s`, which stays `s` when it fails. -/
def stay (s : σ) : Except ε α → Except (ε × σ) α
  | .ok a => .ok a
  | .error e => .error (e, s)

@[simp] theorem stay_ok_iff {s : σ} {x : Except ε α} {a : α} : stay s x = .ok a ↔ x = .ok a := by
  cases x <;> simp [stay]

/-- What holds of `s`, and after the rest if the computation succeeds, holds at the end. -/
theorem lastState_stay_bind {P : σ → Prop} {s : σ} {x : Except ε α} {f : α → Except (ε × σ) σ} (hs : P s)
    (hf : ∀ a, x = .ok a → P (lastState (f a))) : P (lastState (stay s x >>= f)) := by
  cases x with
  | error e => exact hs
  | ok a => exact hf a rfl

/-- What holds at the end of the first part, and after the rest if the first part succeeds, holds at the end. -/
theorem lastState_bind {P : σ → Prop} {x : Except (ε × σ) σ} {f : σ → Except (ε × σ) σ} (hx : P (lastState x))
    (hf : ∀ s, x = .ok s → P s → P (lastState (f s))) : P (lastState (x >>= f)) := by
  cases x with
  | error e => exact hx
  | ok s => exact hf s rfl hx

structure Machine (σ ε : Type u) where
  step : σ → Except (ε × σ) σ
  size : σ → Nat
  size_lt : ∀ s s', step s = .ok s' → size s' < size s

namespace Machine

variable (m : Machine σ ε)

/-- At most `fuel` steps. -/
def run : Nat → σ → Except (ε × σ) σ
  | 0, s => .ok s
  | fuel + 1, s => if m.size s = 0 then .ok s else (m.step s).bind (run fuel)

def exec (s : σ) : Except (ε × σ) σ := m.run (m.size s) s

variable {m}

/-- Fuel beyond the size of the state makes no difference. -/
theorem run_eq_run {n k : Nat} {s : σ} (hn : m.size s ≤ n) (hk : m.size s ≤ k) : m.run n s = m.run k s := by
  induction n generalizing k s with
  | zero =>
    cases k with
    | zero => rfl
    | succ k => rw [run, run, if_pos (Nat.le_zero.mp hn)]
  | succ n ih =>
    cases k with
    | zero => rw [run, run, if_pos (Nat.le_zero.mp hk)]
    | succ k =>
      rw [run, run]
      split
      · rfl
      · cases hstep : m.step s with
        | error e => rfl
        | ok s' =>
          have hlt := m.size_lt s s' hstep
          exact ih (by omega) (by omega)

theorem exec_end {s : σ} (h : m.size s = 0) : m.exec s = .ok s := by
  rw [exec, h]
  rfl

theorem exec_step {s s' : σ} (h : m.step s = .ok s') : m.exec s = m.exec s' := by
  have hlt := m.size_lt s s' h
  obtain ⟨n, hn⟩ := Nat.exists_eq_add_of_lt (Nat.zero_lt_of_lt hlt)
  rw [exec, hn, Nat.zero_add, run, if_neg (by omega), h]
  exact run_eq_run (by omega) (Nat.le_refl _)

theorem exec_stop {s : σ} {e : ε × σ} (hsize : 0 < m.size s) (h : m.step s = .error e) : m.exec s = .error e := by
  obtain ⟨n, hn⟩ := Nat.exists_eq_add_of_lt hsize
  rw [exec, hn, Nat.zero_add, run, if_neg (by omega), h]
  rfl

theorem exec_ok_iff {s t : σ} (hsize : 0 < m.size s) :
    m.exec s = .ok t ↔ ∃ s', m.step s = .ok s' ∧ m.exec s' = .ok t := by
  cases h : m.step s with
  | error e => simp [exec_stop hsize h]
  | ok s' => simp [exec_step h]

/-- **The rule for runs.** `I` holds of every state the machine steps from, `J` of the state it stops in. -/
theorem exec_keeps {I J : σ → Prop} (hstep : ∀ s s', I s → m.step s = .ok s' → I s')
    (hstop : ∀ s e s', I s → m.step s = .error (e, s') → J s') (hend : ∀ s, I s → m.size s = 0 → J s) {s : σ}
    (h : I s) : J (lastState (m.exec s)) := by
  induction hn : m.size s using Nat.strongRecOn generalizing s with
  | _ n ih =>
    by_cases hzero : m.size s = 0
    · rw [exec_end hzero]
      exact hend s h hzero
    · cases hs : m.step s with
      | error e =>
        rw [exec_stop (Nat.pos_of_ne_zero hzero) hs]
        exact hstop s e.1 e.2 h hs
      | ok s' =>
        rw [exec_step hs]
        exact ih _ (hn ▸ m.size_lt s s' hs) (hstep s s' h hs) rfl

/-- A run that does not stop keeps the invariant to its end. -/
theorem exec_ok_keeps {I : σ → Prop} (hstep : ∀ s s', I s → m.step s = .ok s' → I s') {s t : σ} (h : I s)
    (hrun : m.exec s = .ok t) : I t ∧ m.size t = 0 := by
  induction hn : m.size s using Nat.strongRecOn generalizing s with
  | _ n ih =>
    by_cases hzero : m.size s = 0
    · rw [exec_end hzero] at hrun
      cases hrun
      exact ⟨h, hzero⟩
    · cases hs : m.step s with
      | error e => cases (exec_stop (Nat.pos_of_ne_zero hzero) hs).symm.trans hrun
      | ok s' =>
        rw [exec_step hs] at hrun
        exact ih _ (hn ▸ m.size_lt s s' hs) (hstep s s' h hs) hrun rfl

/-- The states that a run goes through. -/
def Reaches (m : Machine σ ε) : σ → σ → Prop := Relation.ReflTransGen fun s s' => m.step s = .ok s'

/-- What holds at the start and is kept by a step holds throughout. -/
theorem Reaches.keeps {I : σ → Prop} (hstep : ∀ s s', I s → m.step s = .ok s' → I s') {s t : σ} (hs : I s)
    (h : m.Reaches s t) : I t := by
  induction h with
  | refl => exact hs
  | tail _ hlast ih => exact hstep _ _ ih hlast

/-- A run that does not stop comes to its end, through all the states before. -/
theorem reaches_of_exec_ok {s t : σ} (h : m.exec s = .ok t) : m.Reaches s t ∧ m.size t = 0 := by
  have hall : ∀ s' s'', m.Reaches s s' → m.step s' = .ok s'' → m.Reaches s s'' := fun _ _ h hlast => h.tail hlast
  exact exec_ok_keeps hall .refl h

/-- A run that stops does so in a step from a state that it has come to. -/
theorem reaches_of_exec_error {s t : σ} {e : ε} (h : m.exec s = .error (e, t)) :
    ∃ s', m.Reaches s s' ∧ m.step s' = .error (e, t) := by
  induction hn : m.size s using Nat.strongRecOn generalizing s with
  | _ n ih =>
    by_cases hzero : m.size s = 0
    · rw [exec_end hzero] at h
      cases h
    · cases hs : m.step s with
      | error e' =>
        rw [exec_stop (Nat.pos_of_ne_zero hzero) hs] at h
        cases h
        exact ⟨s, .refl, hs⟩
      | ok s' =>
        rw [exec_step hs] at h
        obtain ⟨last, hreach, hlast⟩ := ih _ (hn ▸ m.size_lt s s' hs) h rfl
        exact ⟨last, .head hs hreach, hlast⟩

end Machine

end Lib

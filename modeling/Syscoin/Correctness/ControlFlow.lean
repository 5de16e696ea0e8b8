import Syscoin.Script.Prefix
import Syscoin.Script.Structured

/-!
# `Correctness.ControlFlow` — conditionals nest

`EvalScript` with its vector of conditions does what the structured meaning of a script says. The machine that runs a
flattened code comes behind it in the state that the code evaluates to, with the conditions below its own unchanged
(`exec_flatten`), and a script that the machine runs to its end is a flattened code (`exists_code`).
-/

namespace Syscoin

open Lib

section ControlFlow

variable {crypto : Crypto} {check : Checker} {f g : Frame} {conds : List Bool} {opcode : UInt8} {vch : Bytes}
  {pc k : CScript}

/-- The machine inside conditionals. -/
def Frame.inside (f : Frame) (conds : List Bool) : Frame := { f with vfExec := conds }

theorem read_inside : (f.inside conds).read opcode vch pc = (f.read opcode vch pc).map (·.inside conds) := by
  unfold Frame.read Frame.inside
  dsimp only
  split <;> rfl

theorem read_eq_some (h : f.read opcode vch pc = some g) :
    g = { f with pc, nOpCount := if OP_16 < opcode then f.nOpCount + 1 else f.nOpCount } := by
  unfold Frame.read at h
  split at h
  · exact (Option.some.inj h).symm
  · cases h

theorem read_keeps (h : f.read opcode vch pc = some g) : g.pc = pc ∧ g.vfExec = f.vfExec := by
  rw [read_eq_some h]
  exact ⟨rfl, rfl⟩

theorem condition_keeps {notIf fExec v : Bool} (h : f.condition notIf fExec = some (v, g)) :
    g.pc = f.pc ∧ g.vfExec = f.vfExec := by
  unfold Frame.condition at h
  split at h
  · split at h
    · cases h
    · obtain ⟨-, rfl⟩ := Prod.mk.inj (Option.some.inj h)
      exact ⟨rfl, rfl⟩
  · obtain ⟨-, rfl⟩ := Prod.mk.inj (Option.some.inj h)
    exact ⟨rfl, rfl⟩

theorem settle_eq_some_iff : f.settle = some g ↔ f = g ∧ f.stack.length + f.altstack.length ≤ 1000 := by
  unfold Frame.settle
  split
  · rename_i hsize
    simp [hsize]
  · rename_i hsize
    simp [hsize]

/-- A step of the machine reads an instruction, carries it out and looks at the stacks. -/
theorem step_iff_read (hop : getOp f.pc = some (opcode, vch, pc)) :
    step crypto check f = .ok g ↔
      ∃ f₁, f.read opcode vch pc = some f₁ ∧ perform crypto check opcode vch f₁ = .ok g ∧ g.settle = some g := by
  rw [step_ok_iff hop]
  have hsettle : g.settle = some g ↔ g.stack.length + g.altstack.length ≤ 1000 := by
    rw [settle_eq_some_iff]
    simp
  constructor
  · rintro ⟨hvch, hops, hdisabled, hperform, hsize⟩
    exact ⟨_, if_pos ⟨hvch, hops, hdisabled⟩, hperform, hsettle.mpr hsize⟩
  · rintro ⟨f₁, hread, hperform, hsize⟩
    have heq := read_eq_some hread
    unfold Frame.read at hread
    split at hread
    · rename_i hlimits
      rw [heq] at hperform
      exact ⟨hlimits.1, hlimits.2.1, hlimits.2.2, hperform, hsettle.mp hsize⟩
    · cases hread

/-! ## Plain instructions do not look at the conditions -/

/-- What a computation ends in, inside conditionals. -/
def insideResult (conds : List Bool) : Except (Stop × Frame) Frame → Except (Stop × Frame) Frame
  | .ok f => .ok (f.inside conds)
  | .error (e, f) => .error (e, f.inside conds)

theorem insideResult_ok_iff {r : Except (Stop × Frame) Frame} :
    insideResult conds r = .ok g ↔ ∃ g', r = .ok g' ∧ g = g'.inside conds := by
  cases r with
  | error e => simp [insideResult]
  | ok f => simp [insideResult, eq_comm]

theorem insideResult_stay {α : Type} (x : Except Stop α) (rest : α → Except (Stop × Frame) Frame) :
    insideResult conds (stay f x >>= rest) = stay (f.inside conds) x >>= fun a => insideResult conds (rest a) := by
  cases x <;> rfl

theorem opToAltStack_inside : opToAltStack (f.inside conds) = insideResult conds (opToAltStack f) := by
  simp only [opToAltStack, insideResult_stay]
  rfl

theorem opFromAltStack_inside : opFromAltStack (f.inside conds) = insideResult conds (opFromAltStack f) := by
  simp only [opFromAltStack, insideResult_stay]
  rfl

theorem opCheckSig_inside {fVerify : Bool} :
    opCheckSig crypto check fVerify (f.inside conds) = insideResult conds (opCheckSig crypto check fVerify f) := by
  simp only [opCheckSig, insideResult_stay]
  rfl

theorem opCheckMultiSig_inside {fVerify : Bool} :
    opCheckMultiSig crypto check fVerify (f.inside conds) = insideResult conds (opCheckMultiSig crypto check fVerify f) := by
  simp only [opCheckMultiSig, checkMultiSig, insideResult_stay]
  rfl

theorem execute_inside {fExec : Bool} (hplain : opcode ∉ [OP_IF, OP_NOTIF, OP_ELSE, OP_ENDIF]) :
    execute crypto check opcode fExec (f.inside conds) = insideResult conds (execute crypto check opcode fExec f) := by
  simp only [List.mem_cons, List.not_mem_nil, or_false, not_or] at hplain
  obtain ⟨hif, hnotif, helse, hendif⟩ := hplain
  unfold execute
  rw [if_neg (not_or.mpr ⟨hif, hnotif⟩), if_neg (not_or.mpr ⟨hif, hnotif⟩), if_neg helse, if_neg helse, if_neg hendif,
    if_neg hendif]
  repeat' split
  · exact opToAltStack_inside
  · exact opFromAltStack_inside
  · rfl
  · exact opCheckSig_inside
  · exact opCheckMultiSig_inside
  · rw [insideResult_stay]
    rfl

theorem toOption_eq_some_iff {ε α : Type} {x : Except ε α} {a : α} : x.toOption = some a ↔ x = .ok a := by
  cases x with
  | error e => simp [Except.toOption]
  | ok b => exact ⟨fun h => congrArg Except.ok (Option.some.inj h), fun h => congrArg some (Except.ok.inj h)⟩

/-- What the machine performs inside conditionals is what the instruction does. -/
theorem perform_inside (i : Instruction) :
    perform crypto check i.opcode i.vch (f.inside conds) = .ok g ↔
      ∃ g', i.carryOut crypto check (conds.all (· = true)) f = some g' ∧ g = g'.inside conds := by
  have hconds : (f.inside conds).vfExec = conds := rfl
  unfold perform Instruction.carryOut
  dsimp only
  rw [hconds]
  split
  · constructor
    · intro h
      exact ⟨_, rfl, (Except.ok.inj h).symm⟩
    · rintro ⟨g', h, rfl⟩
      obtain rfl := Option.some.inj h
      rfl
  · split
    · simp only [execute_inside i.plain, insideResult_ok_iff, toOption_eq_some_iff]
    · constructor
      · intro h
        exact ⟨_, rfl, (Except.ok.inj h).symm⟩
      · rintro ⟨g', h, rfl⟩
        obtain rfl := Option.some.inj h
        rfl

/-- An instruction leaves the position and the conditions alone. -/
theorem carryOut_keeps {i : Instruction} {fExec : Bool} (h : i.carryOut crypto check fExec f = some g) :
    g.pc = f.pc ∧ g.vfExec = f.vfExec := by
  -- the machine inside one conditional, taken or not, performs it
  obtain ⟨conds, hconds⟩ : ∃ conds : List Bool, conds.all (· = true) = fExec := ⟨[fExec], by cases fExec <;> rfl⟩
  have hinside : perform crypto check i.opcode i.vch (f.inside conds) = .ok (g.inside conds) :=
    (perform_inside i).mpr ⟨g, by rw [hconds]; exact h, rfl⟩
  have hpc := perform_pc hinside
  refine ⟨hpc, ?_⟩
  unfold Instruction.carryOut at h
  split at h
  · obtain rfl := Option.some.inj h
    rfl
  · split at h
    · have hrun := toOption_eq_some_iff.mp h
      have hsame : f.inside f.vfExec = f := rfl
      rw [← hsame] at hrun
      rw [execute_inside i.plain] at hrun
      obtain ⟨g', hrun', rfl⟩ := insideResult_ok_iff.mp hrun
      rfl
    · obtain rfl := Option.some.inj h
      rfl

/-! ## One step of the machine -/

theorem all_cons {taken : Bool} : (taken :: conds).all (· = true) = (conds.all (· = true) && taken) := by
  rw [List.all_cons, Bool.and_comm]
  cases taken <;> rfl

theorem settle_inside : (f.inside conds).settle = some (f.inside conds) ↔ f.settle = some f := by
  simp only [settle_eq_some_iff, true_and]
  exact Iff.rfl

theorem exec_iff_step (hop : getOp f.pc = some (opcode, vch, pc)) :
    (interpreter crypto check).exec f = .ok g ↔
      ∃ f₁, step crypto check f = .ok f₁ ∧ (interpreter crypto check).exec f₁ = .ok g :=
  Machine.exec_ok_iff (m := interpreter crypto check) (Nat.zero_lt_of_lt (getOp_length hop))

theorem exec_inside_iff (hopcode : ¬ opcode ≤ OP_PUSHDATA4) (hpc : f.pc = opcode :: pc) :
    (interpreter crypto check).exec (f.inside conds) = .ok g ↔
      ∃ f₁, step crypto check (f.inside conds) = .ok f₁ ∧ (interpreter crypto check).exec f₁ = .ok g := by
  have hop : getOp (f.inside conds).pc = some (opcode, [], pc) := by
    change getOp f.pc = _
    rw [hpc]
    exact getOp_opcode hopcode pc
  exact exec_iff_step hop

theorem step_plain (i : Instruction) (hpc : f.pc = i.bytes ++ pc) :
    step crypto check (f.inside conds) = .ok g ↔
      ∃ f₁ f₂, f.read i.opcode i.vch pc = some f₁ ∧ i.carryOut crypto check (conds.all (· = true)) f₁ = some f₂ ∧
        f₂.settle = some f₂ ∧ g = f₂.inside conds := by
  have hop : getOp (f.inside conds).pc = some (i.opcode, i.vch, pc) := by
    change getOp f.pc = _
    rw [hpc, i.reads]
  rw [step_iff_read hop, read_inside]
  simp only [Option.map_eq_some_iff]
  constructor
  · rintro ⟨_, ⟨f₁, hread, rfl⟩, hperform, hsize⟩
    obtain ⟨f₂, hcarry, rfl⟩ := (perform_inside i).mp hperform
    exact ⟨f₁, f₂, hread, hcarry, settle_inside.mp hsize, rfl⟩
  · rintro ⟨f₁, f₂, hread, hcarry, hsize, rfl⟩
    exact ⟨_, ⟨f₁, hread, rfl⟩, (perform_inside i).mpr ⟨f₂, hcarry, rfl⟩, settle_inside.mpr hsize⟩

theorem opIf_inside {notIf fExec : Bool} : opIf (opcodeIf notIf) fExec (f.inside conds) = .ok g ↔
    ∃ v f₁, f.condition notIf fExec = some (v, f₁) ∧ g = f₁.inside (v :: conds) := by
  unfold opIf Frame.condition
  cases fExec with
  | false =>
    rw [if_neg (by decide), if_neg (by decide)]
    constructor
    · intro h
      exact ⟨false, f, rfl, (Except.ok.inj h).symm⟩
    · rintro ⟨v, f₁, h, rfl⟩
      obtain ⟨rfl, rfl⟩ := Prod.mk.inj (Option.some.inj h)
      rfl
  | true =>
    rw [if_pos rfl, if_pos rfl]
    have hstack : (f.inside conds).stack = f.stack := rfl
    rw [hstack]
    cases hcase : f.stack with
    | nil =>
      constructor
      · intro h
        cases h
      · rintro ⟨v, f₁, h, -⟩
        cases h
    | cons vch stack =>
      have hvalue : (if opcodeIf notIf = OP_NOTIF then !castToBool vch else castToBool vch) =
          (castToBool vch != notIf) := by
        cases notIf
        · rw [if_neg (by decide), Bool.bne_false]
        · rw [if_pos (by decide), Bool.bne_true]
      constructor
      · intro h
        exact ⟨_, _, rfl, by rw [← hvalue]; exact (Except.ok.inj h).symm⟩
      · rintro ⟨v, f₁, h, rfl⟩
        obtain ⟨rfl, rfl⟩ := Prod.mk.inj (Option.some.inj h)
        rw [← hvalue]
        rfl

/-- What is performed between `OP_IF` and `OP_ENDIF` is performed in any branch. -/
theorem perform_of_structural (hopcode : OP_IF ≤ opcode ∧ opcode ≤ OP_ENDIF) :
    perform crypto check opcode vch f = execute crypto check opcode (f.vfExec.all (· = true)) f := by
  have hpush : ¬ opcode ≤ OP_PUSHDATA4 := fun h => absurd (UInt8.le_trans hopcode.1 h) (by decide)
  unfold perform
  dsimp only
  rw [if_neg fun h => hpush h.2, if_pos (Or.inr hopcode)]

theorem step_opIf {notIf : Bool} (hpc : f.pc = opcodeIf notIf :: pc) :
    step crypto check (f.inside conds) = .ok g ↔
      ∃ f₁ v f₂, f.read (opcodeIf notIf) [] pc = some f₁ ∧
        f₁.condition notIf (conds.all (· = true)) = some (v, f₂) ∧ f₂.settle = some f₂ ∧
        g = f₂.inside (v :: conds) := by
  have hop : getOp (f.inside conds).pc = some (opcodeIf notIf, [], pc) := by
    change getOp f.pc = _
    rw [hpc]
    exact getOp_opcode (by cases notIf <;> decide) pc
  have hperform : ∀ f₁ : Frame, perform crypto check (opcodeIf notIf) [] (f₁.inside conds) =
      opIf (opcodeIf notIf) (conds.all (· = true)) (f₁.inside conds) := by
    intro f₁
    rw [perform_of_structural (by cases notIf <;> decide), execute, if_pos (by cases notIf <;> decide)]
    rfl
  rw [step_iff_read hop, read_inside]
  simp only [Option.map_eq_some_iff]
  constructor
  · rintro ⟨_, ⟨f₁, hread, rfl⟩, h, hsize⟩
    rw [hperform] at h
    obtain ⟨v, f₂, hcond, rfl⟩ := opIf_inside.mp h
    exact ⟨f₁, v, f₂, hread, hcond, settle_inside.mp hsize, rfl⟩
  · rintro ⟨f₁, v, f₂, hread, hcond, hsize, rfl⟩
    refine ⟨_, ⟨f₁, hread, rfl⟩, ?_, settle_inside.mpr hsize⟩
    rw [hperform]
    exact opIf_inside.mpr ⟨v, f₂, hcond, rfl⟩

/-- `OP_ELSE` and `OP_ENDIF` change the conditions alone. -/
theorem step_structural {conds' : List Bool} (hopcode : OP_IF ≤ opcode ∧ opcode ≤ OP_ENDIF)
    (hexecute : ∀ f : Frame,
      execute crypto check opcode (conds.all (· = true)) (f.inside conds) = .ok (f.inside conds'))
    (hpc : f.pc = opcode :: pc) :
    step crypto check (f.inside conds) = .ok g ↔
      ∃ f₁, f.read opcode [] pc = some f₁ ∧ f₁.settle = some f₁ ∧ g = f₁.inside conds' := by
  have hop : getOp (f.inside conds).pc = some (opcode, [], pc) := by
    change getOp f.pc = _
    rw [hpc]
    exact getOp_opcode (fun h => absurd (UInt8.le_trans hopcode.1 h) (by decide)) pc
  have hperform : ∀ f₁ : Frame, perform crypto check opcode [] (f₁.inside conds) = .ok (f₁.inside conds') :=
    fun f₁ => (perform_of_structural hopcode).trans (hexecute f₁)
  rw [step_iff_read hop, read_inside]
  simp only [Option.map_eq_some_iff]
  constructor
  · rintro ⟨_, ⟨f₁, hread, rfl⟩, h, hsize⟩
    rw [hperform] at h
    obtain rfl := Except.ok.inj h
    exact ⟨f₁, hread, settle_inside.mp hsize, rfl⟩
  · rintro ⟨f₁, hread, hsize, rfl⟩
    exact ⟨_, ⟨f₁, hread, rfl⟩, hperform f₁, settle_inside.mpr hsize⟩

theorem step_opElse {taken : Bool} (hpc : f.pc = OP_ELSE :: pc) :
    step crypto check (f.inside (taken :: conds)) = .ok g ↔
      ∃ f₁, f.read OP_ELSE [] pc = some f₁ ∧ f₁.settle = some f₁ ∧ g = f₁.inside ((!taken) :: conds) :=
  step_structural (by decide) (fun _ => rfl) hpc

theorem step_opEndIf {taken : Bool} (hpc : f.pc = OP_ENDIF :: pc) :
    step crypto check (f.inside (taken :: conds)) = .ok g ↔
      ∃ f₁, f.read OP_ENDIF [] pc = some f₁ ∧ f₁.settle = some f₁ ∧ g = f₁.inside conds :=
  step_structural (by decide) (fun _ => rfl) hpc

/-! ## The machine evaluates codes -/

namespace Code

/-- The conditions behind a code: each `OP_ELSE` changes over in the conditional that is open. -/
def leave : Code → List Bool → List Bool
  | nil, conds => conds
  | plain _ rest, conds => rest.leave conds
  | cond _ _ rest, conds => rest.leave conds
  | orElse rest, conds =>
    match conds with
    | [] => rest.leave []
    | taken :: conds => rest.leave ((!taken) :: conds)

theorem leave_of_closed {code : Code} (hclosed : code.closed = true) : code.leave conds = conds := by
  induction code with
  | nil => rfl
  | plain i rest ih => exact ih hclosed
  | cond notIf body rest _ ih => exact ih hclosed
  | orElse rest => cases hclosed

/-- A code leaves the conditions below its own alone. -/
theorem leave_cons (code : Code) (taken : Bool) : ∃ taken', code.leave (taken :: conds) = taken' :: conds := by
  induction code generalizing taken with
  | nil => exact ⟨taken, rfl⟩
  | plain i rest ih => exact ih taken
  | cond notIf body rest _ ih => exact ih taken
  | orElse rest ih => exact ih (!taken)

/-- The conditions are those of a code in the branch `taken` of a conditional that is executed if `outer` is true. An
    `OP_ELSE` of the code finds its conditional open. -/
def Fits (code : Code) (outer taken : Bool) (conds : List Bool) : Prop :=
  conds.all (· = true) = (outer && taken) ∧
    (code.closed = true ∨ ∃ below : List Bool, conds = taken :: below ∧ below.all (· = true) = outer)

theorem fits_body (body : Code) (fValue : Bool) :
    body.Fits (conds.all (· = true)) fValue (fValue :: conds) := ⟨all_cons, .inr ⟨conds, rfl, rfl⟩⟩

theorem Fits.orElse {rest : Code} {outer taken : Bool} (h : (Code.orElse rest).Fits outer taken conds) :
    ∃ below : List Bool, conds = taken :: below ∧ rest.Fits outer (!taken) ((!taken) :: below) := by
  obtain ⟨-, hclosed | ⟨below, rfl, hbelow⟩⟩ := h
  · cases hclosed
  · exact ⟨below, rfl, by rw [all_cons, hbelow], .inr ⟨below, rfl, hbelow⟩⟩

theorem eval_pc {code : Code} {outer taken : Bool} (hpc : f.pc = code.flatten ++ k)
    (h : code.eval crypto check outer taken k f = some g) : g.pc = k ∧ g.vfExec = f.vfExec := by
  induction code generalizing outer taken k f g with
  | nil =>
    obtain rfl := Option.some.inj h
    exact ⟨hpc, rfl⟩
  | plain i rest ih =>
    simp only [eval, Option.bind_eq_bind, Option.bind_eq_some_iff, settle_eq_some_iff] at h
    obtain ⟨f₁, hread, f₂, hcarry, _, ⟨rfl, -⟩, h⟩ := h
    obtain ⟨hpc₁, hconds₁⟩ := read_keeps hread
    obtain ⟨hpc₂, hconds₂⟩ := carryOut_keeps hcarry
    obtain ⟨hend, hconds⟩ := ih (hpc₂.trans hpc₁) h
    exact ⟨hend, hconds.trans (hconds₂.trans hconds₁)⟩
  | cond notIf body rest ihbody ih =>
    simp only [eval, Option.bind_eq_bind, Option.bind_eq_some_iff, settle_eq_some_iff] at h
    obtain ⟨f₁, hread, ⟨v, f₂⟩, hcond, _, ⟨rfl, -⟩, f₃, hbody, f₄, hread', _, ⟨rfl, -⟩, h⟩ := h
    obtain ⟨hpc₁, hconds₁⟩ := read_keeps hread
    obtain ⟨hpc₂, hconds₂⟩ := condition_keeps hcond
    obtain ⟨-, hconds₃⟩ := ihbody (hpc₂.trans hpc₁) hbody
    obtain ⟨hpc₄, hconds₄⟩ := read_keeps hread'
    obtain ⟨hend, hconds⟩ := ih hpc₄ h
    exact ⟨hend, hconds.trans (hconds₄.trans (hconds₃.trans (hconds₂.trans hconds₁)))⟩
  | orElse rest ih =>
    simp only [eval, Option.bind_eq_bind, Option.bind_eq_some_iff, settle_eq_some_iff] at h
    obtain ⟨f₁, hread, _, ⟨rfl, -⟩, h⟩ := h
    obtain ⟨hpc₁, hconds₁⟩ := read_keeps hread
    obtain ⟨hend, hconds⟩ := ih hpc₁ h
    exact ⟨hend, hconds.trans hconds₁⟩

/-- **The machine that goes through a code evaluates it.** -/
theorem exec_flatten (code : Code) {outer taken : Bool} (hfits : code.Fits outer taken conds)
    (hpc : f.pc = code.flatten ++ k) :
    (interpreter crypto check).exec (f.inside conds) = .ok g ↔
      ∃ f', code.eval crypto check outer taken k f = some f' ∧
        (interpreter crypto check).exec (f'.inside (code.leave conds)) = .ok g := by
  induction code generalizing outer taken conds k f with
  | nil =>
    constructor
    · intro h
      exact ⟨f, rfl, h⟩
    · rintro ⟨f', h, hrun⟩
      obtain rfl := Option.some.inj h
      exact hrun
  | plain i rest ih =>
    have hpc' : f.pc = i.bytes ++ (rest.flatten ++ k) := hpc.trans (List.append_assoc _ _ _)
    have hop : getOp (f.inside conds).pc = some (i.opcode, i.vch, rest.flatten ++ k) := by
      change getOp f.pc = _
      rw [hpc', i.reads]
    have hrest : rest.Fits outer taken conds := hfits
    rw [exec_iff_step hop]
    simp only [step_plain i hpc', hfits.1, eval, Option.bind_eq_bind, Option.bind_eq_some_iff]
    constructor
    · rintro ⟨_, ⟨f₁, f₂, hread, hcarry, hsize, rfl⟩, hrun⟩
      have hpc₂ := (carryOut_keeps hcarry).1.trans (read_keeps hread).1
      obtain ⟨f', heval, hrun'⟩ := (ih hrest hpc₂).mp hrun
      exact ⟨f', ⟨f₁, hread, f₂, hcarry, f₂, hsize, heval⟩, hrun'⟩
    · rintro ⟨f', ⟨f₁, hread, f₂, hcarry, f₂', hsize, heval⟩, hrun'⟩
      obtain ⟨rfl, -⟩ := settle_eq_some_iff.mp hsize
      have hpc₂ := (carryOut_keeps hcarry).1.trans (read_keeps hread).1
      exact ⟨_, ⟨f₁, f₂, hread, hcarry, hsize, rfl⟩, (ih hrest hpc₂).mpr ⟨f', heval, hrun'⟩⟩
  | cond notIf body rest ihbody ih =>
    have hpc' : f.pc = opcodeIf notIf :: (body.flatten ++ OP_ENDIF :: (rest.flatten ++ k)) := by
      rw [hpc, flatten, List.cons_append, List.append_assoc, List.cons_append]
    have hrest : rest.Fits outer taken conds := hfits
    -- the body comes in front of `OP_ENDIF`, which takes its condition away
    have hbehind : ∀ {v : Bool} {f₂ : Frame}, f₂.pc = body.flatten ++ OP_ENDIF :: (rest.flatten ++ k) →
        ((interpreter crypto check).exec (f₂.inside (v :: conds)) = .ok g ↔
          ∃ f₃ f₄, body.eval crypto check (outer && taken) v (OP_ENDIF :: (rest.flatten ++ k)) f₂ = some f₃ ∧
            f₃.read OP_ENDIF [] (rest.flatten ++ k) = some f₄ ∧ f₄.settle = some f₄ ∧
            (interpreter crypto check).exec (f₄.inside conds) = .ok g) := by
      intro v f₂ hpc₂
      have hbody : body.Fits (outer && taken) v (v :: conds) := by
        rw [← hfits.1]
        exact fits_body body v
      obtain ⟨v', hleave⟩ : ∃ v', body.leave (v :: conds) = v' :: conds := leave_cons body v
      rw [ihbody hbody hpc₂]
      constructor
      · rintro ⟨f₃, heval, hrun⟩
        have hpc₃ := (eval_pc hpc₂ heval).1
        rw [hleave, exec_inside_iff (by decide) hpc₃] at hrun
        obtain ⟨_, hstep, hrun'⟩ := hrun
        obtain ⟨f₄, hread, hsize, rfl⟩ := (step_opEndIf hpc₃).mp hstep
        exact ⟨f₃, f₄, heval, hread, hsize, hrun'⟩
      · rintro ⟨f₃, f₄, heval, hread, hsize, hrun'⟩
        have hpc₃ := (eval_pc hpc₂ heval).1
        refine ⟨f₃, heval, ?_⟩
        rw [hleave, exec_inside_iff (by decide) hpc₃]
        exact ⟨_, (step_opEndIf hpc₃).mpr ⟨f₄, hread, hsize, rfl⟩, hrun'⟩
    rw [exec_inside_iff (by cases notIf <;> decide) hpc']
    simp only [step_opIf hpc', hfits.1, eval, Option.bind_eq_bind, Option.bind_eq_some_iff]
    constructor
    · rintro ⟨_, ⟨f₁, v, f₂, hread, hcond, hsize, rfl⟩, hrun⟩
      have hpc₂ := (condition_keeps hcond).1.trans (read_keeps hread).1
      obtain ⟨f₃, f₄, heval, hread', hsize', hrun'⟩ := (hbehind hpc₂).mp hrun
      obtain ⟨f', heval', hrun''⟩ := (ih hrest (read_keeps hread').1).mp hrun'
      exact ⟨f', ⟨f₁, hread, (v, f₂), hcond, f₂, hsize, f₃, heval, f₄, hread', f₄, hsize', heval'⟩, hrun''⟩
    · rintro ⟨f', ⟨f₁, hread, ⟨v, f₂⟩, hcond, f₂', hsize, f₃, heval, f₄, hread', f₄', hsize', heval'⟩, hrun''⟩
      obtain ⟨rfl, -⟩ := settle_eq_some_iff.mp hsize
      obtain ⟨rfl, -⟩ := settle_eq_some_iff.mp hsize'
      have hpc₂ := (condition_keeps hcond).1.trans (read_keeps hread).1
      have hrun' := (ih hrest (read_keeps hread').1).mpr ⟨f', heval', hrun''⟩
      exact ⟨_, ⟨f₁, v, f₂, hread, hcond, hsize, rfl⟩, (hbehind hpc₂).mpr ⟨f₃, f₄, heval, hread', hsize', hrun'⟩⟩
  | orElse rest ih =>
    obtain ⟨below, rfl, hrest⟩ := hfits.orElse
    have hpc' : f.pc = OP_ELSE :: (rest.flatten ++ k) := hpc
    rw [exec_inside_iff (by decide) hpc']
    simp only [step_opElse hpc', eval, Option.bind_eq_bind, Option.bind_eq_some_iff]
    constructor
    · rintro ⟨_, ⟨f₁, hread, hsize, rfl⟩, hrun⟩
      obtain ⟨f', heval, hrun'⟩ := (ih hrest (read_keeps hread).1).mp hrun
      exact ⟨f', ⟨f₁, hread, f₁, hsize, heval⟩, hrun'⟩
    · rintro ⟨f', ⟨f₁, hread, f₂, hsize, heval⟩, hrun'⟩
      obtain ⟨rfl, -⟩ := settle_eq_some_iff.mp hsize
      exact ⟨_, ⟨f₁, hread, hsize, rfl⟩, (ih hrest (read_keeps hread).1).mpr ⟨f', heval, hrun'⟩⟩

end Code

/-! ## Branches that are not taken -/

theorem read_count (h : f.read opcode vch pc = some g) :
    g = { f with pc, nOpCount := f.nOpCount + if OP_16 < opcode then 1 else 0 } := by
  rw [read_eq_some h]
  split <;> rfl

theorem eq_ver (hopcode : OP_IF ≤ opcode ∧ opcode ≤ OP_ENDIF) (hplain : opcode ∉ [OP_IF, OP_NOTIF, OP_ELSE, OP_ENDIF]) :
    opcode = 0x65 ∨ opcode = 0x66 := by
  simp only [List.mem_cons, List.not_mem_nil, or_false, not_or] at hplain
  simp only [UInt8.le_iff_toNat_le, ← UInt8.toNat_inj, OP_IF, OP_NOTIF, OP_ELSE, OP_ENDIF, UInt8.reduceToNat]
    at hopcode hplain ⊢
  omega

theorem carryOut_skipped {i : Instruction} (h : i.carryOut crypto check false f = some g) : g = f := by
  unfold Instruction.carryOut at h
  rw [if_neg (by simp)] at h
  split at h
  · -- `OP_VERIF` and `OP_VERNOTIF` stop the script
    rename_i hopcode
    rcases eq_ver (hopcode.resolve_left Bool.false_ne_true) i.plain with hver | hver
    · rw [hver] at h
      cases h
    · rw [hver] at h
      cases h
  · exact (Option.some.inj h).symm

/-- **A branch that is not taken** changes nothing, but its operations count. -/
theorem Code.eval_skipped {code : Code} {outer taken : Bool} (hskip : (outer && taken) = false)
    (hsame : code.closed = true ∨ outer = false) (hpc : f.pc = code.flatten ++ k)
    (h : code.eval crypto check outer taken k f = some g) :
    g = { f with pc := k, nOpCount := f.nOpCount + code.ops } := by
  induction code generalizing outer taken k f g with
  | nil =>
    obtain rfl := Option.some.inj h
    rw [← show f.pc = k from hpc]
    rfl
  | plain i rest ih =>
    simp only [eval, hskip, Option.bind_eq_bind, Option.bind_eq_some_iff, settle_eq_some_iff] at h
    obtain ⟨f₁, hread, f₂, hcarry, _, ⟨rfl, -⟩, h⟩ := h
    obtain rfl := carryOut_skipped hcarry
    rw [ih hskip hsame (read_keeps hread).1 h, read_count hread, ops, ← Nat.add_assoc]
  | cond notIf body rest ihbody ih =>
    simp only [eval, hskip, Option.bind_eq_bind, Option.bind_eq_some_iff, settle_eq_some_iff] at h
    obtain ⟨f₁, hread, ⟨v, f₂⟩, hcond, _, ⟨rfl, -⟩, f₃, hbody, f₄, hread', _, ⟨rfl, -⟩, h⟩ := h
    obtain ⟨rfl, rfl⟩ := Prod.mk.inj (Option.some.inj hcond)
    have hif : OP_16 < opcodeIf notIf := by cases notIf <;> decide
    have heq := ihbody rfl (.inr rfl) (read_keeps hread).1 hbody
    rw [ih hskip hsame (read_keeps hread').1 h, read_count hread', heq, read_count hread, if_pos hif,
      if_pos (by decide), ops]
    congr 1
    dsimp only
    omega
  | orElse rest ih =>
    obtain hclosed | rfl := hsame
    · cases hclosed
    simp only [eval, Option.bind_eq_bind, Option.bind_eq_some_iff, settle_eq_some_iff] at h
    obtain ⟨f₁, hread, _, ⟨rfl, -⟩, h⟩ := h
    rw [ih rfl (.inr rfl) (read_keeps hread).1 h, read_count hread, if_pos (by decide), ops]
    congr 1
    dsimp only
    omega

/-! ## Every script that runs to its end is a code -/

/-- The instruction at the front of a script. -/
theorem exists_instruction (hop : getOp f.pc = some (opcode, vch, pc))
    (hplain : opcode ∉ [OP_IF, OP_NOTIF, OP_ELSE, OP_ENDIF]) :
    ∃ i : Instruction, i.opcode = opcode ∧ i.vch = vch ∧ f.pc = i.bytes ++ pc := by
  obtain ⟨head, -, hpc, -, hlocal⟩ := getOp_split hop
  refine ⟨⟨opcode, vch, opcode :: (head ++ vch), fun pc' => ?_, hplain⟩, rfl, rfl, ?_⟩
  · rw [List.cons_append, List.append_assoc]
    exact hlocal pc'
  · rw [hpc, List.cons_append, List.append_assoc]

theorem eq_opcodeIf (h : opcode = OP_IF ∨ opcode = OP_NOTIF) : ∃ notIf, opcode = opcodeIf notIf := by
  rcases h with rfl | rfl
  · exact ⟨false, rfl⟩
  · exact ⟨true, rfl⟩

theorem perform_opElse (h : perform crypto check OP_ELSE vch f = .ok g) :
    ∃ taken below, f.vfExec = taken :: below ∧ g.vfExec = (!taken) :: below := by
  rw [perform_of_structural (by decide)] at h
  change opElse f = .ok g at h
  unfold opElse at h
  split at h
  · cases h
  · rename_i taken below hconds
    obtain rfl := Except.ok.inj h
    exact ⟨taken, below, hconds, rfl⟩

theorem perform_opEndIf (h : perform crypto check OP_ENDIF vch f = .ok g) : f.vfExec ≠ [] := by
  rw [perform_of_structural (by decide)] at h
  change opEndIf f = .ok g at h
  intro hnil
  unfold opEndIf at h
  rw [hnil] at h
  cases h

/-- **What a machine goes through to its end is a code**; behind it is the end of the script, or the `OP_ENDIF` of the
    conditional that is open. -/
theorem exists_code (hrun : (interpreter crypto check).exec f = .ok g) (hend : g.vfExec = []) :
    ∃ code : Code, (f.vfExec = [] ∧ code.closed = true ∧ f.pc = code.flatten) ∨
      (f.vfExec ≠ [] ∧ ∃ tail, f.pc = code.flatten ++ OP_ENDIF :: tail) := by
  induction hn : f.pc.length using Nat.strongRecOn generalizing f with
  | _ n ih =>
    cases hop : getOp f.pc with
    | none =>
      by_cases hnil : f.pc = []
      · have hstop := Machine.exec_end (m := interpreter crypto check) (s := f) (List.length_eq_zero_iff.mpr hnil)
        obtain rfl := Except.ok.inj (hstop.symm.trans hrun)
        exact ⟨.nil, .inl ⟨hend, rfl, hnil⟩⟩
      · obtain ⟨f₁, hstep, -⟩ := (Machine.exec_ok_iff (m := interpreter crypto check)
          (List.length_pos_iff.mpr hnil)).mp hrun
        obtain ⟨opcode, vch, pc, hop', -⟩ := step_ok hstep
        rw [hop] at hop'
        cases hop'
    | some r =>
      obtain ⟨opcode, vch, pc⟩ := r
      obtain ⟨f₁, hstep, hrun₁⟩ := (exec_iff_step hop).mp hrun
      obtain ⟨f₀, hread, hperform, -⟩ := (step_iff_read hop).mp hstep
      obtain ⟨hpc₀, hconds₀⟩ := read_keeps hread
      have hpc₁ : f₁.pc = pc := (perform_pc hperform).trans hpc₀
      have hlt : f₁.pc.length < n := by
        rw [hpc₁, ← hn]
        exact getOp_length hop
      by_cases hplain : opcode ∈ [OP_IF, OP_NOTIF, OP_ELSE, OP_ENDIF]
      · simp only [List.mem_cons, List.not_mem_nil, or_false, ← or_assoc] at hplain
        obtain (hif | rfl) | rfl := hplain
        · -- a conditional: its body, and what is behind its `OP_ENDIF`
          obtain ⟨notIf, rfl⟩ := eq_opcodeIf hif
          have hpc : f.pc = opcodeIf notIf :: pc := eq_cons_of_getOp (by cases notIf <;> decide) hop
          have hsame : f.inside f.vfExec = f := rfl
          rw [← hsame, step_opIf hpc] at hstep
          obtain ⟨-, v, f₂, -, -, -, rfl⟩ := hstep
          obtain ⟨body, ⟨hnil, -⟩ | ⟨-, tail, htail⟩⟩ := ih _ hlt hrun₁ rfl
          · cases hnil
          obtain ⟨f₃, heval, hrun₃⟩ := (Code.exec_flatten body (Code.fits_body body v) htail).mp hrun₁
          have hpc₃ := (Code.eval_pc htail heval).1
          obtain ⟨v', hleave⟩ : ∃ v', body.leave (v :: f.vfExec) = v' :: f.vfExec := Code.leave_cons body v
          rw [hleave, exec_inside_iff (by decide) hpc₃] at hrun₃
          obtain ⟨_, hstep₃, hrun₄⟩ := hrun₃
          obtain ⟨f₄, hread₄, -, rfl⟩ := (step_opEndIf hpc₃).mp hstep₃
          have hpc₄ : (f₄.inside f.vfExec).pc = tail := (read_keeps hread₄).1
          have hlt₄ : (f₄.inside f.vfExec).pc.length < n := by
            refine Nat.lt_trans ?_ hlt
            rw [hpc₄, htail, List.length_append, List.length_cons]
            omega
          have hscript : ∀ rest : CScript, tail = rest →
              f.pc = opcodeIf notIf :: (body.flatten ++ OP_ENDIF :: rest) := by
            rintro rest rfl
            rw [hpc, ← hpc₁]
            exact congrArg _ htail
          obtain ⟨code, ⟨hnil, hclosed, hcode⟩ | ⟨hopen, tail', hcode⟩⟩ := ih _ hlt₄ hrun₄ rfl
          · exact ⟨.cond notIf body code, .inl ⟨hnil, hclosed, hscript _ (hpc₄.symm.trans hcode)⟩⟩
          · refine ⟨.cond notIf body code, .inr ⟨hopen, tail', ?_⟩⟩
            rw [hscript _ (hpc₄.symm.trans hcode), Code.flatten, List.cons_append, List.append_assoc, List.cons_append]
        · -- another branch of the conditional that is open
          obtain ⟨taken, below, hconds, hconds₁⟩ := perform_opElse hperform
          obtain ⟨code, ⟨hnil, -⟩ | ⟨-, tail, htail⟩⟩ := ih _ hlt hrun₁ rfl
          · rw [hconds₁] at hnil
            cases hnil
          · refine ⟨.orElse code, .inr ⟨by rw [← hconds₀, hconds]; exact List.cons_ne_nil _ _, tail, ?_⟩⟩
            rw [eq_cons_of_getOp (by decide) hop, ← hpc₁, htail]
            rfl
        · -- the end of the conditional that is open
          exact ⟨.nil, .inr ⟨by rw [← hconds₀]; exact perform_opEndIf hperform, pc, eq_cons_of_getOp (by decide) hop⟩⟩
      · obtain ⟨i, rfl, rfl, hbytes⟩ := exists_instruction hop hplain
        have hsame : f₀.inside f₀.vfExec = f₀ := rfl
        rw [← hsame] at hperform
        obtain ⟨g', hcarry, rfl⟩ := (perform_inside i).mp hperform
        have hconds₁ : (g'.inside f₀.vfExec).vfExec = f.vfExec := hconds₀
        obtain ⟨code, ⟨hnil, hclosed, htail⟩ | ⟨hopen, tail, htail⟩⟩ := ih _ hlt hrun₁ rfl
        · refine ⟨.plain i code, .inl ⟨hconds₁ ▸ hnil, hclosed, ?_⟩⟩
          rw [hbytes, ← hpc₁, htail]
          rfl
        · refine ⟨.plain i code, .inr ⟨hconds₁ ▸ hopen, tail, ?_⟩⟩
          rw [hbytes, ← hpc₁, htail, ← List.append_assoc]
          rfl

/-- A code that is a whole script. -/
theorem exec_code {code : Code} (hclosed : code.closed = true) (hpc : f.pc = code.flatten) (hconds : f.vfExec = []) :
    (interpreter crypto check).exec f = .ok g ↔ code.eval crypto check true true [] f = some g := by
  have hpc' : f.pc = code.flatten ++ [] := by rw [hpc, List.append_nil]
  have hfits : code.Fits true true [] := ⟨rfl, .inl hclosed⟩
  have hsame : f.inside [] = f := by rw [← hconds]; rfl
  -- behind the code, the machine is at its end
  have hstop : ∀ f', code.eval crypto check true true [] f = some f' →
      (interpreter crypto check).exec (f'.inside (code.leave [])) = .ok f' := by
    intro f' heval
    obtain ⟨hend, hconds'⟩ := Code.eval_pc hpc' heval
    have hsame' : f'.inside [] = f' := by rw [← hconds, ← hconds']; rfl
    rw [Code.leave_of_closed hclosed, hsame']
    exact Machine.exec_end (m := interpreter crypto check) (List.length_eq_zero_iff.mpr hend)
  rw [← hsame, Code.exec_flatten code hfits hpc', hsame]
  constructor
  · rintro ⟨f', heval, hrun⟩
    obtain rfl := Except.ok.inj ((hstop f' heval).symm.trans hrun)
    exact heval
  · intro heval
    exact ⟨g, heval, hstop g heval⟩

/-- **Scripts are structured.** `EvalScript` succeeds on the scripts that are the flattened form of a code, with every
    conditional closed and every `OP_ELSE` inside one, and what it computes is what the code evaluates to. -/
theorem evalScript_structured {nCheckSig : Nat} {stack : Stack} {script : CScript} :
    evalScript crypto check nCheckSig stack script = .ok f ↔
      script.length ≤ 10000 ∧ ∃ code : Code, code.closed = true ∧ code.flatten = script ∧
        code.eval crypto check true true [] (Frame.start nCheckSig stack script) = some f := by
  rw [evalScript_ok_iff]
  refine and_congr_right fun _ => ?_
  constructor
  · rintro ⟨hrun, hend⟩
    obtain ⟨code, ⟨-, hclosed, hscript⟩ | ⟨hopen, -⟩⟩ := exists_code hrun hend
    · exact ⟨code, hclosed, hscript.symm, (exec_code hclosed hscript rfl).mp hrun⟩
    · exact absurd rfl hopen
  · rintro ⟨code, hclosed, rfl, heval⟩
    exact ⟨(exec_code hclosed rfl rfl).mpr heval, (Code.eval_pc (List.append_nil _).symm heval).2⟩

end ControlFlow

end Syscoin

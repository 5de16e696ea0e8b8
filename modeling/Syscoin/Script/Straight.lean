import Syscoin.Script.Interpreter

/-!
# `Script.Straight` — running what the builder writes

Outside conditionals, a push puts its operand on the stack and a plain opcode does what `stackOp` says. Each rule below
runs one instruction, or one piece of a script that `Script.Builder` writes, off the front of the script. A rule is an
equivalence: on its right-hand side stands what has to hold for the run to go on, the limits included.

`f.atPc pc stack nOpCount` is the machine `f` at another place of the script.
-/

namespace Syscoin

open Lib

/-! ## Reading a push -/

theorem readSize_direct {nSize : Nat} (h : nSize < OP_PUSHDATA1.toNat) (pc : CScript) :
    readSize (UInt8.ofNat nSize) pc = some (nSize, pc) := by
  have hlt : nSize < 256 := h.trans (by decide)
  have hn : (UInt8.ofNat nSize).toNat = nSize := UInt8.toNat_ofNat_of_lt' hlt
  have hopcode : UInt8.ofNat nSize < OP_PUSHDATA1 := by
    rw [UInt8.lt_iff_toNat_lt, hn]
    exact h
  unfold readSize
  dsimp only
  rw [if_pos hopcode, hn]

/-- A length in `nWidth` bytes. -/
theorem readSize_wide {opcode : UInt8} (nWidth : Nat) {nSize : Nat} (hopcode : ¬ opcode < OP_PUSHDATA1)
    (hwidth : (if opcode = OP_PUSHDATA1 then 1 else if opcode = OP_PUSHDATA2 then 2 else 4) = nWidth)
    (hsize : nSize < 256 ^ nWidth) (pc : CScript) :
    readSize opcode (toLE nWidth nSize ++ pc) = some (nSize, pc) := by
  have hlength := length_toLE nWidth nSize
  unfold readSize
  dsimp only
  rw [hwidth, if_neg hopcode, if_neg (by rw [List.length_append, hlength]; omega)]
  rw [List.take_left' hlength, List.drop_left' hlength, fromLE_toLE, Nat.mod_eq_of_lt hsize]

/-- What `operator<<` appends is read back as a push of the vector. -/
theorem getOp_pushVch {vch : Bytes} (h : vch.length < 2 ^ 32) :
    ∃ opcode, opcode ≤ OP_PUSHDATA4 ∧ ∀ pc, getOp (pushVch vch ++ pc) = some (opcode, vch, pc) := by
  unfold pushVch
  split
  · rename_i hshort
    have hle : UInt8.ofNat vch.length ≤ OP_PUSHDATA4 := by
      rw [UInt8.le_iff_toNat_le, UInt8.toNat_ofNat_of_lt' (hshort.trans (by decide))]
      exact (Nat.le_of_lt hshort).trans (by decide)
    exact ⟨UInt8.ofNat vch.length, hle, fun pc => getOp_push [] vch hle (readSize_direct hshort _)⟩
  · split
    · rename_i hone
      have hbyte : [UInt8.ofNat vch.length] = toLE 1 vch.length := by
        rw [toLE, toLE, Nat.mod_eq_of_lt (by omega)]
      refine ⟨OP_PUSHDATA1, by decide, ?_⟩
      intro pc
      refine getOp_push [UInt8.ofNat vch.length] vch (by decide) ?_
      rw [hbyte]
      exact readSize_wide 1 (by decide) rfl (by omega) _
    · split
      · rename_i htwo
        refine ⟨OP_PUSHDATA2, by decide, ?_⟩
        intro pc
        rw [List.append_assoc]
        exact getOp_push _ vch (by decide) (readSize_wide 2 (by decide) rfl (by omega) _)
      · refine ⟨OP_PUSHDATA4, by decide, ?_⟩
        intro pc
        rw [List.append_assoc]
        exact getOp_push _ vch (by decide) (readSize_wide 4 (by decide) rfl (by omega) _)

/-- A run of push instructions, with what they push. -/
inductive Pushes : List Bytes → CScript → Prop
  | nil : Pushes [] []
  | cons {opcode : UInt8} {vch : Bytes} {vvch : List Bytes} {push pushes : CScript}
      (hpush : opcode ≤ OP_PUSHDATA4) (hop : ∀ pc, getOp (push ++ pc) = some (opcode, vch, pc))
      (htail : Pushes vvch pushes) : Pushes (vch :: vvch) (push ++ pushes)

/-- An instruction is at most five bytes longer than its operand. -/
theorem length_le_of_getOp {script pc : CScript} {opcode : UInt8} {vch : Bytes}
    (h : getOp script = some (opcode, vch, pc)) : script.length ≤ vch.length + pc.length + 5 := by
  obtain ⟨head, hhead, rfl, -⟩ := getOp_split h
  rw [List.length_cons, List.length_append, List.length_append]
  omega

theorem Pushes.length_le {vvch : List Bytes} {pushes : CScript} (hpushes : Pushes vvch pushes)
    (h : ∀ vch ∈ vvch, vch.length ≤ MAX_SCRIPT_ELEMENT_SIZE) : pushes.length ≤ 525 * vvch.length := by
  induction hpushes with
  | nil => exact Nat.le_refl 0
  | @cons opcode vch vvch push pushes hpush hop htail ih =>
    obtain ⟨hvch, hvvch⟩ := List.forall_mem_cons.mp h
    have hle := length_le_of_getOp (hop [])
    have hsize : MAX_SCRIPT_ELEMENT_SIZE = 520 := rfl
    have hrest := ih hvvch
    rw [List.append_nil, List.length_nil] at hle
    rw [List.length_append, List.length_cons]
    omega

/-- The pushes that `operator<<` appends one after the other. -/
theorem pushes_flatMap {vvch : List Bytes} (h : ∀ vch ∈ vvch, vch.length < 2 ^ 32) :
    Pushes vvch (vvch.flatMap pushVch) := by
  induction vvch with
  | nil => exact .nil
  | cons vch vvch ih =>
    obtain ⟨hhead, htail⟩ := List.forall_mem_cons.mp h
    obtain ⟨opcode, hpush, hop⟩ := getOp_pushVch hhead
    rw [List.flatMap_cons]
    exact .cons hpush hop (ih htail)

theorem getOp_pushUint160 (b : Uint160) (pc : CScript) :
    getOp (pushUint160 b ++ pc) = some (20, toLE 20 b, pc) := by
  have hlength := length_toLE 20 b
  have hle : (20 : UInt8) ≤ OP_PUSHDATA4 := by decide
  refine getOp_push [] (toLE 20 b) hle ?_
  rw [hlength]
  exact readSize_direct (by decide) _

/-! ## One instruction -/

section Run

variable {crypto : Crypto} {check : Checker} {f g : Frame}

/-- The opcodes up to `OP_16` have no case of their own outside `stackOp`. -/
theorem execute_low {opcode : UInt8} {fExec : Bool} (hhigh : opcode ≤ OP_16) :
    execute crypto check opcode fExec f =
      stay f (stackOp crypto opcode f.stack) >>= fun stack => .ok { f with stack } := by
  have hne : ∀ c : UInt8, OP_16 < c → opcode ≠ c := by
    intro c hc heq
    rw [heq] at hhigh
    exact UInt8.not_le.mpr hc hhigh
  have hne₂ : ∀ c c' : UInt8, OP_16 < c → OP_16 < c' → ¬ (opcode = c ∨ opcode = c') := by
    rintro c c' hc hc' (heq | heq)
    · exact hne c hc heq
    · exact hne c' hc' heq
  unfold execute
  rw [if_neg (hne₂ OP_IF OP_NOTIF (by decide) (by decide)), if_neg (hne OP_ELSE (by decide)),
    if_neg (hne OP_ENDIF (by decide)), if_neg (hne OP_TOALTSTACK (by decide)), if_neg (hne OP_FROMALTSTACK (by decide)),
    if_neg (hne OP_CODESEPARATOR (by decide)), if_neg (hne₂ OP_CHECKSIG OP_CHECKSIGVERIFY (by decide) (by decide)),
    if_neg (hne₂ OP_CHECKMULTISIG OP_CHECKMULTISIGVERIFY (by decide) (by decide))]
  rfl

theorem stackOp_smallInteger {opcode : UInt8} (hlow : OP_1 ≤ opcode) (hhigh : opcode ≤ OP_16) (stack : Stack) :
    stackOp crypto opcode stack = .ok (CBigNum.getvch (decodeOP_N opcode) :: stack) := by
  have hn : (opcode.toNat : Int) - (OP_1.toNat - 1) = decodeOP_N opcode := by
    rw [UInt8.le_iff_toNat_le] at hlow
    have hone : OP_1.toNat = 81 := rfl
    unfold decodeOP_N
    omega
  unfold stackOp
  rw [if_pos (.inr ⟨hlow, hhigh⟩), opSmallInteger, hn]

/-- The opcodes above have none either, but for nine of them. -/
theorem execute_plain {opcode : UInt8} {fExec : Bool}
    (h : opcode ∉ [OP_IF, OP_NOTIF, OP_ELSE, OP_ENDIF, OP_TOALTSTACK, OP_FROMALTSTACK, OP_CODESEPARATOR, OP_CHECKSIG,
      OP_CHECKSIGVERIFY, OP_CHECKMULTISIG, OP_CHECKMULTISIGVERIFY]) :
    execute crypto check opcode fExec f =
      stay f (stackOp crypto opcode f.stack) >>= fun stack => .ok { f with stack } := by
  simp only [List.mem_cons, List.not_mem_nil, or_false, not_or] at h
  obtain ⟨hif, hnotif, helse, hend, hto, hfrom, hsep, hsig, hsigv, hmulti, hmultiv⟩ := h
  unfold execute
  rw [if_neg (not_or.mpr ⟨hif, hnotif⟩), if_neg helse, if_neg hend, if_neg hto, if_neg hfrom, if_neg hsep,
    if_neg (not_or.mpr ⟨hsig, hsigv⟩), if_neg (not_or.mpr ⟨hmulti, hmultiv⟩)]
  rfl

theorem high_of_mem_disabledOpcodes : ∀ c ∈ disabledOpcodes, OP_16 < c := by decide +kernel

/-- The machine at another place. -/
def Frame.atPc (f : Frame) (pc : CScript) (stack : Stack) (nOpCount : Nat) : Frame := { f with pc, stack, nOpCount }

/-- The machine starts in front of the whole script. -/
theorem Frame.start_eq {script pc : CScript} (h : script = pc) (n : Nat) (stack : Stack) :
    Frame.start n stack script = (Frame.start n stack script).atPc pc stack 0 := by
  rw [← h]
  rfl

/-- A push outside conditionals. -/
theorem exec_getOp_push {opcode : UInt8} {vch : Bytes} {script pc : CScript} {stack : Stack} {n : Nat}
    (hvf : f.vfExec = []) (hop : getOp script = some (opcode, vch, pc)) (hpush : opcode ≤ OP_PUSHDATA4) :
    (interpreter crypto check).exec (f.atPc script stack n) = .ok g ↔
      vch.length ≤ MAX_SCRIPT_ELEMENT_SIZE ∧ stack.length + 1 + f.altstack.length ≤ 1000 ∧
        (interpreter crypto check).exec (f.atPc pc (vch :: stack) n) = .ok g := by
  have hlow : ¬ OP_16 < opcode := fun hlt => absurd (UInt8.lt_of_lt_of_le hlt hpush) (by decide)
  have hdisabled : opcode ∉ disabledOpcodes := fun hmem => hlow (high_of_mem_disabledOpcodes opcode hmem)
  have hperform : ∀ f : Frame, f.vfExec = [] →
      perform crypto check opcode vch f = .ok { f with stack := vch :: f.stack } := by
    intro f hvf
    unfold perform
    dsimp only
    rw [hvf, if_pos ⟨rfl, hpush⟩]
  rw [Machine.exec_ok_iff (Nat.zero_lt_of_lt (getOp_length hop))]
  constructor
  · rintro ⟨f', hstep, hexec⟩
    obtain ⟨hvch, -, -, hrun, hsize⟩ := (step_ok_iff hop).mp hstep
    rw [hperform] at hrun
    · rw [if_neg hlow] at hrun
      cases hrun
      exact ⟨hvch, hsize, hexec⟩
    · exact hvf
  · rintro ⟨hvch, hsize, hexec⟩
    refine ⟨f.atPc pc (vch :: stack) n, (step_ok_iff hop).mpr ⟨hvch, fun h => hlow h.1, hdisabled, ?_, hsize⟩, hexec⟩
    rw [hperform]
    · rw [if_neg hlow]
      rfl
    · exact hvf

theorem exec_pushVch {vch : Bytes} {pc : CScript} {stack : Stack} {n : Nat} (hvf : f.vfExec = [])
    (hlen : vch.length < 2 ^ 32) :
    (interpreter crypto check).exec (f.atPc (pushVch vch ++ pc) stack n) = .ok g ↔
      vch.length ≤ MAX_SCRIPT_ELEMENT_SIZE ∧ stack.length + 1 + f.altstack.length ≤ 1000 ∧
        (interpreter crypto check).exec (f.atPc pc (vch :: stack) n) = .ok g := by
  obtain ⟨opcode, hpush, hop⟩ := getOp_pushVch hlen
  exact exec_getOp_push hvf (hop pc) hpush

/-- A plain opcode outside conditionals. -/
theorem exec_plain {opcode : UInt8} {pc : CScript} {stack : Stack} {n : Nat} (hvf : f.vfExec = [])
    (hpush : ¬ opcode ≤ OP_PUSHDATA4) (hdisabled : opcode ∉ disabledOpcodes)
    (hplain : ∀ f : Frame, execute crypto check opcode true f =
      stay f (stackOp crypto opcode f.stack) >>= fun stack => .ok { f with stack }) :
    (interpreter crypto check).exec (f.atPc (opcode :: pc) stack n) = .ok g ↔
      ¬ (OP_16 < opcode ∧ 201 < n + 1) ∧
        ∃ stack', stackOp crypto opcode stack = .ok stack' ∧ stack'.length + f.altstack.length ≤ 1000 ∧
          (interpreter crypto check).exec (f.atPc pc stack' (if OP_16 < opcode then n + 1 else n)) = .ok g := by
  have hop := getOp_opcode hpush pc
  have hperform : ∀ f : Frame, f.vfExec = [] → perform crypto check opcode [] f =
      stay f (stackOp crypto opcode f.stack) >>= fun stack => .ok { f with stack } := by
    intro f hvf
    have hexec : f.vfExec.all (· = true) = true := by rw [hvf]; rfl
    unfold perform
    dsimp only
    rw [hexec, if_neg (fun h => hpush h.2), if_pos (.inl rfl)]
    exact hplain f
  have hzero : ([] : Bytes).length ≤ MAX_SCRIPT_ELEMENT_SIZE := Nat.zero_le _
  rw [Machine.exec_ok_iff (Nat.zero_lt_of_lt (getOp_length hop))]
  constructor
  · rintro ⟨f', hstep, hexec⟩
    obtain ⟨-, hops, -, hrun, hsize⟩ := (step_ok_iff hop).mp hstep
    rw [hperform] at hrun
    · obtain ⟨stack', hstack, hrun⟩ := Except.bind_ok_iff.mp hrun
      cases hrun
      exact ⟨hops, stack', stay_ok_iff.mp hstack, hsize, hexec⟩
    · exact hvf
  · rintro ⟨hops, stack', hstack, hsize, hexec⟩
    refine ⟨f.atPc pc stack' (if OP_16 < opcode then n + 1 else n),
      (step_ok_iff hop).mpr ⟨hzero, hops, hdisabled, ?_, hsize⟩, hexec⟩
    rw [hperform]
    · exact Except.bind_ok_iff.mpr ⟨stack', stay_ok_iff.mpr hstack, rfl⟩
    · exact hvf

/-- `OP_1` … `OP_16` -/
theorem exec_smallInteger {opcode : UInt8} {pc : CScript} {stack : Stack} {n : Nat} (hvf : f.vfExec = [])
    (hlow : OP_1 ≤ opcode) (hhigh : opcode ≤ OP_16) :
    (interpreter crypto check).exec (f.atPc (opcode :: pc) stack n) = .ok g ↔
      stack.length + 1 + f.altstack.length ≤ 1000 ∧
        (interpreter crypto check).exec (f.atPc pc (CBigNum.getvch (decodeOP_N opcode) :: stack) n) = .ok g := by
  have hpush : ¬ opcode ≤ OP_PUSHDATA4 := fun hle => absurd (UInt8.le_trans hlow hle) (by decide)
  have hle : ¬ OP_16 < opcode := UInt8.not_lt.mpr hhigh
  have hdisabled : opcode ∉ disabledOpcodes := fun hmem => hle (high_of_mem_disabledOpcodes opcode hmem)
  rw [exec_plain hvf hpush hdisabled fun f => execute_low hhigh, if_neg hle]
  constructor
  · rintro ⟨-, stack', hstack, hsize, hexec⟩
    rw [stackOp_smallInteger hlow hhigh] at hstack
    cases hstack
    exact ⟨hsize, hexec⟩
  · rintro ⟨hsize, hexec⟩
    exact ⟨fun h => hle h.1, _, stackOp_smallInteger hlow hhigh stack, hsize, hexec⟩

/-! ## The pieces of a service output -/

/-- A run of pushes. -/
theorem exec_pushes {vvch : List Bytes} {pushes pc : CScript} {stack : Stack} {n : Nat} (hvf : f.vfExec = [])
    (hpushes : Pushes vvch pushes) (hroom : stack.length + f.altstack.length ≤ 1000) :
    (interpreter crypto check).exec (f.atPc (pushes ++ pc) stack n) = .ok g ↔
      (∀ vch ∈ vvch, vch.length ≤ MAX_SCRIPT_ELEMENT_SIZE) ∧
        stack.length + vvch.length + f.altstack.length ≤ 1000 ∧
        (interpreter crypto check).exec (f.atPc pc (vvch.reverse ++ stack) n) = .ok g := by
  induction hpushes generalizing stack with
  | nil => simp [hroom]
  | @cons opcode vch vvch push pushes hpush hop htail ih =>
    rw [List.append_assoc, exec_getOp_push hvf (hop _) hpush, List.forall_mem_cons]
    have hreverse : (vch :: vvch).reverse ++ stack = vvch.reverse ++ vch :: stack := by
      rw [List.reverse_cons, List.append_assoc]
      rfl
    rw [hreverse, List.length_cons]
    constructor
    · rintro ⟨hvch, hsize, hexec⟩
      have hroom' : (vch :: stack).length + f.altstack.length ≤ 1000 := hsize
      obtain ⟨hvvch, hsize', hexec⟩ := (ih hroom').mp hexec
      rw [List.length_cons] at hsize'
      exact ⟨⟨hvch, hvvch⟩, by omega, hexec⟩
    · rintro ⟨⟨hvch, hvvch⟩, hsize, hexec⟩
      have hsize' : (vch :: stack).length + f.altstack.length ≤ 1000 := by
        rw [List.length_cons]
        omega
      refine ⟨hvch, hsize', (ih hsize').mpr ⟨hvvch, ?_, hexec⟩⟩
      rw [List.length_cons]
      omega

/-- `DROP`, `2DROP` and `NOP`, the opcodes that end the arguments of an operation. -/
def isDrop (opcode : UInt8) : Bool := opcode = OP_DROP ∨ opcode = OP_2DROP ∨ opcode = OP_NOP

theorem isDrop_iff {opcode : UInt8} :
    isDrop opcode = true ↔ opcode = OP_DROP ∨ opcode = OP_2DROP ∨ opcode = OP_NOP := decide_eq_true_iff

/-- How many elements an opcode takes off the stack, if it is one of these. -/
def popCount (opcode : UInt8) : Nat := if opcode = OP_2DROP then 2 else if opcode = OP_DROP then 1 else 0

def popped (run : Bytes) : Nat := (run.map popCount).sum

theorem stackOp_isDrop {opcode : UInt8} (h : isDrop opcode = true) {stack stack' : Stack} :
    stackOp crypto opcode stack = .ok stack' ↔ popCount opcode ≤ stack.length ∧ stack' = stack.drop (popCount opcode) := by
  rcases isDrop_iff.mp h with rfl | rfl | rfl
  · match stack with
    | [] => exact ⟨fun hfail => (by cases hfail), fun ⟨hle, _⟩ => absurd hle (by decide)⟩
    | vch :: rest => exact ⟨fun hok => (by cases hok; exact ⟨Nat.le_add_left 1 _, rfl⟩), fun ⟨_, heq⟩ => heq ▸ rfl⟩
  · match stack with
    | [] => exact ⟨fun hfail => (by cases hfail), fun ⟨hle, _⟩ => absurd hle (by decide)⟩
    | [vch] => exact ⟨fun hfail => (by cases hfail), fun ⟨hle, _⟩ => absurd (show 2 ≤ 1 from hle) (by decide)⟩
    | vch₁ :: vch₂ :: rest =>
      exact ⟨fun hok => (by cases hok; exact ⟨Nat.le_add_left 2 _, rfl⟩), fun ⟨_, heq⟩ => heq ▸ rfl⟩
  · exact ⟨fun hok => (by cases hok; exact ⟨Nat.zero_le _, rfl⟩), fun ⟨_, heq⟩ => heq ▸ rfl⟩

/-- A run of drops, whatever they are: it takes off what they count, if that much is there. -/
theorem exec_run {run : Bytes} {pc : CScript} {stack : Stack} {n : Nat} (hvf : f.vfExec = [])
    (hrun : ∀ drop ∈ run, isDrop drop = true) (hroom : stack.length + f.altstack.length ≤ 1000) (hops : n ≤ 201) :
    (interpreter crypto check).exec (f.atPc (run ++ pc) stack n) = .ok g ↔
      popped run ≤ stack.length ∧ n + run.length ≤ 201 ∧
        (interpreter crypto check).exec (f.atPc pc (stack.drop (popped run)) (n + run.length)) = .ok g := by
  induction run generalizing stack n with
  | nil =>
    show (interpreter crypto check).exec (f.atPc pc stack n) = .ok g ↔
      0 ≤ stack.length ∧ n ≤ 201 ∧ (interpreter crypto check).exec (f.atPc pc stack n) = .ok g
    exact ⟨fun h => ⟨Nat.zero_le _, hops, h⟩, fun h => h.2.2⟩
  | cons drop run ih =>
    obtain ⟨hhead, htail⟩ := List.forall_mem_cons.mp hrun
    have hplain : ∀ f : Frame, execute crypto check drop true f =
        stay f (stackOp crypto drop f.stack) >>= fun stack => .ok { f with stack } := by
      intro f
      refine execute_plain ?_
      rcases isDrop_iff.mp hhead with rfl | rfl | rfl <;> decide
    have hhigh : OP_16 < drop := by rcases isDrop_iff.mp hhead with rfl | rfl | rfl <;> decide
    have hpush : ¬ drop ≤ OP_PUSHDATA4 := by rcases isDrop_iff.mp hhead with rfl | rfl | rfl <;> decide
    have hdisabled : drop ∉ disabledOpcodes := by rcases isDrop_iff.mp hhead with rfl | rfl | rfl <;> decide
    have hpopped : popped (drop :: run) = popCount drop + popped run := List.sum_cons
    have hcount : n + (drop :: run).length = n + 1 + run.length := by
      rw [List.length_cons]
      omega
    rw [List.cons_append, exec_plain hvf hpush hdisabled hplain, if_pos hhigh, hpopped, hcount]
    have hlength : (stack.drop (popCount drop)).length = stack.length - popCount drop := List.length_drop
    constructor
    · rintro ⟨hlimit, stack', hstack, hsize, hexec⟩
      have hops' : n + 1 ≤ 201 := Nat.le_of_not_lt fun hlt => hlimit ⟨hhigh, hlt⟩
      obtain ⟨hle, rfl⟩ := (stackOp_isDrop hhead).mp hstack
      obtain ⟨hle', hcount', hexec⟩ := (ih htail hsize hops').mp hexec
      rw [List.drop_drop] at hexec
      exact ⟨by omega, hcount', hexec⟩
    · rintro ⟨hle, hcount', hexec⟩
      have hsize : (stack.drop (popCount drop)).length + f.altstack.length ≤ 1000 := by omega
      refine ⟨by omega, stack.drop (popCount drop), (stackOp_isDrop hhead).mpr ⟨by omega, rfl⟩, hsize, ?_⟩
      refine (ih htail hsize (by omega)).mpr ⟨by omega, hcount', ?_⟩
      rw [List.drop_drop]
      exact hexec

/-- **An operation, its arguments and a run of drops**, whatever the pushes and the drops are. -/
theorem exec_operation {opcode : UInt8} {vvch : List Bytes} {pushes run : Bytes} {pc : CScript} {stack : Stack} {n : Nat}
    (hvf : f.vfExec = []) (hlow : OP_1 ≤ opcode) (hhigh : opcode ≤ OP_16) (hpushes : Pushes vvch pushes)
    (hrun : ∀ drop ∈ run, isDrop drop = true) (hops : n ≤ 201) :
    (interpreter crypto check).exec (f.atPc (opcode :: (pushes ++ (run ++ pc))) stack n) = .ok g ↔
      (∀ vch ∈ vvch, vch.length ≤ MAX_SCRIPT_ELEMENT_SIZE) ∧
        stack.length + vvch.length + 1 + f.altstack.length ≤ 1000 ∧
        popped run ≤ stack.length + vvch.length + 1 ∧ n + run.length ≤ 201 ∧
        (interpreter crypto check).exec (f.atPc pc
          ((vvch.reverse ++ CBigNum.getvch (decodeOP_N opcode) :: stack).drop (popped run)) (n + run.length)) = .ok g := by
  rw [exec_smallInteger hvf hlow hhigh]
  generalize CBigNum.getvch (decodeOP_N opcode) = top
  have hlength : (vvch.reverse ++ top :: stack).length = stack.length + vvch.length + 1 := by
    rw [List.length_append, List.length_reverse, List.length_cons]
    omega
  constructor
  · rintro ⟨hsize, hexec⟩
    have hroom : (top :: stack).length + f.altstack.length ≤ 1000 := hsize
    obtain ⟨hfits, hsize', hexec⟩ := (exec_pushes hvf hpushes hroom).mp hexec
    rw [List.length_cons] at hsize'
    obtain ⟨hpopped, hcount, hexec⟩ := (exec_run hvf hrun (by omega) hops).mp hexec
    exact ⟨hfits, by omega, by omega, hcount, hexec⟩
  · rintro ⟨hfits, hsize, hpopped, hcount, hexec⟩
    have hroom : (top :: stack).length + f.altstack.length ≤ 1000 := by
      rw [List.length_cons]
      omega
    refine ⟨hroom, (exec_pushes hvf hpushes hroom).mpr ⟨hfits, ?_, ?_⟩⟩
    · rw [List.length_cons]
      omega
    · exact (exec_run hvf hrun (by omega) hops).mpr ⟨by omega, hcount, hexec⟩

theorem isDrop_of_mem_drops {op : Op} : ∀ drop ∈ drops op.nArgs, isDrop drop = true := by
  cases op <;> decide +kernel

/-- The drops take off as many elements as an operation and its arguments are. -/
theorem popped_drops (op : Op) : popped (drops op.nArgs) = op.nArgs + 1 := by cases op <;> decide

theorem length_drops_le (op : Op) : (drops op.nArgs).length ≤ 2 := by cases op <;> decide

/-- No argument is longer than a push may be. -/
def ServicePrefix.Fits (P : ServicePrefix) : Prop := ∀ vch ∈ P.vvch, vch.length ≤ MAX_SCRIPT_ELEMENT_SIZE

theorem encodeOP_N_bounds (op : Op) : OP_1 ≤ encodeOP_N op.toN ∧ encodeOP_N op.toN ≤ OP_16 := by
  cases op <;> decide

/-- **A prefix leaves the stack as it was**, if its arguments fit and there is room for them. -/
theorem exec_service {P : ServicePrefix} {pc : CScript} {stack : Stack} {n : Nat} (hvf : f.vfExec = [])
    (hlen : ∀ vch ∈ P.vvch, vch.length < 2 ^ 32) (hops : n + 2 ≤ 201) :
    (interpreter crypto check).exec (f.atPc (P.script ++ pc) stack n) = .ok g ↔
      P.Fits ∧ stack.length + P.vvch.length + 1 + f.altstack.length ≤ 1000 ∧
        (interpreter crypto check).exec (f.atPc pc stack (n + (drops P.op.nArgs).length)) = .ok g := by
  obtain ⟨hlow, hhigh⟩ := encodeOP_N_bounds P.op
  have hcount := length_drops_le P.op
  have hpopped := popped_drops P.op
  have harity := P.arity
  let top := CBigNum.getvch (decodeOP_N (encodeOP_N P.op.toN))
  have hscript : P.script ++ pc =
      encodeOP_N P.op.toN :: (P.vvch.flatMap pushVch ++ (drops P.op.nArgs ++ pc)) := by
    show (encodeOP_N P.op.toN :: P.vvch.flatMap pushVch ++ drops P.op.nArgs) ++ pc = _
    rw [List.append_assoc, List.cons_append]
  have hstack : (P.vvch.reverse ++ top :: stack).drop (popped (drops P.op.nArgs)) = stack := by
    have hassoc : P.vvch.reverse ++ top :: stack = (P.vvch.reverse ++ [top]) ++ stack := by
      rw [List.append_assoc]
      rfl
    rw [hassoc]
    refine List.drop_left' ?_
    rw [List.length_append, List.length_reverse, harity, hpopped]
    rfl
  rw [hscript, exec_operation hvf hlow hhigh (pushes_flatMap hlen) isDrop_of_mem_drops (by omega), hstack]
  constructor
  · rintro ⟨hfits, hsize, -, -, hexec⟩
    exact ⟨hfits, hsize, hexec⟩
  · rintro ⟨hfits, hsize, hexec⟩
    exact ⟨hfits, hsize, by omega, by omega, hexec⟩

theorem exec_hash160 {pc : CScript} {stack : Stack} {n : Nat} (hvf : f.vfExec = []) (hops : n + 1 ≤ 201) :
    (interpreter crypto check).exec (f.atPc (OP_HASH160 :: pc) stack n) = .ok g ↔
      ∃ vch rest, stack = vch :: rest ∧ stack.length + f.altstack.length ≤ 1000 ∧
        (interpreter crypto check).exec (f.atPc pc (toLE 20 (crypto.hash160 vch) :: rest) (n + 1)) = .ok g := by
  rw [exec_plain hvf (by decide) (by decide) fun f => execute_plain (by decide), if_pos (by decide)]
  constructor
  · rintro ⟨-, stack', hstack, hsize, hexec⟩
    cases stack with
    | nil =>
      have hfail : stackOp crypto OP_HASH160 [] = .error .failed := rfl
      rw [hfail] at hstack
      cases hstack
    | cons vch rest =>
      have hhash : stackOp crypto OP_HASH160 (vch :: rest) = .ok (toLE 20 (crypto.hash160 vch) :: rest) := rfl
      rw [hhash] at hstack
      cases hstack
      exact ⟨vch, rest, rfl, hsize, hexec⟩
  · rintro ⟨vch, rest, rfl, hsize, hexec⟩
    exact ⟨by omega, toLE 20 (crypto.hash160 vch) :: rest, rfl, hsize, hexec⟩

theorem exec_equal {pc : CScript} {vch1 vch2 : Bytes} {rest : Stack} {n : Nat} (hvf : f.vfExec = [])
    (hroom : rest.length + 1 + f.altstack.length ≤ 1000) (hops : n + 1 ≤ 201) :
    (interpreter crypto check).exec (f.atPc (OP_EQUAL :: pc) (vch2 :: vch1 :: rest) n) = .ok g ↔
      (interpreter crypto check).exec (f.atPc pc (vchBool (decide (vch1 = vch2)) :: rest) (n + 1)) = .ok g := by
  have hequal : stackOp crypto OP_EQUAL (vch2 :: vch1 :: rest) = .ok (vchBool (decide (vch1 = vch2)) :: rest) := rfl
  rw [exec_plain hvf (by decide) (by decide) fun f => execute_plain (by decide), hequal, if_pos (by decide)]
  constructor
  · rintro ⟨-, stack', hstack, -, hexec⟩
    cases hstack
    exact hexec
  · intro hexec
    exact ⟨by omega, _, rfl, hroom, hexec⟩

/-- **A pay-to-script-hash script compares the hash of the element on top.** -/
theorem exec_scriptID {scriptID : CScriptID} {stack : Stack} {n : Nat} (hvf : f.vfExec = []) (hops : n + 2 ≤ 201) :
    (interpreter crypto check).exec (f.atPc (setDestination (.scriptID scriptID)) stack n) = .ok g ↔
      ∃ vch rest, stack = vch :: rest ∧ stack.length + 1 + f.altstack.length ≤ 1000 ∧
        g = f.atPc [] (vchBool (decide (toLE 20 (crypto.hash160 vch) = toLE 20 scriptID.id)) :: rest) (n + 2) := by
  have hscript : setDestination (.scriptID scriptID) = OP_HASH160 :: (pushUint160 scriptID.id ++ [OP_EQUAL]) := rfl
  have hpush : (20 : UInt8) ≤ OP_PUSHDATA4 := by decide
  have hlength : (toLE 20 scriptID.id).length ≤ MAX_SCRIPT_ELEMENT_SIZE := by
    rw [length_toLE]
    decide
  have hend : ∀ stack' : Stack,
      (interpreter crypto check).exec (f.atPc [] stack' (n + 2)) = .ok (f.atPc [] stack' (n + 2)) :=
    fun stack' => Machine.exec_end rfl
  rw [hscript, exec_hash160 hvf (by omega)]
  constructor
  · rintro ⟨vch, rest, rfl, -, hexec⟩
    obtain ⟨-, hsize, hexec⟩ := (exec_getOp_push hvf (getOp_pushUint160 scriptID.id [OP_EQUAL]) hpush).mp hexec
    rw [List.length_cons] at hsize
    rw [exec_equal hvf (by omega) (by omega), hend] at hexec
    cases hexec
    exact ⟨vch, rest, rfl, hsize, rfl⟩
  · rintro ⟨vch, rest, rfl, hsize, rfl⟩
    rw [List.length_cons] at hsize
    refine ⟨vch, rest, rfl, by rw [List.length_cons]; omega, ?_⟩
    refine (exec_getOp_push hvf (getOp_pushUint160 scriptID.id [OP_EQUAL]) hpush).mpr ⟨hlength, hsize, ?_⟩
    rw [exec_equal hvf (by omega) (by omega)]
    exact hend _

end Run

end Syscoin

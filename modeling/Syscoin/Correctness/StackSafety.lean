import Mathlib.Data.Nat.Digits.Lemmas
import Syscoin.Correctness.MultiSig
import Syscoin.Script.Routines

/-!
# `Correctness.StackSafety` — the interpreter is safe and bounded

Every position that an instruction uses is within its stack, no assertion fails, and at every moment the stacks and the
count of operations stay within their bounds. This is shown for the routines of `Script.Routines`, which carry out what
`Script.Interpreter` says, and from there for every frame that a run comes to.
-/

namespace Syscoin

open Lib Recorded

/-! ## Sizes of numbers -/

theorem natAbs_setvch_lt (vch : Bytes) : (CBigNum.setvch vch).natAbs < 256 ^ vch.length := by
  unfold CBigNum.setvch
  cases hlast : vch.getLast? with
  | none =>
    dsimp only
    rw [Int.natAbs_zero]
    exact Nat.pow_pos (by decide)
  | some top =>
    have hlen : 0 < vch.length := List.length_pos_of_ne_nil (by rintro rfl; cases hlast)
    dsimp only
    split_ifs
    · exact fromLE_lt vch
    · have hlt := fromLE_lt (vch.dropLast ++ [top &&& 0x7f])
      rw [List.length_append, List.length_dropLast, List.length_singleton, Nat.sub_add_cancel hlen] at hlt
      rw [Int.natAbs_neg]
      exact hlt

theorem length_getvch_le {bn : Int} {n : Nat} (h : bn.natAbs < 256 ^ n) : (CBigNum.getvch bn).length ≤ n + 1 := by
  have hdigits : (Nat.digits 256 bn.natAbs).length ≤ n := (Nat.digits_length_le_iff (by decide) _).mpr h
  unfold CBigNum.getvch
  dsimp only
  split
  · exact Nat.zero_le _
  · split_ifs
    · rw [List.length_append, List.length_map, List.length_singleton]
      omega
    · rw [List.length_append, List.length_map, List.length_singleton]
      omega
    · rw [List.length_append, List.length_dropLast, List.length_map, List.length_singleton]
      omega
    · rw [List.length_map]
      omega

/-- A number from the stack has at most five bytes. -/
theorem natAbs_castToBigNum {vch : Bytes} {bn : Int} (h : castToBigNum vch = .ok bn) : bn.natAbs < 256 ^ 5 := by
  unfold castToBigNum at h
  split_ifs at h with hlong
  cases h
  have hvch : (CBigNum.getvch (CBigNum.setvch vch)).length ≤ 4 + 1 :=
    length_getvch_le ((natAbs_setvch_lt vch).trans_le (Nat.pow_le_pow_right (by decide) (not_lt.mp hlong)))
  exact (natAbs_setvch_lt _).trans_le (Nat.pow_le_pow_right (by decide) hvch)

theorem castToBigNum_error {vch : Bytes} {e : Stop} (h : castToBigNum vch = .error e) : e = .thrown := by
  unfold castToBigNum at h
  split_ifs at h
  cases h
  rfl

theorem natAbs_ite_le {p : Prop} [Decidable p] {a b : Int} {n : Nat} (ha : a.natAbs ≤ n) (hb : b.natAbs ≤ n) :
    (if p then a else b).natAbs ≤ n := by
  by_cases hp : p
  · rwa [if_pos hp]
  · rwa [if_neg hp]

theorem natAbs_bnBool_le (p : Prop) [Decidable p] {n : Nat} (hn : 1 ≤ n) : (bnBool p).natAbs ≤ n :=
  natAbs_ite_le hn (Nat.zero_le n)

theorem length_getvch_unary {vch : Bytes} {bn : Int} (h : castToBigNum vch = .ok bn) (opcode : UInt8) :
    (CBigNum.getvch (unaryValue opcode bn)).length ≤ MAX_SCRIPT_ELEMENT_SIZE := by
  have hbn := natAbs_castToBigNum h
  have hvalue : (unaryValue opcode bn).natAbs ≤ bn.natAbs + 1 := by
    have hbool : ∀ (p : Prop) [Decidable p], (bnBool p).natAbs ≤ bn.natAbs + 1 :=
      fun p _ => natAbs_bnBool_le p (Nat.le_add_left 1 _)
    refine natAbs_ite_le (by omega) (natAbs_ite_le (by omega) (natAbs_ite_le (by omega) (natAbs_ite_le ?_ ?_)))
    · exact natAbs_ite_le (by omega) (by omega)
    · exact natAbs_ite_le (hbool _) (hbool _)
  exact (length_getvch_le (n := 6) (hvalue.trans_lt (by omega))).trans (by decide)

theorem length_getvch_binary {vch1 vch2 : Bytes} {bn1 bn2 : Int} (h1 : castToBigNum vch1 = .ok bn1)
    (h2 : castToBigNum vch2 = .ok bn2) (opcode : UInt8) :
    (CBigNum.getvch (binaryValue opcode bn1 bn2)).length ≤ MAX_SCRIPT_ELEMENT_SIZE := by
  have hbn1 := natAbs_castToBigNum h1
  have hbn2 := natAbs_castToBigNum h2
  have hvalue : (binaryValue opcode bn1 bn2).natAbs ≤ bn1.natAbs + bn2.natAbs + 1 := by
    have hbool : ∀ (p : Prop) [Decidable p], (bnBool p).natAbs ≤ bn1.natAbs + bn2.natAbs + 1 :=
      fun p _ => natAbs_bnBool_le p (Nat.le_add_left 1 _)
    refine natAbs_ite_le (by omega) (natAbs_ite_le (by omega) ?_)
    -- the comparisons
    refine natAbs_ite_le (hbool _) (natAbs_ite_le (hbool _) (natAbs_ite_le (hbool _) (natAbs_ite_le (hbool _) ?_)))
    refine natAbs_ite_le (hbool _) (natAbs_ite_le (hbool _) (natAbs_ite_le (hbool _) (natAbs_ite_le (hbool _) ?_)))
    refine natAbs_ite_le (natAbs_ite_le (by omega) (by omega)) (natAbs_ite_le (by omega) (by omega))
  exact (length_getvch_le (n := 6) (hvalue.trans_lt (by omega))).trans (by decide)

/-- The size of something takes no more bytes than an element may have, or than the thing itself. -/
theorem length_getvch_size (n : Nat) : (CBigNum.getvch n).length ≤ max MAX_SCRIPT_ELEMENT_SIZE n := by
  have hmax : MAX_SCRIPT_ELEMENT_SIZE = 520 := rfl
  cases n with
  | zero => exact Nat.zero_le _
  | succ n =>
    -- a byte is enough for each doubling
    have hlt : ((n + 1 : Nat) : Int).natAbs < 256 ^ (n / 2 + 1) := by
      rw [Int.natAbs_natCast]
      have hsquare : n < 2 ^ n := Nat.lt_two_pow_self
      calc n + 1 ≤ 2 ^ n := hsquare
        _ < 256 ^ (n / 2 + 1) := by
          rw [show (256 : Nat) = 2 ^ 8 by rfl, ← Nat.pow_mul]
          exact Nat.pow_lt_pow_right (by decide) (by omega)
    have hle := length_getvch_le hlt
    omega

/-! ## Safe moments -/

/-- A command is safe: its positions are within the stacks, what it pushes is no longer than `L`, and the bounds hold
    afterwards. -/
structure Safe (L : Nat) (event : Event Frame Command) : Prop where
  positions : ∀ i ∈ event.command.positions, 1 ≤ i ∧ i ≤ event.before.stack.length
  altPositions : ∀ i ∈ event.command.altPositions, 1 ≤ i ∧ i ≤ event.before.altstack.length
  pushed : ∀ vch ∈ event.command.pushed, vch.length ≤ L
  size : event.after.stack.length + event.after.altstack.length ≤ 1003
  ops : event.after.nOpCount ≤ 221

/-- What holds between two instructions, for elements of at most `L` bytes. -/
structure Frame.Bounded (L : Nat) (f : Frame) : Prop where
  size : f.stack.length + f.altstack.length ≤ 1000
  ops : f.nOpCount ≤ 201
  element : MAX_SCRIPT_ELEMENT_SIZE ≤ L
  stack : ∀ vch ∈ f.stack, vch.length ≤ L
  altstack : ∀ vch ∈ f.altstack, vch.length ≤ L

/-- The routine carries out what has the given result, and is safe at every moment. -/
def Carries (L : Nat) (x : Routine Unit) (result : Except (Stop × Frame) Frame) (f : Frame) : Prop :=
  x.Holds (Safe L) (fun e => e ≠ .fault ∧ ∃ g, result = .error (e, g)) (fun _ g => result = .ok g ∧ g.nOpCount ≤ 201) f

section

variable {I : Event Frame Command → Prop} {E : Stop → Prop} {f : Frame} {L : Nat}

/-! ### Commands -/

@[simp] theorem safe_iff {c : Command} {f g : Frame} : Safe L ⟨c, f, g⟩ ↔
    (∀ i ∈ c.positions, 1 ≤ i ∧ i ≤ f.stack.length) ∧ (∀ i ∈ c.altPositions, 1 ≤ i ∧ i ≤ f.altstack.length) ∧
      (∀ vch ∈ c.pushed, vch.length ≤ L) ∧ g.stack.length + g.altstack.length ≤ 1003 ∧ g.nOpCount ≤ 221 := by
  constructor
  · rintro ⟨hpositions, halt, hpushed, hsize, hops⟩
    exact ⟨hpositions, halt, hpushed, hsize, hops⟩
  · rintro ⟨hpositions, halt, hpushed, hsize, hops⟩
    exact ⟨hpositions, halt, hpushed, hsize, hops⟩

namespace Routine

/-- A command that reads. -/
theorem holds_look {α : Type} {c : Command} {x : Frame → Except Stop α} {Q : α → Frame → Prop} :
    Holds I E Q (act c fun f => (x f).map (·, f)) f ↔
      match x f with
      | .ok a => I ⟨c, f, f⟩ ∧ Q a f
      | .error e => I ⟨c, f, f⟩ ∧ E e := by
  rw [holds_act]
  cases x f with
  | ok a => exact Iff.rfl
  | error e => exact Iff.rfl

@[simp] theorem holds_stacktop {i : Nat} {Q : Bytes → Frame → Prop} : Holds I E Q (stacktop i) f ↔
    match Syscoin.stacktop f.stack i with
    | .ok vch => I ⟨.stacktop i, f, f⟩ ∧ Q vch f
    | .error e => I ⟨.stacktop i, f, f⟩ ∧ E e := by
  unfold stacktop
  rw [holds_look]
  cases Syscoin.stacktop f.stack i with
  | ok vch => exact Iff.rfl
  | error e => exact Iff.rfl

@[simp] theorem holds_altstacktop {i : Nat} {Q : Bytes → Frame → Prop} : Holds I E Q (altstacktop i) f ↔
    match Syscoin.stacktop f.altstack i with
    | .ok vch => I ⟨.altstacktop i, f, f⟩ ∧ Q vch f
    | .error e => I ⟨.altstacktop i, f, f⟩ ∧ E e := by
  unfold altstacktop
  rw [holds_look]
  cases Syscoin.stacktop f.altstack i with
  | ok vch => exact Iff.rfl
  | error e => exact Iff.rfl

variable {Q : Unit → Frame → Prop} {vch : Bytes}

@[simp] theorem holds_push : Holds I E Q (push vch) f ↔
    I ⟨.push vch, f, { f with stack := vch :: f.stack }⟩ ∧ Q () { f with stack := vch :: f.stack } :=
  holds_act

@[simp] theorem holds_altPush : Holds I E Q (altPush vch) f ↔
    I ⟨.altPush vch, f, { f with altstack := vch :: f.altstack }⟩ ∧ Q () { f with altstack := vch :: f.altstack } :=
  holds_act

@[simp] theorem holds_count {n : Nat} : Holds I E Q (count n) f ↔
    I ⟨.count n, f, { f with nOpCount := f.nOpCount + n }⟩ ∧ Q () { f with nOpCount := f.nOpCount + n } :=
  holds_act

/-- A command that changes one of the stacks. -/
theorem holds_change {c : Command} {x : Frame → Except Stop Stack} {change : Frame → Stack → Frame} :
    Holds I E Q (act c fun f => (x f).map fun stack => ((), change f stack)) f ↔
      match x f with
      | .ok stack => I ⟨c, f, change f stack⟩ ∧ Q () (change f stack)
      | .error e => I ⟨c, f, f⟩ ∧ E e := by
  rw [holds_act]
  cases x f with
  | ok stack => exact Iff.rfl
  | error e => exact Iff.rfl

@[simp] theorem holds_pop : Holds I E Q pop f ↔
    match popstack f.stack with
    | .ok stack => I ⟨.pop, f, { f with stack }⟩ ∧ Q () { f with stack }
    | .error e => I ⟨.pop, f, f⟩ ∧ E e :=
  holds_change (x := fun f => popstack f.stack)

@[simp] theorem holds_insert {i : Nat} : Holds I E Q (insert i vch) f ↔
    match insertTop f.stack i vch with
    | .ok stack => I ⟨.insert i vch, f, { f with stack }⟩ ∧ Q () { f with stack }
    | .error e => I ⟨.insert i vch, f, f⟩ ∧ E e :=
  holds_change (x := fun f => insertTop f.stack i vch)

@[simp] theorem holds_swap {i j : Nat} : Holds I E Q (swap i j) f ↔
    match swapTop f.stack i j with
    | .ok stack => I ⟨.swap i j, f, { f with stack }⟩ ∧ Q () { f with stack }
    | .error e => I ⟨.swap i j, f, f⟩ ∧ E e :=
  holds_change (x := fun f => swapTop f.stack i j)

@[simp] theorem holds_altPop : Holds I E Q altPop f ↔
    match popstack f.altstack with
    | .ok altstack => I ⟨.altPop, f, { f with altstack }⟩ ∧ Q () { f with altstack }
    | .error e => I ⟨.altPop, f, f⟩ ∧ E e :=
  holds_change (x := fun f => popstack f.altstack)

@[simp] theorem holds_erase {i j : Nat} : Holds I E Q (erase i j) f ↔
    if j < i ∧ i ≤ f.stack.length then
      I ⟨.erase i j, f, { f with stack := f.stack.take j ++ f.stack.drop i }⟩ ∧
        Q () { f with stack := f.stack.take j ++ f.stack.drop i }
    else I ⟨.erase i j, f, f⟩ ∧ E .fault := by
  unfold erase
  rw [holds_act]
  split_ifs with h
  · simp
  · simp

@[simp] theorem holds_assert {c : Prop} [Decidable c] : Holds I E Q (assert c) f ↔ (c → Q () f) ∧ (¬ c → E .fault) :=
  holds_guard

@[simp] theorem holds_atLeast {n : Nat} : Holds I E Q (atLeast n) f ↔
    (n ≤ f.stack.length → Q () f) ∧ (¬ n ≤ f.stack.length → E .failed) := by
  unfold atLeast
  rw [holds_bind, holds_read, holds_guard]

/-! ### Opcodes that work on the stack alone -/

/-- The routine carries out what changes nothing but the stack, and is safe at every moment. -/
def CarriesOp (L : Nat) (x : Routine Unit) (op : Stack → Except Stop Stack) (f : Frame) : Prop :=
  x.Holds (Safe L) (fun e => e ≠ .fault ∧ op f.stack = .error e)
    (fun _ g => ∃ stack, op f.stack = .ok stack ∧ g = { f with stack }) f

/-- Behind the guard there are elements. -/
theorem CarriesOp.atLeast {n : Nat} {x : Unit → Routine Unit} {op : Unit → Stack → Except Stop Stack}
    (h : n ≤ f.stack.length → CarriesOp L (x ()) (op ()) f) :
    CarriesOp L (Routine.atLeast n >>= x) (fun stack => Syscoin.atLeast n stack >>= fun u => op u stack) f := by
  refine holds_bind.mpr (holds_atLeast.mpr ⟨fun hn => ?_, fun hn => ?_⟩)
  · refine (h hn).mono ?_ ?_
    · rintro e ⟨hfault, hop⟩
      exact ⟨hfault, by simp only [atLeast_eq hn]; exact hop⟩
    · rintro _ g ⟨stack, hop, hg⟩
      exact ⟨stack, by simp only [atLeast_eq hn]; exact hop, hg⟩
  · exact ⟨by decide, by simp only [atLeast_error hn]; rfl⟩

/-- A number is read off the stack, or the element is too long for one and the routine throws. -/
theorem CarriesOp.number {i : Nat} {x : Int → Routine Unit} {op : Int → Stack → Except Stop Stack} (h : f.Bounded L)
    (hlow : 1 ≤ i) (hhigh : i ≤ f.stack.length)
    (hcarries : ∀ vch bn, castToBigNum vch = .ok bn → CarriesOp L (x bn) (op bn) f) :
    CarriesOp L (stacktop i >>= fun vch => lift (castToBigNum vch) >>= x)
      (fun stack => Syscoin.stacktop stack i >>= fun vch => castToBigNum vch >>= fun bn => op bn stack) f := by
  have hsafe : Safe L ⟨.stacktop i, f, f⟩ := by
    have hsize := h.size
    have hops := h.ops
    simp
    omega
  obtain ⟨vch, hvch⟩ : ∃ vch, Syscoin.stacktop f.stack i = .ok vch := by
    have hlt : i - 1 < f.stack.length := by omega
    exact ⟨f.stack[i - 1], by rw [Syscoin.stacktop, List.getElem?_eq_getElem hlt]⟩
  refine holds_bind.mpr (holds_stacktop.mpr ?_)
  rw [hvch]
  refine ⟨hsafe, holds_bind.mpr (holds_lift.mpr ⟨fun bn hnum => ?_, fun e hnum => ?_⟩)⟩
  · refine (hcarries vch bn hnum).mono ?_ ?_
    · rintro e ⟨hfault, hop⟩
      exact ⟨hfault, by simp only [hvch, ok_bind, hnum]; exact hop⟩
    · rintro _ g ⟨stack, hop, hg⟩
      exact ⟨stack, by simp only [hvch, ok_bind, hnum]; exact hop, hg⟩
  · obtain rfl := castToBigNum_error hnum
    exact ⟨by decide, by simp only [hvch, ok_bind, hnum, error_bind]⟩

variable {opcode : UInt8} {fVerify : Bool}

/-! A routine whose guard has passed is run on a stack that shows the elements it needs. -/

theorem opSmallInteger_carries (h : f.Bounded L) : CarriesOp L (opSmallInteger opcode) (Syscoin.opSmallInteger opcode) f := by
  obtain ⟨hsize, hops, helement, hstack, haltstack⟩ := h
  have hvch : (CBigNum.getvch (opcode.toNat - (OP_1.toNat - 1))).length ≤ 520 := by
    have hlt := opcode.toNat_lt
    have hone : OP_1.toNat = 81 := rfl
    exact (length_getvch_le (n := 2) (by omega)).trans (by decide)
  have hmax : MAX_SCRIPT_ELEMENT_SIZE = 520 := rfl
  simp [CarriesOp, opSmallInteger, Syscoin.opSmallInteger]
  omega

theorem op2Drop_carries (h : f.Bounded L) : CarriesOp L op2Drop Syscoin.op2Drop f := by
  refine CarriesOp.atLeast fun hn => ?_
  obtain ⟨pc, stack, altstack, vfExec, code, n, k⟩ := f
  obtain ⟨hsize, hops, helement, hstack, haltstack⟩ := h
  rcases stack with _ | ⟨a, _ | ⟨b, stack⟩⟩
  iterate 2 simp at hn
  simp [CarriesOp, popstack, ok_bind] at *
  omega

theorem op2Dup_carries (h : f.Bounded L) : CarriesOp L op2Dup Syscoin.op2Dup f := by
  refine CarriesOp.atLeast fun hn => ?_
  obtain ⟨pc, stack, altstack, vfExec, code, n, k⟩ := f
  obtain ⟨hsize, hops, helement, hstack, haltstack⟩ := h
  rcases stack with _ | ⟨a, _ | ⟨b, stack⟩⟩
  iterate 2 simp at hn
  simp [CarriesOp, Syscoin.stacktop, ok_bind] at *
  omega

theorem op3Dup_carries (h : f.Bounded L) : CarriesOp L op3Dup Syscoin.op3Dup f := by
  refine CarriesOp.atLeast fun hn => ?_
  obtain ⟨pc, stack, altstack, vfExec, code, n, k⟩ := f
  obtain ⟨hsize, hops, helement, hstack, haltstack⟩ := h
  rcases stack with _ | ⟨a, _ | ⟨b, _ | ⟨c, stack⟩⟩⟩
  iterate 3 simp at hn
  simp [CarriesOp, Syscoin.stacktop, ok_bind] at *
  omega

theorem op2Over_carries (h : f.Bounded L) : CarriesOp L op2Over Syscoin.op2Over f := by
  refine CarriesOp.atLeast fun hn => ?_
  obtain ⟨pc, stack, altstack, vfExec, code, n, k⟩ := f
  obtain ⟨hsize, hops, helement, hstack, haltstack⟩ := h
  rcases stack with _ | ⟨a, _ | ⟨b, _ | ⟨c, _ | ⟨d, stack⟩⟩⟩⟩
  iterate 4 simp at hn
  simp [CarriesOp, Syscoin.stacktop, ok_bind] at *
  omega

theorem op2Rot_carries (h : f.Bounded L) : CarriesOp L op2Rot Syscoin.op2Rot f := by
  refine CarriesOp.atLeast fun hn => ?_
  obtain ⟨pc, stack, altstack, vfExec, code, n, k⟩ := f
  obtain ⟨hsize, hops, helement, hstack, haltstack⟩ := h
  rcases stack with _ | ⟨a, _ | ⟨b, _ | ⟨c, _ | ⟨d, _ | ⟨e, _ | ⟨f, stack⟩⟩⟩⟩⟩⟩
  iterate 6 simp at hn
  simp [CarriesOp, Syscoin.stacktop, eraseTop, ok_bind] at *
  omega

theorem op2Swap_carries (h : f.Bounded L) : CarriesOp L op2Swap Syscoin.op2Swap f := by
  refine CarriesOp.atLeast fun hn => ?_
  obtain ⟨pc, stack, altstack, vfExec, code, n, k⟩ := f
  obtain ⟨hsize, hops, helement, hstack, haltstack⟩ := h
  rcases stack with _ | ⟨a, _ | ⟨b, _ | ⟨c, _ | ⟨d, stack⟩⟩⟩⟩
  iterate 4 simp at hn
  simp [CarriesOp, Syscoin.stacktop, swapTop, ok_bind] at *
  omega

theorem opDrop_carries (h : f.Bounded L) : CarriesOp L opDrop Syscoin.opDrop f := by
  refine CarriesOp.atLeast fun hn => ?_
  obtain ⟨pc, stack, altstack, vfExec, code, n, k⟩ := f
  obtain ⟨hsize, hops, helement, hstack, haltstack⟩ := h
  rcases stack with _ | ⟨a, stack⟩
  · simp at hn
  simp [CarriesOp, popstack] at *
  omega

theorem opDup_carries (h : f.Bounded L) : CarriesOp L opDup Syscoin.opDup f := by
  refine CarriesOp.atLeast fun hn => ?_
  obtain ⟨pc, stack, altstack, vfExec, code, n, k⟩ := f
  obtain ⟨hsize, hops, helement, hstack, haltstack⟩ := h
  rcases stack with _ | ⟨a, stack⟩
  · simp at hn
  simp [CarriesOp, Syscoin.stacktop] at *
  omega

theorem opNip_carries (h : f.Bounded L) : CarriesOp L opNip Syscoin.opNip f := by
  refine CarriesOp.atLeast fun hn => ?_
  obtain ⟨pc, stack, altstack, vfExec, code, n, k⟩ := f
  obtain ⟨hsize, hops, helement, hstack, haltstack⟩ := h
  rcases stack with _ | ⟨a, _ | ⟨b, stack⟩⟩
  iterate 2 simp at hn
  simp [CarriesOp, eraseTop] at *
  omega

theorem opOver_carries (h : f.Bounded L) : CarriesOp L opOver Syscoin.opOver f := by
  refine CarriesOp.atLeast fun hn => ?_
  obtain ⟨pc, stack, altstack, vfExec, code, n, k⟩ := f
  obtain ⟨hsize, hops, helement, hstack, haltstack⟩ := h
  rcases stack with _ | ⟨a, _ | ⟨b, stack⟩⟩
  iterate 2 simp at hn
  simp [CarriesOp, Syscoin.stacktop] at *
  omega

theorem opRot_carries (h : f.Bounded L) : CarriesOp L opRot Syscoin.opRot f := by
  refine CarriesOp.atLeast fun hn => ?_
  obtain ⟨pc, stack, altstack, vfExec, code, n, k⟩ := f
  obtain ⟨hsize, hops, helement, hstack, haltstack⟩ := h
  rcases stack with _ | ⟨a, _ | ⟨b, _ | ⟨c, stack⟩⟩⟩
  iterate 3 simp at hn
  simp [CarriesOp, Syscoin.stacktop, swapTop, ok_bind] at *
  omega

theorem opSwap_carries (h : f.Bounded L) : CarriesOp L opSwap Syscoin.opSwap f := by
  refine CarriesOp.atLeast fun hn => ?_
  obtain ⟨pc, stack, altstack, vfExec, code, n, k⟩ := f
  obtain ⟨hsize, hops, helement, hstack, haltstack⟩ := h
  rcases stack with _ | ⟨a, _ | ⟨b, stack⟩⟩
  iterate 2 simp at hn
  simp [CarriesOp, Syscoin.stacktop, swapTop, ok_bind] at *
  omega

theorem opTuck_carries (h : f.Bounded L) : CarriesOp L opTuck Syscoin.opTuck f := by
  refine CarriesOp.atLeast fun hn => ?_
  obtain ⟨pc, stack, altstack, vfExec, code, n, k⟩ := f
  obtain ⟨hsize, hops, helement, hstack, haltstack⟩ := h
  rcases stack with _ | ⟨a, _ | ⟨b, stack⟩⟩
  iterate 2 simp at hn
  simp [CarriesOp, Syscoin.stacktop, insertTop, ok_bind] at *
  omega

theorem opVerify_carries (h : f.Bounded L) : CarriesOp L opVerify Syscoin.opVerify f := by
  refine CarriesOp.atLeast fun hn => ?_
  obtain ⟨pc, stack, altstack, vfExec, code, n, k⟩ := f
  obtain ⟨hsize, hops, helement, hstack, haltstack⟩ := h
  rcases stack with _ | ⟨a, stack⟩
  · simp at hn
  cases hvalue : castToBool a with
  | true =>
    simp [CarriesOp, Syscoin.stacktop, popstack, ok_bind, hvalue] at *
    omega
  | false =>
    simp [CarriesOp, Syscoin.stacktop, ok_bind, hvalue] at *
    omega

theorem opIfDup_carries (h : f.Bounded L) : CarriesOp L opIfDup Syscoin.opIfDup f := by
  refine CarriesOp.atLeast fun hn => ?_
  obtain ⟨pc, stack, altstack, vfExec, code, n, k⟩ := f
  obtain ⟨hsize, hops, helement, hstack, haltstack⟩ := h
  rcases stack with _ | ⟨a, stack⟩
  · simp at hn
  cases hvalue : castToBool a with
  | true =>
    simp [CarriesOp, Syscoin.stacktop, hvalue] at *
    omega
  | false =>
    simp [CarriesOp, Syscoin.stacktop, hvalue] at *
    omega

theorem opDepth_carries (h : f.Bounded L) : CarriesOp L opDepth Syscoin.opDepth f := by
  obtain ⟨hsize, hops, helement, hstack, haltstack⟩ := h
  have hvch : (CBigNum.getvch f.stack.length).length ≤ 520 :=
    (length_getvch_le (n := 2) (by omega)).trans (by decide)
  have hmax : MAX_SCRIPT_ELEMENT_SIZE = 520 := rfl
  simp [CarriesOp, opDepth, Syscoin.opDepth]
  omega

theorem opSize_carries (h : f.Bounded L) : CarriesOp L opSize Syscoin.opSize f := by
  refine CarriesOp.atLeast fun hn => ?_
  obtain ⟨pc, stack, altstack, vfExec, code, n, k⟩ := f
  obtain ⟨hsize, hops, helement, hstack, haltstack⟩ := h
  rcases stack with _ | ⟨a, stack⟩
  · simp at hn
  have hvch := length_getvch_size a.length
  simp [CarriesOp, Syscoin.stacktop] at *
  omega

theorem opPick_carries (h : f.Bounded L) : CarriesOp L (opPick opcode) (Syscoin.opPick opcode) f := by
  refine CarriesOp.atLeast fun hn => CarriesOp.number h le_rfl (one_le_two.trans hn) fun _ bn _ => ?_
  obtain ⟨pc, stack, altstack, vfExec, code, n, k⟩ := f
  obtain ⟨hsize, hops, helement, hstack, haltstack⟩ := h
  rcases stack with _ | ⟨a, stack⟩
  · simp at hn
  by_cases hrange : 0 ≤ CBigNum.getint bn ∧ CBigNum.getint bn < stack.length
  · obtain ⟨m, hm⟩ := Int.eq_ofNat_of_zero_le hrange.1
    rw [hm] at hrange
    have hlt : m < stack.length := Int.ofNat_lt.mp hrange.2
    have hmem := (List.forall_mem_cons.mp hstack).2 stack[m] (List.getElem_mem hlt)
    have htop : Syscoin.stacktop stack (m + 1) = .ok stack[m] := stacktop_succ hlt
    by_cases hroll : opcode = OP_ROLL
    · simp [CarriesOp, Syscoin.stacktop, popstack, ok_bind, hm, hlt, require, eraseTop, hroll,
        List.eraseIdx_eq_take_drop_succ] at *
      omega
    · simp [CarriesOp, Syscoin.stacktop, popstack, ok_bind, hm, hlt, require, hroll] at *
      omega
  · simp only [CarriesOp, holds_bind, ok_bind, error_bind, holds_pop, popstack, holds_read, holds_guard, hrange, require,
      if_false, safe_iff]
    simp at hsize hops ⊢
    omega

theorem length_vchBool_le (fValue : Bool) : (vchBool fValue).length ≤ 1 := by
  cases fValue with
  | true => exact Nat.le_refl 1
  | false => exact Nat.zero_le 1

/-- The end of the opcodes that end in `VERIFY`: the result is pushed, and goes if it is true. -/
theorem verified_carries (helement : MAX_SCRIPT_ELEMENT_SIZE ≤ L) (hsize : f.stack.length + f.altstack.length ≤ 1002)
    (hops : f.nOpCount ≤ 221) (fSuccess : Bool) :
    CarriesOp L (do push (vchBool fSuccess); verified fVerify fSuccess)
      (fun stack => Syscoin.verified fVerify fSuccess (vchBool fSuccess :: stack)) f := by
  have hvch := length_vchBool_le fSuccess
  have hmax : MAX_SCRIPT_ELEMENT_SIZE = 520 := rfl
  cases fVerify with
  | false =>
    simp [CarriesOp, verified, Syscoin.verified]
    omega
  | true =>
    cases fSuccess with
    | true =>
      simp [CarriesOp, verified, Syscoin.verified, popstack] at *
      omega
    | false =>
      simp [CarriesOp, verified, Syscoin.verified] at *
      omega

theorem opEqual_carries (h : f.Bounded L) : CarriesOp L (opEqual fVerify) (Syscoin.opEqual fVerify) f := by
  refine CarriesOp.atLeast fun hn => ?_
  obtain ⟨pc, stack, altstack, vfExec, code, n, k⟩ := f
  obtain ⟨hsize, hops, helement, hstack, haltstack⟩ := h
  rcases stack with _ | ⟨a, _ | ⟨b, stack⟩⟩
  iterate 2 simp at hn
  have hverified : CarriesOp L (do push (vchBool (b = a)); verified fVerify (b = a)) _
      ⟨pc, stack, altstack, vfExec, code, n, k⟩ :=
    verified_carries helement (by simp at hsize ⊢; omega) (by dsimp only at hops ⊢; omega) (b = a)
  simp [CarriesOp, Syscoin.stacktop, popstack, ok_bind] at hsize hops ⊢ hverified
  exact ⟨by omega, by omega, by omega, hverified⟩

theorem opUnary_carries (h : f.Bounded L) (hopcode : opcode ∈ unaryOpcodes) :
    CarriesOp L (opUnary opcode) (Syscoin.opUnary opcode) f := by
  refine CarriesOp.atLeast fun hn => CarriesOp.number h le_rfl hn fun _ bn hnum => ?_
  have hvch := (length_getvch_unary hnum opcode).trans h.element
  obtain ⟨pc, stack, altstack, vfExec, code, n, k⟩ := f
  obtain ⟨hsize, hops, helement, hstack, haltstack⟩ := h
  rcases stack with _ | ⟨a, stack⟩
  · simp at hn
  simp [CarriesOp, popstack, hopcode] at hsize hops ⊢
  omega

theorem mem_binaryOpcodes (h : opcode = OP_ADD ∨ opcode = OP_SUB ∨ (OP_BOOLAND ≤ opcode ∧ opcode ≤ OP_MAX)) :
    opcode ∈ binaryOpcodes := by
  have hall : ∀ n : Fin 256, UInt8.ofFin n = OP_ADD ∨ UInt8.ofFin n = OP_SUB ∨
      (OP_BOOLAND ≤ UInt8.ofFin n ∧ UInt8.ofFin n ≤ OP_MAX) → UInt8.ofFin n ∈ binaryOpcodes := by decide +kernel
  exact hall opcode.toFin h

theorem opBinary_carries (h : f.Bounded L) (hopcode : opcode ∈ binaryOpcodes) :
    CarriesOp L (opBinary opcode) (Syscoin.opBinary opcode) f := by
  refine CarriesOp.atLeast fun hn => CarriesOp.number h one_le_two hn fun _ bn1 hnum1 => ?_
  refine CarriesOp.number h le_rfl (one_le_two.trans hn) fun _ bn2 hnum2 => ?_
  have hvch := (length_getvch_binary hnum1 hnum2 opcode).trans h.element
  obtain ⟨pc, stack, altstack, vfExec, code, n, k⟩ := f
  obtain ⟨hsize, hops, helement, hstack, haltstack⟩ := h
  rcases stack with _ | ⟨a, _ | ⟨b, stack⟩⟩
  iterate 2 simp at hn
  generalize CBigNum.getvch (binaryValue opcode bn1 bn2) = vch at hvch
  by_cases hverify : opcode = OP_NUMEQUALVERIFY
  · subst hverify
    cases htrue : castToBool vch with
    | true =>
      simp [CarriesOp, Syscoin.stacktop, popstack, hopcode, htrue, ok_bind, Syscoin.verified] at hsize hops ⊢
      omega
    | false =>
      simp [CarriesOp, Syscoin.stacktop, popstack, hopcode, htrue, ok_bind, Syscoin.verified] at hsize hops ⊢
      omega
  · simp [CarriesOp, popstack, hopcode, hverify, ok_bind, Syscoin.verified] at hsize hops ⊢
    omega

theorem opWithin_carries (h : f.Bounded L) : CarriesOp L opWithin Syscoin.opWithin f := by
  refine CarriesOp.atLeast fun hn => CarriesOp.number h (by decide) hn fun _ bn1 _ => ?_
  refine CarriesOp.number h one_le_two (by omega) fun _ bn2 _ => ?_
  refine CarriesOp.number h le_rfl (by omega) fun _ bn3 _ => ?_
  obtain ⟨pc, stack, altstack, vfExec, code, n, k⟩ := f
  obtain ⟨hsize, hops, helement, hstack, haltstack⟩ := h
  rcases stack with _ | ⟨a, _ | ⟨b, _ | ⟨c, stack⟩⟩⟩
  iterate 3 simp at hn
  have hvch := length_vchBool_le (decide (bn2 ≤ bn1 ∧ bn1 < bn3))
  have hmax : MAX_SCRIPT_ELEMENT_SIZE = 520 := rfl
  simp [CarriesOp, popMany, popstack, ok_bind] at hsize hops hvch ⊢
  omega

theorem opHash_carries (crypto : Crypto) (h : f.Bounded L) :
    CarriesOp L (opHash crypto opcode) (Syscoin.opHash crypto opcode) f := by
  refine CarriesOp.atLeast fun hn => ?_
  obtain ⟨pc, stack, altstack, vfExec, code, n, k⟩ := f
  obtain ⟨hsize, hops, helement, hstack, haltstack⟩ := h
  rcases stack with _ | ⟨a, stack⟩
  · simp at hn
  have hvch : (if opcode = OP_RIPEMD160 then toLE 20 (crypto.ripemd160 a)
    else if opcode = OP_SHA1 then toLE 20 (crypto.sha1 a)
    else if opcode = OP_SHA256 then toLE 32 (crypto.sha256 a)
    else if opcode = OP_HASH160 then toLE 20 (crypto.hash160 a)
    else toLE 32 (crypto.hash a)).length ≤ 32 := by
    split_ifs <;> simp
  have hmax : MAX_SCRIPT_ELEMENT_SIZE = 520 := rfl
  generalize hhash : (if opcode = OP_RIPEMD160 then toLE 20 (crypto.ripemd160 a)
    else if opcode = OP_SHA1 then toLE 20 (crypto.sha1 a)
    else if opcode = OP_SHA256 then toLE 32 (crypto.sha256 a)
    else if opcode = OP_HASH160 then toLE 20 (crypto.hash160 a)
    else toLE 32 (crypto.hash a)) = vchHash at hvch
  simp [CarriesOp, Syscoin.stacktop, popstack, ok_bind, hhash] at hsize hops ⊢
  omega

theorem CarriesOp.ite {c : Prop} [Decidable c] {x y : Routine Unit} {op op' : Stack → Except Stop Stack}
    (hx : c → CarriesOp L x op f) (hy : ¬ c → CarriesOp L y op' f) :
    CarriesOp L (if c then x else y) (if c then op else op') f := by
  by_cases hc : c
  · rw [if_pos hc, if_pos hc]
    exact hx hc
  · rw [if_neg hc, if_neg hc]
    exact hy hc

/-- Every case that changes nothing but the stack. -/
theorem stackOp_carries (crypto : Crypto) (h : f.Bounded L) (opcode : UInt8) :
    CarriesOp L (stackOp crypto opcode) (Syscoin.stackOp crypto opcode) f := by
  have hpure : CarriesOp L (pure ()) .ok f := by simp [CarriesOp]
  have hfailed : CarriesOp L (stop .failed) (fun _ => .error .failed) f := by simp [CarriesOp]
  unfold stackOp Syscoin.stackOp
  refine .ite (fun _ => opSmallInteger_carries h) fun _ => ?_
  refine .ite (fun _ => hpure) fun _ => ?_
  refine .ite (fun _ => opVerify_carries h) fun _ => ?_
  refine .ite (fun _ => op2Drop_carries h) fun _ => ?_
  refine .ite (fun _ => op2Dup_carries h) fun _ => ?_
  refine .ite (fun _ => op3Dup_carries h) fun _ => ?_
  refine .ite (fun _ => op2Over_carries h) fun _ => ?_
  refine .ite (fun _ => op2Rot_carries h) fun _ => ?_
  refine .ite (fun _ => op2Swap_carries h) fun _ => ?_
  refine .ite (fun _ => opIfDup_carries h) fun _ => ?_
  refine .ite (fun _ => opDepth_carries h) fun _ => ?_
  refine .ite (fun _ => opDrop_carries h) fun _ => ?_
  refine .ite (fun _ => opDup_carries h) fun _ => ?_
  refine .ite (fun _ => opNip_carries h) fun _ => ?_
  refine .ite (fun _ => opOver_carries h) fun _ => ?_
  refine .ite (fun _ => opPick_carries h) fun _ => ?_
  refine .ite (fun _ => opRot_carries h) fun _ => ?_
  refine .ite (fun _ => opSwap_carries h) fun _ => ?_
  refine .ite (fun _ => opTuck_carries h) fun _ => ?_
  refine .ite (fun _ => opSize_carries h) fun _ => ?_
  refine .ite (fun _ => opEqual_carries h) fun _ => ?_
  refine .ite (fun hopcode => opUnary_carries h hopcode) fun _ => ?_
  refine .ite (fun hopcode => opBinary_carries h (mem_binaryOpcodes hopcode)) fun _ => ?_
  refine .ite (fun _ => opWithin_carries h) fun _ => ?_
  refine .ite (fun _ => opHash_carries crypto h) fun _ => ?_
  exact hfailed

/-! ### Opcodes that work on the whole frame -/

theorem CarriesOp.carries {x : Routine Unit} {op : Stack → Except Stop Stack} (h : CarriesOp L x op f)
    (hops : f.nOpCount ≤ 201) (f₀ : Frame) :
    Carries L x (do let stack ← stay f₀ (op f.stack); return { f with stack }) f := by
  refine h.mono ?_ ?_
  · rintro e ⟨hfault, hop⟩
    exact ⟨hfault, f₀, by rw [hop]; rfl⟩
  · rintro _ g ⟨stack, hop, rfl⟩
    exact ⟨by rw [hop]; rfl, hops⟩

/-- A part that only reads, in front of the rest. -/
theorem Carries.stay {α : Type} {x : Routine α} {y : Except Stop α} {k : α → Routine Unit}
    {k' : α → Except (Stop × Frame) Frame} {f₀ : Frame}
    (hx : x.Holds (Safe L) (fun e => e ≠ .fault ∧ y = .error e) (fun a g => y = .ok a ∧ g = f) f)
    (hk : ∀ a, y = .ok a → Carries L (k a) (k' a) f) : Carries L (x >>= k) (Lib.stay f₀ y >>= k') f := by
  refine holds_bind.mpr (hx.mono ?_ ?_)
  · rintro e ⟨hfault, rfl⟩
    exact ⟨hfault, f₀, rfl⟩
  · rintro a g ⟨rfl, rfl⟩
    exact hk a rfl

theorem holds_atLeast_stay (n : Nat) : (atLeast n).Holds (Safe L)
    (fun e => e ≠ .fault ∧ Syscoin.atLeast n f.stack = .error e) (fun _ g => Syscoin.atLeast n f.stack = .ok () ∧ g = f)
    f :=
  holds_atLeast.mpr ⟨fun hn => ⟨atLeast_eq hn, rfl⟩, fun hn => ⟨by decide, atLeast_error hn⟩⟩

theorem holds_guard_stay {c : Prop} [Decidable c] {e : Stop} (he : e ≠ .fault) : (guard c e : Routine Unit).Holds (Safe L)
    (fun e' => e' ≠ .fault ∧ require c e = .error e') (fun a g => require c e = .ok a ∧ g = f) f :=
  holds_guard.mpr ⟨fun hc => ⟨require_eq hc, rfl⟩, fun hc => ⟨he, require_error hc⟩⟩

theorem opIf_carries (h : f.Bounded L) (fExec : Bool) : Carries L (opIf opcode fExec) (Syscoin.opIf opcode fExec f) f := by
  obtain ⟨hsize, hops, helement, hstack, haltstack⟩ := h
  cases fExec with
  | false => simpa [Carries, opIf, Syscoin.opIf] using hops
  | true =>
    obtain ⟨pc, stack, altstack, vfExec, code, n, k⟩ := f
    rcases stack with _ | ⟨a, stack⟩
    · simp [Carries, opIf, Syscoin.opIf, Lib.stay, Syscoin.atLeast, require, error_bind]
    · simp [Carries, opIf, Syscoin.opIf, Lib.stay, Syscoin.atLeast, require, Syscoin.stacktop, popstack, ok_bind] at hsize hops ⊢
      omega

theorem opElse_carries (hops : f.nOpCount ≤ 201) : Carries L opElse (Syscoin.opElse f) f := by
  obtain ⟨pc, stack, altstack, vfExec, code, n, k⟩ := f
  cases vfExec with
  | nil => simp [Carries, opElse, Syscoin.opElse]
  | cons back vfExec => simpa [Carries, opElse, Syscoin.opElse] using hops

theorem opEndIf_carries (hops : f.nOpCount ≤ 201) : Carries L opEndIf (Syscoin.opEndIf f) f := by
  obtain ⟨pc, stack, altstack, vfExec, code, n, k⟩ := f
  cases vfExec with
  | nil => simp [Carries, opEndIf, Syscoin.opEndIf]
  | cons back vfExec => simpa [Carries, opEndIf, Syscoin.opEndIf] using hops

theorem opToAltStack_carries (h : f.Bounded L) : Carries L opToAltStack (Syscoin.opToAltStack f) f := by
  obtain ⟨pc, stack, altstack, vfExec, code, n, k⟩ := f
  obtain ⟨hsize, hops, helement, hstack, haltstack⟩ := h
  rcases stack with _ | ⟨a, stack⟩
  · simp [Carries, opToAltStack, Syscoin.opToAltStack, Lib.stay, Syscoin.atLeast, require, error_bind]
  · simp [Carries, opToAltStack, Syscoin.opToAltStack, Lib.stay, Syscoin.atLeast, require, Syscoin.stacktop, popstack,
      ok_bind] at hsize hops hstack ⊢
    omega

theorem opFromAltStack_carries (h : f.Bounded L) : Carries L opFromAltStack (Syscoin.opFromAltStack f) f := by
  obtain ⟨pc, stack, altstack, vfExec, code, n, k⟩ := f
  obtain ⟨hsize, hops, helement, hstack, haltstack⟩ := h
  rcases altstack with _ | ⟨a, altstack⟩
  · simp [Carries, opFromAltStack, Syscoin.opFromAltStack, Lib.stay, Syscoin.atLeast, require, error_bind]
  · simp [Carries, opFromAltStack, Syscoin.opFromAltStack, Lib.stay, Syscoin.atLeast, require, Syscoin.stacktop, popstack,
      ok_bind] at hsize hops haltstack ⊢
    omega

theorem opCheckSig_carries (crypto : Crypto) (check : Checker) (h : f.Bounded L) :
    Carries L (opCheckSig crypto check fVerify) (Syscoin.opCheckSig crypto check fVerify f) f := by
  obtain ⟨pc, stack, altstack, vfExec, code, n, k⟩ := f
  obtain ⟨hsize, hops, helement, hstack, haltstack⟩ := h
  rcases stack with _ | ⟨a, _ | ⟨b, stack⟩⟩
  · simp [Carries, opCheckSig, Syscoin.opCheckSig, Lib.stay, Syscoin.atLeast, require, error_bind]
  · simp [Carries, opCheckSig, Syscoin.opCheckSig, Lib.stay, Syscoin.atLeast, require, error_bind]
  · generalize hpair : checkPair crypto check b a (findAndDelete (pushVch b) code) = pair
    obtain ⟨fSuccess, calls⟩ := pair
    dsimp only at hops
    have hverified : CarriesOp L (do push (vchBool fSuccess); verified fVerify fSuccess) _
        ⟨pc, stack, altstack, vfExec, code, n, k + calls⟩ :=
      verified_carries helement (by simp at hsize ⊢; omega) (by dsimp only; omega) fSuccess
    have hfinish := hverified.carries hops ⟨pc, a :: b :: stack, altstack, vfExec, code, n, k + calls⟩
    simp [Carries, opCheckSig, Syscoin.opCheckSig, Lib.stay, Syscoin.atLeast, require, Syscoin.stacktop, popMany, popstack,
      ok_bind, hpair] at hsize hops hfinish ⊢
    exact ⟨by omega, by omega, by omega, hfinish⟩

/-! ### `OP_CHECKMULTISIG` -/

/-- Reading an element that is there. -/
theorem safe_stacktop (hsize : f.stack.length + f.altstack.length ≤ 1003) (hops : f.nOpCount ≤ 221) {i : Nat} (h₁ : 1 ≤ i)
    (h₂ : i ≤ f.stack.length) : Safe L ⟨.stacktop i, f, f⟩ := by
  simp
  omega

theorem holds_intAt (hsize : f.stack.length + f.altstack.length ≤ 1003) (hops : f.nOpCount ≤ 221) {i : Nat} (h₁ : 1 ≤ i)
    (h₂ : i ≤ f.stack.length) :
    (intAt i).Holds (Safe L) (fun e => e ≠ .fault ∧ Syscoin.intAt f.stack i = .error e)
      (fun n g => Syscoin.intAt f.stack i = .ok n ∧ g = f) f := by
  have hsafe : Safe L ⟨.stacktop i, f, f⟩ := safe_stacktop hsize hops h₁ h₂
  obtain ⟨m, rfl⟩ := Nat.exists_eq_add_of_le' h₁
  have htop : Syscoin.stacktop f.stack (m + 1) = .ok f.stack[m] := stacktop_succ h₂
  unfold intAt Syscoin.intAt
  rw [holds_bind, holds_stacktop, htop]
  refine ⟨hsafe, ?_⟩
  rw [holds_bind, holds_lift, ok_bind]
  constructor
  · intro bn hbn
    rw [hbn]
    exact holds_pure.mpr ⟨rfl, rfl⟩
  · intro e he
    rw [he, castToBigNum_error he]
    exact ⟨by decide, rfl⟩

theorem holds_deleteSigs (hsize : f.stack.length + f.altstack.length ≤ 1003) (hops : f.nOpCount ≤ 221) {isig n : Nat}
    (h₁ : 1 ≤ isig) (h₂ : isig + n ≤ f.stack.length + 1) (scriptCode : CScript) :
    (deleteSigs isig n scriptCode).Holds (Safe L)
      (fun e => e ≠ .fault ∧ Syscoin.deleteSigs f.stack isig n scriptCode = .error e)
      (fun code g => Syscoin.deleteSigs f.stack isig n scriptCode = .ok code ∧ g = f) f := by
  refine (Holds.foldlM (E := fun e => e ≠ .fault) ?_ scriptCode).mono (fun e he => ⟨he.2, he.1⟩) (fun _ _ h => h)
  intro code k hk
  have hlt := List.mem_range.mp hk
  obtain ⟨m, hm⟩ := Nat.exists_eq_add_of_le' (show 1 ≤ isig + k by omega)
  have htop : Syscoin.stacktop f.stack (isig + k) = .ok (f.stack.get ⟨m, by omega⟩) := by
    rw [hm]
    exact stacktop_succ _
  rw [holds_bind, holds_stacktop, htop]
  exact ⟨safe_stacktop hsize hops (by omega) (by omega), holds_pure.mpr ⟨rfl, rfl⟩⟩

/-- The loop reads only what is there, and ends with what `multiSigLoop` says. -/
theorem holds_multiSigLoop (crypto : Crypto) (check : Checker) (hsize : f.stack.length + f.altstack.length ≤ 1003)
    (hops : f.nOpCount ≤ 221) (scriptCode : CScript) (nKeysCount nSigsCount isig ikey : Nat)
    (hle : nSigsCount ≤ nKeysCount) (hisig : 1 ≤ isig) (hikey : 1 ≤ ikey) (hsigs : isig + nSigsCount ≤ f.stack.length + 1)
    (hkeys : ikey + nKeysCount ≤ f.stack.length + 1) :
    (multiSigLoop crypto check scriptCode nKeysCount nSigsCount isig ikey).Holds (Safe L) (fun _ => False)
      (fun r g => Syscoin.multiSigLoop crypto check f.stack scriptCode nKeysCount nSigsCount isig ikey = (.ok r.1, r.2) ∧
        g = f) f := by
  induction nKeysCount generalizing nSigsCount isig ikey with
  | zero =>
    obtain rfl := Nat.le_zero.mp hle
    exact holds_pure.mpr ⟨rfl, rfl⟩
  | succ nKeysCount ih =>
    cases nSigsCount with
    | zero => exact holds_pure.mpr ⟨rfl, rfl⟩
    | succ nSigsCount =>
      obtain ⟨m, rfl⟩ := Nat.exists_eq_add_of_le' hisig
      obtain ⟨m', rfl⟩ := Nat.exists_eq_add_of_le' hikey
      have hsig : Syscoin.stacktop f.stack (m + 1) = .ok (f.stack.get ⟨m, by omega⟩) := stacktop_succ _
      have hkey : Syscoin.stacktop f.stack (m' + 1) = .ok (f.stack.get ⟨m', by omega⟩) := stacktop_succ _
      rw [multiSigLoop, Syscoin.multiSigLoop, holds_bind, holds_stacktop, hsig, hkey]
      refine ⟨safe_stacktop hsize hops hisig (by omega), ?_⟩
      rw [holds_bind, holds_stacktop, hkey]
      refine ⟨safe_stacktop hsize hops hikey (by omega), ?_⟩
      dsimp only
      generalize checkPair crypto check _ _ scriptCode = pair
      obtain ⟨fOk, n⟩ := pair
      dsimp only
      -- a signature that is valid is done with
      have hnext : ∀ nSigs isig', (if fOk = true then nSigsCount else nSigsCount + 1) = nSigs →
          (if fOk = true then m + 1 + 1 else m + 1) = isig' →
          1 ≤ isig' ∧ isig' + nSigs ≤ f.stack.length + 1 := by
        intro nSigs isig' hn hi
        split_ifs at hn hi <;> omega
      generalize hn : (if fOk = true then nSigsCount else nSigsCount + 1) = nSigs at *
      generalize hi : (if fOk = true then m + 1 + 1 else m + 1) = isig' at *
      obtain ⟨hisig', hsigs'⟩ := hnext nSigs isig' rfl rfl
      by_cases hmore : nKeysCount < nSigs
      · rw [if_pos hmore, if_pos hmore]
        exact holds_pure.mpr ⟨rfl, rfl⟩
      · rw [if_neg hmore, if_neg hmore, holds_bind]
        refine (ih nSigs isig' (m' + 1 + 1) (by omega) hisig' (by omega) hsigs' (by omega)).mono (fun _ he => he) ?_
        rintro ⟨fSuccess, n'⟩ g ⟨hloop, rfl⟩
        rw [hloop]
        exact holds_pure.mpr ⟨rfl, rfl⟩

theorem holds_popMany (hsize : f.stack.length + f.altstack.length ≤ 1003) (hops : f.nOpCount ≤ 221) {n : Nat}
    (hn : n ≤ f.stack.length) :
    (repeatM pop n).Holds (Safe L) (fun _ => False) (fun _ g => g = { f with stack := f.stack.drop n }) f := by
  have hstart : n ≤ n ∧ f = { f with stack := f.stack.drop (n - n) } := by
    rw [Nat.sub_self]
    exact ⟨le_rfl, rfl⟩
  refine (Holds.repeatM (J := fun k g => k ≤ n ∧ g = { f with stack := f.stack.drop (n - k) }) ?_ hstart).mono
    (fun _ he => he) (fun _ _ hg => hg.2)
  rintro k g ⟨hk, rfl⟩
  obtain ⟨top, rest, hdrop⟩ := List.exists_cons_of_length_pos (l := f.stack.drop (n - (k + 1)))
    (by rw [List.length_drop]; omega)
  have hrest : f.stack.drop (n - k) = rest := by
    rw [show n - k = n - (k + 1) + 1 by omega, ← List.tail_drop, hdrop, List.tail_cons]
  have hlen := congrArg List.length hdrop
  rw [List.length_drop, List.length_cons] at hlen
  rw [holds_pop, hrest, hdrop]
  simp [popstack]
  omega

/-- The arguments are taken off, and the result is pushed. -/
theorem multiSig_finish (helement : MAX_SCRIPT_ELEMENT_SIZE ≤ L) (hsize : f.stack.length + f.altstack.length ≤ 1000)
    (hops : f.nOpCount ≤ 201) {n : Nat} (hn : n ≤ f.stack.length) (fSuccess : Bool) (f₀ : Frame) :
    Carries L (do repeatM pop n; push (vchBool fSuccess); verified fVerify fSuccess)
      (do
        let stack ← Lib.stay f₀ (popMany n f.stack)
        let stack ← Lib.stay f₀ (Syscoin.verified fVerify fSuccess (vchBool fSuccess :: stack))
        return { f with stack }) f := by
  refine holds_bind.mpr ((holds_popMany (by omega) (by omega) hn).mono (fun _ he => he.elim) ?_)
  rintro _ g rfl
  rw [stay_bind (popMany_eq hn)]
  refine (verified_carries helement ?_ ?_ fSuccess).carries (by exact hops) f₀
  · dsimp only
    rw [List.length_drop]
    omega
  · dsimp only
    omega

theorem opCheckMultiSig_carries (crypto : Crypto) (check : Checker) (h : f.Bounded L) :
    Carries L (opCheckMultiSig crypto check fVerify) (Syscoin.opCheckMultiSig crypto check fVerify f) f := by
  obtain ⟨hsize, hops, helement, -, -⟩ := h
  unfold opCheckMultiSig Syscoin.opCheckMultiSig
  refine Carries.stay (holds_atLeast_stay 1) fun _ hone => ?_
  have hone := require_ok_iff.mp hone
  refine Carries.stay (holds_intAt (by omega) (by omega) le_rfl hone) fun nKeysCount _ => ?_
  refine Carries.stay (holds_guard_stay (by decide)) fun _ hkeys => ?_
  obtain ⟨hkeysLow, hkeysHigh⟩ := require_ok_iff.mp hkeys
  obtain ⟨nKeysCount, rfl⟩ := Int.eq_ofNat_of_zero_le hkeysLow
  rw [Int.toNat_natCast]
  -- the count goes up by the number of keys before it is checked
  refine holds_bind.mpr (holds_count.mpr ⟨by simp; omega, ?_⟩)
  refine holds_bind.mpr (holds_read.mpr ?_)
  refine Carries.stay (holds_guard_stay (by decide)) fun _ hcount => ?_
  have hcount := require_ok_iff.mp hcount
  unfold Syscoin.checkMultiSig
  refine Carries.stay (holds_atLeast_stay (2 + nKeysCount)) fun _ henough => ?_
  have henough := require_ok_iff.mp henough
  refine Carries.stay (holds_intAt (by dsimp only; omega) (by dsimp only; omega) (by omega) henough) fun nSigsCount _ => ?_
  refine Carries.stay (holds_guard_stay (by decide)) fun _ hsigs => ?_
  obtain ⟨hsigsLow, hsigsHigh⟩ := require_ok_iff.mp hsigs
  obtain ⟨nSigsCount, rfl⟩ := Int.eq_ofNat_of_zero_le hsigsLow
  rw [Int.toNat_natCast]
  refine Carries.stay (holds_atLeast_stay (2 + nKeysCount + 1 + nSigsCount)) fun _ hall => ?_
  have hall := require_ok_iff.mp hall
  refine holds_bind.mpr (holds_read.mpr ?_)
  have hsize' : f.stack.length + f.altstack.length ≤ 1003 := by omega
  have hops' : f.nOpCount + nKeysCount ≤ 221 := by omega
  dsimp only at hall
  have hdelete := holds_deleteSigs (L := L) (f := { f with nOpCount := f.nOpCount + nKeysCount }) hsize' hops'
    (show 1 ≤ 2 + nKeysCount + 1 by omega) (n := nSigsCount) (by dsimp only; omega) f.pbegincodehash
  refine Carries.stay hdelete fun scriptCode _ => ?_
  have hloop := holds_multiSigLoop (L := L) (f := { f with nOpCount := f.nOpCount + nKeysCount }) crypto check hsize' hops'
    scriptCode nKeysCount nSigsCount (2 + nKeysCount + 1) 2 (by omega) (by omega) (by omega) (by dsimp only; omega)
    (by dsimp only; omega)
  refine holds_bind.mpr (hloop.mono (fun _ he => he.elim) ?_)
  rintro ⟨fSuccess, calls⟩ g ⟨hloop, rfl⟩
  rw [hloop]
  refine holds_bind.mpr (holds_write.mpr ?_)
  dsimp only
  rw [stay_bind rfl]
  exact multiSig_finish helement (by dsimp only; omega) (by exact hcount) (by exact hall) fSuccess _

/-! ### One turn of the loop -/

theorem Carries.ite {c : Prop} [Decidable c] {x y : Routine Unit} {r r' : Except (Stop × Frame) Frame}
    (hx : c → Carries L x r f) (hy : ¬ c → Carries L y r' f) : Carries L (if c then x else y) (if c then r else r') f := by
  by_cases hc : c
  · rw [if_pos hc, if_pos hc]
    exact hx hc
  · rw [if_neg hc, if_neg hc]
    exact hy hc

variable (crypto : Crypto) (check : Checker)

theorem execute_carries (h : f.Bounded L) (opcode : UInt8) (fExec : Bool) :
    Carries L (execute crypto check opcode fExec) (Syscoin.execute crypto check opcode fExec f) f := by
  unfold execute Syscoin.execute
  refine Carries.ite (fun _ => opIf_carries h fExec) fun _ => ?_
  refine Carries.ite (fun _ => opElse_carries h.ops) fun _ => ?_
  refine Carries.ite (fun _ => opEndIf_carries h.ops) fun _ => ?_
  refine Carries.ite (fun _ => opToAltStack_carries h) fun _ => ?_
  refine Carries.ite (fun _ => opFromAltStack_carries h) fun _ => ?_
  refine Carries.ite (fun _ => holds_write.mpr ⟨rfl, h.ops⟩) fun _ => ?_
  refine Carries.ite (fun _ => opCheckSig_carries crypto check h) fun _ => ?_
  refine Carries.ite (fun _ => opCheckMultiSig_carries crypto check h) fun _ => ?_
  exact (stackOp_carries crypto h opcode).carries h.ops f

theorem perform_carries (h : f.Bounded L) (opcode : UInt8) {vch : Bytes} (hvch : vch.length ≤ MAX_SCRIPT_ELEMENT_SIZE) :
    Carries L (perform crypto check opcode vch) (Syscoin.perform crypto check opcode vch f) f := by
  unfold perform Syscoin.perform
  refine holds_bind.mpr (holds_read.mpr ?_)
  refine Carries.ite (fun _ => ?_) fun _ => ?_
  · have hsize := h.size
    have hops := h.ops
    refine holds_push.mpr ⟨?_, rfl, hops⟩
    simp
    exact ⟨hvch.trans h.element, by omega, by omega⟩
  · exact Carries.ite (fun _ => execute_carries crypto check h opcode _) fun _ => holds_pure.mpr ⟨rfl, h.ops⟩

/-- **One turn of the loop** carries out a step, and is safe at every moment. -/
theorem turn_carries (h : f.Bounded L) : Carries L (turn crypto check) (step crypto check f) f := by
  unfold turn step
  refine holds_bind.mpr (holds_read.mpr ?_)
  cases hop : getOp f.pc with
  | none => exact holds_stop.mpr ⟨by decide, f, rfl⟩
  | some r =>
    obtain ⟨opcode, vch, pc⟩ := r
    dsimp only
    refine holds_bind.mpr (holds_write.mpr ?_)
    refine Carries.stay (holds_guard_stay (by decide)) fun _ hvch => ?_
    have hvch := require_ok_iff.mp hvch
    have hsize := h.size
    have hops := h.ops
    -- the rest of the turn, with the operation counted
    have hrest : ∀ n ≤ 201, Carries L
        (do
          guard (opcode ∉ disabledOpcodes) .failed
          perform crypto check opcode vch
          let stack ← read (·.stack)
          let altstack ← read (·.altstack)
          guard (stack.length + altstack.length ≤ 1000) .failed)
        (do
          Lib.stay { f with pc, nOpCount := n } (require (opcode ∉ disabledOpcodes) .failed)
          let f ← Syscoin.perform crypto check opcode vch { f with pc, nOpCount := n }
          Lib.stay f (require (f.stack.length + f.altstack.length ≤ 1000) .failed)
          return f) { f with pc, nOpCount := n } := by
      intro n hn
      refine Carries.stay (holds_guard_stay (by decide)) fun _ _ => ?_
      have hbounded : Frame.Bounded L { f with pc, nOpCount := n } := ⟨hsize, hn, h.element, h.stack, h.altstack⟩
      refine holds_bind.mpr ((perform_carries crypto check hbounded opcode hvch).mono ?_ ?_)
      · rintro e ⟨hfault, g, hg⟩
        exact ⟨hfault, g, by rw [hg]; rfl⟩
      · rintro _ g ⟨hg, hcount⟩
        refine holds_bind.mpr (holds_read.mpr (holds_bind.mpr (holds_read.mpr (holds_guard.mpr ⟨?_, ?_⟩))))
        · intro hle
          rw [hg, ok_bind, stay_bind (require_eq hle)]
          exact ⟨rfl, hcount⟩
        · intro hgt
          rw [hg, ok_bind, stay_bind_error (require_error hgt)]
          exact ⟨by decide, g, rfl⟩
    by_cases hhigh : OP_16 < opcode
    · rw [if_pos hhigh, if_pos hhigh]
      have hsafe : ∀ g : Frame, Safe L ⟨.count 1, g, { f with pc, nOpCount := f.nOpCount + 1 }⟩ := by
        intro g
        simp
        omega
      refine holds_bind.mpr (holds_count.mpr ⟨hsafe _, ?_⟩)
      refine holds_bind.mpr (holds_read.mpr (holds_bind.mpr (holds_guard.mpr ⟨?_, ?_⟩)))
      · intro hle
        have hcount : ¬(OP_16 < opcode ∧ 201 < f.nOpCount + 1) := fun hcontra => absurd hcontra.2 (not_lt.mpr hle)
        rw [stay_bind (require_eq hcount)]
        exact hrest (f.nOpCount + 1) hle
      · intro hgt
        have hcount : ¬¬(OP_16 < opcode ∧ 201 < f.nOpCount + 1) := fun hcontra => hcontra ⟨hhigh, not_le.mp hgt⟩
        rw [stay_bind_error (require_error hcount)]
        exact ⟨by decide, _, rfl⟩
    · have hcount : ¬(OP_16 < opcode ∧ 201 < f.nOpCount) := fun hcontra => hhigh hcontra.1
      rw [if_neg hhigh, if_neg hhigh, stay_bind (require_eq hcount)]
      exact hrest f.nOpCount hops

end Routine

end

/-! ## Whole runs -/

/-- The length of the longest element on the stacks. -/
def Frame.longest (f : Frame) : Nat := (f.stack ++ f.altstack).foldr (fun vch n => max vch.length n) 0

theorem Frame.le_longest {f : Frame} {vch : Bytes} (h : vch ∈ f.stack ++ f.altstack) : vch.length ≤ f.longest := by
  unfold Frame.longest
  revert h
  generalize f.stack ++ f.altstack = l
  intro h
  induction l with
  | nil => cases h
  | cons vch' vvch ih =>
    rw [List.foldr_cons]
    rcases List.mem_cons.mp h with rfl | h
    · exact le_max_left _ _
    · exact (ih h).trans (le_max_right _ _)

section

variable {crypto : Crypto} {check : Checker} {f g : Frame}

theorem Frame.bounded (hsize : f.stack.length + f.altstack.length ≤ 1000) (hops : f.nOpCount ≤ 201) :
    f.Bounded (max MAX_SCRIPT_ELEMENT_SIZE f.longest) :=
  ⟨hsize, hops, le_max_left _ _,
    fun _ h => (Frame.le_longest (List.mem_append_left _ h)).trans (le_max_right _ _),
    fun _ h => (Frame.le_longest (List.mem_append_right _ h)).trans (le_max_right _ _)⟩

/-- A step keeps the bounds. -/
theorem step_bounds (h : f.stack.length + f.altstack.length ≤ 1000 ∧ f.nOpCount ≤ 201)
    (hstep : step crypto check f = .ok g) : g.stack.length + g.altstack.length ≤ 1000 ∧ g.nOpCount ≤ 201 := by
  obtain ⟨opcode, vch, pc, hop, -⟩ := step_ok hstep
  have hsize := ((step_ok_iff hop).mp hstep).2.2.2.2
  have hcarries := (Routine.turn_carries crypto check (Frame.bounded h.1 h.2)).2
  rcases hturn : (Routine.turn crypto check f).2 with e | ⟨_, g'⟩
  · rw [hturn] at hcarries
    obtain ⟨-, g', hg'⟩ := hcarries
    cases hg'.symm.trans hstep
  · rw [hturn] at hcarries
    obtain ⟨hg', hops⟩ := hcarries
    cases hg'.symm.trans hstep
    exact ⟨hsize, hops⟩

theorem reached_bounds {nCheckSig : Nat} {stack : Stack} {script : CScript} (hstack : stack.length ≤ 1000)
    (h : (interpreter crypto check).Reaches (Frame.start nCheckSig stack script) f) :
    f.stack.length + f.altstack.length ≤ 1000 ∧ f.nOpCount ≤ 201 :=
  h.keeps (I := fun f => f.stack.length + f.altstack.length ≤ 1000 ∧ f.nOpCount ≤ 201)
    (fun _ _ hf hstep => step_bounds hf hstep) ⟨hstack, Nat.zero_le _⟩

/-- `EvalScript` does not end in a fault. -/
theorem evalScript_no_fault {nCheckSig : Nat} {stack : Stack} {script : CScript} (hstack : stack.length ≤ 1000)
    {e : Stop} (h : evalScript crypto check nCheckSig stack script = .error (e, g)) : e ≠ .fault := by
  unfold evalScript at h
  dsimp only at h
  by_cases hlong : script.length ≤ 10000
  · rw [stay_bind (require_eq hlong)] at h
    cases hrun : (interpreter crypto check).exec (Frame.start nCheckSig stack script) with
    | error stopped =>
      rw [hrun] at h
      cases h
      obtain ⟨f, hreach, hstep⟩ := Machine.reaches_of_exec_error hrun
      obtain ⟨hsize, hops⟩ := reached_bounds hstack hreach
      have hcarries := (Routine.turn_carries crypto check (Frame.bounded hsize hops)).2
      rcases hturn : (Routine.turn crypto check f).2 with e' | ⟨_, g'⟩
      · rw [hturn] at hcarries
        obtain ⟨hfault, g', hg'⟩ := hcarries
        cases hg'.symm.trans hstep
        exact hfault
      · rw [hturn] at hcarries
        cases hcarries.1.symm.trans hstep
    | ok f =>
      rw [hrun, ok_bind] at h
      by_cases hvfExec : f.vfExec = []
      · rw [stay_bind (require_eq hvfExec)] at h
        cases h
      · rw [stay_bind_error (require_error hvfExec)] at h
        cases h
        decide
  · rw [stay_bind_error (require_error hlong)] at h
    cases h
    decide

/-- What a run of `EvalScript` leaves. -/
theorem evalScript_ok_bounds {nCheckSig : Nat} {stack : Stack} {script : CScript} (hstack : stack.length ≤ 1000)
    (h : evalScript crypto check nCheckSig stack script = .ok g) : g.stack.length ≤ 1000 ∧ g.pc = [] := by
  obtain ⟨-, hrun, -⟩ := evalScript_ok_iff.mp h
  obtain ⟨hreach, hend⟩ := Machine.reaches_of_exec_ok hrun
  have hsize := (reached_bounds hstack hreach).1
  exact ⟨by omega, List.eq_nil_of_length_eq_zero hend⟩

/-- "stackCopy cannot be empty here": a pay-to-script-hash script fails on an empty stack. -/
theorem payToScriptHash_empty {nCheckSig : Nat} {script : CScript} (hscript : isPayToScriptHash script = true) :
    evalScript crypto check nCheckSig [] script ≠ .ok g := by
  intro h
  obtain ⟨-, hrun, -⟩ := evalScript_ok_iff.mp h
  have hshape := of_decide_eq_true hscript
  obtain ⟨hlen, hfirst, -⟩ := hshape
  cases script with
  | nil => cases hlen
  | cons opcode rest =>
    obtain rfl : opcode = OP_HASH160 := hfirst
    obtain ⟨f, hstep, -⟩ := (Machine.exec_ok_iff (show 0 < (OP_HASH160 :: rest).length from Nat.succ_pos _)).mp hrun
    have hop : getOp (Frame.start nCheckSig [] (OP_HASH160 :: rest)).pc = some (OP_HASH160, [], rest) := rfl
    obtain ⟨-, -, -, hperform, -⟩ := (step_ok_iff hop).mp hstep
    cases hperform

/-- `VerifyScript` does not end in a fault. -/
theorem verifyScript_no_fault {scriptSig scriptPubKey : CScript} {e : Stop}
    (h : verifyScript crypto check scriptSig scriptPubKey = .error (e, g)) : e ≠ .fault := by
  unfold verifyScript at h
  cases hsig : evalScript crypto check 0 [] scriptSig with
  | error stopped =>
    rw [hsig] at h
    cases h
    exact evalScript_no_fault (Nat.zero_le _) hsig
  | ok f =>
    obtain ⟨hsize, -⟩ := evalScript_ok_bounds (Nat.zero_le _) hsig
    rw [hsig, ok_bind] at h
    cases hpub : evalScript crypto check f.nCheckSig f.stack scriptPubKey with
    | error stopped =>
      rw [hpub] at h
      cases h
      exact evalScript_no_fault hsize hpub
    | ok f' =>
      rw [hpub, ok_bind] at h
      by_cases htop : topIsTrue f'.stack = true
      swap
      · rw [stay_bind_error (require_error htop)] at h
        cases h
        decide
      rw [stay_bind (require_eq htop)] at h
      split_ifs at h with hp2sh
      -- the stack that scriptSig left is run once more, with the script on its top
      · by_cases hpush : isPushOnly scriptSig = true
        swap
        · rw [stay_bind_error (require_error hpush)] at h
          cases h
          decide
        rw [stay_bind (require_eq hpush)] at h
        unfold evalRedeemScript at h
        cases hstack : f.stack with
        | nil =>
          rw [hstack] at hpub
          -- scriptPubKey would not have accepted an empty stack
          exact absurd hpub (payToScriptHash_empty hp2sh.2)
        | cons pubKeySerialized stackCopy =>
          rw [hstack] at h hsize
          dsimp only at h
          rw [List.length_cons] at hsize
          cases hredeem : evalScript crypto check f'.nCheckSig stackCopy pubKeySerialized with
          | error stopped =>
            rw [hredeem] at h
            cases h
            exact evalScript_no_fault (by omega) hredeem
          | ok f'' =>
            rw [hredeem, ok_bind] at h
            by_cases htop' : topIsTrue f''.stack = true
            · rw [stay_bind (require_eq htop')] at h
              cases h
            · rw [stay_bind_error (require_error htop')] at h
              cases h
              decide
      · cases h

end

/-- **The interpreter is safe and bounded.** From a stack of at most 1000 elements a run of `EvalScript` comes only to frames
    whose stacks have at most 1000 elements together. Every turn from there carries out a step, and is safe at every
    moment, with elements no longer than an element may be or one that was there. The script gets shorter with every
    turn; a run that goes through has consumed it, and one that stops does so without a fault. `VerifyScript` does not end
    in a fault either. -/
theorem interpreter_safe (crypto : Crypto) (check : Checker) :
    (∀ nCheckSig stack script, stack.length ≤ 1000 →
      (∀ f, (interpreter crypto check).Reaches (Frame.start nCheckSig stack script) f →
        f.stack.length + f.altstack.length ≤ 1000 ∧
        (Routine.turn crypto check).Holds (Safe (max MAX_SCRIPT_ELEMENT_SIZE f.longest))
          (fun e => e ≠ .fault ∧ ∃ g, step crypto check f = .error (e, g))
          (fun _ g => step crypto check f = .ok g ∧ g.pc.length < f.pc.length) f) ∧
      (∀ g, evalScript crypto check nCheckSig stack script = .ok g → g.pc = []) ∧
      (∀ e g, evalScript crypto check nCheckSig stack script = .error (e, g) → e ≠ .fault)) ∧
    ∀ scriptSig scriptPubKey e g, verifyScript crypto check scriptSig scriptPubKey = .error (e, g) → e ≠ .fault := by
  refine ⟨fun nCheckSig stack script hstack => ⟨fun f hreach => ?_, ?_, ?_⟩, ?_⟩
  · obtain ⟨hsize, hops⟩ := reached_bounds hstack hreach
    refine ⟨hsize, (Routine.turn_carries crypto check (Frame.bounded hsize hops)).mono (fun _ he => he) ?_⟩
    rintro _ g ⟨hstep, -⟩
    exact ⟨hstep, (interpreter crypto check).size_lt f g hstep⟩
  · intro g h
    exact (evalScript_ok_bounds hstack h).2
  · intro e g h
    exact evalScript_no_fault hstack h
  · intro scriptSig scriptPubKey e g h
    exact verifyScript_no_fault h

/-- A full stack: `OP_3DUP` goes to the bound, and the turn fails at its end. -/
theorem three_dup_at_limit :
    let f := Frame.start 0 (List.replicate 1000 []) [OP_3DUP]
    (Routine.turn OneOfTwo.crypto OneOfTwo.check f).1.map (fun event => event.after.stack.length) =
        [1000, 1000, 1000, 1000, 1001, 1002, 1003] ∧
      (∀ event ∈ (Routine.turn OneOfTwo.crypto OneOfTwo.check f).1, Safe (max MAX_SCRIPT_ELEMENT_SIZE f.longest) event) ∧
      (step OneOfTwo.crypto OneOfTwo.check f).isOk = false := by
  have hsafe := (interpreter_safe OneOfTwo.crypto OneOfTwo.check).1 0 (List.replicate 1000 []) [OP_3DUP]
    (by rw [List.length_replicate])
  exact ⟨by decide +kernel, (hsafe.1 _ .refl).2.1, by decide +kernel⟩

end Syscoin

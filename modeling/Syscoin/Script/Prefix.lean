import Mathlib.Data.List.TakeWhile
import Syscoin.Script.Straight

/-!
# `Script.Prefix` — where a service prefix ends

The decoders of the three services move a cursor over the script. Behind the arguments they skip a run of drops, read one
instruction more and step back one byte; `Remove…ScriptPrefix` returns what stands at the cursor. Here the decoders return
the cursor as well, also when they fail, since the certificate service goes on with it.

`GetOp2` counts what is left of the script in 32 bits. Below that length `getOp2` reads what `getOp` reads
(`getOp2_toOption`), and the decoders accept what those of `Primitives.Script` accept (`decodeScriptAt_fst`).
-/

namespace Syscoin

/-- **`GetOp2`**, with the place it stopped at when it fails. -/
def getOp2 : CScript → Except CScript (UInt8 × Bytes × CScript)
  | [] => .error []
  | opcode :: pc =>
    if opcode ≤ OP_PUSHDATA4 then
      match readSize opcode pc with
      | none => .error pc
      | some (nSize, pc) =>
        -- `(unsigned int)(end() - pc) < nSize`
        if pc.length % 2 ^ 32 < nSize then .error pc else .ok (opcode, pc.take nSize, pc.drop nSize)
    else
      .ok (opcode, [], pc)

/-- The pushes up to the first drop, and the script behind it. -/
def readArgsAt : Nat → CScript → Except CScript (List Bytes × CScript)
  | 0, pc => .error pc
  | fuel + 1, pc =>
    match getOp2 pc with
    | .error pc => .error pc
    | .ok (opcode, vch, pc) =>
      if isDrop opcode then .ok ([], pc)
      else if opcode ≤ OP_PUSHDATA4 then
        match readArgsAt fuel pc with
        | .error pc => .error pc
        | .ok (vvch, pc) => .ok (vch :: vvch, pc)
      else .error pc

/-- "move the pc to after any DROP or NOP": over the drops, and over the instruction behind them. -/
def skipDrops : Nat → CScript → CScript
  | 0, pc => pc
  | fuel + 1, pc =>
    match getOp2 pc with
    | .error pc => pc
    | .ok (opcode, _, pc) => if isDrop opcode then skipDrops fuel pc else pc

/-- `pc--` -/
def stepBack (script pc : CScript) : CScript := script.drop (script.length - pc.length - 1)

/-- The common body of the three `Decode…Script` functions with a cursor: what they return, and the cursor. -/
def decodeScriptAt (isOp : Op → Bool) (script : CScript) : Option (Op × List Bytes) × CScript :=
  match getOp2 script with
  | .error pc => (none, pc)
  | .ok (opcode, _, pc) =>
    if OP_1 ≤ opcode ∧ opcode ≤ OP_16 then
      match readArgsAt pc.length pc with
      | .error pc => (none, pc)
      | .ok (vvch, pc) =>
        let pc := stepBack script (skipDrops pc.length pc)
        match Op.ofN (decodeOP_N opcode) with
        | none => (none, pc)
        | some op => (if isOp op = true ∧ vvch.length = op.nArgs then some (op, vvch) else none, pc)
    else
      (none, pc)

def decodeAliasScriptAt : CScript → Option (Op × List Bytes) × CScript := decodeScriptAt Op.isAliasOp

def decodeOfferScriptAt : CScript → Option (Op × List Bytes) × CScript := decodeScriptAt Op.isOfferOp

def decodeCertScriptAt : CScript → Option (Op × List Bytes) × CScript := decodeScriptAt Op.isCertOp

/-- The script from the cursor on; the message is that of the `runtime_error`. -/
def removeScriptPrefix (message : String) (decoded : Option (Op × List Bytes) × CScript) : Except String CScript :=
  match decoded.1 with
  | none => .error message
  | some _ => .ok decoded.2

def removeAliasScriptPrefix (scriptIn : CScript) : Except String CScript :=
  removeScriptPrefix "RemoveAliasScriptPrefix() : could not decode name script" (decodeAliasScriptAt scriptIn)

def removeOfferScriptPrefix (scriptIn : CScript) : Except String CScript :=
  removeScriptPrefix "RemoveOfferScriptPrefix() : could not decode offer script" (decodeOfferScriptAt scriptIn)

/-- The certificate service logs a script it cannot decode, and returns what is left at the cursor all the same. -/
def removeCertIssuerScriptPrefix (scriptIn : CScript) : CScript := (decodeCertScriptAt scriptIn).2

/-! ## The decoders without a cursor -/

theorem getOp2_toOption {script : CScript} (h : script.length < 2 ^ 32) : (getOp2 script).toOption = getOp script := by
  cases script with
  | nil => rfl
  | cons opcode pc =>
    rw [getOp2, getOp]
    by_cases hpush : opcode ≤ OP_PUSHDATA4
    · rw [if_pos hpush, if_pos hpush]
      cases hsize : readSize opcode pc with
      | none => rfl
      | some r =>
        obtain ⟨nSize, rest⟩ := r
        obtain ⟨head, -, rfl, -⟩ := readSize_split hsize
        have hmod : rest.length % 2 ^ 32 = rest.length := by
          rw [List.length_cons, List.length_append] at h
          exact Nat.mod_eq_of_lt (by omega)
        dsimp only
        rw [hmod]
        split
        · rfl
        · rfl
    · rw [if_neg hpush, if_neg hpush]
      rfl

/-- A script that `getOp` reads an instruction of. -/
theorem getOp2_ok {script pc : CScript} {opcode : UInt8} {vch : Bytes} (h : script.length < 2 ^ 32)
    (hop : getOp script = some (opcode, vch, pc)) : getOp2 script = .ok (opcode, vch, pc) := by
  have heq := getOp2_toOption h
  rw [hop] at heq
  cases hop2 : getOp2 script with
  | error pc' =>
    rw [hop2] at heq
    cases heq
  | ok r =>
    rw [hop2] at heq
    cases heq
    rfl

theorem getOp2_error {script pc : CScript} (h : script.length < 2 ^ 32) (hop : getOp2 script = .error pc) :
    getOp script = none := by
  rw [← getOp2_toOption h, hop]
  rfl

theorem readArgsAt_fst {fuel : Nat} {script : CScript} (h : script.length < 2 ^ 32) :
    (readArgsAt fuel script).toOption.map Prod.fst = readArgs fuel script := by
  induction fuel generalizing script with
  | zero => rfl
  | succ fuel ih =>
    rw [readArgsAt, readArgs]
    cases hop2 : getOp2 script with
    | error pc =>
      rw [getOp2_error h hop2]
      rfl
    | ok r =>
      obtain ⟨opcode, vch, pc⟩ := r
      have hop : getOp script = some (opcode, vch, pc) := by
        rw [← getOp2_toOption h, hop2]
        rfl
      have hpc := getOp_length hop
      rw [hop]
      dsimp only
      by_cases hdrop : opcode = OP_DROP ∨ opcode = OP_2DROP ∨ opcode = OP_NOP
      · rw [if_pos (isDrop_iff.mpr hdrop), if_pos hdrop]
        rfl
      · rw [if_neg (fun hd => hdrop (isDrop_iff.mp hd)), if_neg hdrop]
        split
        · rw [← ih (by omega)]
          cases readArgsAt fuel pc with
          | error pc => rfl
          | ok r => rfl
        · rfl

/-- **The decoders accept the same scripts with a cursor and without.** -/
theorem decodeScriptAt_fst (isOp : Op → Bool) {script : CScript} (h : script.length < 2 ^ 32) :
    (decodeScriptAt isOp script).1 = decodeScript isOp script := by
  unfold decodeScriptAt decodeScript
  cases hop2 : getOp2 script with
  | error pc =>
    rw [getOp2_error h hop2]
    rfl
  | ok r =>
    obtain ⟨opcode, vch, pc⟩ := r
    have hop : getOp script = some (opcode, vch, pc) := by
      rw [← getOp2_toOption h, hop2]
      rfl
    have hpc := getOp_length hop
    have hargs : (readArgsAt pc.length pc).toOption.map Prod.fst = readArgs pc.length pc :=
      readArgsAt_fst (by omega)
    simp only [hop, Option.bind_eq_bind, Option.bind_some]
    split
    · rw [← hargs]
      cases readArgsAt pc.length pc with
      | error pc => rfl
      | ok r =>
        cases hofN : Op.ofN (decodeOP_N opcode) with
        | none => rfl
        | some op => rfl
    · rfl

/-! ## Reading back what the builder wrote -/

theorem getOp2_opcode {opcode : UInt8} (h : ¬ opcode ≤ OP_PUSHDATA4) (pc : CScript) :
    getOp2 (opcode :: pc) = .ok (opcode, [], pc) := by
  rw [getOp2, if_neg h]

theorem not_push_of_isDrop {opcode : UInt8} (h : isDrop opcode = true) : ¬ opcode ≤ OP_PUSHDATA4 := by
  rcases isDrop_iff.mp h with rfl | rfl | rfl <;> decide

theorem isDrop_of_push {opcode : UInt8} (h : opcode ≤ OP_PUSHDATA4) : isDrop opcode = false := by
  cases hdrop : isDrop opcode with
  | false => rfl
  | true => exact absurd h (not_push_of_isDrop hdrop)

/-- The arguments come back as they were pushed, up to the first drop. -/
theorem readArgsAt_pushes {fuel : Nat} {vvch : List Bytes} {drop : UInt8} {pc : CScript} (hdrop : isDrop drop = true)
    (hvvch : ∀ vch ∈ vvch, vch.length < 2 ^ 32) (h : (vvch.flatMap pushVch ++ drop :: pc).length < 2 ^ 32)
    (hfuel : vvch.length < fuel) : readArgsAt fuel (vvch.flatMap pushVch ++ drop :: pc) = .ok (vvch, pc) := by
  induction vvch generalizing fuel with
  | nil =>
    obtain ⟨fuel, rfl⟩ := Nat.exists_eq_add_one_of_ne_zero (Nat.ne_of_gt hfuel)
    show readArgsAt (fuel + 1) (drop :: pc) = _
    rw [readArgsAt, getOp2_opcode (not_push_of_isDrop hdrop)]
    dsimp only
    rw [if_pos hdrop]
  | cons vch vvch ih =>
    obtain ⟨fuel, rfl⟩ := Nat.exists_eq_add_one_of_ne_zero (Nat.ne_of_gt (Nat.zero_lt_of_lt hfuel))
    obtain ⟨hvch, htail⟩ := List.forall_mem_cons.mp hvvch
    rw [List.flatMap_cons, List.append_assoc] at h ⊢
    obtain ⟨opcode, hpush, hop⟩ := getOp_pushVch hvch
    have hrest : (vvch.flatMap pushVch ++ drop :: pc).length < 2 ^ 32 := by
      rw [List.length_append] at h
      omega
    rw [readArgsAt, getOp2_ok h (hop _)]
    dsimp only
    rw [if_neg (by rw [isDrop_of_push hpush]; exact Bool.false_ne_true), if_pos hpush,
      ih htail hrest (Nat.lt_of_succ_lt_succ hfuel)]

/-- The cursor stops one byte behind the drops, when a plain opcode follows. -/
theorem skipDrops_run {fuel : Nat} {run : Bytes} {opcode : UInt8} {pc : CScript}
    (hrun : ∀ drop ∈ run, isDrop drop = true) (hpush : ¬ opcode ≤ OP_PUSHDATA4) (hdrop : isDrop opcode = false)
    (hfuel : run.length < fuel) : skipDrops fuel (run ++ opcode :: pc) = pc := by
  induction run generalizing fuel with
  | nil =>
    obtain ⟨fuel, rfl⟩ := Nat.exists_eq_add_one_of_ne_zero (Nat.ne_of_gt hfuel)
    show skipDrops (fuel + 1) (opcode :: pc) = pc
    rw [skipDrops, getOp2_opcode hpush]
    dsimp only
    rw [if_neg (by rw [hdrop]; exact Bool.false_ne_true)]
  | cons drop run ih =>
    obtain ⟨fuel, rfl⟩ := Nat.exists_eq_add_one_of_ne_zero (Nat.ne_of_gt (Nat.zero_lt_of_lt hfuel))
    obtain ⟨hhead, htail⟩ := List.forall_mem_cons.mp hrun
    rw [List.cons_append, skipDrops, getOp2_opcode (not_push_of_isDrop hhead)]
    dsimp only
    rw [if_pos hhead, ih htail (Nat.lt_of_succ_lt_succ hfuel)]

theorem stepBack_append (front : CScript) (opcode : UInt8) (pc : CScript) :
    stepBack (front ++ opcode :: pc) pc = opcode :: pc := by
  have hback : (front ++ opcode :: pc).length - pc.length - 1 = front.length := by
    rw [List.length_append, List.length_cons]
    omega
  rw [stepBack, hback, List.drop_left]

/-! ## The parts of a service output

Whatever a decoder accepts is an operation, pushes, drops and a rest. The pushes need not be the shortest ones, and the
drops need not be those the commands write. -/

/-- The script from the first drop on. -/
def serviceTail (script : CScript) : CScript :=
  match getOp2 script with
  | .error _ => []
  | .ok (_, _, pc) =>
    match readArgsAt pc.length pc with
    | .error _ => []
    | .ok (_, pc) => stepBack script pc

/-- The drops of a service output. -/
def serviceDrops (script : CScript) : Bytes := (serviceTail script).takeWhile isDrop

/-- What is left behind the drops: the destination. -/
def serviceDest (script : CScript) : CScript := (serviceTail script).dropWhile isDrop

/-- What stands before the destination. -/
def servicePrefix (script : CScript) : CScript := script.take (script.length - (serviceDest script).length)

theorem getOp_of_getOp2 {script pc : CScript} {opcode : UInt8} {vch : Bytes}
    (h : getOp2 script = .ok (opcode, vch, pc)) : getOp script = some (opcode, vch, pc) := by
  cases script with
  | nil => cases h
  | cons b script =>
    rw [getOp2] at h
    rw [getOp]
    by_cases hpush : b ≤ OP_PUSHDATA4
    · rw [if_pos hpush] at h ⊢
      cases hsize : readSize b script with
      | none =>
        rw [hsize] at h
        cases h
      | some r =>
        obtain ⟨nSize, rest⟩ := r
        rw [hsize] at h
        dsimp only at h ⊢
        split at h
        · cases h
        · rename_i hroom
          have hle : nSize ≤ rest.length := (Nat.le_of_not_lt hroom).trans (Nat.mod_le _ _)
          cases h
          rw [if_neg (by omega)]
    · rw [if_neg hpush] at h ⊢
      cases h
      rfl

/-- A plain opcode is the one byte it is. -/
theorem eq_cons_of_getOp {script pc : CScript} {opcode : UInt8} {vch : Bytes} (hpush : ¬ opcode ≤ OP_PUSHDATA4)
    (h : getOp script = some (opcode, vch, pc)) : script = opcode :: pc := by
  obtain ⟨head, -, rfl, hplain, -⟩ := getOp_split h
  rw [← List.append_assoc, hplain hpush, List.nil_append]

/-- **What the decoders read as arguments are pushes in front of a drop.** -/
theorem readArgsAt_ok {fuel : Nat} {script pc : CScript} {vvch : List Bytes} (h : readArgsAt fuel script = .ok (vvch, pc)) :
    ∃ pushes drop, Pushes vvch pushes ∧ isDrop drop = true ∧ script = pushes ++ drop :: pc := by
  induction fuel generalizing script vvch with
  | zero => cases h
  | succ fuel ih =>
    rw [readArgsAt] at h
    cases hop2 : getOp2 script with
    | error pc' =>
      rw [hop2] at h
      cases h
    | ok r =>
      obtain ⟨opcode, vch, rest⟩ := r
      rw [hop2] at h
      dsimp only at h
      have hop := getOp_of_getOp2 hop2
      split at h
      · rename_i hdrop
        cases h
        exact ⟨[], opcode, .nil, hdrop, eq_cons_of_getOp (not_push_of_isDrop hdrop) hop⟩
      · split at h
        · rename_i hpush
          obtain ⟨head, -, rfl, -, hlocal⟩ := getOp_split hop
          cases hargs : readArgsAt fuel rest with
          | error pc' =>
            rw [hargs] at h
            cases h
          | ok r =>
            obtain ⟨args, pc'⟩ := r
            rw [hargs] at h
            cases h
            obtain ⟨pushes, drop, hpushes, hdrop, rfl⟩ := ih hargs
            have hpushed : ∀ pc', getOp ((opcode :: (head ++ vch)) ++ pc') = some (opcode, vch, pc') := by
              intro pc'
              rw [List.cons_append, List.append_assoc]
              exact hlocal pc'
            refine ⟨(opcode :: (head ++ vch)) ++ pushes, drop, .cons hpush hpushed hpushes, hdrop, ?_⟩
            simp only [List.cons_append, List.append_assoc]
        · cases h

/-- **The parts of an output that a decoder accepts.** -/
theorem decodeScriptAt_parts {isOp : Op → Bool} {script : CScript} {op : Op} {vvch : List Bytes}
    (h : (decodeScriptAt isOp script).1 = some (op, vvch)) :
    vvch.length = op.nArgs ∧ ∃ opcode pushes, OP_1 ≤ opcode ∧ opcode ≤ OP_16 ∧ Pushes vvch pushes ∧
      servicePrefix script = opcode :: (pushes ++ serviceDrops script) ∧
      script = servicePrefix script ++ serviceDest script := by
  unfold decodeScriptAt at h
  cases hop2 : getOp2 script with
  | error pc =>
    rw [hop2] at h
    cases h
  | ok r =>
    obtain ⟨opcode, vch, pc⟩ := r
    rw [hop2] at h
    dsimp only at h
    split at h
    · rename_i hrange
      cases hargs : readArgsAt pc.length pc with
      | error pc' =>
        rw [hargs] at h
        cases h
      | ok r =>
        obtain ⟨args, rest⟩ := r
        have hpush : ¬ opcode ≤ OP_PUSHDATA4 := fun hle => absurd (UInt8.le_trans hrange.1 hle) (by decide)
        have hscript := eq_cons_of_getOp hpush (getOp_of_getOp2 hop2)
        obtain ⟨pushes, drop, hpushes, hdrop, rfl⟩ := readArgsAt_ok hargs
        have htail : serviceTail script = drop :: rest := by
          unfold serviceTail
          rw [hop2]
          dsimp only
          rw [hargs]
          dsimp only
          rw [hscript]
          exact stepBack_append (opcode :: pushes) drop rest
        have hsplit : script = (opcode :: (pushes ++ serviceDrops script)) ++ serviceDest script := by
          unfold serviceDrops serviceDest
          rw [htail, List.cons_append, List.append_assoc, List.takeWhile_append_dropWhile]
          exact hscript
        -- the prefix is what stands in front of the destination, by its length
        have hfront : servicePrefix script = opcode :: (pushes ++ serviceDrops script) := by
          unfold servicePrefix
          have hlength := congrArg List.length hsplit
          rw [List.length_append] at hlength
          refine (congrArg (List.take _) hsplit).trans (List.take_left' ?_)
          omega
        rw [hargs] at h
        dsimp only at h
        split at h
        · cases h
        · dsimp only at h
          split at h
          · rename_i hok
            cases h
            refine ⟨hok.2, opcode, pushes, hrange.1, hrange.2, hpushes, hfront, ?_⟩
            rw [hfront]
            exact hsplit
          · cases h
    · cases h

theorem isDrop_of_mem_serviceDrops {script : CScript} : ∀ drop ∈ serviceDrops script, isDrop drop = true :=
  fun _ hmem => List.mem_takeWhile_imp hmem

end Syscoin

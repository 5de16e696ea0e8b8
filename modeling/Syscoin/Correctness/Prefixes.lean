import Syscoin.Correctness.ServiceOutputs
import Syscoin.Script.Prefix
import Syscoin.Chain.Run

/-!
# `Correctness.Prefixes` — service prefixes come off again

What the commands put in front of a destination is read back by the decoder of the service, and by no other, and
`Remove…ScriptPrefix` gives the destination back (`service_prefix_round_trips`). The lengths of the operands and the rest
of the script are counted in 32 bits; a longer script need not come back (`long_arguments_lost`).
-/

namespace Syscoin

open Lib

/-! ## The three services -/

inductive ServiceKind where
  | aliases | offers | certs
deriving DecidableEq, Repr

namespace ServiceKind

def isOp : ServiceKind → Op → Bool
  | aliases => Op.isAliasOp
  | offers => Op.isOfferOp
  | certs => Op.isCertOp

/-- `Decode…Script` -/
def decode : ServiceKind → CScript → Option (Op × List Bytes) × CScript
  | aliases => decodeAliasScriptAt
  | offers => decodeOfferScriptAt
  | certs => decodeCertScriptAt

/-- `Remove…ScriptPrefix` -/
def removePrefix : ServiceKind → CScript → Except String CScript
  | aliases, scriptIn => removeAliasScriptPrefix scriptIn
  | offers, scriptIn => removeOfferScriptPrefix scriptIn
  | certs, scriptIn => .ok (removeCertIssuerScriptPrefix scriptIn)

theorem decode_eq (s : ServiceKind) : s.decode = decodeScriptAt s.isOp := by cases s <;> rfl

theorem removePrefix_of_decode {s : ServiceKind} {script D : CScript} {r : Op × List Bytes}
    (h : s.decode script = (some r, D)) : s.removePrefix script = .ok D := by
  cases s with
  | aliases =>
    show removeScriptPrefix _ (decode .aliases script) = _
    rw [h]
    rfl
  | offers =>
    show removeScriptPrefix _ (decode .offers script) = _
    rw [h]
    rfl
  | certs =>
    show Except.ok (decode .certs script).2 = _
    rw [h]

end ServiceKind

/-- The service an operation belongs to. -/
def Op.service : Op → ServiceKind
  | aliasNew | aliasActivate | aliasUpdate => .aliases
  | offerNew | offerActivate | offerUpdate | offerAccept | offerPay => .offers
  | certissuerNew | certissuerActivate | certissuerUpdate | certNew | certTransfer => .certs

theorem ServiceKind.isOp_iff (s : ServiceKind) (op : Op) : s.isOp op = true ↔ s = op.service := by
  cases s <;> cases op <;> decide

/-! ## Decoding what was encoded -/

/-- Exactly the decoder of the operation's own service accepts the script, with the operation and its arguments, and what
    it removes is the prefix. -/
structure ServicePrefix.RoundTrips (P : ServicePrefix) (D : CScript) : Prop where
  decode_eq : ∀ s : ServiceKind,
    (s.decode (P.script ++ D)).1 = if s = P.op.service then some (P.op, P.vvch) else none
  removePrefix_eq : P.op.service.removePrefix (P.script ++ D) = .ok D

theorem decodeOP_N_encodeOP_N (op : Op) : Op.ofN (decodeOP_N (encodeOP_N op.toN)) = some op := by
  cases op <;> decide

theorem drops_ne_nil (op : Op) : drops op.nArgs ≠ [] := by cases op <;> decide

/-- A destination script starts with a plain opcode. -/
theorem setDestination_cons {dest : CTxDestination} (h : dest ≠ .none) :
    ∃ opcode pc, setDestination dest = opcode :: pc ∧ ¬ opcode ≤ OP_PUSHDATA4 ∧ isDrop opcode = false := by
  cases dest with
  | none => exact absurd rfl h
  | keyID keyID => exact ⟨OP_DUP, _, rfl, by decide, by decide⟩
  | scriptID scriptID => exact ⟨OP_HASH160, _, rfl, by decide, by decide⟩

section Decode

variable {P : ServicePrefix} {opcode : UInt8} {pc D : CScript}

/-- What follows the operation. -/
def ServicePrefix.body (P : ServicePrefix) (D : CScript) : CScript :=
  P.vvch.flatMap pushVch ++ (drops P.op.nArgs ++ D)

theorem ServicePrefix.script_append (P : ServicePrefix) (D : CScript) :
    P.script ++ D = encodeOP_N P.op.toN :: P.body D := by
  show (encodeOP_N P.op.toN :: P.vvch.flatMap pushVch ++ drops P.op.nArgs) ++ D = _
  rw [List.append_assoc, List.cons_append]
  rfl

theorem ServicePrefix.getOp2_eq (P : ServicePrefix) (D : CScript) :
    getOp2 (P.script ++ D) = .ok (encodeOP_N P.op.toN, [], P.body D) := by
  have hlow := (encodeOP_N_bounds P.op).1
  rw [P.script_append]
  exact getOp2_opcode (fun hle => absurd (UInt8.le_trans hlow hle) (by decide)) _

/-- The decoders read the arguments up to the first drop. -/
theorem ServicePrefix.readArgsAt_eq {first : UInt8} {run : Bytes} (hdrops : drops P.op.nArgs = first :: run)
    (h : (P.script ++ D).length < 2 ^ 32) :
    readArgsAt (P.body D).length (P.body D) = .ok (P.vvch, run ++ D) := by
  have hfirst : isDrop first = true := isDrop_of_mem_drops first (by rw [hdrops]; exact List.mem_cons_self)
  have hvch := P.vch_lt h
  have hcount := length_le_flatMap_pushVch P.vvch
  rw [P.script_append, List.length_cons] at h
  unfold ServicePrefix.body at h ⊢
  rw [hdrops, List.cons_append] at h ⊢
  refine readArgsAt_pushes hfirst hvch (by omega) ?_
  rw [List.length_append, List.length_cons]
  omega

/-- The decoders read the arguments, and their cursor ends at the destination. -/
theorem ServicePrefix.decodeScriptAt_eq (isOp : Op → Bool) (hpush : ¬ opcode ≤ OP_PUSHDATA4)
    (hdrop : isDrop opcode = false) (h : (P.script ++ opcode :: pc).length < 2 ^ 32) :
    decodeScriptAt isOp (P.script ++ opcode :: pc) =
      (if isOp P.op = true then some (P.op, P.vvch) else none, opcode :: pc) := by
  obtain ⟨first, run, hdrops⟩ := List.exists_cons_of_ne_nil (drops_ne_nil P.op)
  have hrun : ∀ drop ∈ run, isDrop drop = true := by
    intro drop hmem
    exact isDrop_of_mem_drops drop (by rw [hdrops]; exact List.mem_cons_of_mem _ hmem)
  -- the cursor runs through the drops and over the first opcode of the destination, and then takes one step back
  have hcursor : stepBack (P.script ++ opcode :: pc) (skipDrops (run ++ opcode :: pc).length (run ++ opcode :: pc)) =
      opcode :: pc := by
    rw [skipDrops_run hrun hpush hdrop, stepBack_append]
    rw [List.length_append, List.length_cons]
    omega
  unfold decodeScriptAt
  rw [P.getOp2_eq]
  dsimp only
  rw [if_pos (encodeOP_N_bounds P.op), ServicePrefix.readArgsAt_eq hdrops h]
  dsimp only
  rw [hcursor, decodeOP_N_encodeOP_N]
  dsimp only
  by_cases hisOp : isOp P.op = true
  · rw [if_pos ⟨hisOp, P.arity⟩, if_pos hisOp]
  · rw [if_neg (fun hok => hisOp hok.1), if_neg hisOp]

end Decode

/-- **A service prefix comes off again.** In front of every destination, whatever the arguments are, as long as the script
    stays below the 32 bits that `GetOp2` counts in. -/
theorem service_prefix_round_trips (P : ServicePrefix) {dest : CTxDestination} (hdest : dest ≠ .none)
    (h : (P.script ++ setDestination dest).length < 2 ^ 32) : P.RoundTrips (setDestination dest) := by
  obtain ⟨opcode, pc, hD, hpush, hdrop⟩ := setDestination_cons hdest
  rw [hD] at h ⊢
  have hdecode : ∀ s : ServiceKind, s.decode (P.script ++ opcode :: pc) =
      (if s = P.op.service then some (P.op, P.vvch) else none, opcode :: pc) := by
    intro s
    rw [s.decode_eq, P.decodeScriptAt_eq s.isOp hpush hdrop h]
    simp only [s.isOp_iff]
  constructor
  · intro s
    rw [hdecode]
  · refine ServiceKind.removePrefix_of_decode ?_ (r := (P.op, P.vvch))
    rw [hdecode, if_pos rfl]

/-- The activation of the alias `a` with a value of 300 bytes, for a key. -/
theorem activation_round_trips :
    (ServicePrefix.mk .aliasActivate [[0x61], [1, 2, 3], List.replicate 300 0x76] rfl).RoundTrips
      (setDestination (.keyID ⟨5, by decide⟩)) :=
  service_prefix_round_trips _ CTxDestination.noConfusion (by decide +kernel)

/-- The size of a first argument is compared with what is left of the script without its upper bits. -/
theorem getOp2_truncated {vch tail : Bytes} (hvch : vch.length = 100) (hlt : tail.length < 2 ^ 32)
    (hge : 2 ^ 32 ≤ 100 + tail.length) : getOp2 (pushVch vch ++ tail) = .error (vch ++ tail) := by
  have hpush : pushVch vch ++ tail = OP_PUSHDATA1 :: (toLE 1 100 ++ (vch ++ tail)) := by
    unfold pushVch
    rw [hvch, if_neg (by decide), if_pos (by decide)]
    rfl
  have hsize : readSize OP_PUSHDATA1 (toLE 1 100 ++ (vch ++ tail)) = some (100, vch ++ tail) :=
    readSize_wide 1 (by decide) rfl (by decide) _
  have hshort : (vch ++ tail).length % 2 ^ 32 < 100 := by
    rw [List.length_append, hvch]
    omega
  rw [hpush, getOp2, if_pos (by decide), hsize]
  dsimp only
  rw [if_pos hshort]

/-- **Two arguments whose lengths fit into 32 bits, and together do not**: the update is not decoded. -/
theorem long_arguments_lost :
    ∃ (P : ServicePrefix) (dest : CTxDestination), dest ≠ .none ∧ (∀ vch ∈ P.vvch, vch.length < 2 ^ 32) ∧
      ¬ P.RoundTrips (setDestination dest) := by
  obtain ⟨vchName, hname⟩ : ∃ vch : Bytes, vch.length = 100 := ⟨List.replicate 100 0, List.length_replicate⟩
  obtain ⟨vchValue, hvalue⟩ : ∃ vch : Bytes, vch.length = 2 ^ 32 - 100 :=
    ⟨List.replicate (2 ^ 32 - 100) 0, List.length_replicate⟩
  let P : ServicePrefix := ⟨.aliasUpdate, [vchName, vchValue], rfl⟩
  let D := setDestination (.scriptID ⟨0, by decide⟩)
  let tail := pushVch vchValue ++ ([OP_2DROP, OP_DROP] ++ D)
  -- what is left behind the size of the name, counted in 32 bits, is less than the name
  have htail : tail.length = 2 ^ 32 - 70 := by
    have hpush : (pushVch vchValue).length = vchValue.length + 5 := by
      unfold pushVch
      rw [if_neg (by rw [hvalue]; decide), if_neg (by rw [hvalue]; decide), if_neg (by rw [hvalue]; decide),
        List.length_append, List.length_cons, length_toLE]
      omega
    have hD : D.length = 23 := length_setDestination_scriptID _
    show (pushVch vchValue ++ ([OP_2DROP, OP_DROP] ++ D)).length = _
    rw [List.length_append, List.length_append, hpush, hvalue, hD]
    rfl
  have hscript : P.script ++ D = encodeOP_N 3 :: (pushVch vchName ++ tail) := by
    show (encodeOP_N 3 :: (pushVch vchName ++ (pushVch vchValue ++ [])) ++ [OP_2DROP, OP_DROP]) ++ D = _
    rw [List.append_nil, List.append_assoc, List.cons_append, List.append_assoc]
  have hlost : (decodeScriptAt Op.isAliasOp (P.script ++ D)).1 = none := by
    have hop : getOp2 (P.script ++ D) = .ok (encodeOP_N 3, [], pushVch vchName ++ tail) := by
      rw [hscript]
      exact getOp2_opcode (by decide) _
    have hargs : readArgsAt (pushVch vchName ++ tail).length (pushVch vchName ++ tail) = .error (vchName ++ tail) := by
      obtain ⟨fuel, hfuel⟩ := Nat.exists_eq_add_one_of_ne_zero
        (by rw [List.length_append, htail]; omega : (pushVch vchName ++ tail).length ≠ 0)
      rw [hfuel, readArgsAt, getOp2_truncated hname (by omega) (by omega)]
    unfold decodeScriptAt
    rw [hop]
    dsimp only
    rw [if_pos (by decide), hargs]
  refine ⟨P, .scriptID ⟨0, by decide⟩, CTxDestination.noConfusion, ?_, ?_⟩
  · refine List.forall_mem_cons.mpr ⟨by omega, List.forall_mem_cons.mpr ⟨by omega, ?_⟩⟩
    exact List.forall_mem_nil _
  · intro hround
    have hfound := hround.decode_eq .aliases
    have hnone : (ServiceKind.aliases.decode (P.script ++ D)).1 = none := hlost
    rw [hnone] at hfound
    cases hfound

end Syscoin

/-! ## What a service prefix does to the stack

The operation and its arguments are pushed and dropped again, so that a service output asks for what its destination
asks for. `service_output_transparent_iff` says of every output that a decoder accepts when that is so: the interpreter turns down a push
of more than 520 bytes, while the service rules and `aliasactivate` admit values of up to 1023 (`aliasupdate` turns them
down from 520 bytes on). An alias with such a value is accepted, and nobody can ever spend it (`long_value_locks_alias`).
-/

namespace Syscoin

open Lib

/-- What a service output is meant to be to `EvalScript`. -/
structure Transparent (crypto : Crypto) (check : Checker) (script : CScript) : Prop where
  /-- The prefix alone runs through and leaves the stack as it was. -/
  unchanged : ∀ n stack, stack.length ≤ 900 →
    ∃ g, evalScript crypto check n stack (servicePrefix script) = .ok g ∧ g.stack = stack
  /-- The output runs as its destination runs, with the drops counted as operations. -/
  spendable : ∀ n stack g, stack.length ≤ 900 →
    (evalScript crypto check n stack script = .ok g ↔
      script.length ≤ 10000 ∧ (interpreter crypto check).exec ((Frame.start n stack script).atPc
        (serviceDest script) stack (serviceDrops script).length) = .ok g ∧ g.vfExec = [])

section Decoded

variable {isOp : Op → Bool} {script : CScript} {op : Op} {vvch : List Bytes}

/-- **Running an output that a decoder accepts**, on a stack with room: the prefix comes first, then the rest `pc`. -/
theorem exec_servicePrefix (crypto : Crypto) (check : Checker)
    (hdecode : (decodeScriptAt isOp script).1 = some (op, vvch)) :
    ∃ top : Stack, top.length = op.nArgs + 1 ∧
      ∀ (f g : Frame) (pc : CScript) (stack : Stack), f.vfExec = [] → f.altstack = [] → stack.length ≤ 900 →
        ((interpreter crypto check).exec (f.atPc (servicePrefix script ++ pc) stack 0) = .ok g ↔
          (∀ vch ∈ vvch, vch.length ≤ MAX_SCRIPT_ELEMENT_SIZE) ∧
            popped (serviceDrops script) ≤ stack.length + op.nArgs + 1 ∧ (serviceDrops script).length ≤ 201 ∧
            (interpreter crypto check).exec (f.atPc pc ((top ++ stack).drop (popped (serviceDrops script)))
              (serviceDrops script).length) = .ok g) := by
  obtain ⟨harity, opcode, pushes, hlow, hhigh, hpushes, hfront, -⟩ := decodeScriptAt_parts hdecode
  have hnargs := nArgs_le op
  refine ⟨vvch.reverse ++ [CBigNum.getvch (decodeOP_N opcode)], ?_, ?_⟩
  · rw [List.length_append, List.length_reverse, harity]
    rfl
  · intro f g pc stack hvf halt hroom
    rw [hfront, List.cons_append, List.append_assoc,
      exec_operation hvf hlow hhigh hpushes isDrop_of_mem_serviceDrops (Nat.zero_le _), halt, harity, Nat.zero_add,
      List.append_assoc]
    constructor
    · rintro ⟨hfits, -, hpopped, hcount, hexec⟩
      exact ⟨hfits, hpopped, hcount, hexec⟩
    · rintro ⟨hfits, hpopped, hcount, hexec⟩
      refine ⟨hfits, ?_, hpopped, hcount, hexec⟩
      rw [List.length_nil]
      omega

/-- A prefix that fits is well below the limit for a script. -/
theorem length_servicePrefix_le (hdecode : (decodeScriptAt isOp script).1 = some (op, vvch))
    (hfits : ∀ vch ∈ vvch, vch.length ≤ MAX_SCRIPT_ELEMENT_SIZE) (hcount : (serviceDrops script).length ≤ 201) :
    (servicePrefix script).length ≤ 10000 := by
  obtain ⟨harity, opcode, pushes, -, -, hpushes, hfront, -⟩ := decodeScriptAt_parts hdecode
  have hnargs := nArgs_le op
  have hlength := hpushes.length_le hfits
  rw [hfront, List.length_cons, List.length_append]
  omega

/-- An empty stack tells whether the prefix takes off what it puts on. -/
theorem fits_of_unchanged {crypto : Crypto} {check : Checker} {g : Frame}
    (hdecode : (decodeScriptAt isOp script).1 = some (op, vvch))
    (heval : evalScript crypto check 0 [] (servicePrefix script) = .ok g) (hstack : g.stack = []) :
    (∀ vch ∈ vvch, vch.length ≤ MAX_SCRIPT_ELEMENT_SIZE) ∧
      popped (serviceDrops script) = op.nArgs + 1 ∧ (serviceDrops script).length ≤ 201 := by
  obtain ⟨top, htop, hrun⟩ := exec_servicePrefix crypto check hdecode
  obtain ⟨-, hexec, -⟩ := evalScript_ok_iff.mp heval
  rw [Frame.start_eq (List.append_nil _).symm] at hexec
  obtain ⟨hfits, hpopped, hcount, hend⟩ := (hrun _ g [] [] rfl rfl (Nat.zero_le _)).mp hexec
  rw [Machine.exec_end rfl] at hend
  cases hend
  -- no more was popped than pushed, or the run would have failed; no less, or something would be left
  have hempty : ((top ++ []).drop (popped (serviceDrops script))).length = 0 := congrArg List.length hstack
  rw [List.length_drop, List.append_nil, htop] at hempty
  rw [List.length_nil] at hpopped
  exact ⟨hfits, by omega, hcount⟩

/-- What fits and takes off what it puts on is run through on the way to the rest. -/
theorem exec_servicePrefix_of_fits (crypto : Crypto) (check : Checker)
    (hdecode : (decodeScriptAt isOp script).1 = some (op, vvch))
    (hfits : ∀ vch ∈ vvch, vch.length ≤ MAX_SCRIPT_ELEMENT_SIZE)
    (hpopped : popped (serviceDrops script) = op.nArgs + 1) (hcount : (serviceDrops script).length ≤ 201)
    {f g : Frame} {pc : CScript} {stack : Stack} (hvf : f.vfExec = []) (halt : f.altstack = [])
    (hroom : stack.length ≤ 900) :
    (interpreter crypto check).exec (f.atPc (servicePrefix script ++ pc) stack 0) = .ok g ↔
      (interpreter crypto check).exec (f.atPc pc stack (serviceDrops script).length) = .ok g := by
  obtain ⟨top, htop, hrun⟩ := exec_servicePrefix crypto check hdecode
  have hdrop : (top ++ stack).drop (popped (serviceDrops script)) = stack := List.drop_left' (htop.trans hpopped.symm)
  rw [hrun f g pc stack hvf halt hroom, hdrop]
  constructor
  · rintro ⟨-, -, -, hexec⟩
    exact hexec
  · intro hexec
    exact ⟨hfits, by omega, hcount, hexec⟩

theorem transparent_iff (crypto : Crypto) (check : Checker)
    (hdecode : (decodeScriptAt isOp script).1 = some (op, vvch)) :
    Transparent crypto check script ↔
      (∀ vch ∈ vvch, vch.length ≤ MAX_SCRIPT_ELEMENT_SIZE) ∧
        popped (serviceDrops script) = op.nArgs + 1 ∧ (serviceDrops script).length ≤ 201 := by
  obtain ⟨-, -, -, -, -, -, -, hsplit⟩ := decodeScriptAt_parts hdecode
  constructor
  · intro h
    obtain ⟨g, heval, hstack⟩ := h.unchanged 0 [] (Nat.zero_le _)
    exact fits_of_unchanged hdecode heval hstack
  · rintro ⟨hfits, hpopped, hcount⟩
    constructor
    · intro n stack hroom
      let f := Frame.start n stack (servicePrefix script)
      refine ⟨f.atPc [] stack (serviceDrops script).length,
        evalScript_ok_iff.mpr ⟨length_servicePrefix_le hdecode hfits hcount, ?_, rfl⟩, rfl⟩
      rw [Frame.start_eq (List.append_nil _).symm,
        exec_servicePrefix_of_fits crypto check hdecode hfits hpopped hcount rfl rfl hroom]
      exact Machine.exec_end rfl
    · intro n stack g hroom
      have hstart := Frame.start_eq hsplit n stack
      have hskip : (interpreter crypto check).exec (Frame.start n stack script) = .ok g ↔
          (interpreter crypto check).exec ((Frame.start n stack script).atPc (serviceDest script) stack
            (serviceDrops script).length) = .ok g := by
        rw [← exec_servicePrefix_of_fits crypto check hdecode hfits hpopped hcount rfl rfl hroom, ← hstart]
      rw [evalScript_ok_iff, hskip]

/-- Whoever spends a service output has run its pushes. -/
theorem fits_of_verifies {crypto : Crypto} {check : Checker} {scriptSig : CScript}
    (hdecode : (decodeScriptAt isOp script).1 = some (op, vvch)) (h : verifies crypto check scriptSig script = true) :
    ∀ vch ∈ vvch, vch.length ≤ MAX_SCRIPT_ELEMENT_SIZE := by
  obtain ⟨-, opcode, pushes, hlow, hhigh, hpushes, hfront, hsplit⟩ := decodeScriptAt_parts hdecode
  obtain ⟨f, g, -, heval, -, -⟩ := verifies_iff.mp h
  obtain ⟨-, hexec, -⟩ := evalScript_ok_iff.mp heval
  have hscript : script = opcode :: (pushes ++ (serviceDrops script ++ serviceDest script)) := by
    rw [← List.append_assoc, ← List.cons_append, ← hfront, ← hsplit]
  rw [Frame.start_eq hscript] at hexec
  exact ((exec_operation rfl hlow hhigh hpushes isDrop_of_mem_serviceDrops (Nat.zero_le _)).mp hexec).1

end Decoded

/-- **When a service output is transparent**: no argument is longer than a push may be, and the drops take off what was
    pushed, with no more than the 201 operations a script may have. -/
theorem service_output_transparent_iff (crypto : Crypto) (check : Checker) (s : ServiceKind) {script : CScript} {op : Op}
    {vvch : List Bytes} (hdecode : (s.decode script).1 = some (op, vvch)) :
    Transparent crypto check script ↔
      (∀ vch ∈ vvch, vch.length ≤ MAX_SCRIPT_ELEMENT_SIZE) ∧
        popped (serviceDrops script) = op.nArgs + 1 ∧ (serviceDrops script).length ≤ 201 := by
  rw [s.decode_eq] at hdecode
  exact transparent_iff crypto check hdecode

/-- The update of `UnsignedSpend`, paid to a key. -/
theorem update_transparent :
    Transparent UnsignedSpend.crypto UnsignedSpend.check
      (UnsignedSpend.aliasPrefix.script ++ setDestination (.keyID ⟨5, by decide⟩)) :=
  have hdecode : (ServiceKind.aliases.decode
      (UnsignedSpend.aliasPrefix.script ++ setDestination (.keyID ⟨5, by decide⟩))).1 =
      some (.aliasUpdate, [[0x61], [0x76]]) := by decide +kernel
  (service_output_transparent_iff _ _ .aliases hdecode).mpr ⟨by decide, by decide +kernel, by decide +kernel⟩

/-! ## An alias that nobody can spend -/

namespace Cakenet

/-- A value of 600 bytes: `aliasactivate` takes it, and so do the rules. -/
def longValue : Bytes := List.replicate 600 0x76

def longPrefix : ServicePrefix := ⟨.aliasActivate, [vchName, vchRand, longValue], rfl⟩

def lockedOut : CTxOut := ⟨COIN, longPrefix.script ++ setDestination (.keyID ⟨5, by decide⟩)⟩

def lockedActivateTx : CTransaction := syscoin 101 [⟨100, 0⟩, ⟨1, 1⟩] [lockedOut, burn (5172 * COIN)] []

def lockedBlock10 : CBlockIndex := mine aliasBlock9 10 [lockedActivateTx]

/-- **The activation is connected, and its output is locked for good**: no unlocking script verifies. -/
theorem long_value_locks_alias :
    ∃ blocks node, Run env (fun _ => True) genesis blocks node ∧ node.pindexBest = aliasBlock9 ∧
      checkOpArgs longPrefix.op longPrefix.vvch = .ok () ∧
      (checkAliasInputs env Mode.connect node.pindexBest lockedBlock10 lockedActivateTx node.coinsTip
        node.store.aliasdb node.store.dummyTestPool).isOk = true ∧
      (setBestChain env amb lockedBlock10 node).1.isOk = true ∧
      ∀ crypto check, ¬ Transparent crypto check lockedOut.scriptPubKey ∧
        ∀ scriptSig, verifies crypto check scriptSig lockedOut.scriptPubKey = false := by
  have hdecode : (decodeScriptAt Op.isAliasOp lockedOut.scriptPubKey).1 =
      some (.aliasActivate, [vchName, vchRand, longValue]) := by decide +kernel
  have hlong : ¬ ∀ vch ∈ [vchName, vchRand, longValue], vch.length ≤ MAX_SCRIPT_ELEMENT_SIZE := by decide +kernel
  refine ⟨_, nodeAt aliasBlock9, run_nodeAt (by decide +kernel) (fun _ _ => trivial), by decide +kernel,
    by decide +kernel, by decide +kernel, by decide +kernel, ?_⟩
  intro crypto check
  refine ⟨fun h => hlong ((transparent_iff crypto check hdecode).mp h).1, ?_⟩
  intro scriptSig
  cases hverifies : verifies crypto check scriptSig lockedOut.scriptPubKey with
  | false => rfl
  | true => exact absurd (fits_of_verifies hdecode hverifies) hlong

end Cakenet

end Syscoin

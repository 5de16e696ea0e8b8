import Syscoin.Correctness.Address
import Syscoin.Correctness.Prefixes
import Syscoin.Correctness.Rules
import Syscoin.Services.Resolve

/-!
# `Correctness.Resolution` — what an expired name resolves to

A name whose last entry has reached the expiration depth may be activated by somebody else in the next block. The readers
of the database do not agree with that: the constructor of an address does not ask whether a name has expired, and
`GetTxOfAlias` asks with another inequality, which is up to two blocks late.

`resolution_agrees_iff` says of every database, tip and name when they agree all the same.
-/

namespace Syscoin

open Lib

/-! ## The depth along the chain -/

/-- The depth grows by at most one block with each block. -/
theorem getAliasExpirationDepth_succ_le (nHeight : Nat) :
    getAliasExpirationDepth (nHeight + 1) ≤ getAliasExpirationDepth nHeight + 1 := by
  unfold getAliasExpirationDepth
  split_ifs <;> omega

/-! ## The destination of an entry -/

section Destination

variable (getID : Bytes → CKeyID)

theorem solver_scriptID (scriptID : CScriptID) :
    solver (setDestination (.scriptID scriptID)) = some (.scripthash, [toLE 20 scriptID.id]) := by
  have hbytes : ((setDestination (.scriptID scriptID)).drop 2).take 20 = toLE 20 scriptID.id :=
    List.take_left' (length_toLE 20 scriptID.id)
  unfold solver
  rw [isPayToScriptHash_setDestination, if_pos rfl, hbytes]

/-- An opcode that the template has as well. -/
theorem matchTemplate_opcode {fuel : Nat} {opcode : UInt8} {pc1 pc2 : CScript} {vSolutions : List Bytes}
    (hpush : ¬ opcode ≤ OP_PUSHDATA4) (hplain : opcode ∉ [OP_PUBKEYS, OP_PUBKEY, OP_PUBKEYHASH, OP_SMALLINTEGER]) :
    matchTemplate (fuel + 1) (opcode :: pc1) (opcode :: pc2) vSolutions = matchTemplate fuel pc1 pc2 vSolutions := by
  simp only [List.mem_cons, List.not_mem_nil, or_false, not_or] at hplain
  obtain ⟨hkeys, hkey, hhash, hsmall⟩ := hplain
  have hmatch : matchOp opcode [] opcode [] vSolutions = some vSolutions := by
    unfold matchOp
    rw [if_neg hkey, if_neg hhash, if_neg hsmall, if_neg (fun h => h.elim (· rfl) (· rfl))]
  -- neither script has ended, and neither opcode has an operand
  rw [matchTemplate, if_neg (fun h => absurd h.1 (List.cons_ne_nil _ _)), getOp2_opcode hpush, getOp2_opcode hpush]
  dsimp only
  rw [if_neg hkeys, hmatch]
  rfl

/-- A hash where the template has one. -/
theorem matchTemplate_pubkeyhash {fuel : Nat} {id : Uint160} {pc1 pc2 : CScript} {vSolutions : List Bytes}
    (h : (pushUint160 id ++ pc1).length < 2 ^ 32) :
    matchTemplate (fuel + 1) (pushUint160 id ++ pc1) (OP_PUBKEYHASH :: pc2) vSolutions =
      matchTemplate fuel pc1 pc2 (vSolutions ++ [toLE 20 id]) := by
  have hmatch : matchOp 20 (toLE 20 id) OP_PUBKEYHASH [] vSolutions = some (vSolutions ++ [toLE 20 id]) := by
    unfold matchOp
    rw [if_neg (by decide), if_pos rfl, if_neg (fun hne => hne (length_toLE 20 id))]
  rw [matchTemplate, if_neg (fun h => absurd h.2 (List.cons_ne_nil _ _)), getOp2_ok h (getOp_pushUint160 id pc1),
    getOp2_opcode (by decide)]
  dsimp only
  rw [if_neg (by decide), hmatch]
  rfl

theorem solver_keyID (keyID : CKeyID) :
    solver (setDestination (.keyID keyID)) = some (.pubkeyhash, [toLE 20 keyID.id]) := by
  have hlength : ∀ pc : CScript, (pushUint160 keyID.id ++ pc).length = 21 + pc.length := by
    intro pc
    show (20 :: toLE 20 keyID.id ++ pc).length = _
    rw [List.length_append, List.length_cons, length_toLE]
  have hscript : setDestination (.keyID keyID) =
      OP_DUP :: OP_HASH160 :: (pushUint160 keyID.id ++ [OP_EQUALVERIFY, OP_CHECKSIG]) := rfl
  have hpubkey : matchTemplate ((setDestination (.keyID keyID)).length + 1) (setDestination (.keyID keyID))
      [OP_PUBKEY, OP_CHECKSIG] [] = none := rfl
  have hpubkeyhash : ∀ fuel, matchTemplate (fuel + 6) (setDestination (.keyID keyID))
      [OP_DUP, OP_HASH160, OP_PUBKEYHASH, OP_EQUALVERIFY, OP_CHECKSIG] [] = some [toLE 20 keyID.id] := by
    intro fuel
    rw [hscript, matchTemplate_opcode (by decide) (by decide), matchTemplate_opcode (by decide) (by decide),
      matchTemplate_pubkeyhash (by rw [hlength]; decide), matchTemplate_opcode (by decide) (by decide),
      matchTemplate_opcode (by decide) (by decide)]
    rfl
  have hfuel : (setDestination (.keyID keyID)).length + 1 = 20 + 6 := by
    rw [hscript, List.length_cons, List.length_cons, hlength]
    rfl
  have hp2sh : isPayToScriptHash (setDestination (.keyID keyID)) = false := by
    have hfirst : (setDestination (.keyID keyID)).getD 0 0 = OP_DUP := rfl
    have hne : OP_DUP ≠ OP_HASH160 := by decide
    unfold isPayToScriptHash
    rw [hfirst]
    simp [hne]
  unfold solver
  dsimp only
  rw [hp2sh, if_neg Bool.false_ne_true, hpubkey]
  dsimp only
  rw [hfuel, hpubkeyhash]

/-- **What `SetDestination` writes, `ExtractDestination` reads.** -/
theorem extractDestination_setDestination {dest : CTxDestination} (h : dest ≠ .none) :
    extractDestination getID (setDestination dest) = dest := by
  unfold extractDestination
  cases dest with
  | none => exact absurd rfl h
  | keyID keyID =>
    rw [solver_keyID]
    show CTxDestination.keyID (keyIDOf (toLE 20 keyID.id)) = _
    rw [CBitcoinAddress.keyIDOf_toLE]
  | scriptID scriptID =>
    rw [solver_scriptID]
    show CTxDestination.scriptID (scriptIDOf (toLE 20 scriptID.id)) = _
    rw [CBitcoinAddress.scriptIDOf_toLE]

end Destination

namespace Resolver

variable (r : Resolver) {tx : CTransaction} {strName : List Char} {txPos : CAliasIndex}

/-- The output that `DecodeAliasTx` finds can be decoded once more: nothing is thrown. -/
theorem aliasDestination_ok (tx : CTransaction) : ∃ dest, r.aliasDestination tx = .ok dest := by
  unfold aliasDestination
  cases hdecode : decodeTx (fun script => (decodeAliasScriptAt script).1) tx.vout with
  | none => exact ⟨none, rfl⟩
  | some found =>
    obtain ⟨op, nOut, vvch⟩ := found
    obtain ⟨⟨txout, hout, hscript⟩, -⟩ := decodeTx_eq_some hdecode
    have hremove : removeAliasScriptPrefix txout.scriptPubKey = .ok (decodeAliasScriptAt txout.scriptPubKey).2 := by
      unfold removeAliasScriptPrefix removeScriptPrefix
      rw [hscript]
    dsimp only
    rw [hout]
    dsimp only
    rw [hremove]
    exact ⟨_, rfl⟩

/-- An output that the commands built pays to the destination it was built for. -/
theorem aliasDestination_builder {P : ServicePrefix} {dest : CTxDestination} {nValue : Int} {vout : List CTxOut}
    (hvout : tx.vout = ⟨nValue, P.script ++ setDestination dest⟩ :: vout) (halias : P.op.service = .aliases)
    (hdest : dest ≠ .none) (hlength : (P.script ++ setDestination dest).length < 2 ^ 32) :
    r.aliasDestination tx = .ok (some dest) := by
  obtain ⟨opcode, pc, hD, hpush, hdrop⟩ := setDestination_cons hdest
  have hisOp : P.op.isAliasOp = true := (ServiceKind.isOp_iff .aliases P.op).mpr halias.symm
  have hdecode : decodeAliasScriptAt (P.script ++ setDestination dest) = (some (P.op, P.vvch), setDestination dest) := by
    rw [hD] at hlength ⊢
    show decodeScriptAt Op.isAliasOp _ = _
    rw [P.decodeScriptAt_eq _ hpush hdrop hlength, if_pos hisOp]
  have hfirst : decodeTx (fun script => (decodeAliasScriptAt script).1) tx.vout = some (P.op, 0, P.vvch) := by
    rw [hvout, decodeTx]
    dsimp only
    rw [hdecode]
  have hremove : removeAliasScriptPrefix (P.script ++ setDestination dest) = .ok (setDestination dest) := by
    unfold removeAliasScriptPrefix removeScriptPrefix
    rw [hdecode]
  unfold aliasDestination
  rw [hfirst]
  dsimp only
  rw [hvout]
  show (removeAliasScriptPrefix (P.script ++ setDestination dest)).map _ = _
  rw [hremove]
  show Except.ok (some (extractDestination r.getID (setDestination dest))) = _
  rw [extractDestination_setDestination _ hdest]

/-! ## The constructor of an address -/

/-- The string is an address of the network, and not looked up. -/
def IsAddress (strName : List Char) : Prop :=
  (CBitcoinAddress.empty.setString r.Hash strName).2.isValid r.net = true

theorem isAlias_setString (addr : CBitcoinAddress) (str : List Char) :
    (addr.setString r.Hash str).2.isAlias = addr.isAlias := by
  unfold CBitcoinAddress.setString
  split
  · rfl
  · rfl

theorem getAliasValue_eq (hlast : r.lastEntry (vchFromValue strName) = some txPos) :
    r.getAliasValue strName =
      match r.getTransaction txPos.txHash with
      | none => .error "failed to read transaction from disk"
      | some tx => r.getAliasAddress tx := by
  unfold lastEntry at hlast
  cases hnames : r.aliasdb.names (vchFromValue strName) with
  | none =>
    rw [hnames] at hlast
    cases hlast
  | some vtxPos =>
    rw [hnames, Option.bind_some] at hlast
    simp only [getAliasValue, hnames]
    split
    next hnone => cases hnone.symm.trans hlast
    next hsome =>
      cases hsome.symm.trans hlast
      rfl

/-- An address of the network stays what it is. -/
theorem address_of_isAddress (h : r.IsAddress strName) : (r.address strName).isAlias = false := by
  have hvalid : (CBitcoinAddress.empty.setString r.Hash strName).2.isValid r.net = true := h
  unfold address CBitcoinAddress.ofString
  dsimp only
  rw [if_pos hvalid, isAlias_setString]
  rfl

theorem address_of_unread (hlast : r.lastEntry (vchFromValue strName) = some txPos)
    (hread : r.getTransaction txPos.txHash = none) : (r.address strName).isAlias = false := by
  have hvalue : (r.getAliasValue strName).toOption = none := by
    rw [r.getAliasValue_eq hlast, hread]
    rfl
  unfold address CBitcoinAddress.ofString
  dsimp only
  -- an address is not looked up; a name is, and nothing comes back
  split
  · rw [isAlias_setString]
    rfl
  · rw [hvalue]
    dsimp only
    rw [isAlias_setString]
    rfl

/-- What the alias resolves to: the version of a key, for scripts as well. -/
def readBack : CTxDestination → CTxDestination
  | .scriptID id => .keyID ⟨id.id, id.lt⟩
  | dest => dest

/-- What is read from the string that `GetAliasAddress` gives. -/
theorem get_strAddress (addr : CBitcoinAddress) (dest : Option CTxDestination) :
    (addr.setString r.Hash (r.strAddress dest)).2.get r.net = readBack (dest.getD .none) := by
  -- only version and data matter to `Get`
  have hcongr : ∀ (nVersion : UInt8) (vchData : Bytes), (addr.setData nVersion vchData).get r.net =
      (⟨nVersion, vchData, false, []⟩ : CBitcoinAddress).get r.net := fun _ _ => rfl
  have hzero : (⟨0, [], false, []⟩ : CBitcoinAddress).get r.net = .none := by
    cases r.net <;> rfl
  cases dest with
  | none =>
    have hempty : addr.setString r.Hash [] = (false, addr.setData 0 []) := rfl
    show (addr.setString r.Hash []).2.get r.net = .none
    rw [hempty, hcongr, hzero]
  | some dest =>
    show (addr.setString r.Hash ((CBitcoinAddress.ofDestination r.net dest).toString r.Hash)).2.get r.net = readBack dest
    rw [CBitcoinAddress.setString_toString]
    dsimp only
    rw [hcongr]
    cases dest with
    | none => exact hzero
    | keyID id =>
      rw [CBitcoinAddress.ofDestination_keyID]
      exact CBitcoinAddress.get_versionOf r.net id.lt
    | scriptID id =>
      -- written with the version of a key
      rw [CBitcoinAddress.ofDestination_scriptID]
      exact CBitcoinAddress.get_versionOf r.net id.lt

/-- **Any other string resolves**, expired or not, as long as the transaction of the last entry is found. -/
theorem address_of_read {dest : Option CTxDestination} (hlast : r.lastEntry (vchFromValue strName) = some txPos)
    (hnot : ¬ r.IsAddress strName) (hread : r.getTransaction txPos.txHash = some tx)
    (hdest : r.aliasDestination tx = .ok dest) :
    (r.address strName).isAlias = true ∧ (r.address strName).get r.net = readBack (dest.getD .none) := by
  have hvalue : (r.getAliasValue strName).toOption = some (r.strAddress dest) := by
    rw [r.getAliasValue_eq hlast, hread]
    show (r.getAliasAddress tx).toOption = _
    unfold getAliasAddress
    rw [hdest]
    rfl
  have hinvalid : ¬ (CBitcoinAddress.empty.setString r.Hash strName).2.isValid r.net = true := hnot
  let addr := (CBitcoinAddress.empty.setString r.Hash strName).2
  have haddress : r.address strName =
      { (addr.setString r.Hash (r.strAddress dest)).2 with isAlias := true, aliasName := strName } := by
    unfold address CBitcoinAddress.ofString
    dsimp only
    rw [if_neg hinvalid, hvalue]
  rw [haddress]
  exact ⟨rfl, r.get_strAddress addr dest⟩

/-! ## `GetTxOfAlias` -/

theorem getTxOfAlias_eq {vchName : Bytes} (hlast : r.lastEntry vchName = some txPos) :
    r.getTxOfAlias vchName =
      if txPos.nHeight + getAliasExpirationDepth r.nBestHeight < r.nBestHeight then
        .error "GetTxOfAlias(%s) : expired"
      else
        match r.getTransaction txPos.txHash with
        | none => .error "GetTxOfAlias() : could not read tx from disk"
        | some tx => .ok tx := by
  unfold getTxOfAlias
  split
  next hnone => cases hnone.symm.trans hlast
  next hsome =>
    cases hsome.symm.trans hlast
    rfl

/-- It tells of an expired name iff its own test says so. -/
theorem getTxOfAlias_expired_iff {vchName : Bytes} (hlast : r.lastEntry vchName = some txPos) :
    r.getTxOfAlias vchName = .error "GetTxOfAlias(%s) : expired" ↔
      txPos.nHeight + getAliasExpirationDepth r.nBestHeight < r.nBestHeight := by
  rw [r.getTxOfAlias_eq hlast]
  split
  · rename_i hold
    exact ⟨fun _ => hold, fun _ => rfl⟩
  · rename_i hnew
    refine ⟨?_, fun hold => absurd hold hnew⟩
    intro heq
    split at heq
    · exact absurd (Except.error.inj heq) (by decide)
    · cases heq

/-! ## Agreement -/

/-- What `CheckAliasInputs` calls an unexpired alias, in the block on top of the tip. -/
def UnexpiredNext (vchName : Bytes) : Prop :=
  Unexpired (r.nBestHeight + 1) (getAliasHeight r.aliasdb vchName) (getAliasExpirationDepth (r.nBestHeight + 1))

/-- The readers agree about a name: it is gone for all of them when the next block may give it to somebody else, and before
    that it is the destination of its last entry. -/
structure Agrees (strName : List Char) : Prop where
  expired : ¬ r.UnexpiredNext (vchFromValue strName) →
    (r.address strName).isAlias = false ∧
      r.getTxOfAlias (vchFromValue strName) = .error "GetTxOfAlias(%s) : expired"
  unexpired : r.UnexpiredNext (vchFromValue strName) →
    ∃ txPos tx dest, r.lastEntry (vchFromValue strName) = some txPos ∧ r.getTransaction txPos.txHash = some tx ∧
      r.aliasDestination tx = .ok dest ∧ (r.address strName).isAlias = true ∧
      (r.address strName).get r.net = dest.getD .none ∧ r.getTxOfAlias (vchFromValue strName) = .ok tx

theorem unexpiredNext_iff {vchName : Bytes} (hlast : r.lastEntry vchName = some txPos) :
    r.UnexpiredNext vchName ↔
      ((r.nBestHeight + 1 : Nat) : Int) - txPos.nHeight < getAliasExpirationDepth (r.nBestHeight + 1) := by
  have hheight : getAliasHeight r.aliasdb vchName = some txPos.nHeight := by
    unfold lastEntry at hlast
    obtain ⟨vtxPos, hnames, hback⟩ := Option.bind_eq_some_iff.mp hlast
    unfold getAliasHeight
    rw [hnames, Option.bind_some, hback, Option.map_some]
  unfold UnexpiredNext Unexpired
  rw [hheight]
  constructor
  · rintro ⟨p, hp, hlt⟩
    cases hp
    exact hlt
  · intro hlt
    exact ⟨txPos.nHeight, rfl, hlt⟩

/-- An unexpired name is not reported as expired: the depth grows no faster than the chain. -/
theorem not_late_of_unexpiredNext {vchName : Bytes} (hlast : r.lastEntry vchName = some txPos)
    (h : r.UnexpiredNext vchName) : ¬ txPos.nHeight + getAliasExpirationDepth r.nBestHeight < r.nBestHeight := by
  have hgrowth := getAliasExpirationDepth_succ_le r.nBestHeight
  have hlt := (r.unexpiredNext_iff hlast).mp h
  omega

theorem readBack_eq_iff (dest : CTxDestination) : readBack dest = dest ↔ ∀ id, dest ≠ .scriptID id := by
  cases dest with
  | none => exact ⟨fun _ id => CTxDestination.noConfusion, fun _ => rfl⟩
  | keyID id => exact ⟨fun _ id => CTxDestination.noConfusion, fun _ => rfl⟩
  | scriptID id => exact ⟨fun h => CTxDestination.noConfusion h, fun h => absurd rfl (h id)⟩

/-- The constructor lets an entry go only if it does not look it up, or does not find its transaction. -/
theorem isAlias_eq_false_iff (hlast : r.lastEntry (vchFromValue strName) = some txPos) :
    (r.address strName).isAlias = false ↔ r.IsAddress strName ∨ r.getTransaction txPos.txHash = none := by
  constructor
  · intro hfalse
    by_contra hnot
    obtain ⟨hnotAddress, hread⟩ := not_or.mp hnot
    obtain ⟨tx, hread⟩ := Option.ne_none_iff_exists'.mp hread
    obtain ⟨dest, hdest⟩ := r.aliasDestination_ok tx
    have htrue := (r.address_of_read hlast hnotAddress hread hdest).1
    rw [hfalse] at htrue
    cases htrue
  · rintro (hisAddress | hread)
    · exact r.address_of_isAddress hisAddress
    · exact r.address_of_unread hlast hread

/-- **When the readers agree about a name.** An expired name has to be an address itself, or an entry whose transaction is
    not found, and expired by the test of `GetTxOfAlias` too; an unexpired one has to be no address, with a transaction
    that is found and does not pay to a script. -/
theorem resolution_agrees_iff (hlast : r.lastEntry (vchFromValue strName) = some txPos) :
    r.Agrees strName ↔
      (¬ r.UnexpiredNext (vchFromValue strName) →
        (r.IsAddress strName ∨ r.getTransaction txPos.txHash = none) ∧
          txPos.nHeight + getAliasExpirationDepth r.nBestHeight < r.nBestHeight) ∧
      (r.UnexpiredNext (vchFromValue strName) →
        ¬ r.IsAddress strName ∧ ∃ tx, r.getTransaction txPos.txHash = some tx ∧
          ∀ id, r.aliasDestination tx ≠ .ok (some (.scriptID id))) := by
  constructor
  · intro h
    constructor
    -- nothing says that the alias is there
    · intro hexpired
      obtain ⟨hfalse, hreport⟩ := h.expired hexpired
      exact ⟨(r.isAlias_eq_false_iff hlast).mp hfalse, (r.getTxOfAlias_expired_iff hlast).mp hreport⟩
    · intro hunexpired
      obtain ⟨txPos', tx, dest, hlast', hread, hdest, htrue, hget, -⟩ := h.unexpired hunexpired
      -- all three look at the last entry
      obtain rfl : txPos' = txPos := Option.some.inj (hlast'.symm.trans hlast)
      have hnotAddress : ¬ r.IsAddress strName := by
        intro hisAddress
        rw [r.address_of_isAddress hisAddress] at htrue
        cases htrue
      refine ⟨hnotAddress, tx, hread, ?_⟩
      intro id hscript
      obtain rfl : dest = some (.scriptID id) := Except.ok.inj (hdest.symm.trans hscript)
      rw [(r.address_of_read hlast hnotAddress hread hdest).2] at hget
      exact (readBack_eq_iff _).mp hget id rfl
  · rintro ⟨hexpired, hunexpired⟩
    constructor
    · intro h
      obtain ⟨hnot, hlate⟩ := hexpired h
      exact ⟨(r.isAlias_eq_false_iff hlast).mpr hnot, (r.getTxOfAlias_expired_iff hlast).mpr hlate⟩
    · intro h
      obtain ⟨hnotAddress, tx, hread, hkey⟩ := hunexpired h
      obtain ⟨dest, hdest⟩ := r.aliasDestination_ok tx
      obtain ⟨htrue, hget⟩ := r.address_of_read hlast hnotAddress hread hdest
      refine ⟨txPos, tx, dest, hlast, hread, hdest, htrue, ?_, ?_⟩
      · rw [hget, readBack_eq_iff]
        intro id hscript
        cases dest with
        | none => cases hscript
        | some dest =>
          cases hscript
          exact hkey id hdest
      · rw [r.getTxOfAlias_eq hlast, if_neg (r.not_late_of_unexpiredNext hlast h), hread]

end Resolver

/-! ## A name that expired -/

namespace ExpiredName

def strName : List Char := ['b', 'o', 'b', '0']

def vchName : Bytes := [0x62, 0x6f, 0x62, 0x30]

def holder : CKeyID := keyIDOf [5]

/-- The update that the holder of the name made at height ten. -/
def updatePrefix : ServicePrefix := ⟨.aliasUpdate, [vchName, [1]], rfl⟩

def updateTx : CTransaction :=
  ⟨SYSCOIN_TX_VERSION, [], [⟨COIN, updatePrefix.script ++ setDestination (.keyID holder)⟩], 101, []⟩

def entry : CAliasIndex := ⟨101, 10, ⟨100, 0⟩, [1]⟩

/-- The node at some height, with nothing but that entry. -/
def node (nBestHeight : Nat) : Resolver where
  aliasdb := ⟨fun vchName' => if vchName' = vchName then some [entry] else none, none, [], fun _ => ∅⟩
  getTransaction hash := if hash = 101 then some updateTx else none
  nBestHeight := nBestHeight
  net := .main
  Hash _ := 0
  getID _ := holder

variable (nBestHeight : Nat)

theorem lastEntry_node : (node nBestHeight).lastEntry (vchFromValue strName) = some entry := rfl

theorem getTransaction_node : (node nBestHeight).getTransaction entry.txHash = some updateTx := rfl

theorem not_isAddress_node : ¬ (node nBestHeight).IsAddress strName := by
  show ¬ (CBitcoinAddress.empty.setString (fun _ => 0) strName).2.isValid .main = true
  decide +kernel

theorem aliasDestination_node : (node nBestHeight).aliasDestination updateTx = .ok (some (.keyID holder)) :=
  (node nBestHeight).aliasDestination_builder rfl rfl CTxDestination.noConfusion (by decide +kernel)

/-- Forty blocks later the readers agree. -/
theorem young_name_agrees : (node 50).Agrees strName := by
  have hunexpired : (node 50).UnexpiredNext (vchFromValue strName) :=
    ((node 50).unexpiredNext_iff (lastEntry_node 50)).mpr (by decide)
  refine ((node 50).resolution_agrees_iff (lastEntry_node 50)).mpr ⟨fun h => absurd hunexpired h, ?_⟩
  intro _
  refine ⟨not_isAddress_node 50, updateTx, getTransaction_node 50, ?_⟩
  intro id hscript
  rw [aliasDestination_node] at hscript
  cases hscript

/-- **The holder still gets what is sent to the name**, long after it expired; and in the last two blocks, when the name
    may be activated by somebody else, `GetTxOfAlias` still gives the transaction. -/
theorem expired_name_resolves :
    (¬ (node 100000).UnexpiredNext (vchFromValue strName) ∧ ((node 100000).address strName).isAlias = true ∧
      ((node 100000).address strName).get .main = .keyID holder ∧ ¬ (node 100000).Agrees strName) ∧
    ∀ nBestHeight ∈ [87369, 87370], ¬ (node nBestHeight).UnexpiredNext (vchFromValue strName) ∧
      (node nBestHeight).getTxOfAlias (vchFromValue strName) = .ok updateTx := by
  have hexpired : ∀ nBestHeight ∈ [87369, 87370, 100000], ¬ (node nBestHeight).UnexpiredNext (vchFromValue strName) := by
    intro nBestHeight hmem
    rw [(node nBestHeight).unexpiredNext_iff (lastEntry_node nBestHeight)]
    revert nBestHeight
    decide
  obtain ⟨htrue, hget⟩ := (node 100000).address_of_read (lastEntry_node _) (not_isAddress_node _) (getTransaction_node _)
    (aliasDestination_node _)
  refine ⟨⟨hexpired _ (by decide), htrue, hget, ?_⟩, ?_⟩
  · intro hagrees
    have hfalse := (hagrees.expired (hexpired _ (by decide))).1
    rw [htrue] at hfalse
    cases hfalse
  · intro nBestHeight hmem
    refine ⟨hexpired _ (List.mem_of_mem_dropLast hmem), ?_⟩
    rw [(node nBestHeight).getTxOfAlias_eq (lastEntry_node nBestHeight), if_neg]
    · rfl
    · revert nBestHeight
      decide

end ExpiredName

end Syscoin

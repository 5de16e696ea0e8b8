import Syscoin.Script.Prefix
import Syscoin.Services.Alias

/-!
# `Services.Resolve` — from a name to a destination

Three readers of the alias database. `CheckAliasInputs` is in `Services.Alias`; `GetTxOfAlias` serves the commands that
activate and update, and `GetAliasValue` serves the constructor of `CBitcoinAddress`, which takes a string that is no
address for the name of an alias.

Where the transaction of an entry comes from is a parameter (`GetTransaction` is in `Chain.Rescan`), and so are the hash
of the checksum and that of a public key. A message stands for the `JSONRPCError` that is thrown, or for what is logged
before `false` is returned.
-/

namespace Syscoin

/-! ## `ExtractDestination` -/

/-- The opcodes of the templates. -/
def OP_SMALLINTEGER : UInt8 := 0xfa
def OP_PUBKEYS : UInt8 := 0xfb
def OP_PUBKEYHASH : UInt8 := 0xfd
def OP_PUBKEY : UInt8 := 0xfe

/-- `txnouttype` -/
inductive TxOutType where
  | pubkey | pubkeyhash | scripthash | multisig
deriving DecidableEq, Repr

/-- The loop over the keys of a bare multisignature: it stops at what is no key, or where nothing is read. -/
def readKeys : Nat → UInt8 × Bytes × CScript → List Bytes → (UInt8 × Bytes × CScript) × List Bytes
  | 0, r, vSolutions => (r, vSolutions)
  | fuel + 1, (opcode1, vch1, pc1), vSolutions =>
    if 33 ≤ vch1.length ∧ vch1.length ≤ 120 then
      match getOp2 pc1 with
      | .error pc1 => ((OP_INVALIDOPCODE, [], pc1), vSolutions ++ [vch1])
      | .ok r => readKeys fuel r (vSolutions ++ [vch1])
    else ((opcode1, vch1, pc1), vSolutions)

/-- One instruction of the script against one of the template. -/
def matchOp (opcode1 : UInt8) (vch1 : Bytes) (opcode2 : UInt8) (vch2 : Bytes) (vSolutions : List Bytes) :
    Option (List Bytes) :=
  if opcode2 = OP_PUBKEY then
    if vch1.length < 33 ∨ 120 < vch1.length then none else some (vSolutions ++ [vch1])
  else if opcode2 = OP_PUBKEYHASH then
    if vch1.length ≠ 20 then none else some (vSolutions ++ [vch1])
  else if opcode2 = OP_SMALLINTEGER then
    if opcode1 = OP_0 ∨ (OP_1 ≤ opcode1 ∧ opcode1 ≤ OP_16) then
      some (vSolutions ++ [[UInt8.ofNat (decodeOP_N opcode1)]])
    else none
  else if opcode1 ≠ opcode2 ∨ vch1 ≠ vch2 then none
  else some vSolutions

/-- The comparison of a script with a template. -/
def matchTemplate : Nat → CScript → CScript → List Bytes → Option (List Bytes)
  | 0, _, _, _ => none
  | fuel + 1, pc1, pc2, vSolutions =>
    if pc1 = [] ∧ pc2 = [] then some vSolutions
    else
      match getOp2 pc1, getOp2 pc2 with
      | .ok (opcode1, vch1, pc1), .ok (opcode2, vch2, pc2) =>
        if opcode2 = OP_PUBKEYS then
          let ((opcode1, vch1, pc1), vSolutions) := readKeys (pc1.length + 1) (opcode1, vch1, pc1) vSolutions
          match getOp2 pc2 with
          | .error _ => none
          | .ok (opcode2, vch2, pc2) =>
            (matchOp opcode1 vch1 opcode2 vch2 vSolutions).bind (matchTemplate fuel pc1 pc2)
        else
          (matchOp opcode1 vch1 opcode2 vch2 vSolutions).bind (matchTemplate fuel pc1 pc2)
      | _, _ => none

/-- "Additional checks for TX_MULTISIG" -/
def multisigCounts (vSolutions : List Bytes) : Bool :=
  let m := ((vSolutions.head?.getD []).head?.getD 0).toNat
  let n := ((vSolutions.getLast?.getD []).head?.getD 0).toNat
  1 ≤ m ∧ 1 ≤ n ∧ m ≤ n ∧ vSolutions.length - 2 = n

/-- **`Solver`**: the templates in the order of their types. -/
def solver (scriptPubKey : CScript) : Option (TxOutType × List Bytes) :=
  let scan (template : CScript) := matchTemplate (scriptPubKey.length + 1) scriptPubKey template []
  if isPayToScriptHash scriptPubKey then some (.scripthash, [(scriptPubKey.drop 2).take 20])
  else
    match scan [OP_PUBKEY, OP_CHECKSIG] with
    | some vSolutions => some (.pubkey, vSolutions)
    | none =>
      match scan [OP_DUP, OP_HASH160, OP_PUBKEYHASH, OP_EQUALVERIFY, OP_CHECKSIG] with
      | some vSolutions => some (.pubkeyhash, vSolutions)
      | none =>
        match scan [OP_SMALLINTEGER, OP_PUBKEYS, OP_SMALLINTEGER, OP_CHECKMULTISIG] with
        | some vSolutions => if multisigCounts vSolutions then some (.multisig, vSolutions) else none
        | none => none

/-- **`ExtractDestination`**, with `CPubKey::GetID`. What it does not find leaves the destination empty. -/
def extractDestination (getID : Bytes → CKeyID) (scriptPubKey : CScript) : CTxDestination :=
  match solver scriptPubKey with
  | some (.pubkey, vSolutions) => .keyID (getID (arg vSolutions 0))
  | some (.pubkeyhash, vSolutions) => .keyID (keyIDOf (arg vSolutions 0))
  | some (.scripthash, vSolutions) => .scriptID (scriptIDOf (arg vSolutions 0))
  | _ => .none

/-! ## The readers -/

/-- `vchFromValue` -/
def vchFromValue (strName : List Char) : Bytes := strName.map fun c => UInt8.ofNat c.toNat

/-- What the readers use of the node. -/
structure Resolver where
  aliasdb : AliasState
  getTransaction : Uint256 → Option CTransaction
  /-- `pindexBest->nHeight` -/
  nBestHeight : Nat
  net : Network
  Hash : Bytes → Uint256
  getID : Bytes → CKeyID

namespace Resolver

variable (r : Resolver)

/-- `ReadAlias` and `vtxPos.back()` -/
def lastEntry (vchName : Bytes) : Option CAliasIndex := (r.aliasdb.names vchName).bind List.getLast?

/-- **`GetTxOfAlias`** -/
def getTxOfAlias (vchName : Bytes) : Except String CTransaction :=
  match r.lastEntry vchName with
  | none => .error ""
  | some txPos =>
    if txPos.nHeight + getAliasExpirationDepth r.nBestHeight < r.nBestHeight then
      .error "GetTxOfAlias(%s) : expired"
    else
      match r.getTransaction txPos.txHash with
      | none => .error "GetTxOfAlias() : could not read tx from disk"
      | some tx => .ok tx

/-- The destination that a transaction pays its alias output to, `none` where there is no alias output. -/
def aliasDestination (tx : CTransaction) : Except String (Option CTxDestination) :=
  match decodeTx (fun script => (decodeAliasScriptAt script).1) tx.vout with
  | none => .ok none
  | some (_, nOut, _) =>
    match tx.vout[nOut]? with
    | none => .ok none
    | some txout =>
      (removeAliasScriptPrefix txout.scriptPubKey).map fun scriptPubKey =>
        some (extractDestination r.getID scriptPubKey)

/-- `CBitcoinAddress(dest).ToString()`, or the empty string that the caller passed in. -/
def strAddress : Option CTxDestination → List Char
  | none => []
  | some dest => (CBitcoinAddress.ofDestination r.net dest).toString r.Hash

/-- **`GetAliasAddress`**. Without an alias output it logs, returns false and leaves the address empty. -/
def getAliasAddress (tx : CTransaction) : Except String (List Char) := (r.aliasDestination tx).map r.strAddress

/-- **`GetAliasValue`** -/
def getAliasValue (strName : List Char) : Except String (List Char) :=
  match r.aliasdb.names (vchFromValue strName) with
  | none => .error "Alias not found"
  | some vtxPos =>
    match vtxPos.getLast? with
    | none => .error "no alias result returned"
    | some txPos =>
      match r.getTransaction txPos.txHash with
      | none => .error "failed to read transaction from disk"
      -- whether `GetAliasAddress` succeeds is not asked
      | some tx => r.getAliasAddress tx

/-- **`CBitcoinAddress(const std::string &)`** with the aliases of the node: whatever is thrown is caught. -/
def address (strAddress : List Char) : CBitcoinAddress :=
  CBitcoinAddress.ofString r.net r.Hash (fun strName => (r.getAliasValue strName).toOption) strAddress

end Resolver

end Syscoin

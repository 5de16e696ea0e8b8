import Syscoin.Script.Builder
import Syscoin.Services.Resolve

/-!
# `Wallet.KeyStore` — whose output it is

`IsMine` matches a script with the templates of `Solver` and asks the key store for what the template names: the key of a
public key or of its hash, every key of a multisignature, the script behind a script hash. A script behind a script hash
is asked for in the same way.

The services ask through `Solver(const CKeyStore &, …)` with the hash zero instead, for the script that stands behind the
prefix. For a key that is the question whether the key is there; for a multisignature it signs, which takes private keys
that can be read, and for a script hash it is enough to know the script.

The hash of a public key is a parameter.
-/

namespace Syscoin

/-- `CCryptoKeyStore`: which keys are there, which of them sign (in a wallet that is encrypted and locked none do), and
    the scripts that were added. -/
structure CKeyStore where
  haveKey : CKeyID → Bool
  /-- `Sign1` with the hash zero: `GetKey` finds the private key and `CKey::Sign` succeeds. -/
  signs : CKeyID → Bool
  mapScripts : List (CScriptID × CScript)

namespace CKeyStore

variable (getID : Bytes → CKeyID) (keystore : CKeyStore)

/-- `AddKeyPubKey` -/
def addKey (address : CKeyID) (fSigns : Bool) : CKeyStore :=
  { keystore with
    haveKey := Function.update keystore.haveKey address true
    signs := Function.update keystore.signs address fSigns }

/-- `GetCScript` -/
def getCScript (hash : CScriptID) : Option CScript := keystore.mapScripts.lookup hash

/-- `IsMine(const CKeyStore &, const CTxDestination &)`. The visitor has no case for a script hash: as an `uint160` it
    is taken for the hash of a key. -/
def isMineDest : CTxDestination → Bool
  | .none => false
  | .keyID keyID => keystore.haveKey keyID
  | .scriptID scriptID => keystore.haveKey ⟨scriptID.id, scriptID.lt⟩

/-- `HaveKeys` -/
def haveKeys (pubkeys : List Bytes) : Nat := pubkeys.countP fun pubkey => keystore.haveKey (getID pubkey)

/-- The recursion of `IsMine`, down to a number of scripts. -/
def isMineWithin : Nat → CScript → Bool
  | 0, _ => false
  | depth + 1, scriptPubKey =>
    match solver scriptPubKey with
    | none => false
    | some (.pubkey, _) => keystore.isMineDest (extractDestination getID scriptPubKey)
    | some (.pubkeyhash, _) => keystore.isMineDest (extractDestination getID scriptPubKey)
    | some (.scripthash, vSolutions) =>
      match keystore.getCScript (scriptIDOf (arg vSolutions 0)) with
      | none => false
      | some subscript => isMineWithin depth subscript
    | some (.multisig, vSolutions) =>
      let keys := vSolutions.tail.dropLast
      keystore.haveKeys getID keys = keys.length

/-- **`IsMine(const CKeyStore &, const CScript &)`.** More scripts in a row than were added are a circle of scripts that
    contain each other's hashes. -/
def isMine (scriptPubKey : CScript) : Bool := keystore.isMineWithin getID (keystore.mapScripts.length + 1) scriptPubKey

/-- `SignN`: whether as many keys sign as are required. It stops at the last one that it needs. -/
def signN (multisigdata : List Bytes) : Bool :=
  ((multisigdata.head?.getD []).head?.getD 0).toNat ≤
    (multisigdata.tail.dropLast.countP fun pubkey => keystore.signs (getID pubkey))

/-- **`Solver(const CKeyStore &, …)`** with the hash zero, for its verdict. -/
def solverMine (scriptPubKey : CScript) : Bool :=
  match solver scriptPubKey with
  | none => false
  | some (.pubkey, _) => keystore.isMineDest (extractDestination getID scriptPubKey)
  | some (.pubkeyhash, _) => keystore.isMineDest (extractDestination getID scriptPubKey)
  | some (.scripthash, vSolutions) => (keystore.getCScript (scriptIDOf (arg vSolutions 0))).isSome
  | some (.multisig, vSolutions) => keystore.signN getID vSolutions

/-- What is mine matches a template. -/
theorem solver_of_isMine {scriptPubKey : CScript} (h : keystore.isMine getID scriptPubKey = true) :
    ∃ solved, solver scriptPubKey = some solved := by
  unfold isMine isMineWithin at h
  cases hsolver : solver scriptPubKey with
  | none =>
    rw [hsolver] at h
    cases h
  | some solved => exact ⟨solved, rfl⟩

/-! ## The outputs of the services -/

/-- `IsMyAlias` -/
def isMyAlias (txout : CTxOut) : Except String Bool :=
  (removeAliasScriptPrefix txout.scriptPubKey).map (keystore.solverMine getID)

/-- `IsMyOffer` -/
def isMyOffer (txout : CTxOut) : Except String Bool :=
  (removeOfferScriptPrefix txout.scriptPubKey).map (keystore.solverMine getID)

/-- `IsMyCert` -/
def isMyCert (txout : CTxOut) : Except String Bool :=
  .ok (keystore.solverMine getID (removeCertIssuerScriptPrefix txout.scriptPubKey))

/-- **`IsAliasMine(tx, txout)`** -/
def isAliasMine (tx : CTransaction) (txout : CTxOut) : Except String Bool :=
  if tx.nVersion ≠ SYSCOIN_TX_VERSION then .ok false
  else
    match (decodeAliasScriptAt txout.scriptPubKey).1 with
    | none => .ok false
    | some _ => keystore.isMyAlias getID txout

/-- **`IsOfferMine(tx, txout)`** -/
def isOfferMine (tx : CTransaction) (txout : CTxOut) : Except String Bool :=
  if tx.nVersion ≠ SYSCOIN_TX_VERSION then .ok false
  else
    match (decodeOfferScriptAt txout.scriptPubKey).1 with
    | none => .ok false
    | some _ => keystore.isMyOffer getID txout

/-- **`IsCertMine(tx, txout)`.** Unlike the others it decodes the transaction: with a certificate output anywhere, it is
    asked who owns the output at hand, whether that one has a prefix or not. -/
def isCertMine (tx : CTransaction) (txout : CTxOut) : Except String Bool :=
  if tx.nVersion ≠ SYSCOIN_TX_VERSION then .ok false
  else
    match decodeTx (fun script => (decodeCertScriptAt script).1) tx.vout with
    | none => .ok false
    | some _ => keystore.isMyCert getID txout

/-- The condition of `CWallet::GetDebitInclName`: an output of the wallet, or a service output of the wallet. -/
def isMineInclName (tx : CTransaction) (txout : CTxOut) : Except String Bool :=
  if keystore.isMine getID txout.scriptPubKey then .ok true
  else do
    if ← keystore.isAliasMine getID tx txout then .ok true
    else if ← keystore.isOfferMine getID tx txout then .ok true
    else keystore.isCertMine getID tx txout

end CKeyStore

end Syscoin

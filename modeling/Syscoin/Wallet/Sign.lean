import Syscoin.Script.SignatureHash
import Syscoin.Wallet.CryptoKeyStore
import Syscoin.Wallet.KeyStore

/-!
# `Wallet.Sign` — writing the unlocking script

`SignSignature` asks `Solver` for what unlocks a script, once more for the script behind a script hash, and verifies the
input that it has written. `Wallet.KeyStore` has what the wallet takes for its own (`IsMine`); its recursion is stated here
once more as the code has it, without a bound.

A key store is what its virtual functions answer. Elliptic curves and hashes are parameters; what a signature signs is
`Script.SignatureHash`.
-/

namespace Syscoin

/-- The hash functions, `CPubKey::Verify`, `CKey::GetPubKey` and `CKey::Sign`. -/
structure SigningCrypto where
  ripemd160 : Bytes → Uint160
  sha1 : Bytes → Uint160
  sha256 : Bytes → Uint256
  hash160 : Bytes → Uint160
  hash : Bytes → Uint256
  verify : Bytes → Uint256 → Bytes → Bool
  getPubKey : CKey → CPubKey
  sign : CKey → Uint256 → Option Bytes

namespace SigningCrypto

variable (crypto : SigningCrypto)

/-- What the interpreter computes with. -/
def toCrypto : Crypto where
  ripemd160 := crypto.ripemd160
  sha1 := crypto.sha1
  sha256 := crypto.sha256
  hash160 := crypto.hash160
  hash := crypto.hash
  signatureHash := signatureHash crypto.hash
  verify := crypto.verify

/-- `CPubKey(vch).GetID()`: bytes that are no public key leave one without bytes. -/
def getID (vch : Bytes) : CKeyID := keyIDOf (toLE 20 (crypto.hash160 (if CPubKey.isValid vch = true then vch else [])))

/-- `CScript::GetID` -/
def scriptID (script : CScript) : CScriptID := scriptIDOf (toLE 20 (crypto.hash160 script))

/-- **What signing with a key promises.** The public key and the signature are canonical, the signature is valid for the
    key, and no other bytes have the hash of the public key. A signature is not that hash either: `OP_CHECKSIG` would take
    it out of the script that is signed. -/
structure Signs (key : CKey) : Prop where
  canonical : isCanonicalPubKey (crypto.getPubKey key) = .ok ()
  sign : ∀ hash, ∃ vchSig, crypto.sign key hash = some vchSig ∧ isCanonicalSignature (vchSig ++ [SIGHASH_ALL]) = .ok () ∧
    crypto.verify (crypto.getPubKey key) hash vchSig = true ∧
    vchSig ++ [SIGHASH_ALL] ≠ toLE 20 (crypto.hash160 (crypto.getPubKey key))
  injective : ∀ vch, toLE 20 (crypto.hash160 vch) = toLE 20 (crypto.hash160 (crypto.getPubKey key)) →
    vch = crypto.getPubKey key

end SigningCrypto

/-- The virtual functions of `CKeyStore`. A key may come out invalid. -/
structure SigningKeyStore where
  haveKey : CKeyID → Bool
  getKey : CKeyID → Option (Option CKey)
  getPubKey : CKeyID → Option CPubKey
  mapScripts : List (CScriptID × CScript)

/-- `(unsigned char)nHashType` -/
def hashTypeByte (nHashType : Int) : UInt8 := UInt8.ofNat (nHashType % 256).toNat

/-- `txTo.vin[nIn].scriptSig = scriptSig` -/
def CTransaction.setScriptSig (nIn : Nat) (scriptSig : CScript) (txTo : CTransaction) : CTransaction :=
  { txTo with vin := txTo.vin.modify nIn fun txin => { txin with scriptSig := scriptSig } }

instance : LT CScriptID := ⟨fun a b => a.id < b.id⟩

instance : DecidableLT CScriptID := fun a b => inferInstanceAs (Decidable (a.id < b.id))

/-- `AddCScript` -/
def addCScript (crypto : SigningCrypto) (mapScripts : List (CScriptID × CScript)) (redeemScript : CScript) :
    List (CScriptID × CScript) := Lib.assign (crypto.scriptID redeemScript) redeemScript mapScripts

/-- The key store of a wallet, with the scripts that were added. -/
def CCryptoKeyStore.toSigningKeyStore (keys : KeyCrypto) (store : CCryptoKeyStore) (mapScripts : List (CScriptID × CScript)) :
    SigningKeyStore where
  haveKey := store.haveKey
  getKey := store.getKey keys
  getPubKey := store.getPubKey keys
  mapScripts := mapScripts

namespace SigningKeyStore

variable (crypto : SigningCrypto) (keystore : SigningKeyStore)

/-! ## Signing -/

/-- **`Sign1`** -/
def sign1 (address : CKeyID) (hash : Uint256) (nHashType : Int) (scriptSigRet : CScript) : Bool × CScript :=
  match keystore.getKey address with
  | none => (false, scriptSigRet)
  | some key =>
    match key.bind fun key => crypto.sign key hash with
    | none => (false, scriptSigRet)
    | some vchSig => (true, scriptSigRet ++ pushVch (vchSig ++ [hashTypeByte nHashType]))

/-- The loop of `SignN`. -/
def signEach (hash : Uint256) (nHashType : Int) (nRequired : Nat) : List Bytes → Nat → CScript → Nat × CScript
  | [], nSigned, scriptSigRet => (nSigned, scriptSigRet)
  | pubkey :: pubkeys, nSigned, scriptSigRet =>
    if nSigned < nRequired then
      match keystore.sign1 crypto (crypto.getID pubkey) hash nHashType scriptSigRet with
      | (true, scriptSigRet) => signEach hash nHashType nRequired pubkeys (nSigned + 1) scriptSigRet
      | (false, scriptSigRet) => signEach hash nHashType nRequired pubkeys nSigned scriptSigRet
    else (nSigned, scriptSigRet)

/-- **`SignN`** -/
def signN (multisigdata : List Bytes) (hash : Uint256) (nHashType : Int) (scriptSigRet : CScript) : Bool × CScript :=
  let nRequired := ((multisigdata.head?.getD []).head?.getD 0).toNat
  let (nSigned, scriptSigRet) := keystore.signEach crypto hash nHashType nRequired multisigdata.tail.dropLast 0 scriptSigRet
  (nSigned = nRequired, scriptSigRet)

/-- What `IsMine` asks of the store. -/
def toCKeyStore : CKeyStore where
  haveKey := keystore.haveKey
  signs address := (keystore.sign1 crypto address 0 SIGHASH_ALL.toNat []).1
  mapScripts := keystore.mapScripts

def isMineDest (dest : CTxDestination) : Bool := (keystore.toCKeyStore crypto).isMineDest dest

def isMine (scriptPubKey : CScript) : Bool := (keystore.toCKeyStore crypto).isMine crypto.getID scriptPubKey

/-- `GetCScript` -/
def getCScript (hash : CScriptID) : Option CScript := keystore.mapScripts.lookup hash

/-- **`Solver(const CKeyStore &, …)`**: what it returns, `scriptSigRet` and `whichTypeRet`. With the hash zero it signs
    nothing for a key, and answers whether the key is there. -/
def solver (scriptPubKey : CScript) (hash : Uint256) (nHashType : Int) : Bool × CScript × Option TxOutType :=
  match Syscoin.solver scriptPubKey with
  | none => (false, [], none)
  | some (.pubkey, vSolutions) =>
    let keyID := crypto.getID (arg vSolutions 0)
    if hash = 0 then (keystore.isMineDest crypto (extractDestination crypto.getID scriptPubKey), [], some .pubkey)
    else
      let (fOk, scriptSigRet) := keystore.sign1 crypto keyID hash nHashType []
      (fOk, scriptSigRet, some .pubkey)
  | some (.pubkeyhash, vSolutions) =>
    let keyID := keyIDOf (arg vSolutions 0)
    if hash = 0 then (keystore.isMineDest crypto (extractDestination crypto.getID scriptPubKey), [], some .pubkeyhash)
    else
      match keystore.sign1 crypto keyID hash nHashType [] with
      | (false, scriptSigRet) => (false, scriptSigRet, some .pubkeyhash)
      | (true, scriptSigRet) =>
        let vch := (keystore.getPubKey keyID).getD []
        (true, scriptSigRet ++ pushVch vch, some .pubkeyhash)
  | some (.scripthash, vSolutions) =>
    match keystore.getCScript (scriptIDOf (arg vSolutions 0)) with
    | none => (false, [], some .scripthash)
    | some script => (true, script, some .scripthash)
  | some (.multisig, vSolutions) =>
    -- "workaround CHECKMULTISIG bug"
    let (fOk, scriptSigRet) := keystore.signN crypto vSolutions hash nHashType [OP_0]
    (fOk, scriptSigRet, some .multisig)

/-- `VerifyScript(txin.scriptSig, fromPubKey, txTo, nIn, SCRIPT_VERIFY_P2SH | SCRIPT_VERIFY_STRICTENC, 0)` -/
def testSolution (fromPubKey scriptSig : CScript) (txTo : CTransaction) (nIn : Nat) : Bool :=
  verifies crypto.toCrypto ⟨txTo, nIn, SCRIPT_VERIFY_P2SH ||| SCRIPT_VERIFY_STRICTENC, 0⟩ scriptSig fromPubKey

/-- **`SignSignature`**, with the transaction that it leaves; `none` is a failed assertion. -/
def signSignature (fromPubKey : CScript) (txTo : CTransaction) (nIn : Nat) (nHashType : Int) :
    Option (Bool × CTransaction) :=
  if nIn < txTo.vin.length then
    let hash := signatureHash crypto.hash fromPubKey txTo nIn nHashType
    match keystore.solver crypto fromPubKey hash nHashType with
    | (false, scriptSig, _) => some (false, txTo.setScriptSig nIn scriptSig)
    | (true, subscript, some .scripthash) =>
      let txTo := txTo.setScriptSig nIn subscript
      let hash2 := signatureHash crypto.hash subscript txTo nIn nHashType
      let (fOk, scriptSig, subType) := keystore.solver crypto subscript hash2 nHashType
      let fSolved : Bool := fOk = true ∧ subType ≠ some .scripthash
      -- "Append serialized subscript whether or not it is completely signed"
      let scriptSig := scriptSig ++ pushVch subscript
      let txTo := txTo.setScriptSig nIn scriptSig
      if fSolved = false then some (false, txTo) else some (testSolution crypto fromPubKey scriptSig txTo nIn, txTo)
    | (true, scriptSig, _) =>
      let txTo := txTo.setScriptSig nIn scriptSig
      some (testSolution crypto fromPubKey scriptSig txTo nIn, txTo)
  else none

/-! ## Recognising -/

/-- **`IsMine` returns.** Behind a script hash the stored script is asked for, as often as it takes. -/
inductive IsMineReturns : CScript → Bool → Prop where
  | nonstandard {scriptPubKey : CScript} (hsolver : Syscoin.solver scriptPubKey = none) : IsMineReturns scriptPubKey false
  | pubkey {scriptPubKey : CScript} {vSolutions : List Bytes}
      (hsolver : Syscoin.solver scriptPubKey = some (.pubkey, vSolutions)) :
      IsMineReturns scriptPubKey (keystore.isMineDest crypto (extractDestination crypto.getID scriptPubKey))
  | pubkeyhash {scriptPubKey : CScript} {vSolutions : List Bytes}
      (hsolver : Syscoin.solver scriptPubKey = some (.pubkeyhash, vSolutions)) :
      IsMineReturns scriptPubKey (keystore.isMineDest crypto (extractDestination crypto.getID scriptPubKey))
  | unknown {scriptPubKey : CScript} {vSolutions : List Bytes}
      (hsolver : Syscoin.solver scriptPubKey = some (.scripthash, vSolutions))
      (hscript : keystore.getCScript (scriptIDOf (arg vSolutions 0)) = none) : IsMineReturns scriptPubKey false
  | scripthash {scriptPubKey subscript : CScript} {vSolutions : List Bytes} {b : Bool}
      (hsolver : Syscoin.solver scriptPubKey = some (.scripthash, vSolutions))
      (hscript : keystore.getCScript (scriptIDOf (arg vSolutions 0)) = some subscript)
      (hrest : IsMineReturns subscript b) : IsMineReturns scriptPubKey b
  | multisig {scriptPubKey : CScript} {vSolutions : List Bytes}
      (hsolver : Syscoin.solver scriptPubKey = some (.multisig, vSolutions)) :
      IsMineReturns scriptPubKey
        (decide ((keystore.toCKeyStore crypto).haveKeys crypto.getID vSolutions.tail.dropLast =
          vSolutions.tail.dropLast.length))

/-- The stored script that a script hash stands for. -/
def behind (scriptPubKey : CScript) : Option CScript :=
  match Syscoin.solver scriptPubKey with
  | some (.scripthash, vSolutions) => keystore.getCScript (scriptIDOf (arg vSolutions 0))
  | _ => none

/-! ## Unlocked stores -/

/-- **An unlocked key store.** Every key that it has comes out valid, with its public key, and keys and scripts are filed
    under their own hashes. -/
structure Unlocked : Prop where
  key : ∀ id, keystore.haveKey id = true →
    ∃ key, keystore.getKey id = some (some key) ∧ keystore.getPubKey id = some (crypto.getPubKey key) ∧
      crypto.getID (crypto.getPubKey key) = id
  script : ∀ id script, keystore.getCScript id = some script → crypto.scriptID script = id

end SigningKeyStore

end Syscoin

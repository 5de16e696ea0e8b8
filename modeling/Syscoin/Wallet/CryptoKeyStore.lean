import Syscoin.Lib.Assign
import Syscoin.Primitives.Base58

/-!
# `Wallet.CryptoKeyStore` — `CCryptoKeyStore`

The keys of a wallet are in `mapKeys` as they are, or in `mapCryptedKeys` encrypted under a master key. The master key is
known while the store is unlocked; the store keeps no copy of it while it is locked, and `Unlock` recognises it by the
first of the encrypted keys.

Elliptic curves, hashes and the cipher are parameters. Asking an invalid private key for its public key stops the program.
-/

namespace Syscoin

open Lib

instance : LT CKeyID := ⟨fun a b => a.id < b.id⟩

instance : DecidableLT CKeyID := fun a b => inferInstanceAs (Decidable (a.id < b.id))

/-- `CKey::Check`: a secret is a number from 1 to the order of the curve, highest byte first. -/
def checkSecret (vch : Bytes) : Prop :=
  0 < fromLE vch.reverse ∧ fromLE vch.reverse ≤ 0xFFFFFFFFFFFFFFFFFFFFFFFFFFFFFFFEBAAEDCE6AF48A03BBFD25E8CD0364140

instance (vch : Bytes) : Decidable (checkSecret vch) := inferInstanceAs (Decidable (_ ∧ _))

/-- A valid `CKey`. -/
structure CKey where
  vch : Bytes
  fCompressed : Bool
  size_eq : vch.length = 32
  valid : checkSecret vch
deriving DecidableEq

/-- `CKey::Set`; `none` is an invalid key. -/
def CKey.set (secret : Bytes) (fCompressed : Bool) : Option CKey :=
  if h : secret.length = 32 ∧ checkSecret secret then some ⟨secret, fCompressed, h.1, h.2⟩ else none

/-- The serialization of a public key. -/
abbrev CPubKey := Bytes

def CPubKey.isCompressed (pubkey : CPubKey) : Bool := pubkey.length = 33

/-- What the key store computes with. The cipher takes its key, the initial vector and the text. -/
structure KeyCrypto where
  getPubKey : CKey → CPubKey
  getID : CPubKey → CKeyID
  getHash : CPubKey → Uint256
  encrypt : Bytes → Uint256 → Bytes → Option Bytes
  decrypt : Bytes → Uint256 → Bytes → Option Bytes

/-- `WALLET_CRYPTO_KEY_SIZE` -/
def WALLET_CRYPTO_KEY_SIZE : Nat := 32

/-- **`EncryptSecret`** -/
def encryptSecret (crypto : KeyCrypto) (vMasterKey vchPlaintext : Bytes) (nIV : Uint256) : Option Bytes :=
  if vMasterKey.length = WALLET_CRYPTO_KEY_SIZE then crypto.encrypt vMasterKey nIV vchPlaintext else none

/-- **`DecryptSecret`** -/
def decryptSecret (crypto : KeyCrypto) (vMasterKey vchCiphertext : Bytes) (nIV : Uint256) : Option Bytes :=
  if vMasterKey.length = WALLET_CRYPTO_KEY_SIZE then crypto.decrypt vMasterKey nIV vchCiphertext else none

/-! ## The store -/

structure CCryptoKeyStore where
  mapKeys : List (CKeyID × CKey)
  mapCryptedKeys : List (CKeyID × CPubKey × Bytes)
  vMasterKey : Bytes
  fUseCrypto : Bool

namespace CCryptoKeyStore

/-- `CCryptoKeyStore()` -/
def empty : CCryptoKeyStore := ⟨[], [], [], false⟩

variable (crypto : KeyCrypto) (store : CCryptoKeyStore)

def isCrypted : Bool := store.fUseCrypto

def isLocked : Bool := if store.isCrypted = true then store.vMasterKey.isEmpty else false

/-- `SetCrypted` -/
def setCrypted : Bool × CCryptoKeyStore :=
  if store.fUseCrypto = true then (true, store)
  else if store.mapKeys ≠ [] then (false, store)
  else (true, { store with fUseCrypto := true })

/-- **`Lock`** -/
def lock : Bool × CCryptoKeyStore :=
  match store.setCrypted with
  | (false, store) => (false, store)
  | (true, store) => (true, { store with vMasterKey := [] })

/-- Whether the master key fits the first encrypted key, if there is one; `none` is a failed assertion. -/
def checkMasterKey (vMasterKeyIn : Bytes) : Option Bool :=
  match store.mapCryptedKeys with
  | [] => some true
  | (_, vchPubKey, vchCryptedSecret) :: _ =>
    match decryptSecret crypto vMasterKeyIn vchCryptedSecret (crypto.getHash vchPubKey) with
    | none => some false
    | some vchSecret =>
      if vchSecret.length ≠ 32 then some false
      else (CKey.set vchSecret vchPubKey.isCompressed).map fun key => decide (crypto.getPubKey key = vchPubKey)

/-- **`Unlock`**; `none` is a failed assertion. -/
def unlock (vMasterKeyIn : Bytes) : Option (Bool × CCryptoKeyStore) :=
  match store.setCrypted with
  | (false, store) => some (false, store)
  | (true, store) =>
    (store.checkMasterKey crypto vMasterKeyIn).map fun fits =>
      if fits = true then (true, { store with vMasterKey := vMasterKeyIn }) else (false, store)

/-- **`AddCryptedKey`** -/
def addCryptedKey (vchPubKey : CPubKey) (vchCryptedSecret : Bytes) : Bool × CCryptoKeyStore :=
  match store.setCrypted with
  | (false, store) => (false, store)
  | (true, store) =>
    (true, { store with
      mapCryptedKeys := assign (crypto.getID vchPubKey) (vchPubKey, vchCryptedSecret) store.mapCryptedKeys })

/-- **`AddKeyPubKey`** -/
def addKeyPubKey (key : CKey) (pubkey : CPubKey) : Bool × CCryptoKeyStore :=
  if store.isCrypted = false then (true, { store with mapKeys := assign (crypto.getID pubkey) key store.mapKeys })
  else if store.isLocked = true then (false, store)
  else
    match encryptSecret crypto store.vMasterKey key.vch (crypto.getHash pubkey) with
    | none => (false, store)
    | some vchCryptedSecret => store.addCryptedKey crypto pubkey vchCryptedSecret

/-- **`GetKey`**: the key, if there is one and it can be decrypted. The key may come out invalid. -/
def getKey (address : CKeyID) : Option (Option CKey) :=
  if store.isCrypted = false then (store.mapKeys.lookup address).map some
  else
    match store.mapCryptedKeys.lookup address with
    | none => none
    | some (vchPubKey, vchCryptedSecret) =>
      match decryptSecret crypto store.vMasterKey vchCryptedSecret (crypto.getHash vchPubKey) with
      | none => none
      | some vchSecret =>
        if vchSecret.length ≠ 32 then none else some (CKey.set vchSecret vchPubKey.isCompressed)

/-- **`HaveKey`** -/
def haveKey (address : CKeyID) : Bool :=
  if store.isCrypted = false then (store.mapKeys.lookup address).isSome else (store.mapCryptedKeys.lookup address).isSome

/-- **`GetPubKey`**; that of an invalid key is a failed assertion, and `none` as well. -/
def getPubKey (address : CKeyID) : Option CPubKey :=
  if store.isCrypted = false then (store.getKey crypto address).join.map crypto.getPubKey
  else (store.mapCryptedKeys.lookup address).map Prod.fst

/-- The loop of `EncryptKeys`. -/
def encryptEach (vMasterKeyIn : Bytes) : List (CKeyID × CKey) → CCryptoKeyStore → Bool × CCryptoKeyStore
  | [], store => (true, store)
  | (_, key) :: mapKeys, store =>
    let vchPubKey := crypto.getPubKey key
    match encryptSecret crypto vMasterKeyIn key.vch (crypto.getHash vchPubKey) with
    | none => (false, store)
    | some vchCryptedSecret =>
      match store.addCryptedKey crypto vchPubKey vchCryptedSecret with
      | (false, store) => (false, store)
      | (true, store) => encryptEach vMasterKeyIn mapKeys store

/-- **`EncryptKeys`.** It does not keep the master key: the store is locked afterwards. -/
def encryptKeys (vMasterKeyIn : Bytes) : Bool × CCryptoKeyStore :=
  if store.mapCryptedKeys ≠ [] ∨ store.isCrypted = true then (false, store)
  else
    match encryptEach crypto vMasterKeyIn store.mapKeys { store with fUseCrypto := true } with
    | (false, store) => (false, store)
    | (true, store) => (true, { store with mapKeys := [] })

end CCryptoKeyStore

/-! ## Runs -/

/-- The calls on a key store. A key is added with its own public key. -/
inductive KeyCall where
  | addKeyPubKey (key : CKey)
  | encryptKeys (vMasterKeyIn : Bytes)
  | lock
  | unlock (vMasterKeyIn : Bytes)

namespace KeyCall

/-- What a call returns, if it does, and the store that it leaves. -/
def run (crypto : KeyCrypto) (store : CCryptoKeyStore) : KeyCall → Option (Bool × CCryptoKeyStore)
  | addKeyPubKey key => some (store.addKeyPubKey crypto key (crypto.getPubKey key))
  | encryptKeys vMasterKeyIn => some (store.encryptKeys crypto vMasterKeyIn)
  | lock => some store.lock
  | unlock vMasterKeyIn => store.unlock crypto vMasterKeyIn

/-- The encryption of a secret under the hash of its public key. -/
def Encrypts (crypto : KeyCrypto) (vMasterKey : Bytes) (key : CKey) : Prop :=
  (encryptSecret crypto vMasterKey key.vch (crypto.getHash (crypto.getPubKey key))).isSome

/-- Every `EncryptSecret` that the call makes succeeds. -/
def EncryptSucceeds (crypto : KeyCrypto) (store : CCryptoKeyStore) : KeyCall → Prop
  | addKeyPubKey key => store.isCrypted = true → store.isLocked = false → Encrypts crypto store.vMasterKey key
  | encryptKeys vMasterKeyIn =>
    ¬ (store.mapCryptedKeys ≠ [] ∨ store.isCrypted = true) →
      ∀ entry ∈ store.mapKeys, Encrypts crypto vMasterKeyIn entry.2
  | lock => True
  | unlock _ => True

/-- The key last added for every key id, once a call has returned. -/
def note (crypto : KeyCrypto) (fOk : Bool) (added : CKeyID → Option CKey) : KeyCall → CKeyID → Option CKey
  | addKeyPubKey key =>
    if fOk = true then Function.update added (crypto.getID (crypto.getPubKey key)) (some key) else added
  | encryptKeys _ => added
  | lock => added
  | unlock _ => added

end KeyCall

/-- The stores that calls lead to in which no encryption fails, with the key last added for every key id. -/
inductive KeyRun (crypto : KeyCrypto) : (CKeyID → Option CKey) → CCryptoKeyStore → Prop where
  | init : KeyRun crypto (fun _ => none) .empty
  | call {added : CKeyID → Option CKey} {store store' : CCryptoKeyStore} {call : KeyCall} {fOk : Bool}
      (run : KeyRun crypto added store) (hencrypts : call.EncryptSucceeds crypto store)
      (hreturns : call.run crypto store = some (fOk, store')) : KeyRun crypto (call.note crypto fOk added) store'

/-- What the parameters promise: decryption undoes encryption under the same master key and initial vector, and under
    another master key it does not give a secret of the same public key. The length of a public key says whether it is
    compressed. -/
structure KeyCrypto.Sound (crypto : KeyCrypto) : Prop where
  decrypt_encrypt : ∀ {vMasterKey vchPlaintext vchCiphertext : Bytes} {nIV : Uint256},
    encryptSecret crypto vMasterKey vchPlaintext nIV = some vchCiphertext →
      decryptSecret crypto vMasterKey vchCiphertext nIV = some vchPlaintext
  decrypt_other : ∀ {vMasterKey vMasterKey' vchCiphertext vchSecret : Bytes} {key key' : CKey},
    encryptSecret crypto vMasterKey key.vch (crypto.getHash (crypto.getPubKey key)) = some vchCiphertext →
      vMasterKey' ≠ vMasterKey →
      decryptSecret crypto vMasterKey' vchCiphertext (crypto.getHash (crypto.getPubKey key)) = some vchSecret →
      CKey.set vchSecret (crypto.getPubKey key).isCompressed = some key' → crypto.getPubKey key' ≠ crypto.getPubKey key
  isCompressed_getPubKey : ∀ key, (crypto.getPubKey key).isCompressed = key.fCompressed

end Syscoin
